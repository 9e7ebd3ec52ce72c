import PowerOfAttorney.Proofs.Script.Grouping

/-!
# `PowerOfAttorney.Proofs.Script.Hits` — which change goes into which field

A run of a script says what the draft has become and what is wrong. It does not say which field took
which change. `Script.hits` says that: it walks along with the run, on the very readings that the run
goes through, and notes every change that a field takes off the list, with the draft before and after.

## Contents
- **Places.** `Label` and `Place`, the way down to a field: names, and indexes whatever their spelling.
- **Hits.** `Hit`, one change taken by one field, and `Hit.IsAccepted` for one that does its work.
- **The log.** `Script.hits`, with one equation for each step of a script.
- **What is left.** `rest_scatter`, `rest_run_of_rest_nil`, `hits_of_rest_nil`: a reading without changes
  stays without, and nothing is taken from it.
-/

namespace PowerOfAttorney

/-! ## Places -/

/-- A step on the way to a field. -/
inductive Label
  /-- A name, as it stands in the key. -/
  | name (s : String)
  /-- The place of an entry in a list, in any spelling. -/
  | index (i : Nat)
deriving DecidableEq

/-- The way from the top to a field. -/
abbrev Place := List Label

/-- A segment of a key stands for a step. -/
def Label.IsSpelled : Label → String → Prop
  | .name s, segment => s = segment
  | .index i, segment => Path.index? segment = some i

/-- The segments of a path without the empty one that it begins with as a path from the root. -/
def Path.body : Path → List String
  | "" :: rest => rest
  | path => path

namespace Place

/-- The place of a key without indexes. -/
def ofKey (key : String) : Place :=
  (Path.ofString key).body.map .name

/-- The segments of a path stand for the steps of a place, one by one. -/
def IsSpelled (p : Place) (path : Path) : Prop :=
  List.Forall₂ Label.IsSpelled p path.body

end Place

/-! ## Hits -/

/-- A change that a field takes off the list. -/
structure Hit (σ : Type) where
  /-- Where the field is. -/
  place : Place
  slot : Slot σ
  check : Option Check
  /-- The change, with what was left of its key. -/
  entry : Entry
  /-- The draft as the field finds it. -/
  before : σ
  /-- The draft as the field leaves it. -/
  after : σ

namespace Hit

variable {σ : Type}

/-- What the field holds when the change comes. -/
def held (h : Hit σ) : h.slot.type.Value :=
  h.slot.get h.before

/-- The change does what it says: its old value is the one that is held, its new value decodes and
    passes the check, and the field is set to it. -/
def IsAccepted (h : Hit σ) : Prop :=
  h.slot.type.agrees h.held h.entry.old = true ∧
    ∃ v, h.slot.type.decode h.entry.new = .ok v ∧
      (∀ c, h.check = some c → c.fault? (h.slot.type.view v) = none) ∧
      h.after = h.slot.set v h.before

end Hit

/-! ## The log -/

namespace Reading

variable {σ : Type}

/-- The entries below a key, as the paths go on from there. -/
def inside (r : Reading σ) (key : String) : List Entry :=
  r.rest.filterMap fun e =>
    (Path.below? (Path.ofString key) e.path).map ({ e with path := · })

/-- The entries that are not below a key. -/
def outside (r : Reading σ) (key : String) : List Entry :=
  r.rest.filter fun e => (Path.below? (Path.ofString key) e.path).isNone

/-- The change that a field takes, if there is one. -/
def hit? (r : Reading σ) (root : String) (top : Place) (key : String) (slot : Slot σ) (rule : Rule) :
    Option (Hit σ) :=
  (r.rest.find? fun e => e.path == Path.ofString key).map fun e =>
    { place := top ++ .ofKey key
      slot := slot
      check := rule.check
      entry := e
      before := r.draft
      after := (r.field root key slot rule).draft }

/-- A field that no change names leaves the draft and the list alone. -/
theorem field_of_find?_none {r : Reading σ} {key : String}
    (h : (r.rest.find? fun e => e.path == Path.ofString key) = none) (root : String) (slot : Slot σ)
    (rule : Rule) :
    r.field root key slot rule = r.blame (if rule.needed then [.missing (root ++ key)] else []) := by
  simp only [field, h]

/-- A field that a change names takes the first such change off the list. -/
theorem field_of_find?_some {r : Reading σ} {key : String} {e : Entry}
    (h : (r.rest.find? fun e => e.path == Path.ofString key) = some e) (root : String)
    (slot : Slot σ) (rule : Rule) :
    r.field root key slot rule =
      { r with rest := r.rest.eraseP fun e => e.path == Path.ofString key }.fill slot rule.check e := by
  simp only [field, h]

/-- Without changes below a key there is nothing to read there. -/
theorem descend_of_inside_nil {r : Reading σ} {key : String} (h : r.inside key = [])
    (root : String) (needed : Bool) (inner : Reading σ → Reading σ) :
    r.descend root key needed inner =
      r.blame (if needed then [.missing (root ++ key ++ "/...")] else []) := by
  unfold inside at h
  simp only [descend, h, List.isEmpty_nil, if_true]

/-- Changes below a key are read on their own. -/
theorem descend_of_inside_ne_nil {r : Reading σ} {key : String} (h : r.inside key ≠ [])
    (root : String) (needed : Bool) (inner : Reading σ → Reading σ) :
    r.descend root key needed inner =
      r.after (inner (r.onto (r.inside key))) (r.outside key) := by
  rw [← List.isEmpty_eq_false_iff] at h
  unfold inside at h
  simp only [descend, inside, outside, h, Bool.false_eq_true, if_false]

/-- The log of the groups of a reading, each read on its own after those before it. -/
def gather {α : Type} (inner : α → Reading σ → Reading σ) (log : α → Reading σ → List (Hit σ)) :
    Reading σ → List (α × List Entry) → List (Hit σ)
  | _, [] => []
  | r, (a, es) :: groups =>
    log a (r.onto es) ++ gather inner log (r.after (inner a (r.onto es)) []) groups

/-- The reading with its strays refused, before the groups are read. -/
def swept {α : Type} (r : Reading σ) (step : Path → Option (α × Path)) : Reading σ :=
  ⟨r.draft, [], r.faults ++ (Entry.strays step r.rest).map fun e => .noEntry e.position⟩

/-- The groups of a reading are read one after the other. -/
def readGroups {α : Type} (inner : α → Reading σ → Reading σ) :
    Reading σ → List (α × List Entry) → Reading σ
  | r, [] => r
  | r, (a, es) :: groups => readGroups inner (r.after (inner a (r.onto es)) []) groups

theorem scatter_eq_readGroups {α : Type} [BEq α] (r : Reading σ) (lt : α → α → Bool)
    (step : Path → Option (α × Path)) (always : List α) (inner : α → Reading σ → Reading σ) :
    r.scatter lt step always inner =
      (r.swept step).readGroups inner (Entry.groups lt step always r.rest) := by
  -- The fold reads group by group from any reading.
  have h : ∀ (groups : List (α × List Entry)) (r : Reading σ),
      groups.foldl (fun r g => r.after (inner g.1 (r.onto g.2)) []) r = r.readGroups inner groups := by
    intro groups
    induction groups with
    | nil => exact fun _ => rfl
    | cons g groups ih => exact fun r => ih _
  exact h _ _

end Reading

namespace Script

variable {σ : Type}

/-- What stands for the root below the entry at `i`. -/
def entryRoot (root : String) (i : Nat) : String :=
  root ++ "/" ++ String.ofList (Decimal.digits i)

/-- What stands for the root below a key. -/
def keyRoot (root k : String) : String :=
  root ++ "/" ++ k

theorem run_each (root : String) (always : List Nat) (inner : Nat → Script σ) (next : Script σ)
    (r : Reading σ) :
    run root (.each always inner next) r =
      run root next (r.scatter (fun i j => decide (i < j)) Path.indexStep? always fun i r =>
        run (entryRoot root i) (inner i) r) := rfl

theorem run_eachKey (root : String) (inner : String → Script σ) (next : Script σ) (r : Reading σ) :
    run root (.eachKey inner next) r =
      run root next (r.scatter (fun k l => decide (k < l)) Path.keyStep? [] fun k r =>
        run (keyRoot root k) (inner k) r) := rfl

/-- Every change that a field takes when a script runs on changes below `root`, in the order of the
    run; `top` is the place that `root` names. -/
def hits (root : String) (top : Place) : Script σ → Reading σ → List (Hit σ)
  | .done, _ => []
  | .field key slot rule next, r =>
    (r.hit? root top key slot rule).toList ++ hits root top next (r.field root key slot rule)
  | .under key needed inner next, r =>
    hits (root ++ key) (top ++ .ofKey key) inner (r.onto (r.inside key)) ++
      hits root top next (r.descend root key needed fun r => run (root ++ key) inner r)
  | .each always inner next, r =>
    (r.swept Path.indexStep?).gather (fun i r => run (entryRoot root i) (inner i) r)
        (fun i r => hits (entryRoot root i) (top ++ [.index i]) (inner i) r)
        (Entry.groups (fun i j => decide (i < j)) Path.indexStep? always r.rest) ++
      hits root top next
        (r.scatter (fun i j => decide (i < j)) Path.indexStep? always fun i r =>
          run (entryRoot root i) (inner i) r)
  | .eachKey inner next, r =>
    (r.swept Path.keyStep?).gather (fun k r => run (keyRoot root k) (inner k) r)
        (fun k r => hits (keyRoot root k) (top ++ [.name k]) (inner k) r)
        (Entry.groups (fun k l => decide (k < l)) Path.keyStep? [] r.rest) ++
      hits root top next
        (r.scatter (fun k l => decide (k < l)) Path.keyStep? [] fun k r =>
          run (keyRoot root k) (inner k) r)
  | .outOfRange next, r => hits root top next (r.refuse .outOfRange)
  | .consumed next, r => hits root top next (r.refuse .unexpected)
  | .alter f next, r => hits root top next { r with draft := f r.draft }
  | .look next, r => hits root top (next r.draft) r

/-- Every change that a field takes when all changes of an update are read. -/
def log (s : Script σ) (draft : σ) (changes : List Change) : List (Hit σ) :=
  s.hits "" [] ⟨draft, Entry.ofChanges changes, []⟩

end Script

/-! ## What is left -/

namespace Reading

variable {σ : Type}

theorem rest_readGroups {α : Type} (inner : α → Reading σ → Reading σ)
    (groups : List (α × List Entry)) {r : Reading σ} (hr : r.rest = []) :
    (r.readGroups inner groups).rest = [] := by
  induction groups generalizing r with
  | nil => exact hr
  | cons g groups ih => exact ih rfl

theorem rest_scatter {α : Type} [BEq α] (r : Reading σ) (lt : α → α → Bool)
    (step : Path → Option (α × Path)) (always : List α) (inner : α → Reading σ → Reading σ) :
    (r.scatter lt step always inner).rest = [] := by
  rw [scatter_eq_readGroups]
  exact rest_readGroups inner _ rfl

theorem inside_of_rest_nil {r : Reading σ} (h : r.rest = []) (key : String) : r.inside key = [] := by
  rw [inside, h, List.filterMap_nil]

/-- Without changes there are no groups but those that are demanded, and these are empty. -/
theorem groups_nil {α : Type} [BEq α] {lt : α → α → Bool} {step : Path → Option (α × Path)}
    {always : List α} {g : α × List Entry} (h : g ∈ Entry.groups lt step always []) : g.2 = [] := by
  simp only [Entry.groups, List.filterMap_nil, List.mem_map] at h
  obtain ⟨a, _, rfl⟩ := h
  rfl

theorem gather_eq_nil {α : Type} {inner : α → Reading σ → Reading σ}
    {log : α → Reading σ → List (Hit σ)} (hlog : ∀ a r, r.rest = [] → log a r = [])
    {groups : List (α × List Entry)} (hgroups : ∀ g ∈ groups, g.2 = []) (r : Reading σ) :
    r.gather inner log groups = [] := by
  induction groups generalizing r with
  | nil => rfl
  | cons g groups ih =>
      obtain ⟨a, es⟩ := g
      have hes : es = [] := hgroups (a, es) List.mem_cons_self
      rw [gather, hlog a (r.onto es) hes, List.nil_append]
      exact ih (fun g hg => hgroups g (List.mem_cons_of_mem _ hg)) _

end Reading

namespace Script

open Reading

variable {σ : Type}

/-- A run that begins without changes leaves none. -/
theorem rest_run_of_rest_nil (s : Script σ) {root : String} {r : Reading σ} (hr : r.rest = []) :
    (s.run root r).rest = [] := by
  induction s generalizing root r with
  | done => exact hr
  | field key slot rule next ih =>
      refine ih ?_
      rw [field_of_find?_none (by rw [hr, List.find?_nil])]
      exact hr
  | under key needed inner next _ ih =>
      refine ih ?_
      rw [descend_of_inside_nil (inside_of_rest_nil hr key)]
      exact hr
  | each always inner next _ ih => exact ih (rest_scatter _ _ _ _ _)
  | eachKey inner next _ ih => exact ih (rest_scatter _ _ _ _ _)
  | outOfRange next ih => exact ih rfl
  | consumed next ih => exact ih rfl
  | alter f next ih => exact ih hr
  | look next ih => exact ih _ hr

/-- Without changes no field takes one. -/
theorem hits_of_rest_nil (s : Script σ) {root : String} {top : Place} {r : Reading σ}
    (hr : r.rest = []) : s.hits root top r = [] := by
  induction s generalizing root top r with
  | done => rfl
  | field key slot rule next ih =>
      have hfind : (r.rest.find? fun e => e.path == Path.ofString key) = none := by
        rw [hr, List.find?_nil]
      have hnext : (r.field root key slot rule).rest = [] := by
        rw [field_of_find?_none hfind]
        exact hr
      rw [hits, hit?, hfind, Option.map_none, Option.toList_none, List.nil_append, ih hnext]
  | under key needed inner next ihInner ih =>
      -- There is nothing below the key, so the inner script is not run, and has nothing to take if it were.
      have hin := inside_of_rest_nil hr key
      rw [hits, ihInner (r := r.onto (r.inside key)) hin, List.nil_append, ih]
      rw [descend_of_inside_nil hin]
      exact hr
  | each always inner next ihInner ih =>
      rw [hits, ih (rest_scatter _ _ _ _ _), List.append_nil]
      refine gather_eq_nil (fun i r h => ihInner i h) (fun g hg => ?_) _
      rw [hr] at hg
      exact groups_nil hg
  | eachKey inner next ihInner ih =>
      rw [hits, ih (rest_scatter _ _ _ _ _), List.append_nil]
      refine gather_eq_nil (fun k r h => ihInner k h) (fun g hg => ?_) _
      rw [hr] at hg
      exact groups_nil hg
  | outOfRange next ih => exact ih rfl
  | consumed next ih => exact ih rfl
  | alter f next ih => exact ih hr
  | look next ih => exact ih _ hr

end Script

end PowerOfAttorney
