import PowerOfAttorney.Proofs.Script.Hits

/-!
# `PowerOfAttorney.Proofs.Script.Conservation` — every change is used once or blamed once

A run of a script moves changes from one list to another: from those that are left to those that a
field has accepted, or to those that a fault names. What is conserved is their number, position by
position (`Reading.tally`). Each step conserves it, so a whole run does; and a script that ends by
refusing what is left leaves nothing.

## Contents
- **Scripts that end.** `Script.Ends`: every way through the script and through each of its inner
  scripts refuses what is left at the end. `rest_run_of_ends` is what this is for.
- **One step.** `tally_field`, `tally_refuse`, `tally_descend`, `tally_scatter`.
- **A run.** `tally_run`, by induction over the script.
-/

namespace PowerOfAttorney

variable {σ : Type}

/-! ## Scripts that end by refusing what is left -/

/-- Every way through the script ends by refusing what is left, and so does every inner script. -/
def Script.Ends : Script σ → Prop
  | .done => False
  | .field _ _ _ next => next.Ends
  | .under _ _ inner next => inner.Ends ∧ next.Ends
  | .each _ inner next => (∀ i, (inner i).Ends) ∧ next.Ends
  | .eachKey inner next => (∀ k, (inner k).Ends) ∧ next.Ends
  | .outOfRange next | .consumed next => next = .done ∨ next.Ends
  | .alter _ next => next.Ends
  | .look next => ∀ s, (next s).Ends

namespace Hit

/-- The old value of the change is the one that is held, and the new one decodes and passes the
    check. -/
def accepts (h : Hit σ) : Bool :=
  h.slot.type.agrees h.held h.entry.old &&
    match h.slot.type.decode h.entry.new with
    | .ok v => (h.check.bind fun c => c.fault? (h.slot.type.view v)).isNone
    | .error _ => false

end Hit

/-- How many changes of a position have been accepted. -/
def acceptedAt (i : Nat) (hs : List (Hit σ)) : Nat :=
  hs.countP fun h => h.entry.position == i && h.accepts

theorem acceptedAt_append (i : Nat) (hs hs' : List (Hit σ)) :
    acceptedAt i (hs ++ hs') = acceptedAt i hs + acceptedAt i hs' :=
  List.countP_append

namespace Reading

/-- How often a position is among the changes that are left or is blamed. -/
def tally (r : Reading σ) (i : Nat) : Nat :=
  r.rest.countP (fun e => e.position == i) + r.faults.countP (fun f => f.position? == some i)

theorem tally_eq (r : Reading σ) (i : Nat) :
    r.tally i =
      r.rest.countP (fun e => e.position == i) + r.faults.countP (fun f => f.position? == some i) :=
  rfl

theorem tally_of_rest_nil {r : Reading σ} (h : r.rest = []) (i : Nat) :
    r.tally i = r.faults.countP fun f => f.position? == some i := by
  rw [tally, h, List.countP_nil, Nat.zero_add]

/-- The draft does not count. -/
theorem tally_draft (r : Reading σ) (draft : σ) (i : Nat) :
    ({ r with draft := draft } : Reading σ).tally i = r.tally i := rfl

/-- A reading of some of the entries starts without faults. -/
theorem tally_onto (r : Reading σ) (es : List Entry) (i : Nat) :
    (r.onto es).tally i = es.countP fun e => e.position == i := rfl

/-- Going on after a reading that leaves nothing adds what it blames. -/
theorem tally_after {sub : Reading σ} (hsub : sub.rest = []) (r : Reading σ) (rest : List Entry)
    (i : Nat) :
    (r.after sub rest).tally i =
      rest.countP (fun e => e.position == i) + r.faults.countP (fun f => f.position? == some i) +
        sub.tally i := by
  simp only [tally, after, hsub, List.countP_nil, List.countP_append]
  omega

/-- The faults of a position are those that were there and those that are added. -/
theorem tally_blame (r : Reading σ) (faults : List Fault) (i : Nat) :
    (r.blame faults).tally i = r.tally i + faults.countP (fun f => f.position? == some i) := by
  simp only [tally, blame, List.countP_append]
  omega

/-! ## One step -/

/-- Taking the first entry of a kind off a list. -/
theorem countP_eraseP {α : Type} {p : α → Bool} {xs : List α} {x : α} (h : xs.find? p = some x)
    (q : α → Bool) : (xs.eraseP p).countP q + (if q x then 1 else 0) = xs.countP q := by
  induction xs with
  | nil => exact absurd h (by simp)
  | cons y ys ih =>
      cases hy : p y with
      | true =>
          rw [List.find?_cons_of_pos hy, Option.some.injEq] at h
          subst h
          rw [List.eraseP_cons_of_pos hy, List.countP_cons]
      | false =>
          rw [List.find?_cons_of_neg (by simp [hy])] at h
          rw [List.eraseP_cons_of_neg (by simp [hy]), List.countP_cons, List.countP_cons, ← ih h]
          omega

/-- A change that a field takes is accepted or blamed. -/
theorem tally_fill {r : Reading σ} {h : Hit σ} (hbefore : h.before = r.draft) (i : Nat) :
    (r.fill h.slot h.check h.entry).tally i + acceptedAt i [h] =
      r.tally i + if h.entry.position == i then 1 else 0 := by
  unfold fill acceptedAt
  rw [List.countP_singleton, Hit.accepts, Hit.held, hbefore]
  cases hold : h.slot.type.agrees (h.slot.get r.draft) h.entry.old with
  | false => simp [tally_blame, Fault.position?]
  | true =>
      cases hnew : h.slot.type.decode h.entry.new with
      | error why => simp [tally_blame, Fault.position?]
      | ok v =>
          cases hcheck : h.check.bind fun c => c.fault? (h.slot.type.view v) with
          | none => simp [tally_blame, tally_draft, hcheck]
          | some why => simp [tally_blame, tally_draft, hcheck, Fault.position?]

theorem tally_field (r : Reading σ) (root : String) (top : Place) (key : String) (slot : Slot σ)
    (rule : Rule) (i : Nat) :
    (r.field root key slot rule).tally i + acceptedAt i (r.hit? root top key slot rule).toList =
      r.tally i := by
  unfold hit?
  cases hfind : r.rest.find? fun e => e.path == Path.ofString key with
  | none =>
      rw [field_of_find?_none hfind, tally_blame]
      split <;> simp [acceptedAt, Fault.position?]
  | some e =>
      -- The change leaves the list first, and then it is accepted or blamed.
      have htaken := tally_fill (r := { r with
        rest := r.rest.eraseP fun e => e.path == Path.ofString key }) (h := ⟨top ++ .ofKey key, slot,
          rule.check, e, r.draft, (r.field root key slot rule).draft⟩) rfl i
      dsimp only at htaken
      rw [← field_of_find?_some hfind] at htaken
      rw [Option.map_some, Option.toList_some, htaken]
      simp only [tally]
      have herase := countP_eraseP hfind fun e => e.position == i
      omega

theorem tally_refuse (r : Reading σ) (cause : Nat → Fault) (hc : ∀ n, (cause n).position? = some n)
    (i : Nat) : (r.refuse cause).tally i = r.tally i := by
  simp only [tally, refuse, List.countP_nil, List.countP_append, List.countP_map,
    Function.comp_def, hc, Option.some_beq_some]
  omega

/-- The entries below a key and the others are all entries. -/
theorem countP_inside_add_outside (r : Reading σ) (key : String) (p : Nat → Bool) :
    (r.inside key).countP (fun e => p e.position) + (r.outside key).countP (fun e => p e.position) =
      r.rest.countP fun e => p e.position := by
  unfold inside outside
  -- Each entry is on one side only; its key does not count.
  induction r.rest with
  | nil => rfl
  | cons e es ih =>
      rw [List.countP_cons, ← ih]
      cases hbelow : Path.below? (Path.ofString key) e.path with
      | none =>
          rw [List.filterMap_cons_none (by rw [hbelow, Option.map_none]),
            List.filter_cons_of_pos (by rw [hbelow, Option.isNone_none]), List.countP_cons]
          omega
      | some rest =>
          rw [List.filterMap_cons_some (b := { e with path := rest })
              (by rw [hbelow, Option.map_some]),
            List.filter_cons_of_neg (by simp [hbelow]), List.countP_cons]
          dsimp only
          omega

/-- Below a key nothing is lost as long as the inner script loses nothing and leaves nothing. -/
theorem tally_descend {r : Reading σ} {key : String} (inner : Reading σ → Reading σ) {i n : Nat}
    (hrest : (inner (r.onto (r.inside key))).rest = [])
    (hinner : (inner (r.onto (r.inside key))).tally i + n = (r.onto (r.inside key)).tally i)
    (hnil : r.inside key = [] → n = 0) (root : String) (needed : Bool) :
    (r.descend root key needed inner).tally i + n = r.tally i := by
  by_cases hin : r.inside key = []
  · rw [descend_of_inside_nil hin, tally_blame, hnil hin]
    split <;> simp [Fault.position?]
  · rw [descend_of_inside_ne_nil hin]
    have hparts := countP_inside_add_outside r key fun n => n == i
    rw [tally_onto] at hinner
    rw [tally_after hrest, tally_eq r]
    omega

/-- A stray is blamed. -/
theorem tally_swept {α : Type} (r : Reading σ) (step : Path → Option (α × Path)) (i : Nat) :
    (r.swept step).tally i =
      (Entry.strays step r.rest).countP (fun e => e.position == i) +
        r.faults.countP fun f => f.position? == some i := by
  simp only [tally, swept, List.countP_nil, List.countP_append, List.countP_map, Function.comp_def,
    Fault.position?, Option.some_beq_some]
  omega

/-- Group by group nothing is lost, as long as each inner script loses nothing and leaves nothing. -/
theorem tally_readGroups {α : Type} (inner : α → Reading σ → Reading σ)
    (log : α → Reading σ → List (Hit σ)) {i : Nat}
    (hrest : ∀ a r, (inner a r).rest = [])
    (hinner : ∀ a r, (inner a r).tally i + acceptedAt i (log a r) = r.tally i)
    (groups : List (α × List Entry)) {r : Reading σ} (hr : r.rest = []) :
    (r.readGroups inner groups).tally i + acceptedAt i (r.gather inner log groups) =
      r.tally i + (groups.map fun g => g.2.countP fun e => e.position == i).sum := by
  induction groups generalizing r with
  | nil => rfl
  | cons g groups ih =>
      obtain ⟨a, es⟩ := g
      have hnext := ih (r := r.after (inner a (r.onto es)) []) rfl
      have hone := hinner a (r.onto es)
      rw [tally_onto] at hone
      rw [tally_after (hrest a _), List.countP_nil] at hnext
      rw [readGroups, gather, acceptedAt_append, List.map_cons, List.sum_cons, tally_of_rest_nil hr]
      dsimp only
      omega

theorem tally_scatter {α : Type} [BEq α] [LawfulBEq α] {lt : α → α → Bool} (hlt : StrictOrder lt)
    (step : Path → Option (α × Path)) (always : List α) (inner : α → Reading σ → Reading σ)
    (log : α → Reading σ → List (Hit σ)) {i : Nat}
    (hrest : ∀ a r, (inner a r).rest = [])
    (hinner : ∀ a r, (inner a r).tally i + acceptedAt i (log a r) = r.tally i) (r : Reading σ) :
    (r.scatter lt step always inner).tally i +
        acceptedAt i ((r.swept step).gather inner log (Entry.groups lt step always r.rest)) =
      r.tally i := by
  rw [scatter_eq_readGroups, tally_readGroups inner log hrest hinner _ rfl, tally_swept,
    tally_eq r]
  have hgroups := Entry.countP_groups step always r.rest hlt fun n => n == i
  omega

end Reading

namespace Script

open Reading

/-- **A script that ends by refusing what is left leaves nothing.** -/
theorem rest_run_of_ends {s : Script σ} (h : s.Ends) (root : String) (r : Reading σ) :
    (s.run root r).rest = [] := by
  induction s generalizing root r with
  | done => exact absurd h (by simp [Ends])
  | field key slot rule next ih => exact ih h root _
  | under key needed inner next _ ih => exact ih h.2 root _
  -- Reading by index or key leaves nothing of itself.
  | each always inner next _ _ => exact rest_run_of_rest_nil next (rest_scatter _ _ _ _ _)
  | eachKey inner next _ _ => exact rest_run_of_rest_nil next (rest_scatter _ _ _ _ _)
  | outOfRange next _ => exact rest_run_of_rest_nil next rfl
  | consumed next _ => exact rest_run_of_rest_nil next rfl
  | alter f next ih => exact ih h root _
  | look next ih => exact ih _ (h _) root r

/-! ## A run -/

/-- **A run conserves every position**: what was left or blamed before it is accepted, left or blamed
    after it, as often as it was. -/
theorem tally_run {s : Script σ} (h : s.Ends) (root : String) (top : Place) (r : Reading σ) (i : Nat) :
    (s.run root r).tally i + acceptedAt i (s.hits root top r) = r.tally i := by
  -- By induction over the script: each step conserves the tally, and what a step hands to an inner
  -- script comes back because the inner script leaves nothing.
  induction s generalizing root top r with
  | done => exact absurd h (by simp [Ends])
  | field key slot rule next ih =>
      have hstep := tally_field r root top key slot rule i
      have hnext := ih h root top (r.field root key slot rule)
      rw [hits, acceptedAt_append, run]
      omega
  | under key needed inner next ihInner ih =>
      have hnil : r.inside key = [] → acceptedAt i
          (inner.hits (root ++ key) (top ++ .ofKey key) (r.onto (r.inside key))) = 0 := by
        intro hin
        rw [hits_of_rest_nil inner (r := r.onto (r.inside key)) hin]
        rfl
      have hstep := tally_descend (fun r => inner.run (root ++ key) r) (rest_run_of_ends h.1 _ _)
        (ihInner h.1 _ _ _) hnil root needed
      have hnext := ih h.2 root top
        (r.descend root key needed fun r => inner.run (root ++ key) r)
      rw [hits, acceptedAt_append, run]
      omega
  | each always inner next ihInner ih =>
      have hstep := tally_scatter strictOrder_nat Path.indexStep? always
        (fun i r => run (entryRoot root i) (inner i) r)
        (fun i r => hits (entryRoot root i) (top ++ [.index i]) (inner i) r)
        (fun i r => rest_run_of_ends (h.1 i) _ r) (fun i r => ihInner i (h.1 i) _ _ r) r
      have hnext := ih h.2 root top (r.scatter (fun i j => decide (i < j)) Path.indexStep? always
        fun i r => run (entryRoot root i) (inner i) r)
      rw [hits, acceptedAt_append, run_each]
      omega
  | eachKey inner next ihInner ih =>
      have hstep := tally_scatter strictOrder_string Path.keyStep? []
        (fun k r => run (keyRoot root k) (inner k) r)
        (fun k r => hits (keyRoot root k) (top ++ [.name k]) (inner k) r)
        (fun k r => rest_run_of_ends (h.1 k) _ r) (fun k r => ihInner k (h.1 k) _ _ r) r
      have hnext := ih h.2 root top (r.scatter (fun k l => decide (k < l)) Path.keyStep? []
        fun k r => run (keyRoot root k) (inner k) r)
      rw [hits, acceptedAt_append, run_eachKey]
      omega
  | outOfRange next ih =>
      rw [hits, run, ← tally_refuse r .outOfRange (fun _ => rfl) i]
      rcases h with rfl | h
      · rfl
      · exact ih h root top _
  | consumed next ih =>
      rw [hits, run, ← tally_refuse r .unexpected (fun _ => rfl) i]
      rcases h with rfl | h
      · rfl
      · exact ih h root top _
  | alter f next ih => exact ih h root top _
  | look next ih => exact ih _ (h _) root top r

end Script

end PowerOfAttorney
