import PowerOfAttorney.Change.Fault
import PowerOfAttorney.Change.Path

/-!
# `PowerOfAttorney.Change.Script` — reading changes into a draft

A script says which fields a list of changes may name, and where each new value goes. Running it
removes the changes it knows from the list, checks that what they claim to be there is there, and
decodes what they bring into a draft. Whatever is left over at the end is a fault, so the fields of a
script are all that an update can reach.

## Contents
- **Scripts.** `Slot` is a place for a value in a draft, `Rule` what a field demands, `Script` the
  steps; `Script.within` lifts a script on a part of a draft to the whole, and `Script.choose` keeps
  to one entry of a list.
- **Grouping.** `Entry.groups` collects the entries below each index or key, in order.
- **Running.** `Script.run` acts on a `Reading`: a draft, the changes that are left, the faults so far.
- **Whole updates.** `Script.read` runs a script over all changes of an update.
-/

namespace PowerOfAttorney

/-! ## Scripts -/

/-- A part of a whole. -/
structure Focus (σ τ : Type) where
  get : σ → τ
  set : τ → σ → σ

/-- A place in a draft that holds a value of a field type. -/
structure Slot (σ : Type) where
  type : FieldType
  get : σ → type.Value
  set : type.Value → σ → σ

/-- The place in a whole of a place in a part. -/
def Slot.within {σ τ : Type} (slot : Slot τ) (part : Focus σ τ) : Slot σ where
  type := slot.type
  get s := slot.get (part.get s)
  set v s := part.set (slot.set v (part.get s)) s

namespace Slot

variable {σ : Type}

/-- A place for a string. -/
def text (get : σ → String) (set : String → σ → σ) : Slot σ := ⟨.text, get, set⟩

/-- A place for a truth value. -/
def flag (get : σ → Bool) (set : Bool → σ → σ) : Slot σ := ⟨.flag, get, set⟩

/-- A place for an instant or none. -/
def time (get : σ → Option Instant) (set : Option Instant → σ → σ) : Slot σ := ⟨.time, get, set⟩

/-- A place for a date or none. -/
def date (get : σ → Option Date) (set : Option Date → σ → σ) : Slot σ := ⟨.date, get, set⟩

/-- A place for a word. -/
def word (c : Choice) (get : σ → c.Of) (set : c.Of → σ → σ) : Slot σ := ⟨.word c, get, set⟩

/-- A place for a word or none. -/
def maybeWord (c : Choice) (get : σ → Option c.Of) (set : Option c.Of → σ → σ) : Slot σ :=
  ⟨.maybeWord c, get, set⟩

end Slot

/-- What a field demands of the changes. -/
structure Rule where
  /-- Some change has to name the field. -/
  needed : Bool
  /-- The new value has to pass. -/
  check : Option Check := none

/-- A field that has to be named. -/
def Rule.needs : Rule := ⟨true, none⟩

/-- A field that may be named. -/
def Rule.allows : Rule := ⟨false, none⟩

/-- The rule with a check of the new value. -/
def Rule.checking (r : Rule) (c : Check) : Rule := { r with check := some c }

/-- Steps that read changes into a draft; the last argument of a step is what follows it. -/
inductive Script (σ : Type)
  /-- Nothing more to read. -/
  | done
  /-- Reads the first change of a key into a slot. -/
  | field (key : String) (slot : Slot σ) (rule : Rule) (next : Script σ)
  /-- Reads all changes below a key, if there are any. -/
  | under (key : String) (needed : Bool) (inner : Script σ) (next : Script σ)
  /-- Reads all changes that are left, by leading index. The indexes `always` are read even if no
      change names them. -/
  | each (always : List Nat) (inner : Nat → Script σ) (next : Script σ)
  /-- Reads all changes that are left, by leading segment. -/
  | eachKey (inner : String → Script σ) (next : Script σ)
  /-- Refuses all changes that are left: their entry is not there. -/
  | outOfRange (next : Script σ)
  /-- Refuses all changes that are left: they are not expected. -/
  | consumed (next : Script σ)
  /-- Alters the draft. -/
  | alter (f : σ → σ) (next : Script σ)
  /-- Goes on as the draft says. -/
  | look (next : σ → Script σ)

/-- A script on a part of a draft, then one on the whole. -/
def Script.within {σ τ : Type} (part : Focus σ τ) : Script τ → Script σ → Script σ
  | .done, after => after
  | .field key slot rule next, after =>
    .field key (slot.within part) rule (within part next after)
  | .under key needed inner next, after =>
    .under key needed (within part inner .done) (within part next after)
  | .each always inner next, after =>
    .each always (fun i => within part (inner i) .done) (within part next after)
  | .eachKey inner next, after =>
    .eachKey (fun k => within part (inner k) .done) (within part next after)
  | .outOfRange next, after => .outOfRange (within part next after)
  | .consumed next, after => .consumed (within part next after)
  | .alter f next, after => .alter (fun s => part.set (f (part.get s)) s) (within part next after)
  | .look next, after => .look fun s => within part (next (part.get s)) after

/-- The part of a draft about one chosen entry, to be made from `seed` where none is chosen yet. -/
def Focus.chosen {τ : Type} (i : Nat) (seed : τ) : Focus (Option (Nat × τ)) τ where
  get s := (s.map Prod.snd).getD seed
  set a _ := some (i, a)

/-- Reads changes of the entry at `i`, unless another entry has been chosen before. -/
def Script.choose {τ : Type} (i : Nat) (seed : τ) (inner : Script τ) : Script (Option (Nat × τ)) :=
  .look fun s =>
    if s.all fun (j, _) => j == i then
      .alter (fun s => s.or (some (i, seed))) (inner.within (.chosen i seed) .done)
    else .outOfRange .done

/-! ## Grouping -/

/-- A change while it is looked for: the part of its path that is left, and its place. -/
structure Entry where
  path : Path
  old : Json
  new : Json
  position : Nat

namespace Entry

/-- The changes of an update, in order. -/
def ofChanges (changes : List Change) : List Entry :=
  changes.zipIdx.map fun (c, i) => ⟨Path.ofString c.key, c.old, c.new, i⟩

/-- The entry with the rest of its path after a step, if the path goes so far. -/
def along {α : Type} (step : Path → Option (α × Path)) (e : Entry) : Option (α × Entry) :=
  (step e.path).map fun (a, rest) => (a, { e with path := rest })

/-- Puts an element into a list in strictly increasing order, once. -/
def insertOnce {α : Type} [BEq α] (lt : α → α → Bool) (a : α) : List α → List α
  | [] => [a]
  | b :: rest => if lt a b then a :: b :: rest else if a == b then b :: rest else
      b :: insertOnce lt a rest

/-- The elements of a list in increasing order, each once. -/
def sortOnce {α : Type} [BEq α] (lt : α → α → Bool) (xs : List α) : List α :=
  xs.foldl (fun sorted a => insertOnce lt a sorted) []

/-- The entries whose path takes a step, grouped by it: one group for each step that is taken or in
    `always`, in increasing order, and in each group the entries in their order. -/
def groups {α : Type} [BEq α] (lt : α → α → Bool) (step : Path → Option (α × Path))
    (always : List α) (entries : List Entry) : List (α × List Entry) :=
  let taken := entries.filterMap (along step)
  (sortOnce lt (always ++ taken.map Prod.fst)).map fun a =>
    (a, taken.filterMap fun (b, e) => if b == a then some e else none)

/-- The entries whose path does not take a step. -/
def strays {α : Type} (step : Path → Option (α × Path)) (entries : List Entry) : List Entry :=
  entries.filter fun e => (step e.path).isNone

end Entry

/-! ## Running -/

/-- How far changes have been read. -/
structure Reading (σ : Type) where
  draft : σ
  rest : List Entry
  faults : List Fault

namespace Reading

variable {σ : Type}

/-- Adds faults. -/
def blame (r : Reading σ) (faults : List Fault) : Reading σ :=
  { r with faults := r.faults ++ faults }

/-- Refuses all changes that are left. -/
def refuse (r : Reading σ) (cause : Nat → Fault) : Reading σ :=
  { r with rest := [], faults := r.faults ++ r.rest.map fun e => cause e.position }

/-- Reads one change into a slot. If the claimed value is not the one that is held, or the new one does
    not decode, the slot stays as it is; if it decodes and fails the check, the slot is still set. -/
def fill (r : Reading σ) (slot : Slot σ) (check : Option Check) (e : Entry) : Reading σ :=
  if slot.type.agrees (slot.get r.draft) e.old then
    match slot.type.decode e.new with
    | .error why => r.blame [.unfit e.position why]
    | .ok v =>
      let fault? := check.bind fun c => c.fault? (slot.type.view v)
      { r with draft := slot.set v r.draft }.blame (fault?.toList.map (.unfit e.position))
  else r.blame [.stale e.position]

/-- Reads the first change of a path into a slot. -/
def field (r : Reading σ) (root key : String) (slot : Slot σ) (rule : Rule) : Reading σ :=
  let isNamed (e : Entry) : Bool := e.path == Path.ofString key
  match r.rest.find? isNamed with
  | none => r.blame (if rule.needed then [.missing (root ++ key)] else [])
  | some e => { r with rest := r.rest.eraseP isNamed }.fill slot rule.check e

/-- The reading of some of the changes, on its own. -/
def onto (r : Reading σ) (entries : List Entry) : Reading σ :=
  ⟨r.draft, entries, []⟩

/-- Goes on after some of the changes have been read on their own; what they left over is dropped. -/
def after (r sub : Reading σ) (rest : List Entry) : Reading σ :=
  ⟨sub.draft, rest, r.faults ++ sub.faults⟩

/-- Reads the changes below a key on their own, if there are any. -/
def descend (r : Reading σ) (root key : String) (needed : Bool) (inner : Reading σ → Reading σ) :
    Reading σ :=
  let top := Path.ofString key
  let inside := r.rest.filterMap fun e => (Path.below? top e.path).map ({ e with path := · })
  if inside.isEmpty then r.blame (if needed then [.missing (root ++ key ++ "/...")] else [])
  else
    r.after (inner (r.onto inside)) (r.rest.filter fun e => (Path.below? top e.path).isNone)

/-- Reads each group of the changes on its own, in order. A change without a group is a fault. -/
def scatter {α : Type} [BEq α] (r : Reading σ) (lt : α → α → Bool)
    (step : Path → Option (α × Path)) (always : List α) (inner : α → Reading σ → Reading σ) :
    Reading σ :=
  let strays := Entry.strays step r.rest
  (Entry.groups lt step always r.rest).foldl
    (fun r (a, entries) => r.after (inner a (r.onto entries)) [])
    ⟨r.draft, [], r.faults ++ strays.map fun e => .noEntry e.position⟩

end Reading

namespace Script

variable {σ : Type}

/-- Runs a script on changes below `root`. -/
def run (root : String) : Script σ → Reading σ → Reading σ
  | .done, r => r
  | .field key slot rule next, r => run root next (r.field root key slot rule)
  | .under key needed inner next, r =>
    run root next (r.descend root key needed fun r => run (root ++ key) inner r)
  | .each always inner next, r =>
    run root next <| r.scatter (fun i j => decide (i < j)) Path.indexStep? always fun i r =>
      run (root ++ "/" ++ String.ofList (Decimal.digits i)) (inner i) r
  | .eachKey inner next, r =>
    run root next <| r.scatter (fun k l => decide (k < l)) Path.keyStep? [] fun k r =>
      run (root ++ "/" ++ k) (inner k) r
  | .outOfRange next, r => run root next (r.refuse .outOfRange)
  | .consumed next, r => run root next (r.refuse .unexpected)
  | .alter f next, r => run root next { r with draft := f r.draft }
  | .look next, r => run root (next r.draft) r

/-- Runs a script over all changes of an update, from a draft to begin with. -/
def read (s : Script σ) (draft : σ) (changes : List Change) : σ × List Fault :=
  let r := s.run "" ⟨draft, Entry.ofChanges changes, []⟩
  (r.draft, r.faults)

end Script

end PowerOfAttorney
