import PowerOfAttorney.Proofs.Command.Effect
import PowerOfAttorney.Proofs.Document.Emptied
import PowerOfAttorney.Proofs.Operation.Named
import PowerOfAttorney.Proofs.Script.InOrder
import PowerOfAttorney.Proofs.Script.Traces

/-!
# `PowerOfAttorney.Proofs.Operation.Moves` — what is read of changes to several attorneys

Two operations set one field of any number of attorneys: their status, or that they take no part in joint
decisions. Each reads a list of moves, one for each attorney that is named, and then checks and writes them
in the order of the list. Here it is shown that the list says what the changes say: it has one move for each
attorney that a change names, with the value that the change brings, in the order of indexes or uids.

## Contents
- **Moves.** `getElem?_moved_of_mem` and `getElem?_moved_of_not_mem`: moves of different entries.
- **Fields.** `AttorneyField` and its two instances, `AttorneyField.Sets`, what changes set.
- **Readings.** `AttorneyField.IsRead`, what a list of moves has to do with the changes.
  `AttorneyField.ReadBy`, what is asked of a script that reads such a field, and `ReadBy.isRead`.
- **Operations.** `ChangeAttorneys.readBy` and `AttorneyDecisions.readBy`.
-/

namespace PowerOfAttorney

open Script

/-! ## Moves -/

section

variable {α β : Type} {set : β → α → α} {moves : List (Nat × β)} {xs : List α}

/-- An entry that no move concerns is as it was. -/
theorem getElem?_moved_of_not_mem {i : Nat} (hi : i ∉ moves.map Prod.fst) :
    (moved set moves xs)[i]? = xs[i]? := by
  unfold moved
  induction moves generalizing xs with
  | nil => rfl
  | cons m moves ih =>
      rw [List.map_cons, List.mem_cons, not_or] at hi
      rw [List.foldl_cons, ih hi.2, List.getElem?_modify_ne _ _ (Ne.symm hi.1)]

/-- An entry that one move concerns is moved. -/
theorem getElem?_moved_of_mem (hnodup : (moves.map Prod.fst).Nodup) {m : Nat × β} (hm : m ∈ moves) :
    (moved set moves xs)[m.1]? = (xs[m.1]?).map (set m.2) := by
  induction moves generalizing xs with
  | nil => exact absurd hm List.not_mem_nil
  | cons n moves ih =>
      rw [List.map_cons, List.nodup_cons] at hnodup
      show (moved set moves (xs.modify n.1 (set n.2)))[m.1]? = _
      rcases List.mem_cons.mp hm with rfl | hrest
      · rw [getElem?_moved_of_not_mem hnodup.1, List.getElem?_modify_eq]
        rfl
      · have hne : n.1 ≠ m.1 := by
          intro heq
          exact hnodup.1 (heq ▸ List.mem_map_of_mem hrest)
        rw [ih hnodup.2 hrest, List.getElem?_modify_ne _ _ hne]

end

/-! ## Fields -/

/-- A field that one update may set for several attorneys. -/
structure AttorneyField where
  operation : Operation
  name : String
  slot : Slot Attorney
  /-- The label under which changes name the attorney at a place. -/
  label : Document → Nat → Label
  /-- The place of the attorney whom a label names. -/
  at? : Document → Label → Option Nat
  /-- A rule forbids to set the field of an attorney to a value. -/
  Forbids : Document → Nat → Attorney → slot.type.Value → Refusal → Prop
  holds_name : ∀ a : Attorney, a.holds [.name name] = some ⟨slot.type, slot.get a⟩
  get_set : ∀ v a, slot.get (slot.set v a) = v
  held_eq : ∀ d, operation.held? d = d.holds
  locate_eq : ∀ d l i b, at? d l = some i →
    operation.locate? d (.name "attorneys" :: l :: b) = some (.name "attorneys" :: .index i :: b)
  source_eq : ∀ d i a v why, Forbids d i a v why →
    why.toFieldError.source = Refusal.entryPath "/attorneys/" i ("/" ++ name)

namespace AttorneyField

/-- The statuses of attorneys, who are named by index. -/
def status : AttorneyField where
  operation := .changeAttorneys
  name := "status"
  slot := .word .attorneyStatus (·.status) fun v a => { a with status := v }
  label _ i := .index i
  at? _ := Label.index?
  Forbids _ i a v why := ∃ move, ChangeAttorneys.Forbidden a.status v move ∧ why = .attorneyStatus i move
  holds_name _ := rfl
  get_set _ _ := rfl
  held_eq _ := rfl
  locate_eq d l i b h := by
    rw [Label.eq_of_index? h]
    rfl
  source_eq d i a v why h := by
    obtain ⟨_, _, rfl⟩ := h
    rfl

/-- Whether attorneys take part in joint decisions; they are named by uid. -/
def jointDecisions : AttorneyField where
  operation := .attorneyDecisions
  name := "cannotMakeJointDecisions"
  slot := .flag (·.cannotMakeJointDecisions) fun v a => { a with cannotMakeJointDecisions := v }
  label d i := .name ((d.attorneys[i]?.map (·.uid)).getD "")
  at? := Document.attorneyAt?
  Forbids d i a _ why := AttorneyDecisions.Forbidden d a ∧ why = .notMixed i
  holds_name _ := rfl
  get_set _ _ := rfl
  held_eq _ := rfl
  locate_eq d _ _ b h := d.locate?_attorney h b
  source_eq d i a v why h := by
    obtain ⟨_, rfl⟩ := h
    rfl

variable {f : AttorneyField} {d : Document} {changes : List Change}

/-- The field of the attorney at `i`. -/
def place (f : AttorneyField) (i : Nat) : Place :=
  [.name "attorneys", .index i, .name f.name]

/-- The field of the attorney at `i`, as it is taken. -/
def takenAt (f : AttorneyField) (d : Document) (i : Nat) : Place :=
  [.name "attorneys", f.label d i, .name f.name]

/-- A change sets the field of the attorney at `i` to a value. -/
def Sets (f : AttorneyField) (d : Document) (changes : List Change) (i : Nat) (v : f.slot.type.Value) :
    Prop :=
  ∃ c ∈ changes, f.operation.place? d c.key = some (f.place i) ∧ f.slot.type.decode c.new = .ok v

/-- **A list of moves says what the changes say**: each change sets the field as some move does, each move
    is what some change sets, of an attorney who is there, and the attorneys are in the order of their
    labels, each once. -/
structure IsRead (f : AttorneyField) (d : Document) (changes : List Change)
    (moves : List (Nat × f.slot.type.Value)) : Prop where
  named : ∀ c ∈ changes, ∃ m ∈ moves, f.operation.place? d c.key = some (f.place m.1) ∧
    f.slot.type.decode c.new = .ok m.2
  sets : ∀ m ∈ moves, f.Sets d changes m.1 m.2
  there : ∀ m ∈ moves, m.1 < d.attorneys.length
  nodup : (moves.map Prod.fst).Nodup
  ordered : moves.Pairwise fun m n => (f.label d m.1).Precedes (f.label d n.1)

/-! ## Readings -/

/-- The places that have been taken are those of the moves so far, of attorneys who are there. -/
structure Lists (f : AttorneyField) (d : Document) (ps : List Place)
    (moves : List (Nat × f.slot.type.Value)) : Prop where
  places : ps = moves.map fun m => f.takenAt d m.1
  labelled : ∀ m ∈ moves, f.at? d (f.label d m.1) = some m.1
  there : ∀ m ∈ moves, m.1 < d.attorneys.length

theorem lists_nil : f.Lists d [] [] where
  places := rfl
  labelled _ hm := absurd hm List.not_mem_nil
  there _ hm := absurd hm List.not_mem_nil

/-- One more field is taken with one more move. -/
theorem Lists.append {ps : List Place} {moves : List (Nat × f.slot.type.Value)} (h : f.Lists d ps moves)
    {i : Nat} (hat : f.at? d (f.label d i) = some i) (hi : i < d.attorneys.length)
    (v : f.slot.type.Value) : f.Lists d (ps ++ [f.takenAt d i]) (moves ++ [(i, v)]) where
  places := by
    rw [h.places, List.map_append]
    rfl
  labelled := by
    intro m hm
    rcases List.mem_append.mp hm with hold | hnew
    · exact h.labelled m hold
    · obtain rfl := List.mem_singleton.mp hnew
      exact hat
  there := by
    intro m hm
    rcases List.mem_append.mp hm with hold | hnew
    · exact h.there m hold
    · obtain rfl := List.mem_singleton.mp hnew
      exact hi

/-- Fields that are taken in order are those of one attorney, or the first attorney precedes. -/
theorem eq_or_precedes_of_inOrder {i j : Nat}
    (h : Place.InOrder [.name "attorneys"] (f.takenAt d i) (f.takenAt d j)) :
    f.label d i = f.label d j ∨ (f.label d i).Precedes (f.label d j) := by
  obtain ⟨l, m, hl, hm, hlm⟩ := h
  obtain rfl : l = f.label d i := by simpa [takenAt] using hl
  obtain rfl : m = f.label d j := by simpa [takenAt] using hm
  exact hlm

section

variable {σ : Type}

/-- What moves show of the attorneys. -/
def layout (f : AttorneyField) (d : Document) (start : σ) (moves : σ → List (Nat × f.slot.type.Value))
    (checks : Checks) : Layout σ :=
  (Layout.moves Attorney.holds f.slot.set (f.at? d) moves start d.attorneys checks).below
    [.name "attorneys"]

/-- A script reads a field into a list of moves. -/
structure ReadBy (f : AttorneyField) (d : Document) (s : Script σ) (start : σ)
    (moves : σ → List (Nat × f.slot.type.Value)) (checks : Checks) : Prop where
  ends : s.Ends
  fits : s.Fits (f.layout d start moves checks) True (fun _ => True) (fun _ => True) []
  describes : f.operation.Describes d (f.layout d start moves checks) fun _ => d.decisions
  tracks : s.Tracks (fun ps x => f.Lists d ps (moves x)) []
  moves_start : moves start = []
  inOrder : ∀ changes,
    ((s.log start changes).map Hit.place).Pairwise (Place.InOrder [.name "attorneys"])

namespace ReadBy

variable {s : Script σ} {start : σ} {moves : σ → List (Nat × f.slot.type.Value)} {checks : Checks}
  {m : Nat × f.slot.type.Value}

variable (h : f.ReadBy d s start moves checks) (hnone : (s.read start changes).2 = [])

include h hnone

/-- Without faults one field has been taken for each move. -/
theorem lists : f.Lists d ((s.log start changes).map Hit.place) (moves (s.read start changes).1) := by
  refine Traces.read h.ends (h.tracks [] start ?_) hnone
  show f.Lists d [] (moves start)
  rw [h.moves_start]
  exact lists_nil

theorem nodup_takenAt :
    ((moves (s.read start changes).1).map fun m => f.takenAt d m.1).Nodup := by
  rw [← (h.lists hnone).places]
  exact (h.fits.sound_log changes).patch.nodup

theorem nodup : ((moves (s.read start changes).1).map Prod.fst).Nodup := by
  refine List.Nodup.of_map (f.takenAt d) ?_
  rw [List.map_map]
  exact h.nodup_takenAt hnone

theorem ordered :
    (moves (s.read start changes).1).Pairwise fun m n => (f.label d m.1).Precedes (f.label d n.1) := by
  have horder := h.inOrder changes
  rw [(h.lists hnone).places, List.pairwise_map] at horder
  have hdistinct := List.pairwise_map.mp (h.nodup_takenAt hnone)
  refine (horder.and hdistinct).imp ?_
  rintro m n ⟨hinOrder, hne⟩
  refine (eq_or_precedes_of_inOrder hinOrder).resolve_left fun hlabel => hne ?_
  rw [takenAt, hlabel]
  rfl

/-- What is taken for a move stands at the field of its attorney. -/
theorem locate_takenAt (hm : m ∈ moves (s.read start changes).1) :
    f.operation.locate? d (f.takenAt d m.1) = some (f.place m.1) :=
  f.locate_eq d _ _ _ ((h.lists hnone).labelled m hm)

/-- It shows the value of the move. -/
theorem view_takenAt (hm : m ∈ moves (s.read start changes).1) :
    (f.layout d start moves checks).view (s.read start changes).1 (f.takenAt d m.1) =
      some ⟨f.slot.type, m.2⟩ := by
  obtain ⟨a, ha⟩ : ∃ a, d.attorneys[m.1]? = some a :=
    ⟨_, List.getElem?_eq_getElem ((h.lists hnone).there m hm)⟩
  show (f.at? d (f.label d m.1)).bind _ = _
  rw [(h.lists hnone).labelled m hm, Option.bind_some, Entries.holds_index,
    getElem?_moved_of_mem (h.nodup hnone) hm, ha, Option.map_some, Option.bind_some, f.holds_name,
    f.get_set]

/-- **Each change sets the field as some move does.** -/
theorem named {c : Change} (hc : c ∈ changes) :
    ∃ m ∈ moves (s.read start changes).1, f.operation.place? d c.key = some (f.place m.1) ∧
      f.slot.type.decode c.new = .ok m.2 := by
  obtain ⟨q, p, x, v, _, hkey, hq, hheld, hdecode, hshown, _, _⟩ :=
    view_of_change h.ends h.fits h.describes hnone hc
  obtain ⟨q', hlog, hq'⟩ := (names_iff h.ends h.fits h.describes hnone).mp ⟨c, hc, hkey⟩
  change q' ∈ (s.log start changes).map Hit.place at hlog
  rw [(h.lists hnone).places] at hlog
  obtain ⟨m, hm, rfl⟩ := List.mem_map.mp hlog
  obtain rfl : p = f.place m.1 := Option.some.inj (hq'.symm.trans (h.locate_takenAt hnone hm))
  obtain rfl : q = f.takenAt d m.1 := Operation.locate?_inj hq hq'
  -- The field is of the type of the slot and shows the value of the move, which is what is decoded.
  obtain ⟨a, ha⟩ : ∃ a, d.attorneys[m.1]? = some a :=
    ⟨_, List.getElem?_eq_getElem ((h.lists hnone).there m hm)⟩
  have hrecord : d.holds (f.place m.1) = some ⟨f.slot.type, f.slot.get a⟩ := by
    show (d.attorneys[m.1]?).bind (fun a => a.holds [.name f.name]) = _
    rw [ha, Option.bind_some, f.holds_name]
  rw [f.held_eq, hrecord] at hheld
  obtain rfl := Option.some.inj hheld
  obtain rfl : v = m.2 := Held.value_inj (hshown.symm.trans (h.view_takenAt hnone hm))
  exact ⟨m, hm, hkey, hdecode⟩

/-- Each move is what some change sets. -/
theorem sets (hm : m ∈ moves (s.read start changes).1) : f.Sets d changes m.1 m.2 := by
  have hlog : f.takenAt d m.1 ∈ (s.log start changes).map Hit.place := by
    rw [(h.lists hnone).places]
    exact List.mem_map_of_mem hm
  obtain ⟨c, hc, hkey⟩ := (names_iff h.ends h.fits h.describes hnone).mpr
    ⟨_, hlog, h.locate_takenAt hnone hm⟩
  obtain ⟨m', hm', hkey', hdecode⟩ := h.named hnone hc
  have hindex : m'.1 = m.1 := by simpa [place] using hkey'.symm.trans hkey
  obtain rfl : m' = m := List.inj_on_of_nodup_map (h.nodup hnone) hm' hm hindex
  exact ⟨c, hc, hkey, hdecode⟩

/-- **What is read says what the changes say.** -/
theorem isRead : f.IsRead d changes (moves (s.read start changes).1) where
  named _ hc := h.named hnone hc
  sets _ hm := h.sets hnone hm
  there := (h.lists hnone).there
  nodup := h.nodup hnone
  ordered := h.ordered hnone

end ReadBy

end

end AttorneyField

/-! ## Operations -/

theorem ChangeAttorneys.readBy (d : Document) :
    AttorneyField.status.ReadBy d (script d) ⟨[]⟩ moves entryChecks where
  ends := ends d
  fits := fits d
  describes := describes d
  tracks := by
    refine tracks_under (tracks_each (fun i => ?_) (tracks_consumed tracks_done)).settles
      (tracks_consumed tracks_done)
    cases ha : d.attorneys[i]? with
    | none => exact settles_outOfRange
    | some a =>
        refine (tracks_field ?_ (tracks_consumed tracks_done)).settles
        intro ps x v hx
        rw [Place.ofKey_attorneys, show Place.ofKey "/status" = [.name "status"] by decide]
        exact hx.append rfl (List.getElem?_eq_some_iff.mp ha).1 v
  moves_start := rfl
  inOrder changes := by
    rw [← Place.ofKey_attorneys]
    exact pairwise_log_each

theorem AttorneyDecisions.readBy (d : Document) :
    AttorneyField.jointDecisions.ReadBy d (script d) ⟨[]⟩ exceptions entryChecks where
  ends := ends d
  fits := fits d
  describes := describes d
  tracks := by
    refine tracks_under (tracks_eachKey (fun uid => ?_) (tracks_consumed tracks_done)).settles
      (tracks_consumed tracks_done)
    cases hi : d.attorneyIndex? uid with
    | none => exact settles_outOfRange
    | some i =>
        obtain ⟨a, ha, huid⟩ := Document.uid_of_attorneyIndex? hi
        have hlabel : AttorneyField.jointDecisions.label d i = .name uid := by
          show Label.name ((d.attorneys[i]?.map (·.uid)).getD "") = _
          rw [ha, Option.map_some, Option.getD_some, huid]
        refine (tracks_field ?_ (tracks_consumed tracks_done)).settles
        intro ps x v hx
        rw [Place.ofKey_attorneys,
          show Place.ofKey "/cannotMakeJointDecisions" = [.name "cannotMakeJointDecisions"] by decide]
        have happend := hx.append (i := i) (by rw [hlabel]; exact hi)
          (List.getElem?_eq_some_iff.mp ha).1 v
        rw [AttorneyField.takenAt, hlabel] at happend
        exact happend
  moves_start := rfl
  inOrder changes := by
    rw [← Place.ofKey_attorneys]
    exact pairwise_log_eachKey

end PowerOfAttorney
