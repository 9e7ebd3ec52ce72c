import PowerOfAttorney.Proofs.Command.Atomic
import PowerOfAttorney.Proofs.Lifecycle.Run
import PowerOfAttorney.Proofs.Operation.Moves

/-!
# `PowerOfAttorney.Proofs.Lifecycle.Together` — several attorneys are changed together or not at all

An update may name any number of attorneys. They are looked at one after the other and then written one after
the other. The moves that have been read are of different attorneys who are there, and looking at one does
not depend on writing another. So either each attorney who is named gets the value that is sent, or nothing
changes and the error is about the first one, in the order of indexes or uids, who may not have it.

## Contents
- **Rules.** `Procedure.Guards.eq_findSome?`: the first broken rule is that of the first move that breaks one.
- **Outcomes.** `AttorneyField.Violates` and `AttorneyField.CarriedOut`, with one lemma for each outcome.
- **Updates.** `Update.attorneys_together`.
-/

namespace PowerOfAttorney

open Procedure

/-! ## Rules -/

/-- The first broken rule is that of the first write that breaks one. -/
theorem Procedure.Guards.eq_findSome? {α β : Type} {list : Focus Document (List α)}
    {refusal? : List (Nat × β) → Option Refusal} {check : Nat × β → Procedure Unit} {d : Document}
    (h : Guards refusal? check list d) (ms : List (Nat × β)) :
    refusal? ms = ms.findSome? fun m => refusal? [m] := by
  induction ms with
  | nil => exact h.nil
  | cons m ms ih =>
      rw [h.cons, ih, List.findSome?_cons]
      cases refusal? [m] <;> rfl

/-- In an ordered list the first element of which something is found is before all others of that kind. -/
theorem exists_first_of_findSome? {α β : Type} {R : α → α → Prop} {find : α → Option β} {xs : List α}
    (hordered : xs.Pairwise R) {y : β} (h : xs.findSome? find = some y) :
    ∃ x ∈ xs, find x = some y ∧ ∀ z ∈ xs, find z ≠ none → z = x ∨ R x z := by
  obtain ⟨before, x, after, rfl, hx, hbefore⟩ := List.findSome?_eq_some_iff.mp h
  refine ⟨x, List.mem_append_right before List.mem_cons_self, hx, ?_⟩
  intro z hz hfound
  rcases List.mem_append.mp hz with hz | hz
  · exact absurd (hbefore z hz) hfound
  · have hafter := (List.pairwise_cons.mp (List.pairwise_append.mp hordered).2.1).1
    rcases List.mem_cons.mp hz with rfl | hz
    · exact Or.inl rfl
    · exact Or.inr (hafter z hz)

/-! ## Outcomes -/

namespace AttorneyField

variable {f : AttorneyField} {d : Document} {changes : List Change}

/-- The changes set the field of the attorney at `i` to a value that a rule forbids:
    `ChangeAttorneys.Forbidden` has the rule on statuses, and `AttorneyDecisions.Forbidden` that on joint
    decisions. -/
def Violates (f : AttorneyField) (d : Document) (changes : List Change) (i : Nat) (why : Refusal) :
    Prop :=
  ∃ v a, f.Sets d changes i v ∧ d.attorneys[i]? = some a ∧ f.Forbids d i a v why

/-- **The changes are carried out together or not at all.** Each of them sets the field of an attorney who
    is there, and no two set it to different values. If no rule is broken, the attorneys who are named have
    the values that are sent and nothing else of the document differs. Otherwise the document is as it was,
    and the one error is about the attorney who comes first, by label, of those who break a rule. -/
structure CarriedOut (f : AttorneyField) (d : Document) (changes : List Change)
    (result : EStateM.Result Halt Document Unit) : Prop where
  named : ∀ c ∈ changes, ∃ i v, i < d.attorneys.length ∧
    f.operation.place? d c.key = some (f.place i) ∧ f.slot.type.decode c.new = .ok v
  once : ∀ i v v', f.Sets d changes i v → f.Sets d changes i v' → v = v'
  done : (∀ i why, ¬ f.Violates d changes i why) →
    ∃ attorneys, result = .ok () { d with attorneys := attorneys } ∧
      (∀ i v, f.Sets d changes i v → attorneys[i]? = (d.attorneys[i]?).map (f.slot.set v)) ∧
      ∀ i, (∀ v, ¬ f.Sets d changes i v) → attorneys[i]? = d.attorneys[i]?
  refused : ∀ i why, f.Violates d changes i why →
    ∃ first why, f.Violates d changes first why ∧ result = .error (.refused [why.toFieldError]) d ∧
      why.toFieldError.source = Refusal.entryPath "/attorneys/" first ("/" ++ f.name) ∧
      ∀ j why', f.Violates d changes j why' → j = first ∨ (f.label d first).Precedes (f.label d j)

namespace IsRead

variable {moves : List (Nat × f.slot.type.Value)}

/-- What the changes set are the moves. -/
theorem sets_iff (h : f.IsRead d changes moves) {i : Nat} {v : f.slot.type.Value} :
    f.Sets d changes i v ↔ (i, v) ∈ moves := by
  constructor
  · rintro ⟨c, hc, hkey, hdecode⟩
    obtain ⟨m, hm, hkey', hdecode'⟩ := h.named c hc
    have hindex : m.1 = i := by simpa [place] using hkey'.symm.trans hkey
    have hvalue : m.2 = v := Except.ok.inj (hdecode'.symm.trans hdecode)
    rwa [← hindex, ← hvalue]
  · exact h.sets (i, v)

variable {refusal? : List (Nat × f.slot.type.Value) → Option Refusal}
  {check : Nat × f.slot.type.Value → Procedure Unit}

variable (h : f.IsRead d changes moves) (hguards : Guards refusal? check Focus.attorneys d)
  (hrule : ∀ m a why, d.attorneys[m.1]? = some a →
    (refusal? [m] = some why ↔ f.Forbids d m.1 a m.2 why))

include h hrule

/-- An attorney violates a rule if the move does. -/
theorem violates_of_mem {m : Nat × f.slot.type.Value} (hm : m ∈ moves) {why : Refusal}
    (hwhy : refusal? [m] = some why) : f.Violates d changes m.1 why := by
  obtain ⟨a, ha⟩ : ∃ a, d.attorneys[m.1]? = some a := ⟨_, List.getElem?_eq_getElem (h.there m hm)⟩
  exact ⟨m.2, a, h.sets m hm, ha, (hrule m a why ha).mp hwhy⟩

/-- And only then. -/
theorem exists_mem_of_violates {i : Nat} {why : Refusal} (hviolates : f.Violates d changes i why) :
    ∃ m ∈ moves, m.1 = i ∧ refusal? [m] = some why := by
  obtain ⟨v, a, hsets, ha, hwhy⟩ := hviolates
  exact ⟨(i, v), h.sets_iff.mp hsets, rfl, (hrule (i, v) a why ha).mpr hwhy⟩

include hguards

/-- **Moves that have been read are carried out together or not at all.** -/
theorem carriedOut :
    f.CarriedOut d changes
      ((forM moves check >>= fun _ => forM moves fun m => writeEntry .attorneys m.1 (f.slot.set m.2) :
        Procedure Unit) d) where
  named := by
    intro c hc
    obtain ⟨m, hm, hkey, hdecode⟩ := h.named c hc
    exact ⟨m.1, m.2, h.there m hm, hkey, hdecode⟩
  once := by
    intro i v v' hv hv'
    have hsame := List.inj_on_of_nodup_map h.nodup (h.sets_iff.mp hv) (h.sets_iff.mp hv') rfl
    exact (Prod.mk.inj hsame).2
  done := by
    intro hnone
    have hallowed : refusal? moves = none := by
      rw [hguards.eq_findSome?, List.findSome?_eq_none_iff]
      intro m hm
      by_contra hsome
      obtain ⟨why, hwhy⟩ := Option.ne_none_iff_exists'.mp hsome
      exact hnone m.1 why (h.violates_of_mem hrule hm hwhy)
    refine ⟨moved f.slot.set moves d.attorneys, ?_, ?_, ?_⟩
    · rw [hguards.forM_forM Focus.attorneys_lawful, hallowed]
      rfl
    · intro i v hsets
      exact getElem?_moved_of_mem h.nodup (h.sets_iff.mp hsets)
    · intro i hunset
      refine getElem?_moved_of_not_mem ?_
      intro hmem
      obtain ⟨m, hm, rfl⟩ := List.mem_map.mp hmem
      exact hunset m.2 (h.sets m hm)
  refused := by
    intro i why hviolates
    obtain ⟨m, hm, _, hbroken⟩ := h.exists_mem_of_violates hrule hviolates
    have hrefused : refusal? moves ≠ none := by
      rw [hguards.eq_findSome?]
      intro hall
      exact Option.some_ne_none _ (hbroken.symm.trans (List.findSome?_eq_none_iff.mp hall m hm))
    obtain ⟨why, hwhy⟩ := Option.ne_none_iff_exists'.mp hrefused
    obtain ⟨first, hmem, hfirst, hothers⟩ :=
      exists_first_of_findSome? h.ordered ((hguards.eq_findSome? moves).symm.trans hwhy)
    have hviolates := h.violates_of_mem hrule hmem hfirst
    refine ⟨first.1, why, hviolates, ?_, ?_, ?_⟩
    · rw [hguards.forM_forM Focus.attorneys_lawful, hwhy]
      rfl
    · obtain ⟨v, a, _, _, hsource⟩ := hviolates
      exact f.source_eq _ _ _ _ _ hsource
    · intro j why' hother
      obtain ⟨n, hn, rfl, hbroken⟩ := h.exists_mem_of_violates hrule hother
      rcases hothers n hn (Option.ne_none_iff_exists'.mpr ⟨why', hbroken⟩) with rfl | hprecedes
      · exact Or.inl rfl
      · exact Or.inr hprecedes

end IsRead

end AttorneyField

/-! ## Updates -/

/-- One move breaks a rule if it is one of the three that are forbidden. -/
theorem ChangeAttorneys.refusal?_singleton_iff {d : Document} (m : Nat × AttorneyStatus) (a : Attorney)
    (why : Refusal) (ha : d.attorneys[m.1]? = some a) :
    refusal? d [m] = some why ↔ AttorneyField.status.Forbids d m.1 a m.2 why := by
  have hrule : refusal? d [m] = (blocked? a.status m.2).map (.attorneyStatus m.1) := by
    simp only [refusal?, ha]
    cases blocked? a.status m.2 <;> rfl
  rw [hrule, Option.map_eq_some_iff]
  exact exists_congr fun move => and_congr blocked?_eq_some_iff eq_comm

/-- One exception breaks a rule if the attorney's group does not allow it. -/
theorem AttorneyDecisions.refusal?_singleton_iff {d : Document} (m : Nat × Bool) (a : Attorney)
    (why : Refusal) (ha : d.attorneys[m.1]? = some a) :
    refusal? d [m] = some why ↔ AttorneyField.jointDecisions.Forbids d m.1 a m.2 why := by
  simp only [refusal?, ha]
  rw [Option.ite_none_left_eq_some, Option.some.injEq]
  exact and_congr modeOf_ne_iff eq_comm

/-- **Several attorneys are changed together or not at all**: a valid update of their statuses, or of who
    takes part in joint decisions, gives exactly those who are named what it sends, or it changes nothing
    and its one error is about the first of them, by index or by the bytes of the uid, who may not have it. -/
theorem Update.attorneys_together {u : Update} {d : Document} {c : Command} (hvalid : u.validate d = .ok c)
    (now : Instant) :
    (Word.ofText? u.type = some Operation.changeAttorneys →
      AttorneyField.status.CarriedOut d u.changes (c.carryOut now d)) ∧
    (Word.ofText? u.type = some Operation.attorneyDecisions →
      AttorneyField.jointDecisions.CarriedOut d u.changes (c.carryOut now d)) := by
  obtain ⟨op, hop, hread⟩ := ofChanges_of_validate hvalid
  constructor
  · intro htype
    obtain rfl := Option.some.inj (hop.symm.trans htype)
    obtain ⟨rfl, hnone⟩ := Prod.mk.inj hread
    exact ((ChangeAttorneys.readBy d).isRead hnone).carriedOut (ChangeAttorneys.guards d)
      ChangeAttorneys.refusal?_singleton_iff
  · intro htype
    obtain rfl := Option.some.inj (hop.symm.trans htype)
    obtain ⟨rfl, hnone⟩ := Prod.mk.inj hread
    exact ((AttorneyDecisions.readBy d).isRead hnone).carriedOut (AttorneyDecisions.guards d)
      AttorneyDecisions.refusal?_singleton_iff

/-- Of two moves that are not allowed the one of the first attorney is named, and of two exceptions the one
    that is not allowed keeps the other from being made. -/
theorem Update.attorneys_together_ofTwoAttorneys :
    let d : Document := { Document.ofTwoAttorneys with
      decisions := { Document.ofTwoAttorneys.decisions with
        attorneysDecide := some .jointlyForSomeSeverallyForOthers } }
    let moves : Update := ⟨"", "", none, "", "CHANGE_ATTORNEYS",
      [⟨"/attorneys/1/status", .str "inactive", .str "removed"⟩,
        ⟨"/attorneys/+0/status", .str "active", .str "inactive"⟩]⟩
    let exceptions : Update := ⟨"", "", none, "", "ATTORNEY_DECISIONS",
      [⟨"/attorneys/b/cannotMakeJointDecisions", .null, .bool true⟩,
        ⟨"/attorneys/a/cannotMakeJointDecisions", .null, .bool true⟩]⟩
    ∃ c c' : Command, moves.validate d = .ok c ∧ exceptions.validate d = .ok c' ∧
      c.carryOut (.ofNanoseconds 1) d = .error (.refused
        [⟨"/attorneys/0/status", "An active attorney cannot be made inactive"⟩]) d ∧
      c'.carryOut (.ofNanoseconds 1) d = .error (.refused
        [⟨"/attorneys/1/cannotMakeJointDecisions",
          "The appointment type must be jointly for some and severally for others"⟩]) d ∧
      AttorneyField.status.CarriedOut d moves.changes (c.carryOut (.ofNanoseconds 1) d) ∧
      AttorneyField.jointDecisions.CarriedOut d exceptions.changes
        (c'.carryOut (.ofNanoseconds 1) d) := by
  intro d moves exceptions
  have hmoves : moves.validate d = .ok (.changeAttorneys ⟨[(0, .inactive), (1, .removed)]⟩) := by
    decide +kernel
  have hexceptions : exceptions.validate d = .ok (.decideJointly ⟨[(0, true), (1, true)]⟩) := by
    decide +kernel
  exact ⟨_, _, hmoves, hexceptions, rfl, rfl,
    (attorneys_together hmoves _).1 (by decide +kernel),
    (attorneys_together hexceptions _).2 (by decide +kernel)⟩

end PowerOfAttorney
