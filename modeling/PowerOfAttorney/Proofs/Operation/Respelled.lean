import PowerOfAttorney.Proofs.Operation.Order

/-!
# `PowerOfAttorney.Proofs.Operation.Respelled` — accepted changes that change nothing

A change that is accepted claims what its field holds and is not redundant. So its new value is another one,
unless it is another spelling of the one that is held, which the comparison of JSON values does not see: null
for a flag that is false, and the other way round, or another text of the same time or date. Who signs claims
that nothing is on record, and nothing has no second spelling.

## Contents
- **Edits.** `Change.Edits.value_eq_iff_respells`, for one change and its field.
- **Updates.** `Update.leaves_iff_respells`, and `Update.not_forall_moves`: a time may be respelled.
-/

namespace PowerOfAttorney

/-! ## Edits -/

/-- **A change that is not redundant leaves the value of its field if and only if it respells it**, and who
    signs leaves none. -/
theorem Change.Edits.value_eq_iff_respells {c : Change} {op : Operation} {d : Document} {s : Decisions}
    {p : Place} (h : c.Edits op d s p) (hchanges : c.isRedundant = false) :
    ∃ x v, op.held? d p = some x ∧ x.type.decode c.new = .ok v ∧
      (v = x.value ↔ x.type.Respells c.old c.new) ∧ (op.isSigning = true → v ≠ x.value) := by
  obtain ⟨x, _, hheld, _, hagrees, v, hdecode, _⟩ := h.field
  refine ⟨x, v, hheld, hdecode, FieldType.eq_iff_respells hagrees hdecode hchanges, ?_⟩
  rintro hsign rfl
  have hblank : c.new.isBlank = true :=
    Held.isBlank_of_decode (Operation.isBlank_of_held? hsign hheld) hdecode
  rw [h.isBlank_new hsign hchanges] at hblank
  exact absurd hblank Bool.false_ne_true

/-! ## Updates -/

namespace Update

/-- **An accepted change leaves the value of its field only by another spelling.** Every change of a valid
    update names a field of its operation, and its new value decodes for this field. What it decodes to is
    what the field held if and only if old and new value are null and false, or two texts of one time or
    date; those who sign never send what the field starts with. -/
theorem leaves_iff_respells {u : Update} {d : Document} {c : Command} (hvalid : u.validate d = .ok c) :
    ∃ op : Operation, Word.ofText? u.type = some op ∧ ∀ change ∈ u.changes,
      ∃ p x v, op.place? d change.key = some p ∧ op.held? d p = some x ∧
        x.type.decode change.new = .ok v ∧
        (v = x.value ↔ x.type.Respells change.old change.new) ∧ (op.isSigning = true → v ≠ x.value) := by
  obtain ⟨op, hop, hread, hchanges⟩ := validate_eq_ok_iff.mp hvalid
  refine ⟨op, hop, fun change hchange => ?_⟩
  obtain ⟨place, _, hedits⟩ := Command.accepts_ofChanges (d := d) (congrArg Prod.snd hread)
  obtain ⟨i, hi, rfl⟩ := List.mem_iff_getElem.mp hchange
  have hedit := hedits ⟨i, hi⟩
  obtain ⟨x, v, hheld, hdecode, hleaves, hsign⟩ := hedit.value_eq_iff_respells (hchanges _ hchange)
  exact ⟨_, x, v, hedit.named, hheld, hdecode, hleaves, hsign⟩

/-- One attorney no longer takes part in joint decisions, and of the other it is said anew that he does. -/
theorem leaves_iff_respells_exceptions :
    let changes : List Change := [⟨"/attorneys/a/cannotMakeJointDecisions", .bool false, .bool true⟩,
      ⟨"/attorneys/b/cannotMakeJointDecisions", .null, .bool false⟩]
    let u : Update := ⟨"", "", none, "", "ATTORNEY_DECISIONS", changes⟩
    u.validate .ofTwoAttorneys = .ok (.decideJointly ⟨[(0, true), (1, false)]⟩) ∧
      ∃ op : Operation, Word.ofText? u.type = some op ∧ ∀ change ∈ changes,
        ∃ p x v, op.place? .ofTwoAttorneys change.key = some p ∧ op.held? .ofTwoAttorneys p = some x ∧
          x.type.decode change.new = .ok v ∧ (v = x.value ↔ x.type.Respells change.old change.new) := by
  intro changes u
  have hvalid : u.validate .ofTwoAttorneys = .ok (.decideJointly ⟨[(0, true), (1, false)]⟩) := by
    decide +kernel
  obtain ⟨op, hop, hleaves⟩ := leaves_iff_respells hvalid
  refine ⟨hvalid, op, hop, fun change hchange => ?_⟩
  obtain ⟨p, x, v, hp, hx, hdecode, hiff, _⟩ := hleaves change hchange
  exact ⟨p, x, v, hp, hx, hdecode, hiff⟩

/-- **Not every accepted change changes a value**: a time is sent again in another time zone. -/
theorem not_forall_moves : ¬ ∀ (u : Update) (d : Document) (c : Command), u.validate d = .ok c →
    ∃ op : Operation, Word.ofText? u.type = some op ∧ ∀ change ∈ u.changes,
      ∃ p x v, op.place? d change.key = some p ∧ op.held? d p = some x ∧
        x.type.decode change.new = .ok v ∧ v ≠ x.value := by
  intro h
  let d : Document := { Document.ofTwoAttorneys with signedAt := some (.ofNanoseconds 0) }
  let change : Change :=
    ⟨"/signedAt", .str "1970-01-01T00:00:00Z", .str "1970-01-01T01:00:00+01:00"⟩
  let u : Update := ⟨"", "", none, "", "CORRECTION", [change]⟩
  have hvalid : u.validate d = .ok (.correct (Correction.of d)) := by decide +kernel
  obtain ⟨op, hop, hmoves⟩ := h u d _ hvalid
  obtain ⟨p, x, v, hp, hx, hdecode, hv⟩ := hmoves change (List.mem_singleton_self change)
  have htype : Word.ofText? u.type = some Operation.correction := by decide
  obtain rfl : .correction = op := Option.some.inj (htype.symm.trans hop)
  obtain rfl : [.name "signedAt"] = p :=
    Option.some.inj ((show Operation.correction.place? d change.key = _ by decide +kernel).symm.trans hp)
  obtain rfl : ⟨.time, some (.ofNanoseconds 0)⟩ = x := Option.some.inj hx
  have hsame : FieldType.time.decode change.new = .ok (some (.ofNanoseconds 0)) := by decide +kernel
  exact hv (Except.ok.inj (hdecode.symm.trans hsame))

end Update

end PowerOfAttorney
