import PowerOfAttorney.Proofs.Cbor.RoundTrip
import PowerOfAttorney.Proofs.Json.RoundTrip
import PowerOfAttorney.Proofs.Operation.Accepted
import PowerOfAttorney.Register.Store

/-!
# `PowerOfAttorney.Proofs.Register.History` — the record of an update gives the update back

The values of the changes are recorded as JSON texts. A field holds null, a truth value or a string, so
the values of an accepted update are of these kinds, and such values are read back from their texts.

## Contents
- **Scalars.** `Json.isScalar`, and that an accepted update has no other values.
- **Records.** `Change.ReadsBack`, which scalars do, and `Store.decodeUpdate_encode?`.
-/

namespace PowerOfAttorney

/-! ## Scalars -/

/-- Null, a truth value or a string. -/
def Json.isScalar : Json → Bool
  | .null | .bool _ | .str _ => true
  | _ => false

/-- A scalar is read back from its text. -/
theorem Codec.json_decodeText {j : Json} (h : j.isScalar = true) : json.decodeText j.text = .ok j := by
  cases j with
  | null => exact Codec.decodeText_text json rfl
  | bool b => exact Codec.decodeText_text json rfl
  | str s => exact Codec.decodeText_text json rfl
  | num _ => exact absurd h nofun
  | arr _ => exact absurd h nofun
  | obj _ => exact absurd h nofun

namespace FieldType

/-- What agrees with the value of a field is a scalar. -/
theorem isScalar_of_agrees {t : FieldType} {held : t.Value} {j : Json} (h : t.agrees held j = true) :
    j.isScalar = true := by
  cases j with
  | null => rfl
  | bool b => rfl
  | str s => rfl
  | num _ => cases t <;> exact absurd h nofun
  | arr _ => cases t <;> exact absurd h nofun
  | obj _ => cases t <;> exact absurd h nofun

/-- What decodes to the value of a field is a scalar. -/
theorem isScalar_of_decode {t : FieldType} {j : Json} {v : t.Value} (h : t.decode j = .ok v) :
    j.isScalar = true := by
  cases j with
  | null => rfl
  | bool b => rfl
  | str s => rfl
  | num _ => cases t <;> exact absurd h nofun
  | arr _ => cases t <;> exact absurd h nofun
  | obj _ => cases t <;> exact absurd h nofun

end FieldType

/-- An edit replaces a scalar by a scalar. -/
theorem Change.Edits.isScalar {c : Change} {op : Operation} {d : Document} {s : Decisions} {p : Place}
    (h : c.Edits op d s p) : c.old.isScalar = true ∧ c.new.isScalar = true := by
  obtain ⟨x, _, _, _, hagrees, v, hdecode, _⟩ := h.field
  exact ⟨FieldType.isScalar_of_agrees hagrees, FieldType.isScalar_of_decode hdecode⟩

/-- An accepted update has scalars for its values. -/
theorem Update.isScalar_of_validate {u : Update} {d : Document} {c : Command}
    (h : u.validate d = .ok c) :
    ∀ change ∈ u.changes, change.old.isScalar = true ∧ change.new.isScalar = true := by
  obtain ⟨op, _, hread⟩ := ofChanges_of_validate h
  obtain ⟨place, _, hedits⟩ := Command.accepts_ofChanges (by rw [hread])
  intro change hchange
  obtain ⟨i, hi, rfl⟩ := List.mem_iff_getElem.mp hchange
  exact (hedits ⟨i, hi⟩).isScalar

/-! ## Records -/

/-- The values of the change are read back from their texts. -/
structure Change.ReadsBack (c : Change) : Prop where
  old : Codec.json.decodeText c.old.text = .ok c.old
  new : Codec.json.decodeText c.new.text = .ok c.new

namespace AuditRecord

/-- The change of a recorded change. -/
theorem toChange_text {c : Change} (h : c.ReadsBack) :
    toChange ⟨c.key, c.old.text, c.new.text⟩ = .ok c := by
  unfold toChange
  rw [h.old, h.new]
  rfl

/-- The changes of recorded changes. -/
theorem mapM_toChange {changes : List Change} (h : ∀ c ∈ changes, c.ReadsBack) :
    (changes.map fun c => (⟨c.key, c.old.text, c.new.text⟩ : AuditChange)).mapM toChange =
      .ok changes := by
  induction changes with
  | nil => rfl
  | cons c cs ih =>
      rw [List.map_cons, List.mapM_cons, toChange_text (h c List.mem_cons_self),
        ih fun c' hc' => h c' (List.mem_cons_of_mem _ hc')]
      rfl

/-- The update of the record of an update. -/
theorem toUpdate_ofUpdate {u : Update} (h : ∀ c ∈ u.changes, c.ReadsBack) :
    (ofUpdate u).toUpdate = .ok u := by
  have hchanges := mapM_toChange h
  show ((u.changes.map fun c => (⟨c.key, c.old.text, c.new.text⟩ : AuditChange)).mapM toChange).bind
    _ = _
  rw [hchanges]
  rfl

end AuditRecord

/-- **The record of an accepted update gives the update back**, if its time is in no leap second. -/
theorem Store.decodeUpdate_encode? {u : Update} {bytes : Bytes}
    (hencode : (AuditRecord.ofUpdate u).encode? = some bytes)
    (hleap : ∀ t ∈ u.applied, t.isLeap = false)
    (hscalar : ∀ c ∈ u.changes, c.old.isScalar = true ∧ c.new.isScalar = true) :
    decodeUpdate bytes = .ok u := by
  have hback : ∀ c ∈ u.changes, c.ReadsBack := fun c hc =>
    ⟨Codec.json_decodeText (hscalar c hc).1, Codec.json_decodeText (hscalar c hc).2⟩
  unfold decodeUpdate
  rw [AuditRecord.decode?_encode? hencode hleap]
  dsimp only
  rw [AuditRecord.toUpdate_ofUpdate hback]
  rfl

end PowerOfAttorney
