import PowerOfAttorney.Proofs.Change.Agreement

/-!
# `PowerOfAttorney.Proofs.Change.Denotation` — what a JSON value stands for in a field

An old value is compared with what a field holds, and a new value is decoded for it. Both are held here
against one relation, which says for each type of field which JSON values stand for which of its values.
Null stands for nothing in every type. The empty string does too where a field can be without a value, and
there no value is ever written as the empty string, so the two readings do not meet.

## Contents
- **The relation.** `FieldType.Denotes`, with `FieldType.DenotesMaybe` for what may be absent.
- **Decoding.** `decode_eq_ok_iff_denotes`: what decodes to a value is what stands for it.
- **Agreement.** `agrees_decode_denote`: so is what agrees with it, and nothing agrees with two values.
-/

namespace PowerOfAttorney

/-- No word that a field may hold is written as the empty text. -/
theorem Choice.text_ne_empty {c : Choice} (w : c.Of) : Word.text w ≠ "" := by
  cases c <;> cases w <;> decide

namespace FieldType

/-! ## The relation -/

/-- Null and the empty string stand for nothing, a string for what it spells. -/
def DenotesMaybe {α : Type} (spells : String → α → Prop) (j : Json) : Option α → Prop
  | none => j = .null ∨ j = .str ""
  | some a => ∃ s, j = .str s ∧ spells s a

/-- The JSON value stands for the value of a field. -/
def Denotes : (t : FieldType) → Json → t.Value → Prop
  | .text, j, s => j = .str s ∨ j = .null ∧ s = ""
  | .flag, j, b => j = .bool b ∨ j = .null ∧ b = false
  | .time, j, moment => DenotesMaybe (fun s t => Instant.parse? s = some t) j moment
  | .date, j, day => DenotesMaybe (fun s d => Date.parse? s = some d) j day
  | .word _, j, w => j = .str (Word.text w)
  | .maybeWord _, j, w => DenotesMaybe (fun s w => s = Word.text w) j w

/-! ## Decoding -/

section

variable {α : Type} {read : String → Option α} {unread : ValueFault} {spells : String → α → Prop} {j : Json}

theorem isBlank_iff : j.isBlank = true ↔ j = .null ∨ j = .str "" := by
  cases j with
  | null => exact ⟨fun _ => .inl rfl, fun _ => rfl⟩
  | str s =>
      show s.isEmpty = true ↔ _
      rw [String.isEmpty_iff]
      exact ⟨fun h => .inr (congrArg Json.str h), fun h => Json.str.inj (h.resolve_left nofun)⟩
  | bool b => exact ⟨nofun, nofun⟩
  | num x => exact ⟨nofun, nofun⟩
  | arr items => exact ⟨nofun, nofun⟩
  | obj members => exact ⟨nofun, nofun⟩

/-- What may be absent decodes from what stands for it, if what is read is what is spelled and nothing is
    spelled by the empty string. -/
theorem decodeMaybe_iff_denotes (hread : ∀ s a, read s = some a ↔ spells s a) (hempty : ∀ a, ¬ spells "" a)
    {x : Option α} : decodeMaybe read unread j = .ok x ↔ DenotesMaybe spells j x := by
  cases x with
  | none => exact decodeMaybe_eq_none_iff.trans isBlank_iff
  | some a =>
      rw [decodeMaybe_eq_some_iff]
      constructor
      · rintro ⟨s, rfl, _, hs⟩
        exact ⟨s, rfl, (hread s a).mp hs⟩
      · rintro ⟨s, rfl, hs⟩
        refine ⟨s, rfl, Bool.eq_false_iff.mpr fun hblank => ?_, (hread s a).mpr hs⟩
        exact hempty a (String.isEmpty_iff.mp hblank ▸ hs)

end

/-- A word that a field may hold decodes from its text, and no word from what is blank. -/
theorem decodeMaybe_word_iff {c : Choice} {w : Option c.Of} {j : Json} :
    decodeMaybe Word.ofText? .invalidValue j = .ok w ↔ DenotesMaybe (fun s w => s = Word.text w) j w := by
  refine decodeMaybe_iff_denotes ?_ ?_
  · intro s w
    rw [Word.ofText?_eq_some_iff, eq_comm]
  · intro w h
    exact Choice.text_ne_empty w h.symm

/-- **What decodes to a value of a field is what stands for it.** -/
theorem decode_eq_ok_iff_denotes {t : FieldType} {v : t.Value} {j : Json} :
    t.decode j = .ok v ↔ t.Denotes j v := by
  cases t with
  | text =>
      cases j with
      | null =>
          show Except.ok "" = Except.ok v ↔ Json.null = .str v ∨ Json.null = .null ∧ v = ""
          rw [Except.ok.injEq]
          exact ⟨fun h => .inr ⟨rfl, h.symm⟩, fun h => (h.resolve_left nofun).2.symm⟩
      | str s =>
          show Except.ok s = Except.ok v ↔ Json.str s = .str v ∨ Json.str s = .null ∧ v = ""
          rw [Except.ok.injEq, Json.str.injEq]
          exact ⟨.inl, fun h => h.resolve_right fun hnull => nomatch hnull.1⟩
      | bool b => exact ⟨nofun, nofun⟩
      | num x => exact ⟨nofun, nofun⟩
      | arr items => exact ⟨nofun, nofun⟩
      | obj members => exact ⟨nofun, nofun⟩
  | flag =>
      cases j with
      | null =>
          show Except.ok false = Except.ok v ↔ Json.null = .bool v ∨ Json.null = .null ∧ v = false
          rw [Except.ok.injEq]
          exact ⟨fun h => .inr ⟨rfl, h.symm⟩, fun h => (h.resolve_left nofun).2.symm⟩
      | bool b =>
          show Except.ok b = Except.ok v ↔ Json.bool b = .bool v ∨ Json.bool b = .null ∧ v = false
          rw [Except.ok.injEq, Json.bool.injEq]
          exact ⟨.inl, fun h => h.resolve_right fun hnull => nomatch hnull.1⟩
      | str s => exact ⟨nofun, nofun⟩
      | num x => exact ⟨nofun, nofun⟩
      | arr items => exact ⟨nofun, nofun⟩
      | obj members => exact ⟨nofun, nofun⟩
  | time => exact decodeMaybe_iff_denotes (fun _ _ => Iff.rfl) fun t h => Option.some_ne_none t h.symm
  | date => exact decodeMaybe_iff_denotes (fun _ _ => Iff.rfl) fun d h => Option.some_ne_none d h.symm
  | word c =>
      rw [decode_word_iff, decodeMaybe_word_iff]
      show (∃ s, j = .str s ∧ s = Word.text v) ↔ j = .str (Word.text v)
      constructor
      · rintro ⟨_, hj, rfl⟩
        exact hj
      · rintro hj
        exact ⟨_, hj, rfl⟩
  | maybeWord c => exact decodeMaybe_word_iff

/-! ## Agreement -/

/-- **Agreeing with a value, decoding to it and standing for it are one**, for every type of field. So a JSON
    value agrees with one value at most, and with none if it does not decode. -/
theorem agrees_decode_denote (t : FieldType) (j : Json) :
    (∀ v : t.Value, (t.agrees v j = true ↔ t.decode j = .ok v) ∧ (t.decode j = .ok v ↔ t.Denotes j v)) ∧
      (∀ v w : t.Value, t.agrees v j = true → t.agrees w j = true → v = w) ∧
      ∀ why, t.decode j = .error why → ∀ v : t.Value, t.agrees v j = false := by
  refine ⟨fun v => ⟨agrees_iff_decode, decode_eq_ok_iff_denotes⟩, ?_, ?_⟩
  · intro v w hv hw
    have hdecode := (agrees_iff_decode.mp hv).symm.trans (agrees_iff_decode.mp hw)
    exact Except.ok.inj hdecode
  · intro why hwhy v
    refine Bool.eq_false_iff.mpr fun hv => ?_
    have hdecode := agrees_iff_decode.mp hv
    rw [hwhy] at hdecode
    exact nomatch hdecode

end FieldType

end PowerOfAttorney
