import PowerOfAttorney.Change.FieldType
import PowerOfAttorney.Proofs.Json.Sameness

/-!
# `PowerOfAttorney.Proofs.Change.Agreement` — old values and new values mean the same

The old value of a change is compared with what a field holds, the new value is decoded for it, and whether
a change is redundant is seen from the two JSON values alone. The first two never differ. The third is finer:
a field can hold one value under several spellings, and a change from one spelling to another is not
redundant, though it leaves the field as it is.

## Contents
- **Agreement.** `FieldType.agrees_iff_decode`: what agrees with a value is what decodes to it.
- **Spellings.** `FieldType.Respells`, and `FieldType.eq_iff_respells`: a change that is not redundant leaves
  the value of a field if and only if it respells it.
-/

namespace PowerOfAttorney

namespace FieldType

/-! ## Agreement -/

section

variable {α : Type} {read : String → Option α} {unread : ValueFault} {j : Json}

/-- Null and the empty string are nothing, and nothing else is. -/
theorem decodeMaybe_eq_none_iff : decodeMaybe read unread j = .ok none ↔ j.isBlank = true := by
  unfold decodeMaybe
  cases j with
  | null => exact ⟨fun _ => rfl, fun _ => rfl⟩
  | str s =>
      dsimp only
      by_cases hs : s.isEmpty = true
      · rw [if_pos hs]
        exact ⟨fun _ => hs, fun _ => rfl⟩
      · rw [if_neg hs]
        cases read s with
        | none => exact ⟨nofun, fun h => absurd h hs⟩
        | some a => exact ⟨nofun, fun h => absurd h hs⟩
  | bool b => exact ⟨nofun, nofun⟩
  | num x => exact ⟨nofun, nofun⟩
  | arr items => exact ⟨nofun, nofun⟩
  | obj members => exact ⟨nofun, nofun⟩

/-- Something is what a string that is not empty is read as. -/
theorem decodeMaybe_eq_some_iff {a : α} : decodeMaybe read unread j = .ok (some a) ↔
    ∃ s : String, j = .str s ∧ s.isEmpty = false ∧ read s = some a := by
  unfold decodeMaybe
  cases j with
  | str s =>
      dsimp only
      constructor
      · intro h
        refine ⟨s, rfl, ?_⟩
        split at h
        · cases h
        · rename_i hs
          refine ⟨Bool.eq_false_iff.mpr hs, ?_⟩
          split at h
          · rename_i b hread
            rw [hread, Option.some.inj (Except.ok.inj h)]
          · cases h
      · rintro ⟨t, hst, hs, hread⟩
        obtain rfl := Json.str.inj hst
        rw [hs, if_neg Bool.false_ne_true, hread]
  | null => exact ⟨nofun, nofun⟩
  | bool b => exact ⟨nofun, nofun⟩
  | num x => exact ⟨nofun, nofun⟩
  | arr items => exact ⟨nofun, nofun⟩
  | obj members => exact ⟨nofun, nofun⟩

end

/-- A word agrees with what decodes to it. -/
theorem wordAgrees_iff {ω : Type} [Word ω] {held : Option ω} {j : Json} :
    wordAgrees held j = true ↔ decodeMaybe Word.ofText? .invalidValue j = .ok held := by
  cases held with
  | none =>
      rw [decodeMaybe_eq_none_iff]
      cases j with
      | str s =>
          show (if s.isEmpty = true then true else false) = true ↔ s.isEmpty = true
          by_cases hs : s.isEmpty = true
          · rw [if_pos hs, hs]
          · rw [if_neg hs]
            exact ⟨nofun, fun h => absurd h hs⟩
      | null => exact Iff.rfl
      | bool b => exact Iff.rfl
      | num x => exact Iff.rfl
      | arr items => exact Iff.rfl
      | obj members => exact Iff.rfl
  | some w =>
      rw [decodeMaybe_eq_some_iff]
      unfold wordAgrees
      constructor
      · intro h
        split at h
        · cases h
        · split at h
          · cases h
          · rename_i s hs
            exact ⟨s, rfl, Bool.eq_false_iff.mpr hs, Word.ofText?_eq_some_iff.mpr (beq_iff_eq.mp h)⟩
        · cases h
      · rintro ⟨s, rfl, hs, hread⟩
        dsimp only
        rw [hs, if_neg Bool.false_ne_true]
        exact beq_iff_eq.mpr (Word.ofText?_eq_some_iff.mp hread)

/-- A word that is always chosen decodes from what chooses it. -/
theorem decode_word_iff {c : Choice} {w : c.Of} {j : Json} :
    decode (.word c) j = .ok w ↔ decodeMaybe Word.ofText? .invalidValue j = .ok (some w) := by
  unfold decode
  dsimp only
  cases (decodeMaybe Word.ofText? .invalidValue j : Except ValueFault (Option c.Of)) with
  | ok claimed =>
      cases claimed with
      | none => exact ⟨nofun, nofun⟩
      | some v =>
          dsimp only
          rw [Except.ok.injEq, Except.ok.injEq, Option.some.injEq]
  | error why => exact ⟨nofun, nofun⟩

/-- **What agrees with the value of a field is what decodes to it**, for every type of field. -/
theorem agrees_iff_decode {t : FieldType} {held : t.Value} {j : Json} :
    t.agrees held j = true ↔ t.decode j = .ok held := by
  cases t with
  | text =>
      cases j with
      | null =>
          show held.isEmpty = true ↔ Except.ok "" = Except.ok held
          rw [String.isEmpty_iff, Except.ok.injEq, eq_comm]
      | str s =>
          show (s == held) = true ↔ Except.ok s = Except.ok held
          rw [beq_iff_eq, Except.ok.injEq]
      | bool b => exact ⟨nofun, nofun⟩
      | num x => exact ⟨nofun, nofun⟩
      | arr items => exact ⟨nofun, nofun⟩
      | obj members => exact ⟨nofun, nofun⟩
  | flag =>
      cases j with
      | null =>
          show (!held) = true ↔ Except.ok false = Except.ok held
          rw [Bool.not_eq_true', Except.ok.injEq, eq_comm]
      | bool b =>
          show (b == held) = true ↔ Except.ok b = Except.ok held
          rw [beq_iff_eq, Except.ok.injEq]
      | str s => exact ⟨nofun, nofun⟩
      | num x => exact ⟨nofun, nofun⟩
      | arr items => exact ⟨nofun, nofun⟩
      | obj members => exact ⟨nofun, nofun⟩
  | time =>
      unfold agrees decode
      dsimp only
      cases decodeMaybe Instant.parse? .unexpectedType j with
      | ok claimed =>
          dsimp only
          rw [beq_iff_eq, Except.ok.injEq]
      | error why => exact ⟨nofun, nofun⟩
  | date =>
      unfold agrees decode
      dsimp only
      cases decodeMaybe Date.parse? .invalidFormat j with
      | ok claimed =>
          dsimp only
          rw [beq_iff_eq, Except.ok.injEq]
      | error why => exact ⟨nofun, nofun⟩
  | word c => exact wordAgrees_iff.trans decode_word_iff.symm
  | maybeWord c => exact wordAgrees_iff

/-! ## Spellings -/

/-- Two JSON values are spellings of one value of a field that are not the same: null and false, or two
    texts of one time or date. -/
def Respells : FieldType → Json → Json → Prop
  | .flag, .null, .bool b => b = false
  | .flag, .bool b, .null => b = false
  | .time, .str s, .str t => s ≠ t ∧ ∃ moment, Instant.parse? s = some moment ∧ Instant.parse? t = some moment
  | .date, .str s, .str t => s ≠ t ∧ ∃ day, Date.parse? s = some day ∧ Date.parse? t = some day
  | _, _, _ => False

section

variable {old new : Json}

/-- Values that both stand for nothing are alike. -/
theorem sameEffect_of_isBlank (hold : old.isBlank = true) (hnew : new.isBlank = true) :
    Change.sameEffect old new = true := by
  rw [Change.sameEffect, hold, hnew]
  rfl

/-- Two JSON values of one text are alike. -/
theorem sameEffect_of_text {s : String} (hold : decode .text old = .ok s) (hnew : decode .text new = .ok s) :
    Change.sameEffect old new = true := by
  have hread : ∀ j, decode .text j = .ok s → j = .str s ∨ j = .null ∧ s = "" := by
    intro j h
    cases j with
    | null => exact .inr ⟨rfl, (Except.ok.inj h).symm⟩
    | str t => exact .inl (congrArg Json.str (Except.ok.inj h))
    | _ => cases h
  rcases hread old hold with rfl | ⟨rfl, rfl⟩ <;> rcases hread new hnew with rfl | ⟨rfl, hs⟩
  · exact Change.sameEffect_self _
  · subst hs
    exact sameEffect_of_isBlank rfl rfl
  · exact sameEffect_of_isBlank rfl rfl
  · exact sameEffect_of_isBlank rfl rfl

/-- Two JSON values of one flag are alike, or null and false. -/
theorem sameEffect_or_respells_of_flag {b : Bool} (hold : decode .flag old = .ok b)
    (hnew : decode .flag new = .ok b) : Change.sameEffect old new = true ∨ Respells .flag old new := by
  have hread : ∀ j, decode .flag j = .ok b → j = .bool b ∨ j = .null ∧ b = false := by
    intro j h
    cases j with
    | null => exact .inr ⟨rfl, (Except.ok.inj h).symm⟩
    | bool x => exact .inl (congrArg Json.bool (Except.ok.inj h))
    | _ => cases h
  rcases hread old hold with rfl | ⟨rfl, rfl⟩ <;> rcases hread new hnew with rfl | ⟨rfl, hb⟩
  · exact .inl (Change.sameEffect_self _)
  · exact .inr hb
  · exact .inr rfl
  · exact .inl (sameEffect_of_isBlank rfl rfl)

/-- Two JSON values of one value that may be absent are alike, or different strings that are read alike. -/
theorem sameEffect_or_read_of_decodeMaybe {α : Type} {read : String → Option α} {unread : ValueFault}
    {x : Option α} (hold : decodeMaybe read unread old = .ok x) (hnew : decodeMaybe read unread new = .ok x) :
    Change.sameEffect old new = true ∨ ∃ (s t : String) (a : α), old = .str s ∧ new = .str t ∧ s ≠ t ∧
      read s = some a ∧ read t = some a := by
  cases x with
  | none =>
      rw [decodeMaybe_eq_none_iff] at hold hnew
      exact .inl (sameEffect_of_isBlank hold hnew)
  | some a =>
      obtain ⟨s, rfl, _, hs⟩ := decodeMaybe_eq_some_iff.mp hold
      obtain ⟨t, rfl, _, ht⟩ := decodeMaybe_eq_some_iff.mp hnew
      by_cases hst : s = t
      · subst hst
        exact .inl (Change.sameEffect_self _)
      · exact .inr ⟨s, t, a, rfl, rfl, hst, hs, ht⟩

/-- Two JSON values of one word are alike: a word has one text. -/
theorem sameEffect_of_word {ω : Type} [Word ω] {w : Option ω} {unread : ValueFault}
    (hold : decodeMaybe Word.ofText? unread old = .ok w)
    (hnew : decodeMaybe Word.ofText? unread new = .ok w) :
    Change.sameEffect old new = true := by
  refine (sameEffect_or_read_of_decodeMaybe hold hnew).resolve_right ?_
  rintro ⟨s, t, a, _, _, hst, hs, ht⟩
  exact hst ((Word.ofText?_eq_some_iff.mp hs).symm.trans (Word.ofText?_eq_some_iff.mp ht))

end

/-- Two JSON values of one value of a field are alike, or one respells the other. -/
theorem sameEffect_or_respells {t : FieldType} {v : t.Value} {old new : Json} (hold : t.decode old = .ok v)
    (hnew : t.decode new = .ok v) : Change.sameEffect old new = true ∨ t.Respells old new := by
  cases t with
  | text => exact .inl (sameEffect_of_text hold hnew)
  | flag => exact sameEffect_or_respells_of_flag hold hnew
  | time =>
      refine (sameEffect_or_read_of_decodeMaybe hold hnew).imp_right ?_
      rintro ⟨s, t, moment, rfl, rfl, hst, hs, ht⟩
      exact ⟨hst, moment, hs, ht⟩
  | date =>
      refine (sameEffect_or_read_of_decodeMaybe hold hnew).imp_right ?_
      rintro ⟨s, t, day, rfl, rfl, hst, hs, ht⟩
      exact ⟨hst, day, hs, ht⟩
  | word c => exact .inl (sameEffect_of_word (decode_word_iff.mp hold) (decode_word_iff.mp hnew))
  | maybeWord c => exact .inl (sameEffect_of_word hold hnew)

/-- A string that is read is decoded, where the empty one is not read. -/
theorem decodeMaybe_of_read {α : Type} {read : String → Option α} {unread : ValueFault} {s : String} {a : α}
    (hempty : read "" = none) (h : read s = some a) : decodeMaybe read unread (.str s) = .ok (some a) := by
  refine decodeMaybe_eq_some_iff.mpr ⟨s, rfl, Bool.eq_false_iff.mpr fun hs => ?_, h⟩
  rw [String.isEmpty_iff.mp hs, hempty] at h
  exact absurd h.symm (Option.some_ne_none a)

/-- Spellings of one value are decoded to it. -/
theorem eq_of_respells {t : FieldType} {v w : t.Value} {old new : Json} (h : t.Respells old new)
    (hold : t.decode old = .ok v) (hnew : t.decode new = .ok w) : w = v := by
  unfold Respells at h
  split at h
  · subst h
    exact Except.ok.inj (hnew.symm.trans hold)
  · subst h
    exact Except.ok.inj (hnew.symm.trans hold)
  · obtain ⟨_, moment, hs, ht⟩ := h
    have hread : ∀ {s : String} {x : Option Instant}, Instant.parse? s = some moment →
        decode .time (.str s) = .ok x → x = some moment :=
      fun hs hx => Except.ok.inj (hx.symm.trans (decodeMaybe_of_read rfl hs))
    exact (hread ht hnew).trans (hread hs hold).symm
  · obtain ⟨_, day, hs, ht⟩ := h
    have hread : ∀ {s : String} {x : Option Date}, Date.parse? s = some day →
        decode .date (.str s) = .ok x → x = some day :=
      fun hs hx => Except.ok.inj (hx.symm.trans (decodeMaybe_of_read rfl hs))
    exact (hread ht hnew).trans (hread hs hold).symm
  · exact h.elim

/-- **A change that is not redundant leaves the value of a field if and only if it respells it.** -/
theorem eq_iff_respells {t : FieldType} {held v : t.Value} {old new : Json} (hold : t.agrees held old = true)
    (hnew : t.decode new = .ok v) (hchanges : Change.sameEffect old new = false) :
    v = held ↔ t.Respells old new := by
  have hdecode := agrees_iff_decode.mp hold
  refine ⟨?_, fun h => eq_of_respells h hdecode hnew⟩
  rintro rfl
  exact (sameEffect_or_respells hdecode hnew).resolve_left (Bool.eq_false_iff.mp hchanges)

end FieldType

end PowerOfAttorney
