import Mathlib.Data.List.Lex
import Mathlib.Tactic.SplitIfs
import PowerOfAttorney.Text.Bytes

/-!
# `PowerOfAttorney.Proofs.Text.ByteOrder` — texts are in the order of their bytes

Texts are compared character by character, while maps and stores compare bytes. The two orders are one:
UTF-8 writes a larger character with more bytes, which begin with a larger one, or with as many, which are
the digits of a larger number.

## Contents
- **Digits.** `lt_iff_div_mod`, one digit at a time.
- **Characters.** `utf8EncodeChar_append_lt`, whatever follows the characters.
- **Texts.** `Bytes.ofString_lt_iff`.
-/

namespace PowerOfAttorney

/-! ## Digits -/

/-- A number is smaller if what is before its last digit is, or that is the same and the digit is smaller. -/
theorem lt_iff_div_mod (n : Nat) {v w : Nat} :
    v < w ↔ v / n < w / n ∨ v / n = w / n ∧ v % n < w % n := by
  have hv := Nat.div_add_mod v n
  have hw := Nat.div_add_mod w n
  constructor
  · intro hlt
    rcases Nat.lt_or_eq_of_le (Nat.div_le_div_right (c := n) hlt.le) with hdiv | hdiv
    · exact Or.inl hdiv
    · rw [hdiv] at hv
      exact Or.inr ⟨hdiv, by omega⟩
  · rintro (hdiv | ⟨hdiv, hmod⟩)
    · by_contra hle
      exact absurd (Nat.div_le_div_right (c := n) (Nat.le_of_not_lt hle)) (Nat.not_le.mpr hdiv)
    · rw [hdiv] at hv
      omega

/-! ## Characters -/

/-- The bytes of a smaller character come first, whatever follows. -/
theorem utf8EncodeChar_append_lt {c d : Char} (h : c < d) (xs ys : Bytes) :
    String.utf8EncodeChar c ++ xs < String.utf8EncodeChar d ++ ys := by
  have hlt : c.val.toNat < d.val.toNat := h
  have hmax : d.val.toNat < 1114112 := by
    rcases d.valid with hsmall | hlarge
    · exact Nat.lt_trans hsmall (by decide)
    · exact hlarge.2
  unfold String.utf8EncodeChar
  dsimp only
  generalize c.val.toNat = v at *
  generalize d.val.toNat = w at *
  -- The last bytes are digits to the base 64, so numbers of as many bytes are compared digit by digit.
  have hdigits := hlt
  rw [lt_iff_div_mod 64, lt_iff_div_mod 64 (v := v / 64), lt_iff_div_mod 64 (v := v / 64 / 64),
    Nat.div_div_eq_div_mul, Nat.div_div_eq_div_mul, Nat.div_div_eq_div_mul,
    Nat.div_div_eq_div_mul] at hdigits
  split_ifs
  all_goals
    simp only [List.cons_append, List.nil_append, List.cons_lt_cons_iff, UInt8.lt_iff_toNat_lt,
      ← UInt8.toNat_inj, UInt8.toNat_ofNat']
    simp (disch := omega) only [Nat.mod_eq_of_lt]
    omega

/-! ## Texts -/

theorem flatMap_utf8EncodeChar_lt {cs ds : List Char} (h : cs < ds) :
    cs.flatMap String.utf8EncodeChar < ds.flatMap String.utf8EncodeChar := by
  induction ds generalizing cs with
  | nil => exact absurd h (List.not_lt_nil cs)
  | cons d ds ih =>
      rw [List.flatMap_cons]
      cases cs with
      | nil =>
          obtain ⟨b, bs, hb⟩ := List.exists_cons_of_ne_nil (String.utf8EncodeChar_ne_nil (c := d))
          rw [hb]
          exact List.nil_lt_cons b _
      | cons c cs =>
          rw [List.flatMap_cons]
          rcases List.cons_lt_cons_iff.mp h with hlt | ⟨rfl, hlt⟩
          · exact utf8EncodeChar_append_lt hlt _ _
          · exact List.append_left_lt (ih hlt)

theorem Bytes.ofString_eq_flatMap (s : String) :
    ofString s = s.toList.flatMap String.utf8EncodeChar := by
  unfold ofString
  rw [String.toUTF8, ← String.utf8Encode_toList, List.utf8Encode, List.data_toByteArray]

/-- **The bytes of texts are in the order of the texts.** -/
theorem Bytes.ofString_lt_iff {s t : String} : ofString s < ofString t ↔ s < t := by
  have hmono : ∀ {s t : String}, s < t → ofString s < ofString t := by
    intro s t hlt
    rw [ofString_eq_flatMap, ofString_eq_flatMap]
    exact flatMap_utf8EncodeChar_lt (String.lt_iff.mp hlt)
  refine ⟨fun hbytes => ?_, hmono⟩
  by_contra hnot
  by_cases hgt : t < s
  · exact List.lt_asymm hbytes (hmono hgt)
  · obtain rfl : s = t := String.le_antisymm (String.not_lt.mp hgt) (String.not_lt.mp hnot)
    exact List.lt_irrefl _ hbytes

end PowerOfAttorney
