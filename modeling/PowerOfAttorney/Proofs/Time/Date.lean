import PowerOfAttorney.Proofs.Time.Instant
import PowerOfAttorney.Time.Date

/-!
# `PowerOfAttorney.Proofs.Time.Date` — the text of a date reads as the date

A year outside of 0 to 9999 is written with a sign, and a reader of dates takes a sign. So unlike an
instant every date is read back.

## Contents
- **Numerals.** `Decimal.upTo?_padded` and `Decimal.many?_padded`.
- **Parts.** `Date.year?_yearChars`.
- **Texts.** `Date.parse?_text`.
-/

namespace PowerOfAttorney

/-! ## Numerals -/

namespace Decimal

/-- A padded numeral is read as its number, if it has as many digits as are read at most. -/
theorem upTo?_padded {width n : Nat} (hwidth : 0 < width) (h : n < 10 ^ width) (rest : List Char) :
    upTo? width (padded width n ++ rest) = some (n, rest) := by
  have hlength := length_padded hwidth h
  have hdigits : (padded width n).takeWhile Char.isDigit = padded width n := by
    have happend : (padded width n ++ []).takeWhile Char.isDigit =
        padded width n ++ [].takeWhile Char.isDigit :=
      List.takeWhile_append_of_pos fun _ => isDigit_of_mem_padded
    rwa [List.append_nil, List.takeWhile_nil, List.append_nil] at happend
  unfold upTo?
  dsimp only
  rw [List.take_left' hlength, hdigits, value_padded, List.drop_left' rfl,
    if_neg (by rw [List.isEmpty_iff, ← List.length_eq_zero_iff]; omega)]

/-- A padded numeral is read as its number, if no digit follows. -/
theorem many?_padded {width : Nat} (hwidth : 0 < width) (n : Nat) {c : Char} (hc : c.isDigit = false)
    (rest : List Char) : many? (padded width n ++ c :: rest) = some (n, c :: rest) := by
  obtain ⟨htake, hdrop⟩ := takeWhile_padded width n hc rest
  have hne : padded width n ≠ [] := by
    unfold padded
    intro hnil
    have hlength := congrArg List.length hnil
    rw [List.length_append, List.length_replicate, List.length_nil] at hlength
    omega
  unfold many?
  dsimp only
  rw [htake, hdrop, value_padded, if_neg (by rw [List.isEmpty_iff]; exact hne)]

/-- A padded numeral begins with a digit. -/
theorem exists_padded {width : Nat} (hwidth : 0 < width) (n : Nat) :
    ∃ c cs, padded width n = c :: cs ∧ c.isDigit = true := by
  cases hpadded : padded width n with
  | nil =>
      have hmany := many?_padded hwidth n (c := '-') (by decide) []
      rw [hpadded] at hmany
      exact absurd hmany nofun
  | cons c cs => exact ⟨c, cs, rfl, isDigit_of_mem_padded (hpadded ▸ List.mem_cons_self)⟩

end Decimal

/-! ## Parts -/

/-- No digit is a blank. -/
theorem Text.isBlank_of_isDigit {c : Char} (h : c.isDigit = true) : isBlank c = false := by
  have hrange : 48 ≤ c.toNat ∧ c.toNat ≤ 57 := by simpa [Char.isDigit, UInt32.le_iff_toNat_le] using h
  unfold isBlank
  simp
  omega

/-- No blank comes before a padded numeral. -/
theorem Text.dropBlanks_padded {width : Nat} (hwidth : 0 < width) (n : Nat) (rest : List Char) :
    dropBlanks (Decimal.padded width n ++ rest) = Decimal.padded width n ++ rest := by
  obtain ⟨c, cs, hpadded, hdigit⟩ := Decimal.exists_padded hwidth n
  rw [hpadded]
  exact dropBlanks_cons_of_not_isBlank (isBlank_of_isDigit hdigit)

namespace Date

theorem dropBlanks_yearChars (year : Int) (rest : List Char) :
    Text.dropBlanks (Calendar.yearChars year ++ rest) = Calendar.yearChars year ++ rest := by
  unfold Calendar.yearChars
  split
  · exact Text.dropBlanks_cons_of_not_isBlank (by decide)
  split
  · exact Text.dropBlanks_padded (by decide) _ _
  · exact Text.dropBlanks_cons_of_not_isBlank (by decide)

/-- A year is read without its sign if it begins with a digit. -/
theorem year?_of_isDigit {c : Char} (h : c.isDigit = true) (cs : List Char) :
    year? (c :: cs) = (Decimal.upTo? 4 (c :: cs)).map fun (n, rest) => ((n : Int), rest) := by
  unfold year?
  split
  · rename_i heq
    rw [(List.cons.inj heq).1] at h
    exact absurd h (by decide)
  · rename_i heq
    rw [(List.cons.inj heq).1] at h
    exact absurd h (by decide)
  · rfl

/-- Every year is read back. -/
theorem year?_yearChars (year : Int) (rest : List Char) :
    year? (Calendar.yearChars year ++ '-' :: rest) = some (year, '-' :: rest) := by
  unfold Calendar.yearChars
  split
  · rw [List.cons_append, year?, Decimal.many?_padded (by decide) _ (by decide), Option.map_some]
    show some (-(year.natAbs : Int), _) = _
    rw [show -(year.natAbs : Int) = year by omega]
  split
  · have hread : Decimal.upTo? 4 (Decimal.padded 4 year.toNat ++ '-' :: rest) =
        some (year.toNat, '-' :: rest) := Decimal.upTo?_padded (by decide) (by omega) _
    obtain ⟨c, cs, hpadded, hdigit⟩ := Decimal.exists_padded (show 0 < 4 by decide) year.toNat
    rw [hpadded, List.cons_append] at hread ⊢
    rw [year?_of_isDigit hdigit, hread, Option.map_some]
    show some ((year.toNat : Int), _) = _
    rw [show (year.toNat : Int) = year by omega]
  · rw [List.cons_append, year?, Decimal.many?_padded (by decide) _ (by decide), Option.map_some]
    show some ((year.toNat : Int), _) = _
    rw [show (year.toNat : Int) = year by omega]

theorem hyphen?_cons (cs : List Char) : hyphen? ('-' :: cs) = some cs := rfl

/-! ## Texts -/

/-- **The text of a date reads as the date.** -/
theorem parse?_text (d : Date) : parse? d.text = some d := by
  have hmonth12 : d.month ≤ 12 := d.valid.1.2.1
  have hday31 : d.day ≤ 31 := Nat.le_trans d.valid.1.2.2.2 (Calendar.daysInMonth_le _ _)
  have hread2 : ∀ n < 10 ^ 2, ∀ rest,
      Decimal.upTo? 2 (Text.dropBlanks (Decimal.padded 2 n ++ rest)) = some (n, rest) := by
    intro n hn rest
    rw [Text.dropBlanks_padded (by decide)]
    exact Decimal.upTo?_padded (by decide) hn rest
  have hchars : d.chars = Calendar.yearChars d.year ++ '-' ::
      (Decimal.padded 2 d.month ++ '-' :: (Decimal.padded 2 d.day ++ [])) := by
    simp [chars]
  unfold parse? text
  rw [String.toList_ofList, hchars]
  unfold ofChars?
  rw [dropBlanks_yearChars]
  refine (Instant.bind_of_eq_some (year?_yearChars _ _)).trans ?_
  refine (Instant.bind_of_eq_some (hyphen?_cons _)).trans ?_
  refine (Instant.bind_of_eq_some (hread2 d.month (by omega) _)).trans ?_
  refine (Instant.bind_of_eq_some (hyphen?_cons _)).trans ?_
  refine (Instant.bind_of_eq_some (hread2 d.day (by omega) [])).trans ?_
  exact of?_self d

end Date

end PowerOfAttorney
