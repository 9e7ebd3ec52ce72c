import Mathlib.Algebra.Group.Nat.Defs
import PowerOfAttorney.Cbor.Item
import PowerOfAttorney.Proofs.Time.Calendar
import PowerOfAttorney.Register.Audit

/-!
# `PowerOfAttorney.Proofs.Time.Instant` — the text of an instant reads as the instant

An instant is kept twice: as text in a document, and as a count of nanoseconds in an audit record. A
text can be read back if the year is one of four digits; before and after those years a sign stands in
front, and no year with a sign is read. The instants that have a count of 64 bits are those from 1677 to
2262 outside leap seconds; for them both forms can be read back.

## Contents
- **Instants.** `Instant.IsWritable` and `Instant.IsStorable`.
- **Numerals.** `Decimal.fixed?_padded` reads what was padded to the same width.
- **Parts.** `isWritable_of_isStorable`, `fraction?_fractionChars`.
- **Texts.** `Instant.parse?_text_eq_some_iff`, which tells which instants are read back, and as what.
-/

namespace PowerOfAttorney

/-! ## Instants -/

/-- The year of the instant is one of four digits. -/
def Instant.IsWritable (t : Instant) : Prop :=
  0 ≤ (Calendar.ofDayNumber (t.second / 86400)).1 ∧ (Calendar.ofDayNumber (t.second / 86400)).1 ≤ 9999

instance (t : Instant) : Decidable t.IsWritable :=
  inferInstanceAs (Decidable (_ ∧ _))

/-- The instant is in no leap second, and its nanoseconds fit 64 bits with a sign. -/
def Instant.IsStorable (t : Instant) : Prop :=
  t.isLeap = false ∧ -9223372036854775808 ≤ t.nanoseconds ∧ t.nanoseconds ≤ 9223372036854775807

instance (t : Instant) : Decidable t.IsStorable :=
  inferInstanceAs (Decidable (_ ∧ _))

/-! ## Numerals -/

namespace Decimal

theorem isDigit_of_mem_padded {width n : Nat} {c : Char} (h : c ∈ padded width n) :
    c.isDigit = true := by
  unfold padded at h
  rcases List.mem_append.mp h with h | h
  · rw [List.eq_of_mem_replicate h]
    rfl
  · exact Nat.isDigit_of_mem_toDigits (by decide) (by decide) h

theorem length_padded {width n : Nat} (hwidth : 0 < width) (h : n < 10 ^ width) :
    (padded width n).length = width := by
  have hdigits : (digits n).length ≤ width :=
    (Nat.length_toDigits_le_iff (by decide) hwidth).mpr h
  unfold padded
  rw [List.length_append, List.length_replicate]
  omega

/-- A padded numeral is read as its number. -/
theorem fixed?_padded {width n : Nat} (hwidth : 0 < width) (h : n < 10 ^ width) (rest : List Char) :
    fixed? width (padded width n ++ rest) = some (n, rest) := by
  have hlength := length_padded hwidth h
  unfold fixed?
  rw [List.take_left' hlength, List.drop_left' hlength]
  dsimp only
  rw [value_padded]
  exact if_pos ⟨hlength, List.all_eq_true.mpr fun _ => isDigit_of_mem_padded⟩

/-- A padded numeral ends where no digit follows. -/
theorem takeWhile_padded (width n : Nat) {c : Char} (hc : c.isDigit = false) (rest : List Char) :
    (padded width n ++ c :: rest).takeWhile Char.isDigit = padded width n ∧
      (padded width n ++ c :: rest).dropWhile Char.isDigit = c :: rest := by
  have hdigits : ∀ d ∈ padded width n, d.isDigit = true := fun _ => isDigit_of_mem_padded
  have hend : ¬ c.isDigit = true := by simp [hc]
  constructor
  · rw [List.takeWhile_append_of_pos hdigits, List.takeWhile_cons_of_neg hend, List.append_nil]
  · rw [List.dropWhile_append_of_pos hdigits, List.dropWhile_cons_of_neg hend]

end Decimal

namespace Instant

/-! ## Parts -/

/-- A storable instant is in a year of four digits. -/
theorem isWritable_of_isStorable {t : Instant} (h : t.IsStorable) : t.IsWritable := by
  obtain ⟨hleap, hlow, hhigh⟩ := h
  have hnano : t.nano < 1000000000 := by simpa [isLeap] using hleap
  unfold nanoseconds at hlow hhigh
  have hday : -106752 ≤ t.second / 86400 ∧ t.second / 86400 ≤ 106752 := by omega
  obtain ⟨a, c, q, e, r, hyear, hn, hc, hq, he, hr, _⟩ :=
    Calendar.yearOf_parts (t.second / 86400 + Calendar.epoch)
  show 0 ≤ Calendar.yearOf _ ∧ Calendar.yearOf _ ≤ 9999
  unfold Calendar.epoch at hn
  rw [hyear]
  omega

/-- A fraction is read as the nanoseconds that it was written from. -/
theorem fraction?_fractionChars {nano : Nat} (h : nano < 1000000000) (rest : List Char) :
    fraction? (fractionChars nano ++ 'Z' :: rest) = some (nano, 'Z' :: rest) := by
  have hread : ∀ width n, 0 < width → width ≤ 9 → n < 10 ^ width →
      fraction? ('.' :: Decimal.padded width n ++ 'Z' :: rest) =
        some (n * 10 ^ (9 - width), 'Z' :: rest) := by
    intro width n hwidth hnine hn
    have hlength := Decimal.length_padded hwidth hn
    obtain ⟨htake, hdrop⟩ := Decimal.takeWhile_padded width n (c := 'Z') (by decide) rest
    rw [List.cons_append, fraction?]
    rw [htake, hdrop, List.take_of_length_le (by omega), hlength, Decimal.value_padded,
      if_neg (by rw [List.isEmpty_iff, ← List.length_eq_zero_iff]; omega)]
    rfl
  unfold fractionChars
  split
  · rename_i hzero
    rw [hzero]
    rfl
  split
  · rw [hread 3 (nano / 1000000) (by decide) (by decide) (by omega)]
    congr 2
    omega
  split
  · rw [hread 6 (nano / 1000) (by decide) (by decide) (by omega)]
    congr 2
    omega
  · rw [hread 9 nano (by decide) (by decide) h]
    congr 2
    omega

/-! ## Texts -/

theorem expect?_cons (c : Char) (cs : List Char) : expect? c (c :: cs) = some cs :=
  if_pos rfl

theorem separator?_T (cs : List Char) : separator? ('T' :: cs) = some cs := rfl

theorem offset?_Z : offset? ['Z'] = some (0, []) := rfl

/-- What comes after a part goes on from what the part gave. -/
theorem bind_of_eq_some {α β : Type} {x : Option α} {a : α} (h : x = some a) {f : α → Option β} :
    (x >>= f) = f a := by
  rw [h]
  rfl

/-- An instant is made of its day and the time of the day. -/
theorem secondOf_parts (second : Int) :
    secondOf (second / 86400) ((second % 86400).toNat / 3600) ((second % 86400).toNat / 60 % 60)
      ((second % 86400).toNat % 60) = second := by
  unfold secondOf
  omega

/-- The second of the minute that is written, 60 in a leap second. -/
def writtenSecond (t : Instant) : Nat :=
  if t.isLeap then 60 else (t.second % 86400).toNat % 60

/-- The nanoseconds that are written, those after the leap second in one. -/
def writtenNano (t : Instant) : Nat :=
  if t.isLeap then t.nano - 1000000000 else t.nano

theorem writtenSecond_le (t : Instant) : t.writtenSecond ≤ 60 := by
  unfold writtenSecond
  split <;> omega

theorem writtenNano_lt (t : Instant) : t.writtenNano < 1000000000 := by
  have hvalid := t.valid
  unfold writtenNano isLeap
  split
  · omega
  · rename_i hleap
    simpa using hleap

/-- What was written of the time is the time. -/
theorem mk?_written (t : Instant) :
    mk? t.second (if t.writtenSecond = 60 then t.writtenNano + 1000000000 else t.writtenNano) = some t := by
  have hnano : (if t.writtenSecond = 60 then t.writtenNano + 1000000000 else t.writtenNano) = t.nano := by
    unfold writtenSecond writtenNano
    cases hleap : t.isLeap with
    | true =>
        have : 1000000000 ≤ t.nano := by simpa [isLeap] using hleap
        simp
        omega
    | false =>
        have : ¬ (t.second % 86400).toNat % 60 = 60 := by omega
        simp [this]
  rw [hnano]
  exact dif_pos t.valid

/-- The second of the minute that counts is the written one, or the one before a leap second. -/
theorem min_writtenSecond (t : Instant) : min t.writtenSecond 59 = (t.second % 86400).toNat % 60 := by
  have hvalid := t.valid
  unfold writtenSecond isLeap
  split
  · rename_i hleap
    have : 1000000000 ≤ t.nano := by simpa using hleap
    omega
  · omega

/-- An instant as written: year, month, day, hour, minute, second and fraction, each with its mark. -/
theorem chars_eq (t : Instant) {year : Int} {month day : Nat}
    (hof : Calendar.ofDayNumber (t.second / 86400) = (year, month, day)) :
    t.chars = Calendar.yearChars year ++ '-' :: (Decimal.padded 2 month ++
      '-' :: (Decimal.padded 2 day ++ 'T' :: (Decimal.padded 2 ((t.second % 86400).toNat / 3600) ++
      ':' :: (Decimal.padded 2 ((t.second % 86400).toNat / 60 % 60) ++
      ':' :: (Decimal.padded 2 t.writtenSecond ++ (fractionChars t.writtenNano ++ ['Z'])))))) := by
  have hvalid := t.valid
  unfold chars writtenSecond writtenNano
  rw [hof]
  cases hleap : t.isLeap with
  | true =>
      have hnano : 1000000000 ≤ t.nano := by simpa [isLeap] using hleap
      have hsecond : (t.second % 86400).toNat % 60 + 1 = 60 := by omega
      simp [hsecond]
  | false => simp

/-- **The text of an instant in a year of four digits reads as the instant.** -/
theorem parse?_text_of_isWritable {t : Instant} (h : t.IsWritable) : parse? t.text = some t := by
  obtain ⟨hyear0, hyear⟩ := h
  have hday := Calendar.isDay_ofDayNumber (t.second / 86400)
  have hcount := Calendar.dayNumber_ofDayNumber (t.second / 86400)
  obtain ⟨year, month, day, hof⟩ : ∃ y m d, Calendar.ofDayNumber (t.second / 86400) = (y, m, d) :=
    ⟨_, _, _, rfl⟩
  rw [hof] at hyear0 hyear hday hcount
  dsimp only at hyear0 hyear hday hcount
  obtain ⟨y, rfl⟩ : ∃ y : Nat, year = y := ⟨year.toNat, by omega⟩
  have hyearChars : Calendar.yearChars y = Decimal.padded 4 y := by
    simp [Calendar.yearChars, show ¬ ((y : Int) < 0) by omega, show (y : Int) ≤ 9999 by omega]
  have hmonth12 : month ≤ 12 := hday.2.1
  have hday31 : day ≤ 31 := Nat.le_trans hday.2.2.2 (Calendar.daysInMonth_le _ month)
  have hsecond := min_writtenSecond t
  have hsecond60 := t.writtenSecond_le
  have hread4 : ∀ n < 10 ^ 4, ∀ rest, Decimal.fixed? 4 (Decimal.padded 4 n ++ rest) = some (n, rest) :=
    fun _ hn => Decimal.fixed?_padded (by decide) hn
  have hread2 : ∀ n < 10 ^ 2, ∀ rest, Decimal.fixed? 2 (Decimal.padded 2 n ++ rest) = some (n, rest) :=
    fun _ hn => Decimal.fixed?_padded (by decide) hn
  unfold parse? text
  rw [String.toList_ofList, chars_eq t hof, hyearChars]
  unfold ofChars?
  -- One part after the other, each with the mark that follows it.
  refine (bind_of_eq_some (hread4 y (by omega) _)).trans ?_
  refine (bind_of_eq_some (expect?_cons _ _)).trans ?_
  refine (bind_of_eq_some (hread2 month (by omega) _)).trans ?_
  refine (bind_of_eq_some (expect?_cons _ _)).trans ?_
  refine (bind_of_eq_some (hread2 day (by omega) _)).trans ?_
  refine (bind_of_eq_some (separator?_T _)).trans ?_
  refine (bind_of_eq_some (hread2 ((t.second % 86400).toNat / 3600) (by omega) _)).trans ?_
  refine (bind_of_eq_some (expect?_cons _ _)).trans ?_
  refine (bind_of_eq_some (hread2 ((t.second % 86400).toNat / 60 % 60) (by omega) _)).trans ?_
  refine (bind_of_eq_some (expect?_cons _ _)).trans ?_
  refine (bind_of_eq_some (hread2 t.writtenSecond (by omega) _)).trans ?_
  refine (bind_of_eq_some (fraction?_fractionChars t.writtenNano_lt [])).trans ?_
  refine (bind_of_eq_some offset?_Z).trans ?_
  refine (if_pos ⟨rfl, hday, by omega, by omega, hsecond60⟩).trans ?_
  rw [hcount, hsecond, secondOf_parts, Int.mul_zero, Int.sub_zero]
  exact mk?_written t

/-- A text that begins with a sign is no instant. -/
theorem ofChars?_of_sign {c : Char} (h : c.isDigit = false) (cs : List Char) :
    ofChars? (c :: cs) = none := by
  have hfixed : Decimal.fixed? 4 (c :: cs) = none := by
    unfold Decimal.fixed?
    simp [h]
  unfold ofChars?
  rw [hfixed]
  rfl

theorem parse?_text_of_not_isWritable {t : Instant} (h : ¬ t.IsWritable) : parse? t.text = none := by
  obtain ⟨year, month, day, hof⟩ : ∃ y m d, Calendar.ofDayNumber (t.second / 86400) = (y, m, d) :=
    ⟨_, _, _, rfl⟩
  unfold IsWritable at h
  rw [hof] at h
  dsimp only at h
  unfold parse? text
  rw [String.toList_ofList, chars_eq t hof]
  unfold Calendar.yearChars
  split
  · exact ofChars?_of_sign (by decide) _
  split
  · omega
  · exact ofChars?_of_sign (by decide) _

/-- **An instant is read back exactly if its year is one of four digits.** -/
theorem parse?_text_eq_some_iff {t t' : Instant} : parse? t.text = some t' ↔ t.IsWritable ∧ t' = t := by
  by_cases h : t.IsWritable
  · rw [parse?_text_of_isWritable h, Option.some.injEq]
    exact ⟨fun heq => ⟨h, heq.symm⟩, fun heq => heq.2.symm⟩
  · rw [parse?_text_of_not_isWritable h]
    exact ⟨nofun, fun heq => absurd heq.1 h⟩

/-- **The text of a storable instant reads as the instant.** -/
theorem parse?_text {t : Instant} (h : t.IsStorable) : parse? t.text = some t :=
  parse?_text_of_isWritable (isWritable_of_isStorable h)

end Instant

end PowerOfAttorney
