import PowerOfAttorney.Proofs.Time.Date

/-!
# `PowerOfAttorney.Proofs.Time.Canonical` — one text for each instant

An instant is read from many texts: in any offset, with any number of digits of fraction, and with the
second 60 for a leap second. It is written as one of them, in UTC. No two instants share that text, even
in the years that are written with a sign and cannot be read back: a year ends at the hyphen that follows
it, and every other part has its width or ends with the text.

## Contents
- **Parts.** `eq_of_reads`: what is read off equal texts is equal.
- **Instants.** `Instant.eq_of_parts`, and `Instant.chars_injective`.
- **Texts.** `Instant.text_canonical`.
-/

namespace PowerOfAttorney

/-! ## Parts -/

/-- What is read off equal texts is equal, and so is what is left of them. -/
theorem eq_of_reads {α : Type} {read : List Char → Option (α × List Char)} {a b : α} {xs ys cs ds : List Char}
    (heq : xs = ys) (ha : read xs = some (a, cs)) (hb : read ys = some (b, ds)) : a = b ∧ cs = ds := by
  rw [heq, hb] at ha
  obtain ⟨hvalue, hrest⟩ := Prod.mk.inj (Option.some.inj ha)
  exact ⟨hvalue.symm, hrest.symm⟩

/-- As many digits as a padded numeral has tell which number it is. -/
theorem Decimal.padded_append_inj {width m n : Nat} (hwidth : 0 < width) (hm : m < 10 ^ width)
    (hn : n < 10 ^ width) {cs ds : List Char} (h : padded width m ++ cs = padded width n ++ ds) :
    m = n ∧ cs = ds :=
  eq_of_reads h (fixed?_padded hwidth hm cs) (fixed?_padded hwidth hn ds)

/-- The hyphen after a year tells where it ends. -/
theorem Calendar.yearChars_append_inj {y z : Int} {cs ds : List Char}
    (h : yearChars y ++ '-' :: cs = yearChars z ++ '-' :: ds) : y = z ∧ cs = ds := by
  obtain ⟨hyear, hrest⟩ := eq_of_reads h (Date.year?_yearChars y cs) (Date.year?_yearChars z ds)
  exact ⟨hyear, (List.cons.inj hrest).2⟩

/-- The parts of a day, each as wide as it is written. -/
theorem Calendar.exists_ofDayNumber (d : Int) :
    ∃ year month day, ofDayNumber d = (year, month, day) ∧ dayNumber year month day = d ∧
      month < 10 ^ 2 ∧ day < 10 ^ 2 := by
  obtain ⟨year, month, day, hof⟩ : ∃ y m d', ofDayNumber d = (y, m, d') := ⟨_, _, _, rfl⟩
  have hcount := dayNumber_ofDayNumber d
  have hisDay := isDay_ofDayNumber d
  rw [hof] at hcount hisDay
  dsimp only at hisDay
  have hlength := daysInMonth_le (isLeap year) month
  obtain ⟨_, hmonth, _, hday⟩ := hisDay
  exact ⟨year, month, day, hof, hcount, by omega, by omega⟩

namespace Instant

/-- The `Z` after a fraction tells where it ends. -/
theorem fractionChars_inj {m n : Nat} (hm : m < 1000000000) (hn : n < 1000000000)
    (h : fractionChars m ++ ['Z'] = fractionChars n ++ ['Z']) : m = n :=
  (eq_of_reads h (fraction?_fractionChars hm []) (fraction?_fractionChars hn [])).1

/-! ## Instants -/

/-- Instants of one day, time of day and fraction, as they are written, are the same. -/
theorem eq_of_parts {t u : Instant} (hday : t.second / 86400 = u.second / 86400)
    (hhour : (t.second % 86400).toNat / 3600 = (u.second % 86400).toNat / 3600)
    (hminute : (t.second % 86400).toNat / 60 % 60 = (u.second % 86400).toNat / 60 % 60)
    (hsecond : t.writtenSecond = u.writtenSecond) (hnano : t.writtenNano = u.writtenNano) : t = u := by
  have hsec : (t.second % 86400).toNat % 60 = (u.second % 86400).toNat % 60 := by
    rw [← min_writtenSecond, ← min_writtenSecond, hsecond]
  have hcount : t.second = u.second := by
    rw [← secondOf_parts t.second, ← secondOf_parts u.second, hday, hhour, hminute, hsec]
  have hmk := mk?_written t
  rw [hcount, hsecond, hnano, mk?_written u] at hmk
  exact (Option.some.inj hmk).symm

/-- **Different instants have different texts**, in whatever year they are. -/
theorem chars_injective {t u : Instant} (h : t.chars = u.chars) : t = u := by
  obtain ⟨year, month, day, hof, hcount, hmonth, hday⟩ := Calendar.exists_ofDayNumber (t.second / 86400)
  obtain ⟨year', month', day', hof', hcount', hmonth', hday'⟩ :=
    Calendar.exists_ofDayNumber (u.second / 86400)
  have hsecond := t.writtenSecond_le
  have hsecond' := u.writtenSecond_le
  have hcut : ∀ {m n : Nat}, m < 10 ^ 2 → n < 10 ^ 2 → ∀ {c : Char} {cs ds : List Char},
      Decimal.padded 2 m ++ c :: cs = Decimal.padded 2 n ++ c :: ds → m = n ∧ cs = ds := by
    intro m n hm hn c cs ds heq
    obtain ⟨hvalue, hrest⟩ := Decimal.padded_append_inj (by decide) hm hn heq
    exact ⟨hvalue, (List.cons.inj hrest).2⟩
  rw [chars_eq t hof, chars_eq u hof'] at h
  -- One part after the other, each with the mark that follows it.
  obtain ⟨hyear, hrest⟩ := Calendar.yearChars_append_inj h
  obtain ⟨hsameMonth, hrest⟩ := hcut hmonth hmonth' hrest
  obtain ⟨hsameDay, hrest⟩ := hcut hday hday' hrest
  obtain ⟨hhour, hrest⟩ := hcut (by omega) (by omega) hrest
  obtain ⟨hminute, hrest⟩ := hcut (by omega) (by omega) hrest
  obtain ⟨hwritten, hrest⟩ := Decimal.padded_append_inj (by decide) (by omega) (by omega) hrest
  have hnano := fractionChars_inj t.writtenNano_lt u.writtenNano_lt hrest
  rw [hyear, hsameMonth, hsameDay] at hcount
  exact eq_of_parts (hcount.symm.trans hcount') hhour hminute hwritten hnano

/-! ## Texts -/

/-- **The text that is written for what has been read is read as that**, if the year is one of four digits and
    only then, and it is one text for all that are read alike. -/
theorem text_canonical {s s' : String} {t t' : Instant} (hs : parse? s = some t) (hs' : parse? s' = some t') :
    (parse? t.text = parse? s ↔ t.IsWritable) ∧ (parse? s = parse? s' ↔ t.text = t'.text) := by
  rw [hs, hs', parse?_text_eq_some_iff, Option.some.injEq]
  refine ⟨and_iff_left rfl, congrArg text, fun h => ?_⟩
  exact chars_injective (String.ofList_injective h)

/-- One moment of a leap second, told on either side of a new year. -/
theorem text_canonical_newYear :
    ∃ t, parse? "2017-01-01T00:59:60.1234567891+01:00" = some t ∧
      parse? "2016-12-31 18:59:60.123456789-05:00" = some t ∧ t.text = "2016-12-31T23:59:60.123456789Z" ∧
      parse? t.text = parse? "2017-01-01T00:59:60.1234567891+01:00" := by
  let t : Instant := ⟨1483228799, 1123456789, .inr (by decide)⟩
  have heast : parse? "2017-01-01T00:59:60.1234567891+01:00" = some t := by decide +kernel
  have hwest : parse? "2016-12-31 18:59:60.123456789-05:00" = some t := by decide +kernel
  exact ⟨t, heast, hwest, by decide +kernel, (text_canonical heast hwest).1.mpr (by decide +kernel)⟩

end Instant

end PowerOfAttorney
