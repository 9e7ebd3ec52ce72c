import PowerOfAttorney.Time.Calendar

/-!
# `PowerOfAttorney.Proofs.Time.Calendar` — days and their count

Reading a count of days gives a day that exists, and counting that day gives the count back.

## Contents
- **Years.** `yearOf_spec`: a count lies in its year.
- **Months.** `monthOf_spec`, by induction on the months that are left.
- **Days.** `dayNumber_ofDayNumber` and `isDay_ofDayNumber`.
-/

namespace PowerOfAttorney.Calendar

/-! ## Years -/

/-- The days of a year. -/
def daysInYear (leap : Bool) : Nat :=
  if leap then 366 else 365

/-- A count is made of cycles of 400 years, centuries in the cycle, four years in the century, years in
    the four, and days in the year. The last day of a long year is in the last year of four, and such a
    year ends a century only if it ends the cycle. -/
theorem yearOf_parts (n : Int) : ∃ a c q e r : Int,
    yearOf n = 400 * a + 100 * c + 4 * q + e + 1 ∧
      n = 146097 * a + 36524 * c + 1461 * q + 365 * e + r ∧
      (0 ≤ c ∧ c ≤ 3) ∧ (0 ≤ q ∧ q ≤ 24) ∧ (0 ≤ e ∧ e ≤ 3) ∧ (0 ≤ r ∧ r ≤ 365) ∧
      (r = 365 → e = 3 ∧ (q = 24 → c = 3)) := by
  have hcycle : ∃ a r : Int, a = n / 146097 ∧ r = n % 146097 ∧ n = 146097 * a + r ∧ 0 ≤ r ∧
      r < 146097 := ⟨_, _, rfl, rfl, by omega, by omega, by omega⟩
  obtain ⟨a, r400, ha, hr400, hn, hcycle⟩ := hcycle
  have hcentury : ∃ c r : Int, c = min (r400 / 36524) 3 ∧ r = r400 - 36524 * c ∧ (0 ≤ c ∧ c ≤ 3) ∧
      0 ≤ r ∧ r ≤ 36524 ∧ (r = 36524 → c = 3) := by
    refine ⟨_, _, rfl, rfl, ?_⟩
    omega
  obtain ⟨c, r100, hc, hr100, hc3, hcentury⟩ := hcentury
  have hfour : ∃ q r : Int, q = r100 / 1461 ∧ r = r100 % 1461 ∧ r100 = 1461 * q + r ∧ (0 ≤ q ∧ q ≤ 24) ∧
      0 ≤ r ∧ r ≤ 1460 := ⟨_, _, rfl, rfl, by omega, by omega, by omega, by omega⟩
  obtain ⟨q, r4, hq, hr4, hr100', hq24, hfour⟩ := hfour
  have hone : ∃ e : Int, e = min (r4 / 365) 3 ∧ (0 ≤ e ∧ e ≤ 3) ∧ 0 ≤ r4 - 365 * e ∧
      r4 - 365 * e ≤ 365 ∧ (r4 - 365 * e = 365 → e = 3) := by
    refine ⟨_, rfl, ?_⟩
    omega
  obtain ⟨e, he, he3, hone⟩ := hone
  refine ⟨a, c, q, e, r4 - 365 * e, ?_, by omega, hc3, hq24, he3, ⟨hone.1, hone.2.1⟩, fun h => ?_⟩
  · rw [he, hr4, hq, hr100, hc, hr400, ha]
    rfl
  · exact ⟨hone.2.2 h, fun h24 => hcentury.2.2 (by omega)⟩

/-- A day is in the year that it is read to be in. -/
theorem yearOf_spec (n : Int) :
    0 ≤ n - daysBeforeYear (yearOf n) ∧
      n - daysBeforeYear (yearOf n) < daysInYear (isLeap (yearOf n)) := by
  obtain ⟨a, c, q, e, r, hyear, hn, hc, hq, he, hr, hlast⟩ := yearOf_parts n
  have hdays : daysBeforeYear (yearOf n) = 146097 * a + 36524 * c + 1461 * q + 365 * e := by
    have h1 : yearOf n - 1 = 400 * a + 100 * c + 4 * q + e := by omega
    have h4 : (400 * a + 100 * c + 4 * q + e) / 4 = 100 * a + 25 * c + q := by omega
    have h100 : (400 * a + 100 * c + 4 * q + e) / 100 = 4 * a + c := by omega
    have h400 : (400 * a + 100 * c + 4 * q + e) / 400 = a := by omega
    unfold daysBeforeYear
    dsimp only
    rw [h1, h4, h100, h400]
    omega
  have hlong : r = 365 → isLeap (yearOf n) = true := by
    intro h
    obtain ⟨he3, hcycle⟩ := hlast h
    rw [hyear, he3]
    unfold isLeap
    simp only [Bool.and_eq_true, Bool.or_eq_true, beq_iff_eq, bne_iff_ne]
    refine ⟨by omega, ?_⟩
    by_cases h24 : q = 24
    · have hc3 := hcycle h24
      exact Or.inr (by omega)
    · exact Or.inl (by omega)
  rw [hdays]
  refine ⟨by omega, ?_⟩
  unfold daysInYear
  by_cases h : r = 365
  · rw [if_pos (hlong h)]
    omega
  · split <;> omega

/-! ## Months -/

/-- No month is longer than 31 days. -/
theorem daysInMonth_le (leap : Bool) (month : Nat) : daysInMonth leap month ≤ 31 := by
  unfold daysInMonth
  split <;> first | omega | (split <;> omega)

/-- Days before the month after some months. -/
theorem daysBeforeMonth_succ (leap : Bool) (month : Nat) :
    daysBeforeMonth leap (month + 1) = daysBeforeMonth leap month + daysInMonth leap month := rfl

/-- A day is in the month that it is read to be in, if it lies in one of the months that are tried. -/
theorem monthOf_spec (leap : Bool) (months month n : Nat)
    (h : daysBeforeMonth leap month + n < daysBeforeMonth leap (month + months + 1)) :
    month ≤ (monthOf leap months month n).1 ∧ (monthOf leap months month n).1 ≤ month + months ∧
      1 ≤ (monthOf leap months month n).2 ∧
      (monthOf leap months month n).2 ≤ daysInMonth leap (monthOf leap months month n).1 ∧
      daysBeforeMonth leap (monthOf leap months month n).1 + (monthOf leap months month n).2 =
        daysBeforeMonth leap month + n + 1 := by
  induction months generalizing month n with
  | zero =>
      rw [Nat.add_zero, daysBeforeMonth_succ] at h
      unfold monthOf
      dsimp only
      omega
  | succ months ih =>
      unfold monthOf
      split
      · dsimp only
        omega
      · rename_i hn
        have hnext := ih (month + 1) (n - daysInMonth leap month) (by
          rw [daysBeforeMonth_succ, show month + 1 + months + 1 = month + (months + 1) + 1 by omega]
          omega)
        rw [daysBeforeMonth_succ] at hnext
        omega

/-! ## Days -/

/-- The day of the year, from 0. -/
theorem toNat_dayOfYear (n : Int) :
    ((n + epoch - daysBeforeYear (yearOf (n + epoch))).toNat : Int) =
        n + epoch - daysBeforeYear (yearOf (n + epoch)) ∧
      (n + epoch - daysBeforeYear (yearOf (n + epoch))).toNat <
        daysBeforeMonth (isLeap (yearOf (n + epoch))) 13 := by
  obtain ⟨hlow, hhigh⟩ := yearOf_spec (n + epoch)
  have hlength : ∀ leap, daysBeforeMonth leap 13 = daysInYear leap := by decide
  rw [hlength]
  omega

/-- A count names a day that exists. -/
theorem isDay_ofDayNumber (n : Int) :
    IsDay (ofDayNumber n).1 (ofDayNumber n).2.1 (ofDayNumber n).2.2 := by
  obtain ⟨_, hlt⟩ := toNat_dayOfYear n
  obtain ⟨h1, h2, h3, h4, _⟩ := monthOf_spec (isLeap (yearOf (n + epoch))) 11 1 _
    (by rw [show daysBeforeMonth _ 1 = 0 from rfl, Nat.zero_add]; exact hlt)
  exact ⟨h1, h2, h3, h4⟩

/-- **The day of a count is counted as that.** -/
theorem dayNumber_ofDayNumber (n : Int) :
    dayNumber (ofDayNumber n).1 (ofDayNumber n).2.1 (ofDayNumber n).2.2 = n := by
  obtain ⟨hcast, hlt⟩ := toNat_dayOfYear n
  obtain ⟨_, _, _, _, hsum⟩ := monthOf_spec (isLeap (yearOf (n + epoch))) 11 1 _
    (by rw [show daysBeforeMonth _ 1 = 0 from rfl, Nat.zero_add]; exact hlt)
  rw [show daysBeforeMonth _ 1 = 0 from rfl, Nat.zero_add] at hsum
  unfold dayNumber ofDayNumber
  dsimp only
  omega

end PowerOfAttorney.Calendar
