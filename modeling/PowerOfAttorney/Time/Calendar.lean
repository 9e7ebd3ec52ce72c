import PowerOfAttorney.Text.Decimal

/-!
# `PowerOfAttorney.Time.Calendar` — the proleptic Gregorian calendar

Years, months and days on one side, a running count of days on the other. Day 0 is 1970-01-01; year 0
precedes year 1 and years before it are negative.

## Contents
- **Lengths.** `Calendar.isLeap`, `Calendar.daysInMonth`, and the days before a year or a month.
- **Counting.** `Calendar.dayNumber` counts days since the epoch.
- **Reading the count.** `Calendar.yearOf` splits off whole cycles of 400, 100, 4 and 1 years;
  `Calendar.monthOf` walks the months of the year that is left.
- **Text.** `Calendar.yearChars`, the one part of a date whose width varies.
-/

namespace PowerOfAttorney.Calendar

/-- A year has a 29 February if 4 divides it, unless 100 does and 400 does not. -/
def isLeap (year : Int) : Bool :=
  year % 4 == 0 && (year % 100 != 0 || year % 400 == 0)

/-- The length of a month; a month outside 1 to 12 has none. -/
def daysInMonth (leap : Bool) : Nat → Nat
  | 1 => 31
  | 2 => if leap then 29 else 28
  | 3 => 31
  | 4 => 30
  | 5 => 31
  | 6 => 30
  | 7 => 31
  | 8 => 31
  | 9 => 30
  | 10 => 31
  | 11 => 30
  | 12 => 31
  | _ => 0

/-- A month and a day that the year has. -/
def IsDay (year : Int) (month day : Nat) : Prop :=
  1 ≤ month ∧ month ≤ 12 ∧ 1 ≤ day ∧ day ≤ daysInMonth (isLeap year) month

instance (year : Int) (month day : Nat) : Decidable (IsDay year month day) :=
  inferInstanceAs (Decidable (_ ∧ _ ∧ _ ∧ _))

/-- Days of the year before the first of `month`. -/
def daysBeforeMonth (leap : Bool) : Nat → Nat
  | 0 => 0
  | month + 1 => daysBeforeMonth leap month + daysInMonth leap month

/-- Days from 0001-01-01 to the first of `year`. -/
def daysBeforeYear (year : Int) : Int :=
  let y := year - 1
  365 * y + y / 4 - y / 100 + y / 400

/-- Days from 0001-01-01 to 1970-01-01. -/
def epoch : Int := 719162

/-- Days since 1970-01-01. -/
def dayNumber (year : Int) (month day : Nat) : Int :=
  daysBeforeYear year + daysBeforeMonth (isLeap year) month + day - 1 - epoch

/-- The year that a day lies in, the day counted from 0001-01-01. A cycle of 400 years has 146097
    days; within it the last century, and within four years the last year, is a day longer. -/
def yearOf (n : Int) : Int :=
  let r400 := n % 146097
  let c := min (r400 / 36524) 3
  let r100 := r400 - 36524 * c
  let q := r100 / 1461
  let r4 := r100 % 1461
  400 * (n / 146097) + 100 * c + 4 * q + min (r4 / 365) 3 + 1

/-- The month that a day of the year (from 0) lies in and the day of that month, looked for from
    `month` on in at most `months` months. -/
def monthOf (leap : Bool) : (months month n : Nat) → Nat × Nat
  | 0, month, n => (month, n + 1)
  | months + 1, month, n =>
    if n < daysInMonth leap month then (month, n + 1)
    else monthOf leap months (month + 1) (n - daysInMonth leap month)

/-- Year, month and day of a count of days since 1970-01-01. -/
def ofDayNumber (n : Int) : Int × Nat × Nat :=
  let year := yearOf (n + epoch)
  let (month, day) := monthOf (isLeap year) 11 1 (n + epoch - daysBeforeYear year).toNat
  (year, month, day)

/-- The characters of a year: four digits within 0 to 9999, a sign in front outside. -/
def yearChars (year : Int) : List Char :=
  if year < 0 then '-' :: Decimal.padded 4 year.natAbs
  else if year ≤ 9999 then Decimal.padded 4 year.toNat
  else '+' :: Decimal.padded 4 year.toNat

example : dayNumber 1970 1 1 = 0 := by decide
example : dayNumber 2000 2 29 = 11016 ∧ ofDayNumber 11016 = (2000, 2, 29) := by decide
example : ofDayNumber (dayNumber (-1) 12 31) = (-1, 12, 31) := by decide

end PowerOfAttorney.Calendar
