import PowerOfAttorney.Text.Blank
import PowerOfAttorney.Text.Decimal
import PowerOfAttorney.Time.Calendar

/-!
# `PowerOfAttorney.Time.Date` — calendar dates

A date without a time of day, and its text `YYYY-MM-DD`.

## Contents
- **The type.** `Date` holds only days that exist, in years `-262143` to `262142`.
- **Building.** `Date.of?` from three numbers.
- **Text.** `Date.text` writes, `Date.parse?` reads. Reading is more generous than writing: white
  space may stand before each number, a signed year may have any number of digits, an unsigned one
  at most four, and month and day may have one digit.
-/

namespace PowerOfAttorney

/-- A day of the proleptic Gregorian calendar. -/
structure Date where
  /-- The year; 0 is the year before 1. -/
  year : Int
  /-- The month, from 1. -/
  month : Nat
  /-- The day of the month, from 1. -/
  day : Nat
  /-- The day exists and its year is in range. -/
  valid : Calendar.IsDay year month day ∧ -262143 ≤ year ∧ year ≤ 262142
deriving DecidableEq

namespace Date

/-- The date of three numbers, if there is such a day. -/
def of? (year : Int) (month day : Nat) : Option Date :=
  if h : Calendar.IsDay year month day ∧ -262143 ≤ year ∧ year ≤ 262142 then
    some ⟨year, month, day, h⟩
  else none

theorem of?_self (d : Date) : of? d.year d.month d.day = some d := by
  simp [of?, d.valid]

/-- The characters of a date. -/
def chars (d : Date) : List Char :=
  Calendar.yearChars d.year ++ '-' :: Decimal.padded 2 d.month ++
    '-' :: Decimal.padded 2 d.day

/-- The text `YYYY-MM-DD`, with a sign in front of a year outside 0 to 9999. -/
def text (d : Date) : String :=
  String.ofList d.chars

/-- A year off the front of a text: signed with any number of digits, or at most four digits. -/
def year? : List Char → Option (Int × List Char)
  | '-' :: cs => (Decimal.many? cs).map fun (n, rest) => (-(n : Int), rest)
  | '+' :: cs => (Decimal.many? cs).map fun (n, rest) => ((n : Int), rest)
  | cs => (Decimal.upTo? 4 cs).map fun (n, rest) => ((n : Int), rest)

/-- Takes a hyphen off the front of a text. -/
def hyphen? : List Char → Option (List Char)
  | '-' :: cs => some cs
  | _ => none

/-- Reads the characters of a date. -/
def ofChars? (cs : List Char) : Option Date := do
  let (year, cs) ← year? (Text.dropBlanks cs)
  let cs ← hyphen? cs
  let (month, cs) ← Decimal.upTo? 2 (Text.dropBlanks cs)
  let cs ← hyphen? cs
  let (day, cs) ← Decimal.upTo? 2 (Text.dropBlanks cs)
  if cs.isEmpty then of? year month day else none

/-- Reads a date. -/
def parse? (s : String) : Option Date :=
  ofChars? s.toList

end Date

end PowerOfAttorney
