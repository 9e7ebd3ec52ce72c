/-!
# `PowerOfAttorney.Text.Decimal` — decimal numerals

Numerals of ASCII digits: writing a number, padding it to a width, and cutting the digits off the
front of a text.

## Contents
- **Writing.** `Decimal.digits` is the shortest numeral, `Decimal.padded` one of at least `width` digits.
- **Reading.** `Decimal.value` of a run of digits; `Decimal.fixed?` takes an exact number of digits,
  `Decimal.upTo?` at least one and at most a bound.
- **Round trip.** `value_digits` and `value_padded`: reading a written numeral gives the number back.
-/

namespace PowerOfAttorney.Decimal

/-- The digits of a number, without leading zeros. -/
def digits (n : Nat) : List Char :=
  Nat.toDigits 10 n

/-- The digits of a number, with zeros in front up to `width` digits. -/
def padded (width n : Nat) : List Char :=
  List.replicate (width - (digits n).length) '0' ++ digits n

/-- The number that a run of digits names. -/
def value (cs : List Char) : Nat :=
  Nat.ofDigitChars 10 cs 0

theorem value_digits (n : Nat) : value (digits n) = n :=
  Nat.ofDigitChars_ten_toDigits

theorem value_padded (width n : Nat) : value (padded width n) = n := by
  simp [value, padded, Nat.ofDigitChars_append, Nat.ofDigitChars_replicate_zero, digits,
    Nat.ofDigitChars_ten_toDigits]

/-- Exactly `width` digits from the front of the text. -/
def fixed? (width : Nat) (cs : List Char) : Option (Nat × List Char) :=
  let ds := cs.take width
  if ds.length = width ∧ ds.all Char.isDigit then some (value ds, cs.drop width) else none

/-- At least one digit and at most `bound` from the front of the text, as many as there are. -/
def upTo? (bound : Nat) (cs : List Char) : Option (Nat × List Char) :=
  let ds := (cs.take bound).takeWhile Char.isDigit
  if ds.isEmpty then none else some (value ds, cs.drop ds.length)

/-- At least one digit from the front of the text, as many as there are. -/
def many? (cs : List Char) : Option (Nat × List Char) :=
  let ds := cs.takeWhile Char.isDigit
  if ds.isEmpty then none else some (value ds, cs.dropWhile Char.isDigit)

/-- The text of an integer. -/
def integer (n : Int) : List Char :=
  if n < 0 then '-' :: digits n.natAbs else digits n.natAbs

end PowerOfAttorney.Decimal
