import PowerOfAttorney.Number.Binary64
import PowerOfAttorney.Text.Decimal

/-!
# `PowerOfAttorney.Number.Basic` — the numbers of change values

A number is a whole number of 64 bits, signed or unsigned, or else a double.

## Contents
- **The type.** `Number` and `Number.same`: two signed whole numbers compare exactly, all other pairs
  as doubles.
- **Writing.** `Number.chars`: a double always shows a point or an exponent.
- **Reading.** `Number.ofLiteral?` from the parts of a literal: sign, digits before and after the
  point, exponent.
-/

namespace PowerOfAttorney

/-- A number as it is held. -/
inductive Number
  /-- A whole number of 64 bits. -/
  | int (n : Int)
  /-- Any other number, rounded. -/
  | real (x : Binary64)
deriving DecidableEq

namespace Number

/-- A whole number of 64 bits with a sign. -/
def IsSigned (n : Int) : Prop :=
  -9223372036854775808 ≤ n ∧ n ≤ 9223372036854775807

instance (n : Int) : Decidable (IsSigned n) :=
  inferInstanceAs (Decidable (_ ∧ _))

/-- The nearest double. -/
def toBinary64 : Number → Binary64
  | .int n => .ofInt n
  | .real x => x

/-- Equality of values: two signed whole numbers compare exactly, all other pairs as doubles. -/
def same : Number → Number → Bool
  | .int m, .int n =>
    if IsSigned m ∧ IsSigned n then m == n else (Binary64.ofInt m).same (.ofInt n)
  | x, y => x.toBinary64.same y.toBinary64

/-! ## Writing -/

/-- The digits `ds` times `10 ^ place`. With `point` digits before the point, the number is written
    positionally for `-5 < point ≤ 16`, and otherwise with one digit before the point and an exponent
    that shows its sign. -/
def placedChars (ds : List Char) (place : Int) : List Char :=
  let point := (ds.length : Int) + place
  if 0 ≤ place ∧ point ≤ 16 then
    ds ++ List.replicate place.toNat '0' ++ ['.', '0']
  else if 0 < point ∧ point ≤ 16 then
    ds.take point.toNat ++ '.' :: ds.drop point.toNat
  else if -5 < point ∧ point ≤ 0 then
    '0' :: '.' :: List.replicate (-point).toNat '0' ++ ds
  else
    let head := if ds.length = 1 then ds else ds.take 1 ++ '.' :: ds.drop 1
    head ++ 'e' :: (if 0 < point then ['+'] else []) ++ Decimal.integer (point - 1)

/-- The characters of a double. -/
def realChars (x : Binary64) : List Char :=
  let (n, place) := x.shortest
  (if x.negative then ['-'] else []) ++ placedChars (Decimal.digits n) place

/-- The characters of a number. -/
def chars : Number → List Char
  | .int n => Decimal.integer n
  | .real x => realChars x

/-! ## Reading -/

/-- The most that 64 bits hold. -/
def maxUnsigned : Nat := 18446744073709551615

/-- Appends digits to a significand for as long as it fits in 64 bits; also the number of digits
    that were left over. -/
def accumulate (acc : Nat) : List Char → Nat × Nat
  | [] => (acc, 0)
  | c :: cs =>
    let next := 10 * acc + (c.toNat - '0'.toNat)
    if next ≤ maxUnsigned then accumulate next cs else (acc, cs.length + 1)

/-- `significand · 10 ^ exponent`, computed with one rounding of the significand and one of each
    multiplication or division by a power of ten up to `10 ^ 308`. Too large a magnitude has none. -/
def scale? (significand : Nat) (exponent : Int) : Option Binary64 :=
  let x := Binary64.ofNat significand
  if x.isZero then some x
  else if 308 < exponent then none
  else if 0 ≤ exponent then x.timesPowerOfTen? exponent.toNat
  else if -308 ≤ exponent then some (x.overPowerOfTen (-exponent).toNat)
  else if -616 ≤ exponent then some ((x.overPowerOfTen 308).overPowerOfTen (-(exponent + 308)).toNat)
  else some (.zero false)

/-- The literal of a number: digits before the point, after it, and the exponent with its sign. -/
structure Literal where
  negative : Bool
  whole : List Char
  fraction : Option (List Char)
  exponent : Option (Bool × List Char)

/-- The double of a literal. Digits beyond the 64 bits of the significand are dropped; those before
    the point still count as places. An exponent of more than 31 bits gives zero or nothing. -/
def realOf? (l : Literal) : Option Binary64 :=
  let (n, dropped) := accumulate 0 l.whole
  let fraction := l.fraction.getD []
  let (n, unread) := accumulate n fraction
  let places : Int := (dropped : Int) - ((fraction.length - unread : Nat) : Int)
  let magnitude? :=
    match l.exponent with
    | none => scale? n places
    | some (negative, ds) =>
      let e := Decimal.value ds
      if 2147483647 < e then if n = 0 ∨ negative then some (.zero false) else none
      else scale? n (if negative then places - e else places + e)
  magnitude?.map fun x => { x with negative := l.negative }

/-- The number of a literal: a whole number if it is written as one and fits 64 bits, and is not
    `-0`; else the double. A magnitude beyond the range of doubles is none. -/
def ofLiteral? (l : Literal) : Option Number :=
  let n := Decimal.value l.whole
  if l.fraction.isNone ∧ l.exponent.isNone ∧ n ≤ maxUnsigned ∧
      (l.negative → 0 < n ∧ n ≤ 9223372036854775808) then
    some (.int (if l.negative then -(n : Int) else n))
  else (realOf? l).map .real

end Number

end PowerOfAttorney
