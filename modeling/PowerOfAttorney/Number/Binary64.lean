/-!
# `PowerOfAttorney.Number.Binary64` — IEEE double precision

Finite doubles as a sign, a whole significand and a power of two, with rounding in exact arithmetic.

## Contents
- **The type.** `Binary64`; the value is `± significand · 2 ^ exponent`.
- **Rounding.** `Binary64.nearest?` is the double nearest a quotient of naturals, a tie going to the
  even significand; a magnitude beyond the range has none.
- **Arithmetic.** `timesPowerOfTen?` and `overPowerOfTen` round once, as one machine operation does.
- **Decimal text.** `Binary64.shortest`: the fewest digits that read back, and of those the nearest.
-/

namespace PowerOfAttorney

/-- A finite double: the significand is below `2 ^ 53`, and at least `2 ^ 52` unless the exponent is
    the least one, `-1074`. -/
structure Binary64 where
  negative : Bool
  significand : Nat
  exponent : Int
deriving DecidableEq

namespace Binary64

/-- The least significand of 53 binary digits, `2 ^ 52`. -/
def normal : Nat := 4503599627370496

/-- Zero, of either sign. -/
def zero (negative : Bool) : Binary64 :=
  ⟨negative, 0, -1074⟩

def isZero (x : Binary64) : Bool :=
  x.significand == 0

/-- Equality of values: the two zeros are equal. -/
def same (x y : Binary64) : Bool :=
  (x.isZero && y.isZero) || x == y

/-- `num / den` to the nearest whole number, a tie to the even one. -/
def divideToEven (num den : Nat) : Nat :=
  let q := num / den
  let twice := 2 * (num % den)
  if twice < den then q else if den < twice then q + 1 else q + q % 2

/-- `num / den · 2 ^ shift` as a quotient. -/
def shifted (num den : Nat) (shift : Int) : Nat × Nat :=
  (num * Nat.pow 2 shift.toNat, den * Nat.pow 2 (-shift).toNat)

/-- The exponent at which `num / den` has 53 binary digits, though no less than `-1074`. -/
def exponentOf (num den : Nat) : Int :=
  let guess := (num.log2 : Int) - den.log2 - 52
  let (n, d) := shifted num den (-guess)
  max (-1074) (if n / d < normal then guess - 1 else guess)

/-- The double nearest `num / den`, with the given sign. -/
def nearest? (negative : Bool) (num den : Nat) : Option Binary64 :=
  if num = 0 then some (zero negative)
  else
    let e := exponentOf num den
    let (n, d) := shifted num den (-e)
    let m := divideToEven n d
    let (m, e) := if m = 2 * normal then (normal, e + 1) else (m, e)
    if 971 < e then none else some ⟨negative, m, e⟩

/-- The double nearest a whole number below the range's end; zero stands in beyond it. -/
def ofNat (n : Nat) : Binary64 :=
  (nearest? false n 1).getD (zero false)

/-- The double nearest a whole number of either sign. -/
def ofInt (n : Int) : Binary64 :=
  { ofNat n.natAbs with negative := decide (n < 0) }

/-- The product of a double and the double nearest `10 ^ k`, unless it leaves the range. -/
def timesPowerOfTen? (x : Binary64) (k : Nat) : Option Binary64 :=
  let p := ofNat (Nat.pow 10 k)
  let (n, d) := shifted (x.significand * p.significand) 1 (x.exponent + p.exponent)
  nearest? x.negative n d

/-- A double divided by the double nearest `10 ^ k`. -/
def overPowerOfTen (x : Binary64) (k : Nat) : Binary64 :=
  let p := ofNat (Nat.pow 10 k)
  let (n, d) := shifted x.significand p.significand (x.exponent - p.exponent)
  (nearest? x.negative n d).getD (zero x.negative)

/-! ## Shortest decimal -/

/-- The reals that round to a double, in quarters of its last binary place: the value, the lower and
    the upper end. Just above a power of two the lower neighbour is closer. -/
def quarters (x : Binary64) : Nat × Nat × Nat :=
  let v := 4 * x.significand
  let below := if x.significand = normal ∧ -1074 < x.exponent then 1 else 2
  (v, v - below, v + 2)

/-- A multiple of `10 ^ place` that rounds to `x`, nearest first, as its factor. The ends of the
    interval count iff the significand is even. -/
def onGrid? (x : Binary64) (place : Int) : Option Nat :=
  let (v, lo, hi) := x.quarters
  let (unit, scale) := shifted 1 1 (x.exponent - 2)
  let unit := unit * Nat.pow 10 (-place).toNat
  let step := scale * Nat.pow 10 place.toNat
  let k := v * unit / step
  let within (n : Nat) : Bool :=
    if x.significand % 2 = 0 then lo * unit ≤ n && n ≤ hi * unit
    else lo * unit < n && n < hi * unit
  let lower := 0 < k && within (k * step)
  let upper := within ((k + 1) * step)
  if lower && upper then
    let twice := 2 * (v * unit)
    let middle := (2 * k + 1) * step
    some (if twice < middle then k else if middle < twice then k + 1 else k + k % 2)
  else if lower then some k
  else if upper then some (k + 1)
  else none

/-- The first grid with a hit, from `place` down through `places` decimal places. -/
def firstHit (x : Binary64) : (places : Nat) → (place : Int) → Nat × Int
  | 0, place => (0, place)
  | places + 1, place =>
    match x.onGrid? place with
    | some n => (n, place)
    | none => firstHit x places (place - 1)

/-- Digits and a power of ten: the decimal with the fewest digits that rounds to `x`, the nearest of
    those. -/
def shortest (x : Binary64) : Nat × Int :=
  if x.isZero then (0, 0)
  else
    let magnitude := ((x.significand.log2 : Int) + x.exponent) * 30103 / 100000
    firstHit x 24 (magnitude + 2)

example : (nearest? false 1 10).map shortest = some (1, -1) := by decide +kernel
example : shortest ⟨false, 1, -1074⟩ = (5, -324) := by decide +kernel
example : (nearest? false 12345678901234567890123 1).map shortest = some (12345678901234568, 6) := by
  decide +kernel

end Binary64

end PowerOfAttorney
