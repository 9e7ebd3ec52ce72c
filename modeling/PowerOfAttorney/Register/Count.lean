import PowerOfAttorney.Register.Audit

/-!
# `PowerOfAttorney.Register.Count` — nanoseconds counted in words

An audit record keeps an instant as a count of nanoseconds in a signed word of 64 bits. `Instant.cbor?`
counts in integers and then asks whether the count fits. Here the count is put together in words from the
start: every product and every sum that does not fit a word ends it, also one that is only on the way to
the count. Words are taken apart again by the division that rounds toward zero.

## Contents
- **Words.** `Count.ofInt?`, `Count.mul?` and `Count.add?`, none where the result does not fit;
  `Count.total?` of seconds and nanoseconds, and `Count.split` back.
- **Counts.** `Instant.count?` of an instant, and `Instant.ofCount?` back.
- **CBOR.** `Instant.writeCount?` and `Instant.readCount?`.
-/

namespace PowerOfAttorney

/-! ## Words -/

namespace Count

/-- The word of an integer, if it fits. -/
def ofInt? (n : Int) : Option Int64 :=
  if -9223372036854775808 ≤ n ∧ n ≤ 9223372036854775807 then some (Int64.ofInt n) else none

/-- The product of two words, if it fits. -/
def mul? (a b : Int64) : Option Int64 :=
  if a.toBitVec.smulOverflow b.toBitVec then none else some (a * b)

/-- The sum of two words, if it fits. -/
def add? (a b : Int64) : Option Int64 :=
  if a.toBitVec.saddOverflow b.toBitVec then none else some (a + b)

/-- The nanoseconds in some seconds and some nanoseconds, if they fit and those in the seconds do. -/
def total? (seconds nanos : Int64) : Option Int64 := do
  add? (← mul? seconds 1000000000) nanos

/-- Whole seconds in a count of nanoseconds, and the nanoseconds after them. Before the epoch the remainder of
    the division is not positive. -/
def split (n : Int64) : Int64 × Int64 :=
  if n % 1000000000 < 0 then (n / 1000000000 - 1, n % 1000000000 + 1000000000)
  else (n / 1000000000, n % 1000000000)

end Count

/-! ## Counts -/

namespace Instant

/-- Nanoseconds since the epoch, if they fit a word. Before the epoch it is counted down from the next second,
    since the whole seconds alone may not fit where the count does. -/
def count? (t : Instant) : Option Int64 := do
  let second ← Count.ofInt? t.second
  let nano := Int64.ofNat t.nano
  if second < 0 then Count.total? (second + 1) (nano - 1000000000) else Count.total? second nano

/-- The instant of a count of nanoseconds since the epoch. -/
def ofCount? (n : Int64) : Option Instant :=
  mk? (Count.split n).1.toInt (Count.split n).2.toNatClampNeg

/-! ## CBOR -/

/-- The CBOR form of an instant, if its nanoseconds fit a word. -/
def writeCount? (t : Instant) : Option Bytes := do
  Cbor.int? (← t.count?).toInt

/-- Reads an instant. -/
def readCount? (bs : Bytes) : Option (Instant × Bytes) := do
  let (n, rest) ← Cbor.readInt? bs
  let t ← ofCount? (Int64.ofInt n)
  some (t, rest)

end Instant

end PowerOfAttorney
