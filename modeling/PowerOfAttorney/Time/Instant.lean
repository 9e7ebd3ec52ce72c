import PowerOfAttorney.Text.Decimal
import PowerOfAttorney.Time.Calendar

/-!
# `PowerOfAttorney.Time.Instant` — points in time

An instant in Coordinated Universal Time, to the nanosecond, and its RFC 3339 text.

## Contents
- **The type.** `Instant`: seconds since the epoch and nanoseconds. A leap second is the second half
  of the second it follows: its nanoseconds run from `10⁹` up.
- **Order.** `Instant.le`, by second and then by nanosecond.
- **Building.** `Instant.of?` from the six numbers of a civil time.
- **Text.** `Instant.text` writes in UTC with 0, 3, 6 or 9 digits of fraction; `Instant.parse?` reads
  any offset and any number of digits, of which nine count.
- **Counts.** `Instant.nanoseconds` since the epoch, and `Instant.ofNanoseconds` back.
-/

namespace PowerOfAttorney

/-- An instant in UTC. -/
structure Instant where
  /-- Whole seconds since 1970-01-01T00:00:00Z, leap seconds not counted. -/
  second : Int
  /-- Nanoseconds after `second`; from `10⁹` on they lie in a leap second. -/
  nano : Nat
  /-- Only the last second of a minute is followed by a leap second. -/
  valid : nano < 1000000000 ∨ nano < 2000000000 ∧ second % 60 = 59
deriving DecidableEq

namespace Instant

/-- An instant inside a leap second. -/
def isLeap (t : Instant) : Bool :=
  1000000000 ≤ t.nano

/-- Earlier or the same. -/
def le (a b : Instant) : Bool :=
  a.second < b.second || (a.second == b.second && a.nano ≤ b.nano)

/-- The instant of a second and its nanoseconds, if the two fit. -/
def mk? (second : Int) (nano : Nat) : Option Instant :=
  if h : nano < 1000000000 ∨ nano < 2000000000 ∧ second % 60 = 59 then some ⟨second, nano, h⟩
  else none

/-- Seconds since the epoch of a day and a time of day. -/
def secondOf (day : Int) (hour minute sec : Nat) : Int :=
  86400 * day + ((3600 * hour + 60 * minute + sec : Nat) : Int)

/-- The instant of a civil time in UTC, if there is such a time; a leap second is none. -/
def of? (year : Int) (month day hour minute sec : Nat) : Option Instant :=
  if Calendar.IsDay year month day ∧ -262143 ≤ year ∧ year ≤ 262142 ∧ hour ≤ 23 ∧ minute ≤ 59 ∧
      sec ≤ 59 then
    mk? (secondOf (Calendar.dayNumber year month day) hour minute sec) 0
  else none

/-! ## Writing -/

/-- The digits of a fraction of a second: none, or to the milli-, micro- or nanosecond, as few of
    these as lose nothing. -/
def fractionChars (nano : Nat) : List Char :=
  if nano = 0 then []
  else if nano % 1000000 = 0 then '.' :: Decimal.padded 3 (nano / 1000000)
  else if nano % 1000 = 0 then '.' :: Decimal.padded 6 (nano / 1000)
  else '.' :: Decimal.padded 9 nano

/-- The characters of an instant. -/
def chars (t : Instant) : List Char :=
  let (year, month, day) := Calendar.ofDayNumber (t.second / 86400)
  let s := (t.second % 86400).toNat
  let (sec, nano) := if t.isLeap then (s % 60 + 1, t.nano - 1000000000) else (s % 60, t.nano)
  Calendar.yearChars year ++ '-' :: Decimal.padded 2 month ++
    '-' :: Decimal.padded 2 day ++ 'T' :: Decimal.padded 2 (s / 3600) ++
    ':' :: Decimal.padded 2 (s / 60 % 60) ++ ':' :: Decimal.padded 2 sec ++
    fractionChars nano ++ ['Z']

/-- The RFC 3339 text of an instant, in UTC. -/
def text (t : Instant) : String :=
  String.ofList t.chars

/-! ## Reading -/

/-- Takes one given character off the front of a text. -/
def expect? (c : Char) : List Char → Option (List Char)
  | d :: cs => if d = c then some cs else none
  | [] => none

/-- Date and time of day are parted by `T`, `t` or a space. -/
def separator? : List Char → Option (List Char)
  | c :: cs => if c = 'T' ∨ c = 't' ∨ c = ' ' then some cs else none
  | [] => none

/-- A fraction of a second in nanoseconds: a point and at least one digit. Digits after the ninth are
    dropped. Without a point there is no fraction. -/
def fraction? : List Char → Option (Nat × List Char)
  | '.' :: cs =>
    let ds := (cs.takeWhile Char.isDigit).take 9
    if ds.isEmpty then none
    else some (Decimal.value ds * Nat.pow 10 (9 - ds.length), cs.dropWhile Char.isDigit)
  | cs => some (0, cs)

/-- A sign: `+`, `-` or the minus sign of Unicode. -/
def sign? : List Char → Option (Int × List Char)
  | '+' :: cs => some (1, cs)
  | '-' :: cs => some (-1, cs)
  | '\u2212' :: cs => some (-1, cs)
  | _ => none

/-- The offset from UTC in minutes: `Z`, `z`, or a signed `hh:mm` below a day. -/
def offset? : List Char → Option (Int × List Char)
  | 'Z' :: cs => some (0, cs)
  | 'z' :: cs => some (0, cs)
  | cs => do
    let (sign, cs) ← sign? cs
    let (hours, cs) ← Decimal.fixed? 2 cs
    let cs ← expect? ':' cs
    let (minutes, cs) ← Decimal.fixed? 2 cs
    if hours ≤ 23 ∧ minutes ≤ 59 then some (sign * ((60 * hours + minutes : Nat) : Int), cs)
    else none

/-- Reads the characters of an instant. Second 60 is the leap second after second 59. -/
def ofChars? (cs : List Char) : Option Instant := do
  let (year, cs) ← Decimal.fixed? 4 cs
  let cs ← expect? '-' cs
  let (month, cs) ← Decimal.fixed? 2 cs
  let cs ← expect? '-' cs
  let (day, cs) ← Decimal.fixed? 2 cs
  let cs ← separator? cs
  let (hour, cs) ← Decimal.fixed? 2 cs
  let cs ← expect? ':' cs
  let (minute, cs) ← Decimal.fixed? 2 cs
  let cs ← expect? ':' cs
  let (sec, cs) ← Decimal.fixed? 2 cs
  let (nano, cs) ← fraction? cs
  let (offset, cs) ← offset? cs
  if cs.isEmpty ∧ Calendar.IsDay year month day ∧ hour ≤ 23 ∧ minute ≤ 59 ∧ sec ≤ 60 then
    let second := secondOf (Calendar.dayNumber year month day) hour minute (min sec 59) - 60 * offset
    mk? second (if sec = 60 then nano + 1000000000 else nano)
  else none

/-- Reads an RFC 3339 text. -/
def parse? (s : String) : Option Instant :=
  ofChars? s.toList

/-! ## Counts of nanoseconds -/

/-- Nanoseconds since the epoch, negative before it. Those of a leap second count into the next
    second. -/
def nanoseconds (t : Instant) : Int :=
  1000000000 * t.second + t.nano

/-- The instant of a count of nanoseconds since the epoch. -/
def ofNanoseconds (n : Int) : Instant :=
  ⟨n / 1000000000, (n % 1000000000).toNat, .inl (by omega)⟩

theorem nanoseconds_ofNanoseconds (n : Int) : (ofNanoseconds n).nanoseconds = n := by
  simp only [nanoseconds, ofNanoseconds]
  omega

theorem ofNanoseconds_nanoseconds {t : Instant} (h : t.isLeap = false) :
    ofNanoseconds t.nanoseconds = t := by
  have hn : t.nano < 1000000000 := by simpa [isLeap] using h
  have hs : t.nanoseconds / 1000000000 = t.second := by simp only [nanoseconds]; omega
  have hm : (t.nanoseconds % 1000000000).toNat = t.nano := by simp only [nanoseconds]; omega
  cases t
  simp_all [ofNanoseconds]

end Instant

end PowerOfAttorney
