import PowerOfAttorney.Text.Bytes

/-!
# `PowerOfAttorney.Cbor.Item` — the items of CBOR

An item begins with a head: a major type of three bits and an argument, in the shortest of five forms
when written and in any of them when read. Readers take an item off the front of some bytes.

## Contents
- **Heads.** `Cbor.head` and `Cbor.head?`.
- **Items.** Whole numbers of 64 bits, texts, null and the heads of arrays.
- **Arrays.** `Cbor.array?` reads the items of an array of given or open length.
- **Skipping.** `Cbor.skip?` passes over an item of any type, with `Cbor.Due` for what is left of it.
-/

namespace PowerOfAttorney.Cbor

/-! ## Heads -/

/-- The last `width` bytes of a number, the highest first. -/
def bigEndian : (width n : Nat) → Bytes
  | 0, _ => []
  | width + 1, n => UInt8.ofNat (n / Nat.pow 256 width % 256) :: bigEndian width n

/-- The number of some bytes, the highest first. -/
def ofBigEndian (bs : Bytes) : Nat :=
  bs.foldl (fun n b => 256 * n + b.toNat) 0

/-- The head of an item, in its shortest form. -/
def head (major n : Nat) : Bytes :=
  let first (low : Nat) : UInt8 := UInt8.ofNat (32 * major + low)
  if n < 24 then [first n]
  else if n < 256 then first 24 :: bigEndian 1 n
  else if n < 65536 then first 25 :: bigEndian 2 n
  else if n < 4294967296 then first 26 :: bigEndian 4 n
  else first 27 :: bigEndian 8 n

/-- Takes a number of bytes off the front. -/
def split? (n : Nat) (bs : Bytes) : Option (Bytes × Bytes) :=
  if n ≤ bs.length then some (bs.take n, bs.drop n) else none

/-- Major type and argument of an item; an item of open length has no argument. -/
def head? : Bytes → Option (Nat × Option Nat × Bytes)
  | [] => none
  | b :: bs =>
    let major := b.toNat / 32
    let low := b.toNat % 32
    let long (width : Nat) : Option (Nat × Option Nat × Bytes) := do
      let (digits, rest) ← split? width bs
      some (major, some (ofBigEndian digits), rest)
    if low < 24 then some (major, some low, bs)
    else if low = 24 then long 1
    else if low = 25 then long 2
    else if low = 26 then long 4
    else if low = 27 then long 8
    else if low = 31 then some (major, none, bs)
    else none

/-! ## Items -/

/-- A whole number within 64 bits with a sign. -/
def int? (n : Int) : Option Bytes :=
  if 0 ≤ n ∧ n ≤ 9223372036854775807 then some (head 0 n.toNat)
  else if -9223372036854775808 ≤ n ∧ n < 0 then some (head 1 (-1 - n).toNat)
  else none

/-- Reads a whole number within 64 bits with a sign. -/
def readInt? (bs : Bytes) : Option (Int × Bytes) :=
  match head? bs with
  | some (0, some n, rest) => if n ≤ 9223372036854775807 then some (n, rest) else none
  | some (1, some n, rest) => if n ≤ 9223372036854775807 then some (-1 - (n : Int), rest) else none
  | _ => none

/-- A text. -/
def string (s : String) : Bytes :=
  let bs := Bytes.ofString s
  head 3 bs.length ++ bs

/-- Reads a text of given length. -/
def readString? (bs : Bytes) : Option (String × Bytes) :=
  match head? bs with
  | some (3, some n, rest) => do
    let (bs, rest) ← split? n rest
    some (← Bytes.string? bs, rest)
  | _ => none

/-- Nothing. -/
def null : UInt8 := 0xf6

/-- The end of an item of open length. -/
def stop : UInt8 := 0xff

/-- Reads nothing or something. -/
def readOption? {α : Type} (read : Bytes → Option (α × Bytes)) :
    Bytes → Option (Option α × Bytes)
  | [] => none
  | b :: bs => if b = null then some (none, bs) else (read (b :: bs)).map fun (a, rest) => (some a, rest)

/-! ## Arrays -/

/-- Reads a number of items. The fuel is more than the bytes, of which every item takes one. -/
def times? {α : Type} (read : Bytes → Option (α × Bytes)) :
    (fuel count : Nat) → Bytes → Option (List α × Bytes)
  | _, 0, bs => some ([], bs)
  | 0, _ + 1, _ => none
  | fuel + 1, count + 1, bs => do
    let (a, bs) ← read bs
    let (as, bs) ← times? read fuel count bs
    some (a :: as, bs)

/-- Reads items up to the stop. -/
def untilStop? {α : Type} (read : Bytes → Option (α × Bytes)) :
    (fuel : Nat) → Bytes → Option (List α × Bytes)
  | 0, _ | _, [] => none
  | fuel + 1, b :: bs =>
    if b = stop then some ([], bs)
    else do
      let (a, bs) ← read (b :: bs)
      let (as, bs) ← untilStop? read fuel bs
      some (a :: as, bs)

/-- Reads an array of items of one kind. -/
def array? {α : Type} (read : Bytes → Option (α × Bytes)) (bs : Bytes) : Option (List α × Bytes) :=
  match head? bs with
  | some (4, some n, rest) => times? read (rest.length + 1) n rest
  | some (4, none, rest) => untilStop? read (rest.length + 1) rest
  | _ => none

/-! ## Skipping -/

/-- Passes over a chunk of a text or a byte string of open length. -/
def chunk? (major : Nat) (bs : Bytes) : Option (Unit × Bytes) :=
  match head? bs with
  | some (m, some n, rest) => do
    let (bs, rest) ← split? n rest
    if m = major ∧ (major = 3 → (Bytes.string? bs).isSome) then some ((), rest) else none
  | _ => none

/-- Passes over a text or a byte string, of given length or in chunks. -/
def skipString? (major : Nat) (bs : Bytes) : Option (Unit × Bytes) :=
  match head? bs with
  | some (_, none, rest) => (untilStop? (chunk? major) (rest.length + 1) rest).map fun (_, rest) => ((), rest)
  | _ => chunk? major bs

/-- What is left to pass over. -/
inductive Due
  /-- So many items and so many stops, in whatever order they come. -/
  | counted (items stops : Nat)
  /-- The levels that have been entered, the innermost first: so many items after the one at hand, or
      all items up to a stop. -/
  | nested (levels : List (Option Nat))

namespace Due

/-- Nothing is left. -/
def isDone : Due → Bool
  | counted items stops => items == 0 && stops == 0
  | nested levels => levels.isEmpty

/-- The items of an array or a map begin: a given number of them, or all up to a stop. Levels are told
    apart from the first open length on that leaves items of given length to come after it. -/
def enter : Option Nat → Due → Due
  | some n, counted items stops => counted (items + n) stops
  | none, counted items stops =>
    if items < 2 then counted items (stops + 1)
    else nested (none :: some (items - 1) :: List.replicate stops none)
  | length, nested levels => nested (length :: levels)

/-- A stop ends the innermost level of open length. -/
def leave : Due → Due
  | counted items stops => counted items (stops - 1)
  | nested (none :: levels) => nested levels
  | due => due

/-- Goes on to the item after the one at hand, out of the levels that end with it. -/
def settle : List (Option Nat) → List (Option Nat)
  | some 0 :: levels => settle levels
  | some (n + 1) :: levels => some n :: levels
  | levels => levels

/-- The item at hand has been passed over, or entered. -/
def next : Due → Due
  | counted items stops => counted (items - 1) stops
  | nested levels => nested (settle levels)

end Due

/-- Passes over what is due, head by head. The fuel is more than the bytes, of which each head takes
    one. -/
def skipDue? : (fuel : Nat) → Due → Bytes → Option (Unit × Bytes)
  | 0, _, _ => none
  | fuel + 1, due, bs =>
    if due.isDone then some ((), bs)
    else
      match head? bs with
      | none => none
      | some (major, argument, rest) =>
        match major with
        | 0 | 1 => argument.bind fun _ => skipDue? fuel due.next rest
        | 2 | 3 => (skipString? major bs).bind fun (_, rest) => skipDue? fuel due.next rest
        | 4 => skipDue? fuel (due.enter argument).next rest
        | 5 => skipDue? fuel (due.enter (argument.map (2 * ·))).next rest
        | 6 => argument.bind fun _ => skipDue? fuel due rest
        | _ => skipDue? fuel (if argument.isSome then due else due.leave).next rest

/-- Passes over an item of any type. -/
def skip? (bs : Bytes) : Option (Unit × Bytes) :=
  skipDue? (bs.length + 2) (.counted 1 0) bs

/-- Reads an array whose first items are of various kinds, and passes over the others. -/
def record? {α : Type} (size : Nat) (read : Bytes → Option (α × Bytes)) (bs : Bytes) :
    Option (α × Bytes) :=
  match head? bs with
  | some (4, some n, rest) =>
    if n < size then none
    else do
      let (a, rest) ← read rest
      let (_, rest) ← times? skip? (rest.length + 1) (n - size) rest
      some (a, rest)
  | some (4, none, rest) => do
    let (a, rest) ← read rest
    let (_, rest) ← untilStop? skip? (rest.length + 1) rest
    some (a, rest)
  | _ => none

end PowerOfAttorney.Cbor
