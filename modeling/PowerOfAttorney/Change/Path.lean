import PowerOfAttorney.Text.Decimal

/-!
# `PowerOfAttorney.Change.Path` — the paths of fields

A key such as `/donor/address/line1` is a path of segments parted by slashes. The text before the
first slash counts as a segment, so a key that begins with a slash begins with an empty segment.

## Contents
- **Paths.** `Path.ofString`, one path for each text.
- **Descent.** `Path.below?` strips the segments of a longer key, `Path.step?` one leading segment.
- **Segments as indexes.** `Path.index?`: an optional plus sign and digits, below `2 ^ 64`.
-/

namespace PowerOfAttorney

/-- The segments of a key. -/
abbrev Path := List String

namespace Path

/-- The segments of a text. -/
def ofString (s : String) : Path :=
  (s.toList.splitOn '/').map String.ofList

/-- What is left of a path that goes on below another, again as a path from the root. -/
def below? : (top path : Path) → Option Path
  | [], [] => none
  | [], rest => some ("" :: rest)
  | _ :: _, [] => none
  | s :: top, t :: path => if s = t then below? top path else none

/-- The leading segment of a path that goes on after it, and the rest as a path from the root. -/
def step? : Path → Option (String × Path)
  | "" :: s :: t :: rest => some (s, "" :: t :: rest)
  | _ => none

/-- The index that a segment names. -/
def index? (segment : String) : Option Nat :=
  let ds :=
    match segment.toList with
    | '+' :: cs => cs
    | cs => cs
  if ds.isEmpty ∨ !ds.all Char.isDigit ∨ 18446744073709551615 < Decimal.value ds then none
  else some (Decimal.value ds)

/-- The leading index of a path that goes on after it, and the rest. -/
def indexStep? (p : Path) : Option (Nat × Path) := do
  let (segment, rest) ← p.step?
  let i ← index? segment
  some (i, rest)

/-- The leading segment of a path that goes on after it, if it is not empty, and the rest. -/
def keyStep? (p : Path) : Option (String × Path) := do
  let (segment, rest) ← p.step?
  if segment.isEmpty then none else some (segment, rest)

end Path

end PowerOfAttorney
