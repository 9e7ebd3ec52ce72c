/-!
# `PowerOfAttorney.Text.Blank` — white space

The characters of the Unicode property `White_Space`, and cutting them off the ends of a text.

## Contents
- **The property.** `Text.isBlank`, a table of ranges.
- **Trimming.** `Text.dropBlanks` cuts on the left, `Text.trim` on both sides.
-/

namespace PowerOfAttorney.Text

/-- The Unicode property `White_Space`. -/
def isBlank (c : Char) : Bool :=
  let n := c.toNat
  (9 ≤ n && n ≤ 13) || n == 0x20 || n == 0x85 || n == 0xA0 || n == 0x1680 ||
    (0x2000 ≤ n && n ≤ 0x200A) || n == 0x2028 || n == 0x2029 || n == 0x202F || n == 0x205F ||
    n == 0x3000

/-- The text without the white space it begins with. -/
def dropBlanks (cs : List Char) : List Char :=
  cs.dropWhile isBlank

/-- The text without the white space at either end. -/
def trim (s : String) : String :=
  String.ofList (dropBlanks (dropBlanks s.toList).reverse).reverse

/-- Nothing but white space, or nothing at all. -/
def isAllBlank (s : String) : Bool :=
  s.toList.all isBlank

theorem dropBlanks_cons_of_not_isBlank {c : Char} {cs : List Char} (h : isBlank c = false) :
    dropBlanks (c :: cs) = c :: cs := by
  simp [dropBlanks, h]

end PowerOfAttorney.Text
