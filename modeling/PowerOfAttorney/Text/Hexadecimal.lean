/-!
# `PowerOfAttorney.Text.Hexadecimal` — hexadecimal numerals

## Contents
- **Digits.** `Hexadecimal.digit?`, in small letters or capitals.
- **Reading.** `Hexadecimal.fixed?` takes an exact number of digits off the front of a text.
-/

namespace PowerOfAttorney.Hexadecimal

/-- The value of a digit. -/
def digit? (c : Char) : Option Nat :=
  if '0' ≤ c ∧ c ≤ '9' then some (c.toNat - '0'.toNat)
  else if 'a' ≤ c ∧ c ≤ 'f' then some (c.toNat - 'a'.toNat + 10)
  else if 'A' ≤ c ∧ c ≤ 'F' then some (c.toNat - 'A'.toNat + 10)
  else none

/-- Exactly `width` digits from the front of the text. -/
def fixed? (width : Nat) (cs : List Char) : Option (Nat × List Char) := do
  let ds ← (cs.take width).mapM digit?
  if ds.length = width then some (ds.foldl (fun n d => 16 * n + d) 0, cs.drop width) else none

end PowerOfAttorney.Hexadecimal
