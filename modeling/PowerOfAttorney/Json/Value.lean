import PowerOfAttorney.Dictionary
import PowerOfAttorney.Number.Basic

/-!
# `PowerOfAttorney.Json.Value` — JSON values

Values, their equality up to the spelling of numbers, and their text.

## Contents
- **The type.** `Json`; an object lists its members in the order in which they are written.
- **Sorted objects.** `Json.ofMembers` puts members in key order; the last one of each name counts.
- **Equality.** `Json.same`: numbers by value, lists and objects element by element.
- **Text.** `Json.chars` and `Json.text`, without spaces; `Json.quote` writes a string.
-/

namespace PowerOfAttorney

/-- A JSON value. -/
inductive Json
  | null
  | bool (b : Bool)
  | num (n : Number)
  | str (s : String)
  | arr (items : List Json)
  | obj (members : List (String × Json))

namespace Json

/-- An object of members in any order, written in key order; of several with one name the last
    counts. -/
def ofMembers (members : List (String × Json)) : Json :=
  .obj (Dictionary.ofList members).entries

/-! ## Equality of values -/

mutual

/-- Equality up to the spelling of numbers. -/
def same : Json → Json → Bool
  | .null, .null => true
  | .bool a, .bool b => a == b
  | .num a, .num b => a.same b
  | .str a, .str b => a == b
  | .arr xs, .arr ys => sameItems xs ys
  | .obj xs, .obj ys => sameMembers xs ys
  | _, _ => false

/-- Lists of one length that are the same at each place. -/
def sameItems : List Json → List Json → Bool
  | [], [] => true
  | x :: xs, y :: ys => same x y && sameItems xs ys
  | _, _ => false

/-- Members with the same names in the same order and the same values. -/
def sameMembers : List (String × Json) → List (String × Json) → Bool
  | [], [] => true
  | (k, x) :: xs, (l, y) :: ys => k == l && same x y && sameMembers xs ys
  | _, _ => false

end

/-- Null or the empty string. -/
def isBlank : Json → Bool
  | .null => true
  | .str s => s.isEmpty
  | _ => false

/-! ## Text -/

/-- A character inside quotes: quote, backslash and the control characters below a space are
    escaped, all others stand for themselves. -/
def escape (c : Char) : List Char :=
  if c = '"' then ['\\', '"']
  else if c = '\\' then ['\\', '\\']
  else if c = '\x08' then ['\\', 'b']
  else if c = '\x0c' then ['\\', 'f']
  else if c = '\n' then ['\\', 'n']
  else if c = '\r' then ['\\', 'r']
  else if c = '\t' then ['\\', 't']
  else if c.toNat < 0x20 then
    ['\\', 'u', '0', '0', Nat.digitChar (c.toNat / 16), Nat.digitChar (c.toNat % 16)]
  else [c]

/-- The characters of a string between quotes. -/
def quote (s : String) : List Char :=
  '"' :: s.toList.flatMap escape ++ ['"']

mutual

/-- The characters of a value, without spaces. -/
def chars : Json → List Char
  | .null => ['n', 'u', 'l', 'l']
  | .bool true => ['t', 'r', 'u', 'e']
  | .bool false => ['f', 'a', 'l', 's', 'e']
  | .num n => n.chars
  | .str s => quote s
  | .arr items => '[' :: itemsChars items
  | .obj members => '{' :: membersChars members

/-- The items of a list and the bracket that closes it. -/
def itemsChars : List Json → List Char
  | [] => [']']
  | [x] => chars x ++ [']']
  | x :: xs => chars x ++ ',' :: itemsChars xs

/-- The members of an object and the brace that closes it. -/
def membersChars : List (String × Json) → List Char
  | [] => ['}']
  | [(k, x)] => quote k ++ ':' :: chars x ++ ['}']
  | (k, x) :: xs => quote k ++ ':' :: chars x ++ ',' :: membersChars xs

end

/-- The text of a value. -/
def text (j : Json) : String :=
  String.ofList j.chars

end Json

end PowerOfAttorney
