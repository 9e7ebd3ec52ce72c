import PowerOfAttorney.Json.Value
import PowerOfAttorney.Text.Hexadecimal

/-!
# `PowerOfAttorney.Json.Node` — JSON text as it stands

A text is first read into a tree that keeps what a decoder has to see: the members of an object in
their order with repetitions, literals that have a spelling but no value, and the place where the
text stops being JSON. A decoder walks the tree from left to right, so the first fault of the text
is the first one it meets.

## Contents
- **The tree.** `Node`; `Node.intact` says that no part of it breaks off.
- **Literals.** `Node.string?` reads to the closing quote, `Node.number?` reads a number.
- **Reading.** `Node.read` gives the tree and what follows it.
- **Values.** `Node.toJson?` is the value of a tree of limited depth; `Node.ofJson` goes back.
-/

namespace PowerOfAttorney

/-- A JSON text as a tree. -/
inductive Node
  | null
  | bool (b : Bool)
  /-- A number; none if its magnitude is beyond the range. -/
  | num (n : Option Number)
  /-- A string; none if an escape in it names no character. -/
  | str (s : Option String)
  | arr (items : List Node)
  /-- Members in the order of the text. -/
  | obj (members : List (Option String × Node))
  /-- The text is not JSON from here on. -/
  | broken

namespace Node

mutual

/-- No part of the tree breaks off. -/
def intact : Node → Bool
  | .broken => false
  | .arr items => intactItems items
  | .obj members => intactMembers members
  | _ => true

/-- No item of a list breaks off. -/
def intactItems : List Node → Bool
  | [] => true
  | x :: xs => intact x && intactItems xs

/-- No member of an object breaks off. -/
def intactMembers : List (Option String × Node) → Bool
  | [] => true
  | (_, x) :: xs => intact x && intactMembers xs

end

/-! ## Literals -/

/-- The blanks of JSON. -/
def isSpace (c : Char) : Bool :=
  c == ' ' || c == '\t' || c == '\n' || c == '\r'

/-- The text without the blanks it begins with. -/
def skipSpace (cs : List Char) : List Char :=
  cs.dropWhile isSpace

/-- An escape of two characters, without its backslash. -/
def shortEscape? : Char → Option Char
  | '"' => some '"'
  | '\\' => some '\\'
  | '/' => some '/'
  | 'b' => some '\x08'
  | 'f' => some '\x0c'
  | 'n' => some '\n'
  | 'r' => some '\r'
  | 't' => some '\t'
  | _ => none

/-- The character of an escape of four digits, which may need a second escape: a pair of surrogates
    names one character, a surrogate on its own names none. -/
def unicodeEscape? (cs : List Char) : Option (Option Char × List Char) := do
  let (high, cs) ← Hexadecimal.fixed? 4 cs
  if 0xDC00 ≤ high ∧ high ≤ 0xDFFF then some (none, cs)
  else if 0xD800 ≤ high ∧ high ≤ 0xDBFF then
    match cs with
    | '\\' :: 'u' :: rest =>
      let (low, rest) ← Hexadecimal.fixed? 4 rest
      if 0xDC00 ≤ low ∧ low ≤ 0xDFFF then
        some (some (Char.ofNat (0x10000 + (high - 0xD800) * 0x400 + (low - 0xDC00))), rest)
      else some (none, cs)
    | _ => some (none, cs)
  else some (some (Char.ofNat high), cs)

/-- One character of a string. The inner option is none for an escape that names no character. -/
def stringChar? : List Char → Option (Option Char × List Char)
  | '\\' :: 'u' :: cs => unicodeEscape? cs
  | '\\' :: c :: cs => (shortEscape? c).map fun c => (some c, cs)
  | c :: cs => if c.toNat < 0x20 ∨ c = '\\' ∨ c = '"' then none else some (some c, cs)
  | [] => none

/-- A string up to its closing quote, of at most as many characters as given. The inner option is none
    if some escape names no character. -/
def string? : Nat → List Char → Option (Option (List Char) × List Char)
  | 0, _ => none
  | fuel + 1, cs =>
    match cs with
    | '"' :: cs => some (some [], cs)
    | _ => do
      let (c, cs) ← stringChar? cs
      let (s, cs) ← string? fuel cs
      some (do some ((← c) :: (← s)), cs)

/-- The digits before the point: a zero stands alone. -/
def wholeDigits? : List Char → Option (List Char × List Char)
  | '0' :: cs => if (cs.takeWhile Char.isDigit).isEmpty then some (['0'], cs) else none
  | cs =>
    let ds := cs.takeWhile Char.isDigit
    if ds.isEmpty then none else some (ds, cs.dropWhile Char.isDigit)

/-- A point and the digits after it, if there is a point. -/
def fractionDigits? : List Char → Option (Option (List Char) × List Char)
  | '.' :: cs =>
    let ds := cs.takeWhile Char.isDigit
    if ds.isEmpty then none else some (some ds, cs.dropWhile Char.isDigit)
  | cs => some (none, cs)

/-- The sign of an exponent, true for minus. -/
def exponentSign : List Char → Bool × List Char
  | '+' :: cs => (false, cs)
  | '-' :: cs => (true, cs)
  | cs => (false, cs)

/-- The exponent, if there is one. -/
def exponentDigits? : List Char → Option (Option (Bool × List Char) × List Char)
  | c :: cs =>
    if c = 'e' ∨ c = 'E' then
      let (negative, cs) := exponentSign cs
      let ds := cs.takeWhile Char.isDigit
      if ds.isEmpty then none else some (some (negative, ds), cs.dropWhile Char.isDigit)
    else some (none, c :: cs)
  | [] => some (none, [])

/-- A number literal without its sign. -/
def unsigned? (negative : Bool) (cs : List Char) : Option (Number.Literal × List Char) := do
  let (whole, cs) ← wholeDigits? cs
  let (fraction, cs) ← fractionDigits? cs
  let (exponent, cs) ← exponentDigits? cs
  some (⟨negative, whole, fraction, exponent⟩, cs)

/-- A number literal. -/
def number? : List Char → Option (Number.Literal × List Char)
  | '-' :: cs => unsigned? true cs
  | cs => unsigned? false cs

/-! ## Reading -/

/-- A tree and the text after it; no text after it if the tree breaks off. -/
abbrev Read := Node × Option (List Char)

/-- A literal name, read to its end. -/
def name (word : List Char) (node : Node) (cs : List Char) : Read :=
  if word.isPrefixOf cs then (node, some (cs.drop word.length)) else (.broken, none)

mutual

/-- Reads a value. Every call passes on less fuel; a text never needs more than twice its length. -/
def value : Nat → List Char → Read
  | 0, _ => (.broken, none)
  | fuel + 1, cs =>
    match skipSpace cs with
    | [] => (.broken, none)
    | '"' :: cs =>
      match string? (cs.length + 1) cs with
      | some (s, rest) => (.str (s.map String.ofList), some rest)
      | none => (.broken, none)
    | '[' :: cs =>
      match skipSpace cs with
      | ']' :: rest => (.arr [], some rest)
      | cs =>
        let (xs, rest) := items fuel cs
        (.arr xs, rest)
    | '{' :: cs =>
      match skipSpace cs with
      | '}' :: rest => (.obj [], some rest)
      | cs =>
        let (xs, rest) := members fuel cs
        (.obj xs, rest)
    | c :: cs =>
      if c = 'n' then name ['n', 'u', 'l', 'l'] .null (c :: cs)
      else if c = 't' then name ['t', 'r', 'u', 'e'] (.bool true) (c :: cs)
      else if c = 'f' then name ['f', 'a', 'l', 's', 'e'] (.bool false) (c :: cs)
      else
        match number? (c :: cs) with
        | some (l, rest) => (.num (Number.ofLiteral? l), some rest)
        | none => (.broken, none)

/-- Reads the items of a list, at least one, and the bracket that closes it. -/
def items : Nat → List Char → List Node × Option (List Char)
  | 0, _ => ([.broken], none)
  | fuel + 1, cs =>
    match value fuel cs with
    | (x, none) => ([x], none)
    | (x, some rest) =>
      match skipSpace rest with
      | ',' :: rest =>
        let (xs, rest) := items fuel rest
        (x :: xs, rest)
      | ']' :: rest => ([x], some rest)
      | _ => ([x, .broken], none)

/-- Reads the members of an object, at least one, and the brace that closes it. -/
def members : Nat → List Char → List (Option String × Node) × Option (List Char)
  | 0, _ => ([(none, .broken)], none)
  | fuel + 1, cs =>
    match skipSpace cs with
    | '"' :: cs =>
      match string? (cs.length + 1) cs with
      | none => ([(none, .broken)], none)
      | some (k, rest) =>
        let k := k.map String.ofList
        match skipSpace rest with
        | ':' :: rest =>
          match value fuel rest with
          | (x, none) => ([(k, x)], none)
          | (x, some rest) =>
            match skipSpace rest with
            | ',' :: rest =>
              let (xs, rest) := members fuel rest
              ((k, x) :: xs, rest)
            | '}' :: rest => ([(k, x)], some rest)
            | _ => ([(k, x), (none, .broken)], none)
        | _ => ([(k, .broken)], none)
    | _ => ([(none, .broken)], none)

end

/-- Reads a value off the front of a text. -/
def read (cs : List Char) : Read :=
  value (2 * cs.length + 2) cs

/-- Nothing but blanks is left of a text that has not broken off. -/
def atEnd (rest : Option (List Char)) : Bool :=
  match rest with
  | some cs => (skipSpace cs).isEmpty
  | none => false

/-! ## Values -/

mutual

/-- The value of a tree in which lists and objects are nested at most `depth` deep and every literal
    has a value. Objects are sorted, the last member of a name counts. -/
def toJson? (depth : Nat) : Node → Option Json
  | .null => some .null
  | .bool b => some (.bool b)
  | .num n => n.map .num
  | .str s => s.map .str
  | .arr xs => if depth = 0 then none else (itemsToJson? (depth - 1) xs).map .arr
  | .obj xs => if depth = 0 then none else (membersToJson? (depth - 1) xs).map .ofMembers
  | .broken => none

/-- The values of the items of a list. -/
def itemsToJson? (depth : Nat) : List Node → Option (List Json)
  | [] => some []
  | x :: xs => do some ((← toJson? depth x) :: (← itemsToJson? depth xs))

/-- The values of the members of an object. -/
def membersToJson? (depth : Nat) : List (Option String × Node) → Option (List (String × Json))
  | [] => some []
  | (k, x) :: xs => do some ((← k, ← toJson? depth x) :: (← membersToJson? depth xs))

end

mutual

/-- The tree of a value. -/
def ofJson : Json → Node
  | .null => .null
  | .bool b => .bool b
  | .num n => .num (some n)
  | .str s => .str (some s)
  | .arr xs => .arr (itemsOfJson xs)
  | .obj xs => .obj (membersOfJson xs)

/-- The trees of the items of a list. -/
def itemsOfJson : List Json → List Node
  | [] => []
  | x :: xs => ofJson x :: itemsOfJson xs

/-- The trees of the members of an object. -/
def membersOfJson : List (String × Json) → List (Option String × Node)
  | [] => []
  | (k, x) :: xs => (some k, ofJson x) :: membersOfJson xs

end

end Node

end PowerOfAttorney
