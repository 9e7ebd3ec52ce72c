import PowerOfAttorney.Number.Binary64
import PowerOfAttorney.Settings.Toml
import PowerOfAttorney.Text.Hexadecimal
import PowerOfAttorney.Time.Calendar

/-!
# `PowerOfAttorney.Settings.TomlText` — the text of a settings file

Reads TOML 1.0 from the characters of a file. Each reader takes its part off the front of the text and
gives the rest; none means that the text is not TOML.

## Contents
- **Blanks.** Spaces, comments and line ends.
- **Strings.** Basic and literal, on one line or between three quotes.
- **Names.** Bare, quoted and dotted.
- **Scalars.** Truth values, whole numbers and floats.
- **Dates and times.** Either alone or both, perhaps with an offset.
- **Values.** `TomlText.value?`, with lists and tables between braces.
- **Files.** `Toml.parse?`.
-/

namespace PowerOfAttorney.TomlText

/-- A reader of part of a text. -/
abbrev Reader (α : Type) := List Char → Option (α × List Char)

/-! ## Blanks -/

/-- Spaces and tabs. -/
def isSpace (c : Char) : Bool :=
  c == ' ' || c == '\t'

/-- The text without the spaces it begins with. -/
def skipSpace (cs : List Char) : List Char :=
  cs.dropWhile isSpace

/-- The characters that may stand in comments and between quotes: no control characters but the tab. -/
def isPrintable (c : Char) : Bool :=
  c == '\t' || (0x20 ≤ c.toNat && c.toNat != 0x7f)

/-- The text without the comment it begins with, if any. -/
def skipComment : List Char → List Char
  | '#' :: cs => cs.dropWhile isPrintable
  | cs => cs

/-- The end of a line. -/
def newline? : List Char → Option (List Char)
  | '\n' :: cs => some cs
  | '\r' :: '\n' :: cs => some cs
  | _ => none

/-- The rest of a line: spaces, a comment, and the end of the line or of the text. -/
def lineEnd? (cs : List Char) : Option (List Char) :=
  match skipComment (skipSpace cs) with
  | [] => some []
  | cs => newline? cs

/-- Spaces, comments and line ends, as many as there are. The fuel is more than the characters. -/
def skipLines : Nat → List Char → List Char
  | 0, cs => cs
  | fuel + 1, cs =>
    match skipSpace cs with
    | '#' :: cs =>
      match newline? (skipComment ('#' :: cs)) with
      | some rest => skipLines fuel rest
      | none => '#' :: cs
    | cs =>
      match newline? cs with
      | some rest => skipLines fuel rest
      | none => cs

/-- Spaces and line ends, as many as there are. The fuel is more than the characters. -/
def skipBlanks : Nat → List Char → List Char
  | 0, cs => cs
  | fuel + 1, cs =>
    match newline? (skipSpace cs) with
    | some rest => skipBlanks fuel rest
    | none => skipSpace cs

/-! ## Strings -/

/-- A character named by `width` hexadecimal digits. -/
def named? (width : Nat) : Reader Char := fun cs => do
  let (n, rest) ← Hexadecimal.fixed? width cs
  if n.isValidChar then some (Char.ofNat n, rest) else none

/-- The rest of an escape after its backslash. -/
def escape? : Reader Char
  | 'b' :: cs => some ('\x08', cs)
  | 't' :: cs => some ('\t', cs)
  | 'n' :: cs => some ('\n', cs)
  | 'f' :: cs => some ('\x0c', cs)
  | 'r' :: cs => some ('\r', cs)
  | '"' :: cs => some ('"', cs)
  | '\\' :: cs => some ('\\', cs)
  | 'u' :: cs => named? 4 cs
  | 'U' :: cs => named? 8 cs
  | _ => none

/-- A basic string up to its closing quote. -/
def basic? : (fuel : Nat) → Reader (List Char)
  | 0, _ => none
  | fuel + 1, cs =>
    match cs with
    | '"' :: cs => some ([], cs)
    | '\\' :: cs => do
      let (c, cs) ← escape? cs
      let (s, cs) ← basic? fuel cs
      some (c :: s, cs)
    | c :: cs =>
      if isPrintable c then (basic? fuel cs).map fun (s, cs) => (c :: s, cs) else none
    | [] => none

/-- A literal string up to its closing quote. -/
def literal? : Reader (List Char) := fun cs =>
  let s := cs.takeWhile fun c => isPrintable c && c != '\''
  match cs.drop s.length with
  | '\'' :: rest => some (s, rest)
  | _ => none

/-- Three quotes end a string of several lines; one or two more in front of them belong to it. -/
def closing? (quote : Char) (cs : List Char) : Option (List Char × List Char) :=
  let n := (cs.takeWhile (· == quote)).length
  if n < 3 then none else some (List.replicate (min n 5 - 3) quote, cs.drop (min n 5))

/-- A string of several lines up to the quotes that close it; with escapes if it is basic. An escaped
    line end drops the blanks and line ends that follow. -/
def lines? (basic : Bool) (quote : Char) : (fuel : Nat) → Reader (List Char)
  | 0, _ => none
  | fuel + 1, cs =>
    match closing? quote cs with
    | some (s, rest) => some (s, rest)
    | none =>
      match newline? cs with
      | some rest => (lines? basic quote fuel rest).map fun (s, cs) => ('\n' :: s, cs)
      | none =>
        match cs with
        | '\\' :: cs =>
          if basic then
            match newline? (skipSpace cs) with
            | some rest => lines? basic quote fuel (skipBlanks (rest.length + 1) rest)
            | none => do
              let (c, cs) ← escape? cs
              let (s, cs) ← lines? basic quote fuel cs
              some (c :: s, cs)
          else (lines? basic quote fuel cs).map fun (s, cs) => ('\\' :: s, cs)
        | c :: cs =>
          if isPrintable c then (lines? basic quote fuel cs).map fun (s, cs) => (c :: s, cs) else none
        | [] => none

/-- A string of one line. -/
def line? : Reader String
  | '"' :: cs => (basic? (cs.length + 1) cs).map fun (s, cs) => (String.ofList s, cs)
  | '\'' :: cs => (literal? cs).map fun (s, cs) => (String.ofList s, cs)
  | _ => none

/-- A string. The line end right after three quotes is no part of it. -/
def string? (cs : List Char) : Option (String × List Char) :=
  let several (basic : Bool) (quote : Char) (cs : List Char) : Option (String × List Char) :=
    let cs := (newline? cs).getD cs
    (lines? basic quote (cs.length + 1) cs).map fun (s, cs) => (String.ofList s, cs)
  match cs with
  | '"' :: '"' :: '"' :: cs => several true '"' cs
  | '\'' :: '\'' :: '\'' :: cs => several false '\'' cs
  | cs => line? cs

/-! ## Names -/

/-- The characters of bare names. -/
def isBare (c : Char) : Bool :=
  c.isAlphanum || c == '-' || c == '_'

/-- One part of a name. -/
def part? (cs : List Char) : Option (String × List Char) :=
  match line? cs with
  | some part => some part
  | none =>
    let s := cs.takeWhile isBare
    if s.isEmpty then none else some (String.ofList s, cs.drop s.length)

/-- The parts of a dotted name; spaces may stand around each. -/
def parts? : (fuel : Nat) → Reader (List String)
  | 0, _ => none
  | fuel + 1, cs => do
    let (part, cs) ← part? (skipSpace cs)
    match skipSpace cs with
    | '.' :: cs => (parts? fuel cs).map fun (parts, cs) => (part :: parts, cs)
    | cs => some ([part], cs)

/-- A dotted name, parted into the path and the last part. A name has fewer than 80 parts. -/
def name? : Reader (List String × String) := fun cs => do
  let (parts, cs) ← parts? (cs.length + 1) cs
  let last ← parts.getLast?
  if parts.length < 80 then some ((parts.dropLast, last), cs) else none

/-! ## Scalars -/

/-- Digits of a kind, with single underscores between them. -/
def digits? (isDigit : Char → Bool) : (fuel : Nat) → Reader (List Char)
  | 0, _ => none
  | fuel + 1, cs =>
    match cs with
    | c :: cs =>
      if isDigit c then
        match cs with
        | '_' :: cs => (digits? isDigit fuel cs).map fun (ds, cs) => (c :: ds, cs)
        | d :: rest =>
          if isDigit d then (digits? isDigit fuel (d :: rest)).map fun (ds, cs) => (c :: ds, cs)
          else some ([c], d :: rest)
        | [] => some ([c], [])
      else none
    | [] => none

/-- A sign, if there is one; true for minus. -/
def sign : List Char → Bool × List Char
  | '-' :: cs => (true, cs)
  | '+' :: cs => (false, cs)
  | cs => (false, cs)

/-- The number of some digits in a base. -/
def number (base : Nat) (ds : List Char) : Nat :=
  ds.foldl (fun n d => base * n + (Hexadecimal.digit? d).getD 0) 0

/-- A whole number in another base, which has to fit 64 bits with a sign. -/
def based? (base : Nat) (isDigit : Char → Bool) : Reader Unit := fun cs => do
  let (ds, rest) ← digits? isDigit (cs.length + 1) cs
  if number base ds < 9223372036854775808 then some ((), rest) else none

/-- The digits of a decimal number; a zero stands alone. -/
def decimal? : Reader (List Char) := fun cs => do
  let (ds, rest) ← digits? Char.isDigit (cs.length + 1) cs
  if ds.head? = some '0' then some (['0'], cs.drop 1) else some (ds, rest)

/-- The exponent of a float, if there is one. -/
def exponent? : Reader (Option Int)
  | c :: cs =>
    if c = 'e' ∨ c = 'E' then do
      let (negative, cs) := sign cs
      let (ds, rest) ← digits? Char.isDigit (cs.length + 1) cs
      let e : Int := Decimal.value ds
      some (some (if negative then -e else e), rest)
    else some (none, c :: cs)
  | [] => some (none, [])

/-- The fraction of a float, if there is one. -/
def fraction? : Reader (Option (List Char))
  | '.' :: cs => do
    let (ds, rest) ← digits? Char.isDigit (cs.length + 1) cs
    some (some ds, rest)
  | cs => some (none, cs)

/-- The digits times a power of ten are within the range of doubles. -/
def isFinite (digits : List Char) (exponent : Int) : Bool :=
  let ds := digits.dropWhile (· == '0')
  let magnitude : Int := ds.length + exponent
  if ds.isEmpty || magnitude < 309 then true
  else if 309 < magnitude then false
  else
    (Binary64.nearest? false (Decimal.value ds * Nat.pow 10 exponent.toNat)
      (Nat.pow 10 (-exponent).toNat)).isSome

/-- A decimal whole number of 64 bits or a float, which has to be below positive infinity. -/
def decimalNumber? (negative : Bool) : Reader Unit := fun cs => do
  let (whole, cs) ← decimal? cs
  let (fraction, cs) ← fraction? cs
  let (exponent, cs) ← exponent? cs
  if fraction.isNone ∧ exponent.isNone then
    if Decimal.value whole < (if negative then 9223372036854775809 else 9223372036854775808) then
      some ((), cs)
    else none
  else
    let fraction := fraction.getD []
    if negative || isFinite (whole ++ fraction) (exponent.getD 0 - fraction.length) then some ((), cs)
    else none

/-- Infinity and what is no number. -/
def special? : Reader Unit
  | 'i' :: 'n' :: 'f' :: cs => some ((), cs)
  | 'n' :: 'a' :: 'n' :: cs => some ((), cs)
  | _ => none

/-- A number. -/
def number? : Reader Unit
  | '0' :: 'x' :: cs => based? 16 (fun c => (Hexadecimal.digit? c).isSome) cs
  | '0' :: 'o' :: cs => based? 8 (fun c => '0' ≤ c && c ≤ '7') cs
  | '0' :: 'b' :: cs => based? 2 (fun c => c == '0' || c == '1') cs
  | cs =>
    let (negative, cs) := sign cs
    (special? cs).or (decimalNumber? negative cs)

/-- A truth value or a number. -/
def scalar? : Reader Unit
  | 't' :: 'r' :: 'u' :: 'e' :: rest => some ((), rest)
  | 'f' :: 'a' :: 'l' :: 's' :: 'e' :: rest => some ((), rest)
  | cs => number? cs

/-! ## Dates and times -/

/-- Two digits within bounds. -/
def within? (low high : Nat) : Reader Nat := fun cs => do
  let (n, rest) ← Decimal.fixed? 2 cs
  if low ≤ n ∧ n ≤ high then some (n, rest) else none

/-- One character. -/
def mark? (c : Char) : List Char → Option (List Char)
  | d :: cs => if d = c then some cs else none
  | [] => none

/-- A time of day. -/
def timeOfDay? : Reader Unit := fun cs => do
  let (_, cs) ← within? 0 23 cs
  let cs ← mark? ':' cs
  let (_, cs) ← within? 0 59 cs
  let cs ← mark? ':' cs
  let (_, cs) ← within? 0 60 cs
  match cs with
  | '.' :: rest => (Decimal.many? rest).map fun (_, rest) => ((), rest)
  | cs => some ((), cs)

/-- An offset from UTC, if there is one. -/
def offset? : Reader Unit := fun cs =>
  match cs with
  | 'Z' :: rest | 'z' :: rest => some ((), rest)
  | '+' :: rest | '-' :: rest => do
    let (_, rest) ← within? 0 23 rest
    let rest ← mark? ':' rest
    let (_, rest) ← within? 0 59 rest
    some ((), rest)
  | cs => some ((), cs)

/-- A date, perhaps with a time of day and an offset. -/
def date? : Reader Unit := fun cs => do
  let (year, cs) ← Decimal.fixed? 4 cs
  let cs ← mark? '-' cs
  let (month, cs) ← within? 1 12 cs
  let cs ← mark? '-' cs
  let (_, cs) ← within? 1 (Calendar.daysInMonth (Calendar.isLeap year) month) cs
  match cs with
  | c :: rest =>
    if c = 'T' ∨ c = 't' ∨ c = ' ' then
      match timeOfDay? rest with
      | some (_, rest) => offset? rest
      | none => some ((), c :: rest)
    else some ((), c :: rest)
  | [] => some ((), [])

/-- A date, a time of day, or both. -/
def datetime? (cs : List Char) : Option (Unit × List Char) :=
  (date? cs).or (timeOfDay? cs)

/-! ## Values -/

/-- The items of a list up to its bracket; a comma may follow the last one. Spaces, comments and line
    ends may stand between. -/
def items? (value? : Reader Toml) : (fuel : Nat) → Reader (List Toml)
  | 0, _ => none
  | fuel + 1, cs =>
    match skipLines (cs.length + 1) cs with
    | ']' :: rest => some ([], rest)
    | cs => do
      let (x, cs) ← value? cs
      match skipLines (cs.length + 1) cs with
      | ',' :: cs => (items? value? fuel cs).map fun (xs, cs) => (x :: xs, cs)
      | ']' :: rest => some ([x], rest)
      | _ => none

/-- A name, an equals sign and a value. -/
def assignment? (value? : Reader Toml) : Reader ((List String × String) × Toml) := fun cs => do
  let (name, cs) ← name? cs
  let cs ← mark? '=' cs
  let (value, cs) ← value? (skipSpace cs)
  some ((name, value), cs)

/-- The assignments between braces up to the closing one, at least one. -/
def assignments? (value? : Reader Toml) :
    (fuel : Nat) → Reader (List ((List String × String) × Toml))
  | 0, _ => none
  | fuel + 1, cs => do
    let (x, cs) ← assignment? value? cs
    match skipSpace cs with
    | ',' :: cs => (assignments? value? fuel cs).map fun (xs, cs) => (x :: xs, cs)
    | '}' :: rest => some ([x], rest)
    | _ => none

/-- A string, a date or time, or a scalar. -/
def atom? : Reader Toml := fun cs =>
  match cs with
  | '"' :: _ | '\'' :: _ => (string? cs).map fun (s, cs) => (.string s, cs)
  | cs =>
    match datetime? cs with
    | some (_, rest) => some (.datetime, rest)
    | none => (scalar? cs).map fun (_, rest) => (.scalar, rest)

/-- A value in which lists and tables are nested at most `depth` deep. -/
def value? : (depth : Nat) → Reader Toml
  | 0, cs => atom? cs
  | depth + 1, cs =>
    match cs with
    | '[' :: cs => (items? (value? depth) (cs.length + 1) cs).map fun (xs, cs) => (.list xs, cs)
    | '{' :: cs =>
      match skipSpace cs with
      | '}' :: rest => some (.table .inline [], rest)
      | cs => do
        let (xs, cs) ← assignments? (value? depth) (cs.length + 1) cs
        some (← Toml.inline? xs, cs)
    | cs => atom? cs

/-! ## Files -/

/-- The deepest nesting of lists and tables in a value. -/
def maxDepth : Nat := 79

/-- A header: the name of a table between brackets, up to the given closing text. -/
def header? (closing : List Char) : Reader (List String × String) := fun cs => do
  let (name, cs) ← name? cs
  if closing.isPrefixOf cs then some (name, cs.drop closing.length) else none

/-- The statements of a file, line by line. `path` is that of the table which assignments go to. -/
def statements? : (fuel : Nat) → (path : List String) → Toml.Entries → List Char →
    Option Toml.Entries
  | 0, _, _, _ => none
  | fuel + 1, path, root, cs =>
    match skipLines (cs.length + 1) cs with
    | [] => some root
    | '#' :: cs => do
      let rest ← lineEnd? ('#' :: cs)
      statements? fuel path root rest
    | '[' :: '[' :: cs => do
      let (name, cs) ← header? [']', ']'] cs
      let root ← Toml.append? name root
      statements? fuel (name.1 ++ [name.2]) root (← lineEnd? cs)
    | '[' :: cs => do
      let (name, cs) ← header? [']'] cs
      let root ← Toml.open? name root
      statements? fuel (name.1 ++ [name.2]) root (← lineEnd? cs)
    | cs => do
      let ((name, value), cs) ← assignment? (value? maxDepth) cs
      let root ← Toml.amend false (fun form => Toml.assign name value form) path .header root
      statements? fuel path root (← lineEnd? cs)

end TomlText

/-- The table of a settings file, which may begin with a byte order mark. -/
def Toml.parse? (s : String) : Option Toml.Entries :=
  let cs :=
    match s.toList with
    | '\ufeff' :: cs => cs
    | cs => cs
  TomlText.statements? (cs.length + 1) [] [] cs

end PowerOfAttorney
