import PowerOfAttorney.Json.Node
import PowerOfAttorney.Time.Date
import PowerOfAttorney.Time.Instant
import PowerOfAttorney.Vocabulary

/-!
# `PowerOfAttorney.Json.Codec` — values of a type as JSON

A codec writes the values of a type as JSON and reads them from the tree of a text, strictly and from
left to right.

## Contents
- **Faults.** `DecodeError`; a time or date that is none is told apart from all else.
- **Codecs.** `Codec`, with those of texts, flags, times, dates, words, lists, texts by name, and
  plain JSON.
- **Whole texts.** `Codec.decodeText` allows blanks after the value and nothing else.
-/

namespace PowerOfAttorney

/-- Why a text is no value of a type. -/
inductive DecodeError
  /-- Not JSON, or JSON of another shape. -/
  | malformed
  /-- A text where an instant belongs. -/
  | badInstant (text : String)
  /-- A text where a date belongs. -/
  | badDate (text : String)
deriving DecidableEq

/-- What is said of an error, where anything is. -/
def DecodeError.message? : DecodeError → Option String
  | .malformed => none
  | .badInstant s => some ("invalid RFC 3339 timestamp: " ++ s)
  | .badDate s => some ("invalid date: " ++ s)

/-- A way to write and to read the values of a type. Reading is given the number of levels that lists
    and objects may still be nested. -/
structure Codec (α : Type) where
  encode : α → Json
  decode : (depth : Nat) → Node → Except DecodeError α

namespace Codec

/-- The deepest nesting of lists and objects in a text. -/
def maxDepth : Nat := 127

/-- Strings. -/
def string : Codec String where
  encode := .str
  decode _
    | .str (some s) => .ok s
    | _ => .error .malformed

/-- Truth values. -/
def flag : Codec Bool where
  encode := .bool
  decode _
    | .bool b => .ok b
    | _ => .error .malformed

/-- Instants as RFC 3339 texts. -/
def instant : Codec Instant where
  encode t := .str t.text
  decode _
    | .str (some s) =>
      match Instant.parse? s with
      | some t => .ok t
      | none => .error (.badInstant s)
    | _ => .error .malformed

/-- Dates as texts. -/
def date : Codec Date where
  encode d := .str d.text
  decode _
    | .str (some s) =>
      match Date.parse? s with
      | some d => .ok d
      | none => .error (.badDate s)
    | _ => .error .malformed

/-- The word of a text, or an error. -/
def wordOf {ω : Type} [Word ω] (s : String) : Except DecodeError ω :=
  match Word.ofText? s with
  | some w => .ok w
  | none => .error .malformed

/-- Words as texts. An object with the text as its one name and null as its value reads as well. -/
def word {ω : Type} [Word ω] : Codec ω where
  encode w := .str (Word.text w)
  decode depth
    | .str (some s) => wordOf s
    | .obj [(some s, .null)] => if depth = 0 then .error .malformed else wordOf s
    | _ => .error .malformed

/-- A value or null. -/
def option {α : Type} (c : Codec α) : Codec (Option α) where
  encode
    | some a => c.encode a
    | none => .null
  decode depth
    | .null => .ok none
    | node => (c.decode depth node).map some

/-- Lists. -/
def list {α : Type} (c : Codec α) : Codec (List α) where
  encode xs := .arr (xs.map c.encode)
  decode depth
    | .arr items => if depth = 0 then .error .malformed else items.mapM (c.decode (depth - 1))
    | _ => .error .malformed

/-- A member whose value is a string. -/
def stringMember (depth : Nat) : Option String × Node → Except DecodeError (String × String)
  | (some k, node) => (string.decode depth node).map fun s => (k, s)
  | (none, _) => .error .malformed

/-- Strings by name; of several with one name the last counts. -/
def strings : Codec (Dictionary String) where
  encode d := .obj (d.entries.map fun (k, s) => (k, .str s))
  decode depth
    | .obj members =>
      if depth = 0 then .error .malformed
      else (members.mapM (stringMember (depth - 1))).map Dictionary.ofList
    | _ => .error .malformed

/-- Any JSON value. -/
def json : Codec Json where
  encode := id
  decode depth node :=
    match node.toJson? depth with
    | some j => .ok j
    | none => .error .malformed

/-! ## Whole texts -/

/-- The text of a value. -/
def encodeText {α : Type} (c : Codec α) (a : α) : String :=
  (c.encode a).text

/-- The value of a text. A fault of the value is found before one of what follows it. -/
def decodeText {α : Type} (c : Codec α) (s : String) : Except DecodeError α := do
  let (node, rest) := Node.read s.toList
  let a ← c.decode maxDepth node
  if Node.atEnd rest then .ok a else .error .malformed

/-- The value of a JSON value. -/
def decodeJson {α : Type} (c : Codec α) (j : Json) : Except DecodeError α :=
  c.decode maxDepth (.ofJson j)

end Codec

end PowerOfAttorney
