/-!
# `PowerOfAttorney.Text.Bytes` — texts as bytes

## Contents
- **UTF-8.** `Bytes.ofString` and `Bytes.string?`, which refuses bytes that are no UTF-8;
  `string?_ofString` is the round trip.
- **Stored texts.** `Bytes.jsonText` shows any bytes as text for a reader of JSON.
-/

namespace PowerOfAttorney

/-- A run of bytes. -/
abbrev Bytes := List UInt8

namespace Bytes

/-- The UTF-8 of a text. -/
def ofString (s : String) : Bytes :=
  s.toUTF8.data.toList

/-- The text of UTF-8. -/
def string? (bs : Bytes) : Option String :=
  String.fromUTF8? ⟨bs.toArray⟩

theorem string?_ofString (s : String) : string? (ofString s) = some s := by
  have h : (⟨(ofString s).toArray⟩ : ByteArray) = s.toByteArray := by
    simp [ofString, String.toUTF8]
  simp [string?, String.fromUTF8?, h, s.isValidUTF8, String.fromUTF8]

/-- The character that some bytes begin with, and the number of its bytes. -/
def first? (bs : Bytes) : Option (Char × Nat) :=
  [1, 2, 3, 4].findSome? fun n => do
    let s ← string? (bs.take n)
    let c ← s.toList.head?
    some (c, n)

/-- The characters of bytes of which the first `skip` have been read; none stands for a byte that belongs
    to no character. -/
def characters (skip : Nat) : Bytes → List (Option Char)
  | [] => []
  | b :: bs =>
    if 0 < skip then characters (skip - 1) bs
    else
      match first? (b :: bs) with
      | some (c, n) => some c :: characters (n - 1) bs
      | none => none :: characters 0 bs

/-- Characters as a reader of JSON is to see them, `escaped` right after the backslash of an escape. A
    stray byte is shown as two escapes of half a surrogate pair each, whose first names no character
    whatever stands around them: like the stray byte they do no harm in a string that is passed over,
    and anywhere else they are not allowed. After a backslash it is shown as a control character, which
    makes no escape. -/
def shown (escaped : Bool) : List (Option Char) → List Char
  | [] => []
  | some c :: cs => c :: shown (c == '\\' && !escaped) cs
  | none :: cs =>
    (if escaped then ['\x00']
      else ['\\', 'u', 'd', '8', '0', '0', '\\', 'u', 'd', '8', '0', '0']) ++ shown false cs

/-- The text of stored bytes, to be read as JSON. -/
def jsonText (bs : Bytes) : String :=
  (string? bs).getD (String.ofList (shown false (characters 0 bs)))

theorem jsonText_ofString (s : String) : jsonText (ofString s) = s := by
  simp [jsonText, string?_ofString]

end Bytes

end PowerOfAttorney
