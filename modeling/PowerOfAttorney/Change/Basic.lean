import PowerOfAttorney.Json.Record

/-!
# `PowerOfAttorney.Change.Basic` — changes and the updates that carry them

A change names a field, the value its sender believes the field to hold, and the value to store
instead. An update is a list of changes of one type, with a record of who made it and when.

## Contents
- **Types.** `Change`, `Update`, and `FieldError`, which points at what is wrong with an update.
- **Authors.** `authorUid` is what follows the last `:users:` of a name.
- **JSON forms.** `Change.codec`, `Update.codec`, `FieldError.codec`.
-/

namespace PowerOfAttorney

/-- One claimed edit of a field. -/
structure Change where
  key : String
  /-- What the sender believes to be stored. -/
  old : Json
  /-- What to store. -/
  new : Json

/-- A list of changes. Identifier, document, author and time are filled in when it is applied. -/
structure Update where
  id : String
  uid : String
  applied : Option Instant
  author : String
  /-- The text of an `Operation`, or any other text. -/
  type : String
  changes : List Change

/-- A problem with an update, and the part of it that has the problem. -/
structure FieldError where
  source : String
  detail : String
deriving DecidableEq

/-! ## Authors -/

/-- What follows the last occurrence of a non-empty text. -/
def afterLast? (mark : List Char) : List Char → Option (List Char)
  | [] => none
  | c :: cs =>
    match afterLast? mark cs with
    | some rest => some rest
    | none => if mark.isPrefixOf (c :: cs) then some ((c :: cs).drop mark.length) else none

/-- The identifier at the end of a name such as `urn:opg:poas:makeregister:users:abc`; empty if the
    name is none of a user. -/
def authorUid (name : String) : String :=
  match afterLast? ":users:".toList name.toList with
  | some uid => String.ofList uid
  | none => ""

/-- The identifier of the author of an update. -/
def Update.authorUid (u : Update) : String :=
  PowerOfAttorney.authorUid u.author

/-! ## JSON forms -/

open PowerOfAttorney.Part

/-- The JSON form of a change. -/
def Change.codec : Codec Change :=
  Part.codec <| Change.mk
    <$> required "key" Change.key .string
    <*> optional "old" Change.old .json .null (fun _ => false)
    <*> optional "new" Change.new .json .null (fun _ => false)

/-- The JSON form of an update. -/
def Update.codec : Codec Update :=
  Part.codec <| Update.mk
    <$> text "id" Update.id
    <*> text "uid" Update.uid
    <*> maybe "applied" Update.applied .instant
    <*> text "author" Update.author
    <*> required "type" Update.type .string
    <*> optional "changes" Update.changes (.list Change.codec) [] (fun _ => false)

/-- The JSON form of a problem. -/
def FieldError.codec : Codec FieldError :=
  Part.codec <| FieldError.mk
    <$> required "source" FieldError.source .string
    <*> required "detail" FieldError.detail .string

end PowerOfAttorney
