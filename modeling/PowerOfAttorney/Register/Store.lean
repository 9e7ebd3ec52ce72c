import PowerOfAttorney.Document.Codec
import PowerOfAttorney.Register.Audit

/-!
# `PowerOfAttorney.Register.Store` — documents and their history

A store keeps bytes by key: a document's JSON under its uid, and the audit record of each update under
the uid and the update's identifier. Identifiers grow with time, so the order of the keys is the order
in which updates were applied.

## Contents
- **The type.** `Store`, and `StoreError` for what can go wrong.
- **Documents.** `Store.get` and `Store.put`.
- **Updates.** `Store.putChanges` writes a document with the record of its update, unless the stored
  document is no longer the one that was read; `Store.getChanges` lists the updates of a document.
-/

namespace PowerOfAttorney

/-- Bytes by key. -/
structure Store where
  entries : Dictionary Bytes

/-- Why a store did not answer. -/
inductive StoreError
  | notFound (uid : String)
  | conflict (uid : String)
  | json (why : DecodeError)
  | auditNotEncoded
  | auditNotDecoded
deriving DecidableEq

/-- The wording of an error, where it is the store's own. -/
def StoreError.message? : StoreError → Option String
  | .notFound uid => some ("Record " ++ uid ++ " not found")
  | .conflict uid => some ("Record " ++ uid ++ " has been modified since it was read")
  | .json why => why.message?
  | .auditNotEncoded | .auditNotDecoded => none

namespace Store

/-- A store without documents. -/
def empty : Store := ⟨.empty⟩

/-- The key of a document. -/
def documentKey (uid : String) : String :=
  "lpa/" ++ uid

/-- What the keys of the updates of a document begin with. -/
def historyKey (uid : String) : String :=
  "change/" ++ uid ++ "/"

/-- The key of an update of a document. -/
def changeKey (uid id : String) : String :=
  historyKey uid ++ id

/-- Writes bytes under a key. -/
def write (s : Store) (key : String) (bytes : Bytes) : Store :=
  ⟨s.entries.insert key bytes⟩

/-- The bytes under a key. -/
def read? (s : Store) (key : String) : Option Bytes :=
  s.entries.get? key

/-! ## Documents -/

/-- The bytes of a document. -/
def documentBytes (d : Document) : Bytes :=
  Bytes.ofString (Document.codec.encodeText d)

/-- A value of stored bytes. -/
def decode {α : Type} (c : Codec α) (bytes : Bytes) : Except StoreError α :=
  (c.decodeText (Bytes.jsonText bytes)).mapError .json

/-- The document of a uid. -/
def get (s : Store) (uid : String) : Except StoreError Document :=
  match s.read? (documentKey uid) with
  | none => .error (.notFound uid)
  | some bytes => decode Document.codec bytes

/-- Writes a document. -/
def put (s : Store) (d : Document) : Store :=
  s.write (documentKey d.uid) (documentBytes d)

/-! ## Updates -/

/-- When the stored document of a uid was last changed, so far as anything is stored. -/
def version (s : Store) (uid : String) : Except StoreError (Option Instant) :=
  match s.read? (documentKey uid) with
  | none => .ok none
  | some bytes => decode Document.version bytes

/-- Writes a document and the record of the update that made it, if the stored document was last
    changed when `expected` says. -/
def putChanges (s : Store) (d : Document) (u : Update) (expected : Option Instant) :
    Except StoreError Store :=
  match (AuditRecord.ofUpdate u).encode? with
  | none => .error .auditNotEncoded
  | some record => do
    let stored ← s.version d.uid
    if stored = expected then
      .ok ((s.put d).write (changeKey d.uid u.id) record)
    else .error (.conflict d.uid)

/-- An update of stored bytes. -/
def decodeUpdate (bytes : Bytes) : Except StoreError Update :=
  match AuditRecord.decode? bytes with
  | none => .error .auditNotDecoded
  | some record => record.toUpdate.mapError .json

/-- The updates of a document, in the order of their identifiers. -/
def getChanges (s : Store) (uid : String) : Except StoreError (List Update) :=
  (s.entries.withPrefix (historyKey uid)).mapM fun (_, bytes) => decodeUpdate bytes

end Store

end PowerOfAttorney
