import PowerOfAttorney.Cbor.Item
import PowerOfAttorney.Change.Basic

/-!
# `PowerOfAttorney.Register.Audit` — the audit record of an update

An applied update is kept as an array of its fields in CBOR. The values of its changes are kept as
JSON texts.

## Contents
- **Records.** `AuditRecord` and `AuditChange`, and what they are of an update.
- **Times.** An instant is kept as its count of nanoseconds, if that fits 64 bits.
- **Encoding.** `AuditRecord.encode?` and `AuditRecord.decode?`.
-/

namespace PowerOfAttorney

/-- A change with its values as JSON texts. -/
structure AuditChange where
  key : String
  old : String
  new : String
deriving DecidableEq

/-- An update with the values of its changes as JSON texts. -/
structure AuditRecord where
  id : String
  uid : String
  applied : Option Instant
  author : String
  type : String
  changes : List AuditChange
deriving DecidableEq

namespace Instant

/-- The CBOR form of an instant, if its nanoseconds fit 64 bits. -/
def cbor? (t : Instant) : Option Bytes :=
  Cbor.int? t.nanoseconds

/-- What is said of an instant that has no CBOR form. -/
def cborMessage : String :=
  "failed to encode timestamp. timestamp_nanos_opt returned None"

/-- Reads an instant. -/
def readCbor? (bs : Bytes) : Option (Instant × Bytes) :=
  (Cbor.readInt? bs).map fun (n, rest) => (ofNanoseconds n, rest)

end Instant

namespace AuditRecord

/-- The record of an update. -/
def ofUpdate (u : Update) : AuditRecord where
  id := u.id
  uid := u.uid
  applied := u.applied
  author := u.author
  type := u.type
  changes := u.changes.map fun c => ⟨c.key, c.old.text, c.new.text⟩

/-- A change of a record. -/
def toChange (c : AuditChange) : Except DecodeError Change := do
  let old ← Codec.json.decodeText c.old
  let new ← Codec.json.decodeText c.new
  .ok ⟨c.key, old, new⟩

/-- The update of a record, if the values of its changes are JSON. -/
def toUpdate (r : AuditRecord) : Except DecodeError Update := do
  let changes ← r.changes.mapM toChange
  .ok ⟨r.id, r.uid, r.applied, r.author, r.type, changes⟩

/-- The CBOR form of a change. -/
def encodeChange (c : AuditChange) : Bytes :=
  Cbor.head 4 3 ++ Cbor.string c.key ++ Cbor.string c.old ++ Cbor.string c.new

/-- The CBOR form of a record whose time has been encoded. -/
def encodeFields (r : AuditRecord) (applied : Bytes) : Bytes :=
  Cbor.head 4 6 ++ Cbor.string r.id ++ Cbor.string r.uid ++ applied ++ Cbor.string r.author ++
    Cbor.string r.type ++ Cbor.head 4 r.changes.length ++ r.changes.flatMap encodeChange

/-- The texts of a record. -/
def texts (r : AuditRecord) : List String :=
  [r.id, r.uid, r.author, r.type] ++ r.changes.flatMap fun c => [c.key, c.old, c.new]

/-- All lengths in the record fit 64 bits. -/
def fits (r : AuditRecord) : Bool :=
  decide (r.changes.length < 18446744073709551616) &&
    r.texts.all fun s => decide ((Bytes.ofString s).length < 18446744073709551616)

/-- The CBOR form of a record, if its time and its lengths have one. -/
def encode? (r : AuditRecord) : Option Bytes := do
  let applied ←
    match r.applied with
    | none => some [Cbor.null]
    | some t => t.cbor?
  if r.fits then some (encodeFields r applied) else none

/-- Reads the fields of a change. -/
def changeFields? (bs : Bytes) : Option (AuditChange × Bytes) := do
  let (key, bs) ← Cbor.readString? bs
  let (old, bs) ← Cbor.readString? bs
  let (new, bs) ← Cbor.readString? bs
  some (⟨key, old, new⟩, bs)

/-- Reads the fields of a record. -/
def fields? (bs : Bytes) : Option (AuditRecord × Bytes) := do
  let (id, bs) ← Cbor.readString? bs
  let (uid, bs) ← Cbor.readString? bs
  let (applied, bs) ← Cbor.readOption? Instant.readCbor? bs
  let (author, bs) ← Cbor.readString? bs
  let (type, bs) ← Cbor.readString? bs
  let (changes, bs) ← Cbor.array? (Cbor.record? 3 changeFields?) bs
  some (⟨id, uid, applied, author, type, changes⟩, bs)

/-- The record that some bytes begin with; further fields and bytes are passed over. -/
def decode? (bs : Bytes) : Option AuditRecord :=
  (Cbor.record? 6 fields? bs).map Prod.fst

end AuditRecord

end PowerOfAttorney
