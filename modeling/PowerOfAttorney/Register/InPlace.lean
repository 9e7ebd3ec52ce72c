import PowerOfAttorney.Register.Store

/-!
# `PowerOfAttorney.Register.InPlace` — writing an update on the store itself

`Store.putChanges` makes a new store of an old one. Here it is a transaction on one store, which encodes the
record, reads what is stored, compares, and writes under one key after the other. What has been written stays
written when the transaction breaks off; nothing is rolled back.

## Contents
- **Transactions.** `Store.Transaction`, and `Store.Transaction.attempt` for what may fail.
- **Updates.** `Store.compareAndSet`.
-/

namespace PowerOfAttorney

namespace Store

/-- Steps on one store. A transaction that breaks off leaves the store as it is at that point. -/
abbrev Transaction := EStateM StoreError Store

namespace Transaction

/-- Goes on with a result, or breaks off. -/
def attempt {α : Type} : Except StoreError α → Transaction α
  | .ok a => pure a
  | .error why => throw why

/-- When the stored document of a uid was last changed. -/
def readVersion (uid : String) : Transaction (Option Instant) :=
  fun s => attempt (s.version uid) s

/-- Writes bytes under a key. -/
def writeBytes (key : String) (bytes : Bytes) : Transaction Unit :=
  modify fun s => s.write key bytes

end Transaction

open Transaction

/-- Writes a document and the record of the update that made it, if the stored document was last changed when
    `expected` says. -/
def compareAndSet (d : Document) (u : Update) (expected : Option Instant) : Transaction Unit := do
  let record ←
    match (AuditRecord.ofUpdate u).encode? with
    | some record => pure record
    | none => throw .auditNotEncoded
  let stored ← readVersion d.uid
  if stored ≠ expected then
    throw (.conflict d.uid)
  writeBytes (documentKey d.uid) (documentBytes d)
  writeBytes (changeKey d.uid u.id) record

end Store

end PowerOfAttorney
