import PowerOfAttorney.Command.Basic
import PowerOfAttorney.Register.Caller
import PowerOfAttorney.Register.Problem
import PowerOfAttorney.Register.Store

/-!
# `PowerOfAttorney.Register.Service` — making updates on request

A request is received, then prepared against the document as it is read, then committed to the store
as it is by then. Other requests may come between reading and committing; the store refuses a document
that was changed in the meantime.

## Contents
- **Requests.** `Request`, and `Occasion` for what each request takes from its surroundings: the time
  and a new identifier.
- **Stages.** `receive`, `prepare`, `commit`.
- **The whole.** `handle`, with nothing between its stages.
-/

namespace PowerOfAttorney

/-- A request to update the document of a uid. -/
structure Request where
  uid : String
  headers : Headers
  body : String

/-- What a request takes from its surroundings. -/
structure Occasion where
  /-- The time at which the rules are applied. -/
  ruledAt : Instant
  /-- The time at which the update counts as applied. -/
  appliedAt : Instant
  /-- A new identifier for the update. -/
  id : String

/-- A document to be written, with the update that made it. -/
structure Commit where
  document : Document
  update : Update
  /-- When the document was last changed as it was read. -/
  expected : Option Instant

namespace Service

/-- The update of a request, with the caller as its author. The caller is verified before the body is
    looked at. -/
def receive (verify : Verifier) (r : Request) : Except Problem Update :=
  match verify r.headers with
  | .error _ => .error .unauthorised
  | .ok claims =>
    match Update.codec.decodeText r.body with
    | .error _ => .error .invalidRequest
    | .ok u => .ok { u with author := claims.subject }

/-- The problem of a document that cannot be read. -/
def unread : StoreError → Problem
  | .notFound _ => .notFound
  | _ => .internalServerError

/-- What is to be written for an update of a document that was read. -/
def prepare (o : Occasion) (u : Update) (read : Except StoreError Document) :
    Except Problem Commit :=
  match read with
  | .error why => .error (unread why)
  | .ok d =>
    let u := { u with uid := d.uid }
    match u.validate d with
    | .error faults => .error (Problem.invalidRequest.withErrors (faults.map Fault.toFieldError))
    | .ok command =>
      match command.apply o.ruledAt d with
      | .error why => .error (Problem.invalidRequest.withErrors [why.toFieldError])
      | .ok d' =>
        .ok ⟨{ d' with updatedAt := some o.appliedAt },
          { u with id := o.id, applied := some o.appliedAt }, d.updatedAt⟩

/-- The problem of an update that cannot be written. -/
def unwritten : StoreError → Problem
  | .conflict _ => .conflict
  | _ => .internalServerError

/-- Writes what was prepared, and answers. -/
def commit (s : Store) (c : Commit) : Response × Store :=
  match s.putChanges c.document c.update c.expected with
  | .error why => ((unwritten why).respond, s)
  | .ok s => (⟨201, Document.codec.encodeText c.document⟩, s)

/-- The answer to a request, and the store after it, where the store may have become another between
    reading and writing. -/
def handleAcross (verify : Verifier) (o : Occasion) (r : Request) (atRead atWrite : Store) :
    Response × Store :=
  match receive verify r with
  | .error p => (p.respond, atWrite)
  | .ok u =>
    match prepare o u (atRead.get r.uid) with
    | .error p => (p.respond, atWrite)
    | .ok c => commit atWrite c

/-- The answer to a request that nothing comes between. -/
def handle (verify : Verifier) (o : Occasion) (r : Request) (s : Store) : Response × Store :=
  handleAcross verify o r s s

/-- The updates made of the document of a uid, oldest first. -/
def history (s : Store) (uid : String) : Except StoreError (List Update) :=
  s.getChanges uid

end Service

end PowerOfAttorney
