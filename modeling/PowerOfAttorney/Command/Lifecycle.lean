import PowerOfAttorney.Change.Script
import PowerOfAttorney.Command.Refusal
import PowerOfAttorney.Document.Basic

/-!
# `PowerOfAttorney.Command.Lifecycle` — the status of a document

## Contents
- **Signatures.** `Document.unsigned?`, the first signature that a document lacks.
- **Steps.** Withdrawal by the donor, and the way from in progress to registered.
- **Setting.** `setStatus` by the public guardian, which ends a document's life.
-/

namespace PowerOfAttorney

namespace Document

/-- The first missing signature: donor, certificate provider, attorneys, trust corporations. Those who
    have been removed need not sign. -/
def unsigned? (d : Document) : Option Unsigned :=
  if d.signedAt.isNone then some .donor
  else if d.certificateProvider.signedAt.isNone then some .certificateProvider
  else if d.attorneys.any fun a => a.status != .removed && a.signedAt.isNone then some .attorneys
  else if d.trustCorporations.any fun t => t.status != .removed && !t.isSigned then
    some .trustCorporations
  else none

/-- The donor withdraws the document. -/
def withdraw (d : Document) : Except Refusal Document :=
  match d.status with
  | .withdrawn => .error .alreadyWithdrawn
  | .registered => .error .withdrawRegistered
  | .cannotRegister => .error .withdrawUnregisterable
  | _ => .ok { d with status := .withdrawn }

/-- Leaves the in-progress status for another, once everyone has signed. -/
def leaveProgress (d : Document) (next : Status) (early : Refusal) : Except Refusal Document :=
  if d.status ≠ .inProgress then .error early
  else
    match d.unsigned? with
    | some first => .error (.unsigned first)
    | none => .ok { d with status := next }

/-- Makes a document perfect. -/
def makePerfect (d : Document) : Except Refusal Document :=
  d.leaveProgress .perfect .perfectNotInProgress

/-- Begins the statutory waiting period. -/
def beginWaiting (d : Document) : Except Refusal Document :=
  d.leaveProgress .statutoryWaitingPeriod .waitNotInProgress

/-- Registers a document after its waiting period. -/
def register (now : Instant) (d : Document) : Except Refusal Document :=
  if d.status ≠ .statutoryWaitingPeriod then .error .registerNotWaiting
  else .ok { d with status := .registered, registrationDate := some now }

/-- Why a document may not be given a status. -/
def blocked? : (next current : Status) → Option BlockedStatus
  | .cannotRegister, .registered => some .registeredCannotRegister
  | .cannotRegister, .cancelled => some .cancelledCannotRegister
  | .cannotRegister, _ => none
  | .cancelled, .registered => none
  | .cancelled, _ => some .cancelNotRegistered
  | .doNotRegister, .statutoryWaitingPeriod => none
  | .doNotRegister, _ => some .doNotRegisterNotWaiting
  | .expired, .inProgress | .expired, .statutoryWaitingPeriod | .expired, .doNotRegister => none
  | .expired, _ => some .expireTooLate
  | _, _ => some .notOffered

/-- Sets the status. -/
def setStatus (next : Status) (d : Document) : Except Refusal Document :=
  match blocked? next d.status with
  | some why => .error (.status why)
  | none => .ok { d with status := next }

end Document

/-- The new status, read against the one that the draft begins with. -/
def statusScript : Script Status :=
  .field "/status" (.word .status id fun v _ => v) (.checking .needs .chosen) <|
  .consumed .done

end PowerOfAttorney
