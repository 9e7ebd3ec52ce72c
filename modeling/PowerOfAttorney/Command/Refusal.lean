import PowerOfAttorney.Change.Basic
import PowerOfAttorney.Text.Decimal

/-!
# `PowerOfAttorney.Command.Refusal` — why a command does not apply to a document

## Contents
- **Causes.** `Refusal`, with `Unsigned` for the first signature that is missing, `BlockedStatus` and
  `BlockedMove` for changes of status that are not allowed.
- **Wording.** `Refusal.toFieldError`.
-/

namespace PowerOfAttorney

/-- The first signature that a document lacks. -/
inductive Unsigned
  | donor
  | certificateProvider
  | attorneys
  | trustCorporations
deriving DecidableEq

/-- Why the status of a document cannot be set as asked. -/
inductive BlockedStatus
  | registeredCannotRegister
  | cancelledCannotRegister
  | cancelNotRegistered
  | doNotRegisterNotWaiting
  | expireTooLate
  | notOffered
deriving DecidableEq

/-- A change of an attorney's status that is not allowed. -/
inductive BlockedMove
  | removeInactive
  | deactivate
  | reinstate
deriving DecidableEq

/-- Whose identity is checked. -/
inductive CheckedParty
  | donor
  | certificateProvider
deriving DecidableEq

/-- Where the identity check of a party is kept. -/
def CheckedParty.path : CheckedParty → String
  | .donor => "/donor/identityCheck"
  | .certificateProvider => "/certificateProvider/identityCheck"

/-- A rule that a command breaks. -/
inductive Refusal
  | attorneyNotFound
  | trustCorporationNotFound
  | certificateProviderSignsAgain
  | attorneySignsAgain
  | trustCorporationSignsAgain
  | attorneyLeavesSigned
  | trustCorporationLeavesSigned
  | certificateProviderLeavesSigned
  | alreadyWithdrawn
  | withdrawRegistered
  | withdrawUnregisterable
  | perfectNotInProgress
  | waitNotInProgress
  | registerNotWaiting
  | unsigned (first : Unsigned)
  | status (why : BlockedStatus)
  | attorneyStatus (index : Nat) (why : BlockedMove)
  | notMixed (index : Nat)
  | notPaper
  | identityIncomplete (party : CheckedParty)
  | correctRegistered
  | birthDateRegistered
  | signingDate
  | attorneySigningDate (index : Nat)
  | signatorySigningDate (index signatory : Nat)
  | certificateProviderSigningDate
deriving DecidableEq

/-- The wording of a missing signature. -/
def Unsigned.message : Unsigned → String
  | .donor => "lpa must be signed"
  | .certificateProvider => "lpa must have a certificate"
  | .attorneys => "lpa must be signed by attorneys"
  | .trustCorporations => "lpa must be signed by trust corporations"

/-- The wording of a status that cannot be set. -/
def BlockedStatus.message : BlockedStatus → String
  | .registeredCannotRegister =>
    "Lpa status cannot be registered while changing to cannot register"
  | .cancelledCannotRegister =>
    "Lpa status cannot be cancelled while changing to cannot register"
  | .cancelNotRegistered =>
    "Lpa status has to be registered while changing to cancelled"
  | .doNotRegisterNotWaiting =>
    "Lpa status has to be statutory waiting period while changing to do not register"
  | .expireTooLate =>
    "Lpa status has to be in progress, statutory waiting period or do not register while changing to expired"
  | .notOffered =>
    "Status to be updated should be cannot register, cancelled, do not register or expired"

/-- The wording of a change of an attorney's status. -/
def BlockedMove.message : BlockedMove → String
  | .removeInactive => "An inactive attorney cannot be removed"
  | .deactivate => "An active attorney cannot be made inactive"
  | .reinstate => "A removed attorney cannot be made active"

namespace Refusal

/-- The path of the entry of a list, with what follows it. -/
def entryPath (start : String) (index : Nat) (rest : String) : String :=
  start ++ String.ofList (Decimal.digits index) ++ rest

/-- Source and detail of a refusal. -/
def toFieldError : Refusal → FieldError
  | .attorneyNotFound => ⟨"/type", "attorney not found"⟩
  | .trustCorporationNotFound => ⟨"/type", "trust corporation not found"⟩
  | .certificateProviderSignsAgain => ⟨"/type", "certificate provider cannot sign again"⟩
  | .attorneySignsAgain => ⟨"/type", "attorney cannot sign again"⟩
  | .trustCorporationSignsAgain => ⟨"/type", "trust corporation cannot sign again"⟩
  | .attorneyLeavesSigned => ⟨"/type", "attorney cannot opt out after signing"⟩
  | .trustCorporationLeavesSigned => ⟨"/type", "trust corporation cannot opt out after signing"⟩
  | .certificateProviderLeavesSigned =>
    ⟨"/type", "certificate provider cannot opt out after providing certificate"⟩
  | .alreadyWithdrawn => ⟨"/type", "lpa has already been withdrawn"⟩
  | .withdrawRegistered => ⟨"/type", "cannot withdraw a registered lpa"⟩
  | .withdrawUnregisterable => ⟨"/type", "cannot withdraw an unregisterable lpa"⟩
  | .perfectNotInProgress => ⟨"/type", "status must be in-progress to make perfect"⟩
  | .waitNotInProgress => ⟨"/type", "status must be in-progress to enter statutory-waiting-period"⟩
  | .registerNotWaiting => ⟨"/type", "status must be statutory-waiting-period to register"⟩
  | .unsigned first => ⟨"/type", first.message⟩
  | .status why => ⟨"/status", why.message⟩
  | .attorneyStatus i why => ⟨entryPath "/attorneys/" i "/status", why.message⟩
  | .notMixed i =>
    ⟨entryPath "/attorneys/" i "/cannotMakeJointDecisions",
      "The appointment type must be jointly for some and severally for others"⟩
  | .notPaper => ⟨"/channel", "lpa channel is not paper"⟩
  | .identityIncomplete party => ⟨party.path, "identity check is incomplete"⟩
  | .correctRegistered => ⟨"/type", "cannot make corrections to a Registered LPA"⟩
  | .birthDateRegistered =>
    ⟨"/donor/dateOfBirth",
      "The donor's date of birth cannot be changed once the LPA is registered"⟩
  | .signingDate => ⟨"/signedAt", "LPA Signed on date cannot be changed for online LPAs"⟩
  | .attorneySigningDate i =>
    ⟨entryPath "/attorneys/" i "/signedAt",
      "The attorney signed at date cannot be changed for online LPA"⟩
  | .signatorySigningDate i n =>
    ⟨entryPath "/trustCorporations/" i (entryPath "/signatories/" n "/signedAt"),
      "The trust corporation signatory signed at date cannot be changed for online LPA"⟩
  | .certificateProviderSigningDate =>
    ⟨"/certificateProvider/signedAt",
      "The certificate provider signed at date cannot be changed for online LPA"⟩

end Refusal

end PowerOfAttorney
