import PowerOfAttorney.Dictionary
import PowerOfAttorney.Time.Date
import PowerOfAttorney.Time.Instant
import PowerOfAttorney.Vocabulary

/-!
# `PowerOfAttorney.Document.Basic` — the document and the people it names

A lasting power of attorney: a donor appoints attorneys, who may be people or trust corporations, and
a certificate provider vouches for it.

## Contents
- **People.** `Donor`, `Attorney`, `TrustCorporation` with its `Signatory`s, `CertificateProvider`,
  `AuthorisedSignatory` and `IndependentWitness`.
- **The document.** `Document`, with the donor's decisions, the dates of its signing, and `Note`s on
  what was done to it.
- **Queries.** Where a party is found, how many can act, and whether those who are left can act
  without one who leaves.
-/

namespace PowerOfAttorney

/-- A postal address; an unknown part is empty. -/
structure Address where
  line1 : String := ""
  line2 : String := ""
  line3 : String := ""
  town : String := ""
  postcode : String := ""
  country : String := ""
deriving DecidableEq

namespace Address

/-- No part of the address is known. -/
def isUnknown (a : Address) : Bool :=
  a == {}

end Address

/-- A check of someone's identity that was passed. -/
structure IdentityCheck where
  kind : IdentityCheckKind
  checkedAt : Instant
  reference : String
deriving DecidableEq

/-- Who gives the power. -/
structure Donor where
  uid : String := ""
  firstNames : String := ""
  lastName : String := ""
  otherNamesKnownBy : String := ""
  dateOfBirth : Option Date := none
  email : String := ""
  address : Address := {}
  contactLanguage : Option Language := none
  identityCheck : Option IdentityCheck := none
deriving DecidableEq

/-- A person who receives the power. -/
structure Attorney where
  uid : String
  firstNames : String
  lastName : String
  dateOfBirth : Option Date
  email : String
  mobile : String
  address : Address
  status : AttorneyStatus
  appointment : Appointment
  channel : Channel
  signedAt : Option Instant
  contactLanguage : Option Language
  /-- Takes no part in decisions that have to be made jointly. -/
  cannotMakeJointDecisions : Bool
deriving DecidableEq

/-- A person who signs for a trust corporation. -/
structure Signatory where
  firstNames : String := ""
  lastName : String := ""
  professionalTitle : String := ""
  signedAt : Option Instant := none
deriving DecidableEq

namespace Signatory

/-- Nothing is known of the signatory. -/
def isUnknown (s : Signatory) : Bool :=
  s == {}

/-- The signatory has signed. -/
def isSigned (s : Signatory) : Bool :=
  s.signedAt.isSome

end Signatory

/-- A company that receives the power. -/
structure TrustCorporation where
  uid : String
  name : String
  companyNumber : String
  email : String
  mobile : String
  address : Address
  status : AttorneyStatus
  appointment : Appointment
  channel : Channel
  signatories : List Signatory
  contactLanguage : Option Language
deriving DecidableEq

namespace TrustCorporation

/-- Someone signs for the corporation and all who do have signed. -/
def isSigned (t : TrustCorporation) : Bool :=
  !t.signatories.isEmpty && t.signatories.all Signatory.isSigned

end TrustCorporation

/-- Who vouches that the donor understands the document. -/
structure CertificateProvider where
  uid : String
  firstNames : String
  lastName : String
  email : String
  phone : String
  address : Address
  channel : Channel
  signedAt : Option Instant
  contactLanguage : Option Language
  identityCheck : Option IdentityCheck
deriving DecidableEq

/-- Who signs on the donor's behalf. -/
structure AuthorisedSignatory where
  uid : String := ""
  firstNames : String := ""
  lastName : String := ""
deriving DecidableEq

/-- Who witnesses such a signature. -/
structure IndependentWitness where
  uid : String := ""
  firstNames : String := ""
  lastName : String := ""
  phone : String := ""
  address : Address := {}
deriving DecidableEq

/-- A scanned image that is kept elsewhere. -/
structure FileUpload where
  path : String := ""
  hash : String := ""
deriving DecidableEq

/-- What was done to a document and when. -/
structure Note where
  kind : String
  datetime : Instant
  values : Dictionary String
deriving DecidableEq

/-- How the donor wants the attorneys to act. -/
structure Decisions where
  attorneysDecide : Option DecisionMode
  attorneysDecideDetails : String
  replacementsDecide : Option DecisionMode
  replacementsDecideDetails : String
  replacementsStepIn : Option StepIn
  replacementsStepInDetails : String
  usableWhen : Option UsableWhen
  lifeSustainingTreatment : Option LifeSustainingTreatment
deriving DecidableEq

/-- A lasting power of attorney. -/
structure Document where
  uid : String
  status : Status
  kind : Kind
  channel : Channel
  donor : Donor
  attorneys : List Attorney
  trustCorporations : List TrustCorporation
  certificateProvider : CertificateProvider
  authorisedSignatory : Option AuthorisedSignatory
  independentWitness : Option IndependentWitness
  decisions : Decisions
  restrictions : String
  restrictionImages : List FileUpload
  /-- When the donor signed. -/
  signedAt : Option Instant
  witnessedByCertificateProviderAt : Option Instant
  witnessedByIndependentWitnessAt : Option Instant
  certificateProviderNotRelatedConfirmedAt : Option Instant
  registrationDate : Option Instant
  updatedAt : Option Instant
  notes : List Note
deriving DecidableEq

namespace Document

/-- The place of the first attorney with a uid. -/
def attorneyIndex? (d : Document) (uid : String) : Option Nat :=
  d.attorneys.findIdx? (·.uid == uid)

/-- The place of the first trust corporation with a uid. -/
def trustCorporationIndex? (d : Document) (uid : String) : Option Nat :=
  d.trustCorporations.findIdx? (·.uid == uid)

/-- Status and appointment of everyone who receives the power. -/
def standings (d : Document) : List (AttorneyStatus × Appointment) :=
  d.attorneys.map (fun a => (a.status, a.appointment)) ++
    d.trustCorporations.map fun t => (t.status, t.appointment)

/-- How many can act now. -/
def activeCount (d : Document) : Nat :=
  d.standings.countP fun (status, _) => status == .active

/-- How many can still step in. -/
def replacementCount (d : Document) : Nat :=
  d.standings.countP fun standing => standing == (.inactive, .replacement)

/-- The original attorneys have to agree on some decisions at least. -/
def decidesJointly (d : Document) : Bool :=
  d.decisions.attorneysDecide == some .jointly ||
    d.decisions.attorneysDecide == some .jointlyForSomeSeverallyForOthers

/-- Whether those who are left can act after one appointed as `left` has gone: someone must be left,
    and originals who decide jointly need a replacement for one of them. -/
def canRegisterWithout (d : Document) (left : Appointment) : Bool :=
  d.activeCount + d.replacementCount != 0 &&
    !(left == .original && d.decidesJointly && d.replacementCount == 0)

end Document

end PowerOfAttorney
