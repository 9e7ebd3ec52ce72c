import PowerOfAttorney.Change.AddressFields
import PowerOfAttorney.Command.Signing

/-!
# `PowerOfAttorney.Amendment.Person` — correcting the people a document names

A correction starts from what is on record, so that claimed old values have to agree with it and
fields that are not named stay as they are.

## Contents
- **Notes.** `Note.ofName` and `Note.ofBirth`, which record a new name or date of birth.
- **Corrections.** `DonorCorrection`, `AttorneyCorrection`, `TrustCorporationCorrection` and
  `CertificateProviderCorrection`: each is taken from a person (`of`), read (`fields`), written back
  (`amend`), and says what has to be noted (`notes`).
- **Others.** The fields of an authorised signatory and of an independent witness.
-/

namespace PowerOfAttorney

/-! ## Notes -/

/-- A note of a new name. -/
def Note.ofName (kind : String) (now : Instant) (uid firstNames lastName : String) : Note :=
  ⟨kind, now, .ofList [("uid", uid), ("firstNames", firstNames), ("lastName", lastName)]⟩

/-- A note of a new date of birth. -/
def Note.ofBirth (kind : String) (now : Instant) (uid : String) (date : Option Date) : Note :=
  ⟨kind, now, .ofList [("uid", uid), ("dateOfBirth", (date.map Date.text).getD "")]⟩

/-- A value that may be corrected but not emptied. -/
def Rule.keeps : Rule := .checking .allows .notEmpty

/-! ## Donor -/

/-- What may be corrected of a donor. -/
structure DonorCorrection where
  firstNames : String
  lastName : String
  otherNamesKnownBy : String
  dateOfBirth : Option Date
  address : Address
  email : String
deriving DecidableEq

namespace DonorCorrection

/-- What is on record. -/
def of (d : Donor) : DonorCorrection :=
  ⟨d.firstNames, d.lastName, d.otherNamesKnownBy, d.dateOfBirth, d.address, d.email⟩

/-- The fields of a donor. -/
def fields : Script DonorCorrection :=
  .field "/firstNames" (.text (·.firstNames) fun v c => { c with firstNames := v }) .keeps <|
  .field "/lastName" (.text (·.lastName) fun v c => { c with lastName := v }) .keeps <|
  .field "/otherNamesKnownBy"
    (.text (·.otherNamesKnownBy) fun v c => { c with otherNamesKnownBy := v }) .allows <|
  .field "/dateOfBirth" (.date (·.dateOfBirth) fun v c => { c with dateOfBirth := v })
    (.checking .allows .date) <|
  .under "/address" false
    (Address.amended.within ⟨(·.address), fun v c => { c with address := v }⟩ .done) <|
  .field "/email" (.text (·.email) fun v c => { c with email := v }) .allows <|
  .consumed .done

/-- The donor as corrected. -/
def amend (c : DonorCorrection) (d : Donor) : Donor :=
  { d with
    firstNames := c.firstNames
    lastName := c.lastName
    otherNamesKnownBy := c.otherNamesKnownBy
    dateOfBirth := c.dateOfBirth
    address := c.address
    email := c.email }

/-- Notes of a new name and a new date of birth. -/
def notes (c : DonorCorrection) (now : Instant) (d : Donor) : List Note :=
  (if d.firstNames ≠ c.firstNames ∨ d.lastName ≠ c.lastName then
    [.ofName "DONOR_NAME_CHANGE_V1" now d.uid c.firstNames c.lastName] else []) ++
  (if d.dateOfBirth ≠ c.dateOfBirth then
    [.ofBirth "DONOR_DOB_CHANGE_V1" now d.uid c.dateOfBirth] else [])

end DonorCorrection

/-! ## Attorney -/

/-- What may be corrected of an attorney. -/
structure AttorneyCorrection where
  firstNames : String
  lastName : String
  dateOfBirth : Option Date
  address : Address
  email : String
  mobile : String
  signedAt : Option Instant
  cannotMakeJointDecisions : Bool
deriving DecidableEq

namespace AttorneyCorrection

/-- What is on record. -/
def of (a : Attorney) : AttorneyCorrection :=
  ⟨a.firstNames, a.lastName, a.dateOfBirth, a.address, a.email, a.mobile, a.signedAt,
    a.cannotMakeJointDecisions⟩

/-- The fields of an attorney that may always be corrected, and what follows. -/
def fields (after : Script AttorneyCorrection) : Script AttorneyCorrection :=
  .field "/firstNames" (.text (·.firstNames) fun v c => { c with firstNames := v }) .keeps <|
  .field "/lastName" (.text (·.lastName) fun v c => { c with lastName := v }) .keeps <|
  .field "/dateOfBirth" (.date (·.dateOfBirth) fun v c => { c with dateOfBirth := v })
    (.checking .allows .date) <|
  .field "/email" (.text (·.email) fun v c => { c with email := v }) .allows <|
  .field "/mobile" (.text (·.mobile) fun v c => { c with mobile := v }) .allows <|
  .under "/address" false
    (Address.amended.within ⟨(·.address), fun v c => { c with address := v }⟩ .done)
  after

/-- The fields of an attorney before registration. -/
def unregistered : Script AttorneyCorrection :=
  fields <|
  .field "/signedAt" (.time (·.signedAt) fun v c => { c with signedAt := v }) .keeps <|
  .consumed .done

/-- The fields of an attorney after registration. -/
def registered : Script AttorneyCorrection :=
  fields <|
  .field "/cannotMakeJointDecisions"
    (.flag (·.cannotMakeJointDecisions) fun v c => { c with cannotMakeJointDecisions := v })
    .allows <|
  .consumed .done

/-- The attorney as corrected. -/
def amend (c : AttorneyCorrection) (a : Attorney) : Attorney :=
  { a with
    firstNames := c.firstNames
    lastName := c.lastName
    dateOfBirth := c.dateOfBirth
    address := c.address
    email := c.email
    mobile := c.mobile
    signedAt := c.signedAt
    cannotMakeJointDecisions := c.cannotMakeJointDecisions }

/-- A note of a new name. -/
def notes (c : AttorneyCorrection) (now : Instant) (a : Attorney) : List Note :=
  if a.firstNames ≠ c.firstNames ∨ a.lastName ≠ c.lastName then
    [.ofName "ATTORNEY_NAME_CHANGE_V1" now a.uid c.firstNames c.lastName] else []

end AttorneyCorrection

/-! ## Trust corporation -/

/-- What may be corrected of a trust corporation. -/
structure TrustCorporationCorrection where
  name : String
  companyNumber : String
  email : String
  mobile : String
  address : Address
  signatories : List Signatory
deriving DecidableEq

namespace TrustCorporationCorrection

/-- What is on record. -/
def of (t : TrustCorporation) : TrustCorporationCorrection :=
  ⟨t.name, t.companyNumber, t.email, t.mobile, t.address, t.signatories⟩

/-- The signatory at `i`, if there is one. -/
def signatory (i : Nat) : Script (List Signatory) :=
  .look fun signatories =>
    if i < signatories.length then
      (Signatory.fields .keeps).within ⟨fun s => (s[i]?).getD {}, fun v s => s.set i v⟩ .done
    else .outOfRange .done

/-- The fields of a trust corporation. -/
def fields : Script TrustCorporationCorrection :=
  .field "/name" (.text (·.name) fun v c => { c with name := v }) .keeps <|
  .field "/companyNumber" (.text (·.companyNumber) fun v c => { c with companyNumber := v }) .keeps <|
  .field "/email" (.text (·.email) fun v c => { c with email := v }) .allows <|
  .field "/mobile" (.text (·.mobile) fun v c => { c with mobile := v }) .allows <|
  .under "/address" false
    (Address.amended.within ⟨(·.address), fun v c => { c with address := v }⟩ .done) <|
  .under "/signatories" false
    (Script.within ⟨(·.signatories), fun v c => { c with signatories := v }⟩
      (.each [] signatory <| .consumed .done) .done) <|
  .consumed .done

/-- The trust corporation as corrected. -/
def amend (c : TrustCorporationCorrection) (t : TrustCorporation) : TrustCorporation :=
  { t with
    name := c.name
    companyNumber := c.companyNumber
    email := c.email
    mobile := c.mobile
    address := c.address
    signatories := c.signatories }

end TrustCorporationCorrection

/-! ## Certificate provider -/

/-- What may be corrected of a certificate provider. -/
structure CertificateProviderCorrection where
  firstNames : String
  lastName : String
  address : Address
  email : String
  phone : String
  signedAt : Option Instant
deriving DecidableEq

namespace CertificateProviderCorrection

/-- What is on record. -/
def of (p : CertificateProvider) : CertificateProviderCorrection :=
  ⟨p.firstNames, p.lastName, p.address, p.email, p.phone, p.signedAt⟩

/-- The fields of a certificate provider that may always be corrected, and what follows. -/
def fields (after : Script CertificateProviderCorrection) : Script CertificateProviderCorrection :=
  .field "/firstNames" (.text (·.firstNames) fun v c => { c with firstNames := v }) .keeps <|
  .field "/lastName" (.text (·.lastName) fun v c => { c with lastName := v }) .keeps <|
  .under "/address" false
    (Address.amended.within ⟨(·.address), fun v c => { c with address := v }⟩ .done) <|
  .field "/email" (.text (·.email) fun v c => { c with email := v }) .allows <|
  .field "/phone" (.text (·.phone) fun v c => { c with phone := v }) .allows
  after

/-- The fields of a certificate provider before registration. -/
def unregistered : Script CertificateProviderCorrection :=
  fields <|
  .field "/signedAt" (.time (·.signedAt) fun v c => { c with signedAt := v }) .keeps <|
  .consumed .done

/-- The fields of a certificate provider after registration. -/
def registered : Script CertificateProviderCorrection :=
  fields <| .consumed .done

/-- The certificate provider as corrected. -/
def amend (c : CertificateProviderCorrection) (p : CertificateProvider) : CertificateProvider :=
  { p with
    firstNames := c.firstNames
    lastName := c.lastName
    address := c.address
    email := c.email
    phone := c.phone
    signedAt := c.signedAt }

/-- A note of a new name. -/
def notes (c : CertificateProviderCorrection) (now : Instant) (p : CertificateProvider) : List Note :=
  if p.firstNames ≠ c.firstNames ∨ p.lastName ≠ c.lastName then
    [.ofName "CERTIFICATE_PROVIDER_NAME_CHANGE_V1" now p.uid c.firstNames c.lastName] else []

end CertificateProviderCorrection

/-! ## Others -/

/-- The fields of an authorised signatory. -/
def AuthorisedSignatory.fields : Script AuthorisedSignatory :=
  .field "/firstNames" (.text (·.firstNames) fun v s => { s with firstNames := v }) .keeps <|
  .field "/lastName" (.text (·.lastName) fun v s => { s with lastName := v }) .keeps <|
  .consumed .done

/-- The fields of an independent witness. -/
def IndependentWitness.fields : Script IndependentWitness :=
  .field "/firstNames" (.text (·.firstNames) fun v w => { w with firstNames := v }) .keeps <|
  .field "/lastName" (.text (·.lastName) fun v w => { w with lastName := v }) .keeps <|
  .field "/phone" (.text (·.phone) fun v w => { w with phone := v }) .allows <|
  .under "/address" false
    (Address.amended.within ⟨(·.address), fun v w => { w with address := v }⟩ .done) <|
  .consumed .done

end PowerOfAttorney
