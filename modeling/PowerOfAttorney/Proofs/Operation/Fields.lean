import PowerOfAttorney.Command.Basic
import PowerOfAttorney.Proofs.Document.Holds

/-!
# `PowerOfAttorney.Proofs.Operation.Fields` — the fields that an operation may change

For each operation the places of its fields, the check that a new value has to pass, and the value that
an update has to claim: what the document holds or, on signing, nothing.

## Contents
- **Checks.** `Address.checks` and so on: the fields of each part that may be changed, with their checks.
- **Decisions.** `Decisions.checks`, which depend on the document and on the modes in the end.
- **Signing.** What the drafts of the three signing operations hold.
- **Operations.** `Operation.check?` and `Operation.held?`, and `Operation.locate?` for the operations
  that name attorneys by uid.
-/

namespace PowerOfAttorney

/-- Some fields, each with the check that its new value has to pass, if any. -/
abbrev Checks := Place → Option (Option Check)

/-! ## Checks -/

def Address.checks (line1 town country : Option Check) : Checks
  | [.name "line1"] => some line1
  | [.name "line2"] => some none
  | [.name "line3"] => some none
  | [.name "town"] => some town
  | [.name "postcode"] => some none
  | [.name "country"] => some country
  | _ => none

/-- An address on record: the country stays a country code. -/
def Address.amendedChecks : Checks :=
  Address.checks none none (some .country)

/-- A new address. -/
def Address.givenChecks : Checks :=
  Address.checks (some .notEmpty) (some .notEmpty) (some .country)

def DonorCorrection.checks : Checks
  | [.name "firstNames"] => some (some .notEmpty)
  | [.name "lastName"] => some (some .notEmpty)
  | [.name "otherNamesKnownBy"] => some none
  | [.name "dateOfBirth"] => some (some .date)
  | .name "address" :: b => Address.amendedChecks b
  | [.name "email"] => some none
  | _ => none

/-- The fields of an attorney that may be corrected before and after registration. -/
def AttorneyCorrection.checks : Checks
  | [.name "firstNames"] => some (some .notEmpty)
  | [.name "lastName"] => some (some .notEmpty)
  | [.name "dateOfBirth"] => some (some .date)
  | [.name "email"] => some none
  | [.name "mobile"] => some none
  | .name "address" :: b => Address.amendedChecks b
  | _ => none

def AttorneyCorrection.unregisteredChecks : Checks
  | [.name "signedAt"] => some (some .notEmpty)
  | p => AttorneyCorrection.checks p

def AttorneyCorrection.registeredChecks : Checks
  | [.name "cannotMakeJointDecisions"] => some none
  | p => AttorneyCorrection.checks p

def Signatory.checks : Checks
  | [.name "firstNames"] => some (some .notEmpty)
  | [.name "lastName"] => some (some .notEmpty)
  | [.name "professionalTitle"] => some (some .notEmpty)
  | [.name "signedAt"] => some (some .notEmpty)
  | _ => none

def TrustCorporationCorrection.checks : Checks
  | [.name "name"] => some (some .notEmpty)
  | [.name "companyNumber"] => some (some .notEmpty)
  | [.name "email"] => some none
  | [.name "mobile"] => some none
  | .name "address" :: b => Address.amendedChecks b
  | .name "signatories" :: .index _ :: b => Signatory.checks b
  | _ => none

/-- The fields of a certificate provider that may be corrected before and after registration. -/
def CertificateProviderCorrection.checks : Checks
  | [.name "firstNames"] => some (some .notEmpty)
  | [.name "lastName"] => some (some .notEmpty)
  | .name "address" :: b => Address.amendedChecks b
  | [.name "email"] => some none
  | [.name "phone"] => some none
  | _ => none

def CertificateProviderCorrection.unregisteredChecks : Checks
  | [.name "signedAt"] => some (some .notEmpty)
  | p => CertificateProviderCorrection.checks p

def AuthorisedSignatory.checks : Checks
  | [.name "firstNames"] => some (some .notEmpty)
  | [.name "lastName"] => some (some .notEmpty)
  | _ => none

def IndependentWitness.checks : Checks
  | [.name "firstNames"] => some (some .notEmpty)
  | [.name "lastName"] => some (some .notEmpty)
  | [.name "phone"] => some none
  | .name "address" :: b => Address.amendedChecks b
  | _ => none

/-! ## Decisions -/

namespace Decisions

/-- The wording of a decision is there exactly if a mode calls for it. -/
def wordingCheck (called : Bool) : Check :=
  if called then .notEmpty else .empty

/-- The decisions that may be corrected in a document, if they are `s` in the end. -/
def checks (d : Document) (s : Decisions) : Checks
  | [.name "howAttorneysMakeDecisions"] => if 1 < d.activeCount then some (some .chosen) else none
  | [.name "howAttorneysMakeDecisionsDetails"] => some (some (wordingCheck s.attorneysMixed))
  | [.name "howReplacementAttorneysStepIn"] =>
    if 0 < d.replacementCount ∧ s.attorneysSeveral then some (some .chosen) else none
  | [.name "howReplacementAttorneysStepInDetails"] => some (some (wordingCheck s.stepInAnotherWay))
  | [.name "howReplacementAttorneysMakeDecisions"] =>
    if 1 < d.replacementCount ∧
        (s.replacementsStepIn = some .allCanNoLongerAct ∨ ¬ s.attorneysSeveral) then
      some (some .chosen)
    else none
  | [.name "howReplacementAttorneysMakeDecisionsDetails"] =>
    some (some (wordingCheck s.replacementsMixed))
  | [.name "lifeSustainingTreatmentOption"] =>
    if d.kind = .personalWelfare then some (some .chosen) else none
  | [.name "whenTheLpaCanBeUsed"] =>
    if d.kind = .propertyAndAffairs then some (some .chosen) else none
  | _ => none

end Decisions

/-- The fields of a document that is not registered. -/
def Correction.checks (d : Document) (s : Decisions) : Checks
  | .name "donor" :: b => DonorCorrection.checks b
  | [.name "signedAt"] => some (some .notEmpty)
  | [.name "witnessedByCertificateProviderAt"] => some (some .notEmpty)
  | [.name "witnessedByIndependentWitnessAt"] => some (some .notEmpty)
  | .name "attorneys" :: .index _ :: b => AttorneyCorrection.unregisteredChecks b
  | .name "trustCorporations" :: .index _ :: b => TrustCorporationCorrection.checks b
  | .name "certificateProvider" :: b => CertificateProviderCorrection.unregisteredChecks b
  | .name "authorisedSignatory" :: b => AuthorisedSignatory.checks b
  | .name "independentWitness" :: b => IndependentWitness.checks b
  | p => Decisions.checks d s p

/-- The fields of a registered document. -/
def RegisteredCorrection.checks (d : Document) (s : Decisions) : Checks
  | .name "donor" :: b => DonorCorrection.checks b
  | .name "certificateProvider" :: b => CertificateProviderCorrection.checks b
  | .name "attorneys" :: .index _ :: b => AttorneyCorrection.registeredChecks b
  | [.name "restrictionsAndConditions"] => some none
  | p => Decisions.checks d s p

/-! ## Signing -/

def CertificateProviderSign.holds (s : CertificateProviderSign) : Place → Option Held
  | .name "address" :: b => s.address.holds b
  | [.name "signedAt"] => some ⟨.time, s.signedAt⟩
  | [.name "contactLanguagePreference"] => some ⟨.maybeWord .language, s.contactLanguage⟩
  | _ => none

def CertificateProviderSign.checks : Checks
  | .name "address" :: b => Address.givenChecks b
  | [.name "signedAt"] => some (some .notEmpty)
  | [.name "contactLanguagePreference"] => some (some .chosen)
  | _ => none

def AttorneySign.holds (s : AttorneySign) : Place → Option Held
  | [.name "mobile"] => some ⟨.text, s.mobile⟩
  | [.name "signedAt"] => some ⟨.time, s.signedAt⟩
  | [.name "contactLanguagePreference"] => some ⟨.maybeWord .language, s.contactLanguage⟩
  | _ => none

def AttorneySign.checks : Checks
  | [.name "mobile"] => some none
  | [.name "signedAt"] => some (some .notEmpty)
  | [.name "contactLanguagePreference"] => some (some .chosen)
  | _ => none

def TrustCorporationSign.holds (s : TrustCorporationSign) : Place → Option Held
  | [.name "mobile"] => some ⟨.text, s.mobile⟩
  | .name "signatories" :: b => Entries.holds Signatory.holds [s.first, s.second] b
  | [.name "contactLanguagePreference"] => some ⟨.maybeWord .language, s.contactLanguage⟩
  | _ => none

def TrustCorporationSign.checks : Checks
  | [.name "mobile"] => some none
  | .name "signatories" :: .index _ :: b => Signatory.checks b
  | [.name "contactLanguagePreference"] => some (some .chosen)
  | _ => none

/-! ## Operations -/

def IdentityCheck.checks : Checks
  | [.name "type"] => some (some .chosen)
  | [.name "checkedAt"] => some (some .notEmpty)
  | [.name "reference"] => some none
  | _ => none

namespace Operation

/-- A party signs. -/
def isSigning : Operation → Bool
  | .certificateProviderSign | .attorneySign | .trustCorporationSign => true
  | _ => false

/-- The check of a field that an operation may change in a document whose decisions are `s` in the end. -/
def check? (d : Document) (s : Decisions) : Operation → Checks
  | .certificateProviderSign, .name "certificateProvider" :: b => CertificateProviderSign.checks b
  | .attorneySign, .name "attorneys" :: .index _ :: b => AttorneySign.checks b
  | .trustCorporationSign, .name "trustCorporations" :: .index _ :: b => TrustCorporationSign.checks b
  | .statusChange, [.name "status"] => some (some .chosen)
  | .correction, p => Correction.checks d s p
  | .postRegistrationCorrection, p => RegisteredCorrection.checks d s p
  | .attorneyDecisions, [.name "attorneys", .index _, .name "cannotMakeJointDecisions"] => some none
  | .changeAttorneys, [.name "attorneys", .index _, .name "status"] => some (some .chosen)
  | .attorneyAccessOnline, [.name "attorneys", .index _, .name "email"] => some (some .notEmpty)
  | .certificateProviderAccessOnline, [.name "certificateProvider", .name "email"] =>
    some (some .notEmpty)
  | .severRestrictions, [.name "restrictionsAndConditions"] => some none
  | .donorConfirmIdentity, .name "donor" :: .name "identityCheck" :: b => IdentityCheck.checks b
  | .certificateProviderConfirmIdentity, .name "certificateProvider" :: .name "identityCheck" :: b =>
    IdentityCheck.checks b
  | _, _ => none

/-- What the changes of an operation have to claim that a field holds: what is on record, or nothing
    where a party gives it on signing. -/
def held? (d : Document) : Operation → Place → Option Held
  | .certificateProviderSign, .name "certificateProvider" :: b =>
    ({} : CertificateProviderSign).holds b
  | .attorneySign, .name "attorneys" :: .index i :: b =>
    if i < d.attorneys.length then ({} : AttorneySign).holds b else none
  | .trustCorporationSign, .name "trustCorporations" :: .index i :: b =>
    if i < d.trustCorporations.length then ({} : TrustCorporationSign).holds b else none
  | op, p => if op.isSigning then none else d.holds p

/-- The attorneys of these operations are named by uid. -/
def namesByUid : Operation → Bool
  | .postRegistrationCorrection | .attorneyDecisions | .attorneyAccessOnline => true
  | _ => false

end Operation

/-- The place that is meant where attorneys are named by uid. -/
def Document.locate? (d : Document) : Place → Option Place
  | .name "attorneys" :: .name uid :: b =>
    (d.attorneyIndex? uid).map fun i => .name "attorneys" :: .index i :: b
  | .name "attorneys" :: _ => none
  | p => some p

/-- The place that is meant by the keys of an operation. -/
def Operation.locate? (op : Operation) (d : Document) (p : Place) : Option Place :=
  if op.namesByUid then d.locate? p else some p

end PowerOfAttorney
