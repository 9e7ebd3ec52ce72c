import PowerOfAttorney.Document.Basic
import PowerOfAttorney.Json.Record

/-!
# `PowerOfAttorney.Document.Codec` — the JSON form of a document

One description for each record, in the order in which its members are written.

## Contents
- **People and parts.** A codec for each record of `PowerOfAttorney.Document.Basic`.
- **The document.** `Document.codec`, and `Document.version`, which reads no more of a stored document
  than the time of its last change.
-/

namespace PowerOfAttorney

open PowerOfAttorney.Part

/-- The JSON form of an address. -/
def Address.codec : Codec Address :=
  Part.codec <| Address.mk
    <$> text "line1" Address.line1
    <*> text "line2" Address.line2
    <*> text "line3" Address.line3
    <*> text "town" Address.town
    <*> text "postcode" Address.postcode
    <*> text "country" Address.country

/-- An address that is always written. -/
def addressOf {σ : Type} (get : σ → Address) : Part σ Address :=
  optional "address" get Address.codec {} fun _ => false

/-- The JSON form of an identity check. -/
def IdentityCheck.codec : Codec IdentityCheck :=
  Part.codec <| IdentityCheck.mk
    <$> required "type" IdentityCheck.kind .word
    <*> required "checkedAt" IdentityCheck.checkedAt .instant
    <*> text "reference" IdentityCheck.reference

/-- The JSON form of a donor. -/
def Donor.codec : Codec Donor :=
  Part.codec <| Donor.mk
    <$> textShown "uid" Donor.uid
    <*> textShown "firstNames" Donor.firstNames
    <*> textShown "lastName" Donor.lastName
    <*> text "otherNamesKnownBy" Donor.otherNamesKnownBy
    <*> maybe "dateOfBirth" Donor.dateOfBirth .date
    <*> text "email" Donor.email
    <*> addressOf Donor.address
    <*> maybe "contactLanguagePreference" Donor.contactLanguage .word
    <*> maybe "identityCheck" Donor.identityCheck IdentityCheck.codec

/-- The JSON form of an attorney. -/
def Attorney.codec : Codec Attorney :=
  Part.codec <| Attorney.mk
    <$> textShown "uid" Attorney.uid
    <*> textShown "firstNames" Attorney.firstNames
    <*> textShown "lastName" Attorney.lastName
    <*> maybe "dateOfBirth" Attorney.dateOfBirth .date
    <*> text "email" Attorney.email
    <*> text "mobile" Attorney.mobile
    <*> addressOf Attorney.address
    <*> required "status" Attorney.status .word
    <*> required "appointmentType" Attorney.appointment .word
    <*> required "channel" Attorney.channel .word
    <*> maybe "signedAt" Attorney.signedAt .instant
    <*> maybe "contactLanguagePreference" Attorney.contactLanguage .word
    <*> optional "cannotMakeJointDecisions" Attorney.cannotMakeJointDecisions .flag false (!·)

/-- The JSON form of a signatory. -/
def Signatory.codec : Codec Signatory :=
  Part.codec <| Signatory.mk
    <$> textShown "firstNames" Signatory.firstNames
    <*> textShown "lastName" Signatory.lastName
    <*> textShown "professionalTitle" Signatory.professionalTitle
    <*> maybe "signedAt" Signatory.signedAt .instant

/-- The JSON form of a trust corporation. -/
def TrustCorporation.codec : Codec TrustCorporation :=
  Part.codec <| TrustCorporation.mk
    <$> textShown "uid" TrustCorporation.uid
    <*> textShown "name" TrustCorporation.name
    <*> textShown "companyNumber" TrustCorporation.companyNumber
    <*> text "email" TrustCorporation.email
    <*> text "mobile" TrustCorporation.mobile
    <*> addressOf TrustCorporation.address
    <*> required "status" TrustCorporation.status .word
    <*> required "appointmentType" TrustCorporation.appointment .word
    <*> required "channel" TrustCorporation.channel .word
    <*> many "signatories" TrustCorporation.signatories Signatory.codec
    <*> maybe "contactLanguagePreference" TrustCorporation.contactLanguage .word

/-- The JSON form of a certificate provider. -/
def CertificateProvider.codec : Codec CertificateProvider :=
  Part.codec <| CertificateProvider.mk
    <$> textShown "uid" CertificateProvider.uid
    <*> textShown "firstNames" CertificateProvider.firstNames
    <*> textShown "lastName" CertificateProvider.lastName
    <*> text "email" CertificateProvider.email
    <*> text "phone" CertificateProvider.phone
    <*> addressOf CertificateProvider.address
    <*> required "channel" CertificateProvider.channel .word
    <*> maybe "signedAt" CertificateProvider.signedAt .instant
    <*> maybe "contactLanguagePreference" CertificateProvider.contactLanguage .word
    <*> maybe "identityCheck" CertificateProvider.identityCheck IdentityCheck.codec

/-- The JSON form of an authorised signatory. -/
def AuthorisedSignatory.codec : Codec AuthorisedSignatory :=
  Part.codec <| AuthorisedSignatory.mk
    <$> textShown "uid" AuthorisedSignatory.uid
    <*> textShown "firstNames" AuthorisedSignatory.firstNames
    <*> textShown "lastName" AuthorisedSignatory.lastName

/-- The JSON form of an independent witness. -/
def IndependentWitness.codec : Codec IndependentWitness :=
  Part.codec <| IndependentWitness.mk
    <$> textShown "uid" IndependentWitness.uid
    <*> textShown "firstNames" IndependentWitness.firstNames
    <*> textShown "lastName" IndependentWitness.lastName
    <*> text "phone" IndependentWitness.phone
    <*> addressOf IndependentWitness.address

/-- The JSON form of an uploaded file. -/
def FileUpload.codec : Codec FileUpload :=
  Part.codec <| FileUpload.mk
    <$> textShown "path" FileUpload.path
    <*> textShown "hash" FileUpload.hash

/-- The JSON form of a note. -/
def Note.codec : Codec Note :=
  Part.codec <| Note.mk
    <$> required "type" Note.kind .string
    <*> required "datetime" Note.datetime .instant
    <*> optional "values" Note.values .strings .empty Dictionary.isEmpty

/-- The members of a document that hold the decisions. -/
def Decisions.part : Part Document Decisions :=
  Decisions.mk
    <$> maybe "howAttorneysMakeDecisions" (·.decisions.attorneysDecide) .word
    <*> text "howAttorneysMakeDecisionsDetails" (·.decisions.attorneysDecideDetails)
    <*> maybe "howReplacementAttorneysMakeDecisions" (·.decisions.replacementsDecide) .word
    <*> text "howReplacementAttorneysMakeDecisionsDetails" (·.decisions.replacementsDecideDetails)
    <*> maybe "howReplacementAttorneysStepIn" (·.decisions.replacementsStepIn) .word
    <*> text "howReplacementAttorneysStepInDetails" (·.decisions.replacementsStepInDetails)
    <*> maybe "whenTheLpaCanBeUsed" (·.decisions.usableWhen) .word
    <*> maybe "lifeSustainingTreatmentOption" (·.decisions.lifeSustainingTreatment) .word

/-- The JSON form of a document. -/
def Document.codec : Codec Document :=
  Part.codec <| Document.mk
    <$> required "uid" Document.uid .string
    <*> required "status" Document.status .word
    <*> required "lpaType" Document.kind .word
    <*> required "channel" Document.channel .word
    <*> required "donor" Document.donor Donor.codec
    <*> optional "attorneys" Document.attorneys (.list Attorney.codec) [] (fun _ => false)
    <*> many "trustCorporations" Document.trustCorporations TrustCorporation.codec
    <*> required "certificateProvider" Document.certificateProvider CertificateProvider.codec
    <*> maybe "authorisedSignatory" Document.authorisedSignatory AuthorisedSignatory.codec
    <*> maybe "independentWitness" Document.independentWitness IndependentWitness.codec
    <*> Decisions.part
    <*> text "restrictionsAndConditions" Document.restrictions
    <*> many "restrictionsAndConditionsImages" Document.restrictionImages FileUpload.codec
    <*> maybe "signedAt" Document.signedAt .instant
    <*> maybe "witnessedByCertificateProviderAt" Document.witnessedByCertificateProviderAt .instant
    <*> maybe "witnessedByIndependentWitnessAt" Document.witnessedByIndependentWitnessAt .instant
    <*> maybe "certificateProviderNotRelatedConfirmedAt"
      Document.certificateProviderNotRelatedConfirmedAt .instant
    <*> maybe "registrationDate" Document.registrationDate .instant
    <*> maybe "updatedAt" Document.updatedAt .instant
    <*> many "notes" Document.notes Note.codec

/-- The time of the last change alone, whatever else the object holds. -/
def Document.version : Codec (Option Instant) :=
  Part.codec (maybe "updatedAt" id .instant)

end PowerOfAttorney
