import PowerOfAttorney.Change.AddressFields
import PowerOfAttorney.Command.Refusal

/-!
# `PowerOfAttorney.Command.Signing` — signing by those whom the donor names

The certificate provider, an attorney or a trust corporation signs. What a party gives on signing is
read into an empty draft, so the claimed old values have to be null; that a party signs only once is
a rule of the document.

## Contents
- **Certificate provider.** `CertificateProviderSign`.
- **Attorney.** `AttorneySign`, of the one attorney that the changes name.
- **Trust corporation.** `TrustCorporationSign`, by one or two signatories.

Each has a `script` that reads it and an `apply` that carries it out.
-/

namespace PowerOfAttorney

/-! ## Certificate provider -/

/-- What a certificate provider gives on signing. -/
structure CertificateProviderSign where
  address : Address := {}
  signedAt : Option Instant := none
  contactLanguage : Option Language := none
deriving DecidableEq

namespace CertificateProviderSign

/-- The fields that a certificate provider gives. -/
def script : Script CertificateProviderSign :=
  .under "/certificateProvider" true
    (.under "/address" false
      (Address.given.within ⟨(·.address), fun v s => { s with address := v }⟩ .done) <|
    .field "/signedAt" (.time (·.signedAt) fun v s => { s with signedAt := v })
      (.checking .needs .notEmpty) <|
    .field "/contactLanguagePreference"
      (.maybeWord .language (·.contactLanguage) fun v s => { s with contactLanguage := v })
      (.checking .needs .chosen) <|
    .consumed .done) <|
  .consumed .done

/-- Signs for the certificate provider, who keeps the address on record if none is given. -/
def apply (s : CertificateProviderSign) (d : Document) : Except Refusal Document :=
  let p := d.certificateProvider
  if p.signedAt.isSome then .error .certificateProviderSignsAgain
  else
    .ok { d with
      certificateProvider := { p with
        address := if s.address.isUnknown then p.address else s.address
        signedAt := s.signedAt
        contactLanguage := s.contactLanguage } }

end CertificateProviderSign

/-! ## Attorney -/

/-- What an attorney gives on signing. -/
structure AttorneySign where
  mobile : String := ""
  signedAt : Option Instant := none
  contactLanguage : Option Language := none
deriving DecidableEq

namespace AttorneySign

/-- The fields that an attorney gives. -/
def fields : Script AttorneySign :=
  .field "/mobile" (.text (·.mobile) fun v s => { s with mobile := v }) .allows <|
  .field "/signedAt" (.time (·.signedAt) fun v s => { s with signedAt := v })
    (.checking .needs .notEmpty) <|
  .field "/contactLanguagePreference"
    (.maybeWord .language (·.contactLanguage) fun v s => { s with contactLanguage := v })
    (.checking .needs .chosen) <|
  .consumed .done

/-- The fields of the one attorney of the document that signs. -/
def script (d : Document) : Script (Option (Nat × AttorneySign)) :=
  .under "/attorneys" true
    (.each [] (fun i => if i < d.attorneys.length then .choose i {} fields else .outOfRange .done) <|
    .consumed .done) <|
  .consumed .done

/-- Signs for the attorney at `i`, whose mobile number stays if none is given. -/
def apply (i : Nat) (s : AttorneySign) (d : Document) : Except Refusal Document :=
  match d.attorneys[i]? with
  | none => .error .attorneyNotFound
  | some a =>
    if a.signedAt.isSome then .error .attorneySignsAgain
    else
      .ok { d with
        attorneys := d.attorneys.set i { a with
          mobile := if s.mobile.isEmpty then a.mobile else s.mobile
          signedAt := s.signedAt
          contactLanguage := s.contactLanguage } }

end AttorneySign

/-! ## Trust corporation -/

/-- What a trust corporation gives on signing; there is a second signatory only if something is known
    of one. -/
structure TrustCorporationSign where
  mobile : String := ""
  first : Signatory := {}
  second : Signatory := {}
  contactLanguage : Option Language := none
deriving DecidableEq

/-- The fields of a signatory, each under the same rule. -/
def Signatory.fields (rule : Rule) : Script Signatory :=
  .field "/firstNames" (.text (·.firstNames) fun v s => { s with firstNames := v }) rule <|
  .field "/lastName" (.text (·.lastName) fun v s => { s with lastName := v }) rule <|
  .field "/professionalTitle"
    (.text (·.professionalTitle) fun v s => { s with professionalTitle := v }) rule <|
  .field "/signedAt" (.time (·.signedAt) fun v s => { s with signedAt := v }) rule <|
  .consumed .done

namespace TrustCorporationSign

/-- The fields of the signatory at `i`, of whom there are two at most. -/
def signatory : Nat → Script TrustCorporationSign
  | 0 =>
    (Signatory.fields (.checking .needs .notEmpty)).within
      ⟨(·.first), fun v s => { s with first := v }⟩ .done
  | 1 =>
    (Signatory.fields (.checking .needs .notEmpty)).within
      ⟨(·.second), fun v s => { s with second := v }⟩ .done
  | _ => .outOfRange .done

/-- The fields that a trust corporation gives; a first signatory is demanded. -/
def fields : Script TrustCorporationSign :=
  .field "/mobile" (.text (·.mobile) fun v s => { s with mobile := v }) .allows <|
  .under "/signatories" true (.each [0] signatory <| .consumed .done) <|
  .field "/contactLanguagePreference"
    (.maybeWord .language (·.contactLanguage) fun v s => { s with contactLanguage := v })
    (.checking .needs .chosen) <|
  .consumed .done

/-- The fields of the one trust corporation of the document that signs. -/
def script (d : Document) : Script (Option (Nat × TrustCorporationSign)) :=
  .under "/trustCorporations" true
    (.each []
      (fun i => if i < d.trustCorporations.length then .choose i {} fields else .outOfRange .done) <|
    .consumed .done) <|
  .consumed .done

/-- The signatories of whom something is known. -/
def signatories (s : TrustCorporationSign) : List Signatory :=
  [s.first, s.second].filter fun x => !x.isUnknown

/-- Signs for the trust corporation at `i`, whose mobile number stays if none is given. It has signed
    before if its first signatory has. -/
def apply (i : Nat) (s : TrustCorporationSign) (d : Document) : Except Refusal Document :=
  match d.trustCorporations[i]? with
  | none => .error .trustCorporationNotFound
  | some t =>
    if t.signatories.head?.any Signatory.isSigned then .error .trustCorporationSignsAgain
    else
      .ok { d with
        trustCorporations := d.trustCorporations.set i { t with
          mobile := if s.mobile.isEmpty then t.mobile else s.mobile
          signatories := s.signatories
          contactLanguage := s.contactLanguage } }

end TrustCorporationSign

end PowerOfAttorney
