import PowerOfAttorney.Change.Script
import PowerOfAttorney.Command.Refusal
import PowerOfAttorney.Document.Basic

/-!
# `PowerOfAttorney.Command.Particulars` — facts recorded about a document and its parties

## Contents
- **Online access.** An email address for an attorney or a certificate provider who takes part on paper.
- **Identity.** `ConfirmIdentity`, the outcome of a check. A repeated check is read into the one on
  record, so only what differs has to be sent.
- **Restrictions.** What is left of the restrictions after a court has severed some.
-/

namespace PowerOfAttorney

/-! ## Online access -/

namespace AttorneyAccess

/-- The email address of the one attorney that the changes name by uid. -/
def script (d : Document) : Script (Option (Nat × String)) :=
  .under "/attorneys" true
    (.eachKey
      (fun uid =>
        match d.attorneyIndex? uid with
        | none => .outOfRange .done
        | some i =>
          .choose i ((d.attorneys[i]?.map (·.email)).getD "") <|
            .field "/email" (.text id fun v _ => v) (.checking .needs .notEmpty) <|
            .consumed .done) <|
    .consumed .done) <|
  .consumed .done

/-- Records the address of the attorney at `i`. -/
def apply (i : Nat) (email : String) (d : Document) : Except Refusal Document :=
  match d.attorneys[i]? with
  | none => .error .attorneyNotFound
  | some a =>
    if a.channel ≠ .paper then .error .notPaper
    else .ok { d with attorneys := d.attorneys.set i { a with email := email } }

end AttorneyAccess

namespace CertificateProviderAccess

/-- The email address of the certificate provider. -/
def script : Script String :=
  .field "/certificateProvider/email" (.text id fun v _ => v) (.checking .needs .notEmpty) <|
  .consumed .done

/-- Records the address of the certificate provider. -/
def apply (email : String) (d : Document) : Except Refusal Document :=
  if d.certificateProvider.channel ≠ .paper then .error .notPaper
  else .ok { d with certificateProvider := { d.certificateProvider with email := email } }

end CertificateProviderAccess

/-! ## Identity -/

namespace CheckedParty

/-- The check on record. -/
def check? : CheckedParty → Document → Option IdentityCheck
  | .donor, d => d.donor.identityCheck
  | .certificateProvider, d => d.certificateProvider.identityCheck

/-- The document with a check on record. -/
def record (check : IdentityCheck) : CheckedParty → Document → Document
  | .donor, d => { d with donor := { d.donor with identityCheck := some check } }
  | .certificateProvider, d =>
    { d with certificateProvider := { d.certificateProvider with identityCheck := some check } }

end CheckedParty

/-- The outcome of a check of someone's identity, so far as it is known. -/
structure ConfirmIdentity where
  party : CheckedParty
  kind : Option IdentityCheckKind
  checkedAt : Option Instant
  reference : String
deriving DecidableEq

namespace ConfirmIdentity

/-- What is on record, to be changed. -/
def onRecord (party : CheckedParty) (d : Document) : ConfirmIdentity :=
  match party.check? d with
  | some c => ⟨party, some c.kind, some c.checkedAt, c.reference⟩
  | none => ⟨party, none, none, ""⟩

/-- The fields of a check; a first one needs kind and time. -/
def script (party : CheckedParty) (d : Document) : Script ConfirmIdentity :=
  let rule : Rule := if (party.check? d).isSome then .allows else .needs
  .under party.path true
    (.field "/type" (.maybeWord .identityCheckKind (·.kind) fun v s => { s with kind := v })
      (rule.checking .chosen) <|
    .field "/checkedAt" (.time (·.checkedAt) fun v s => { s with checkedAt := v })
      (rule.checking .notEmpty) <|
    .field "/reference" (.text (·.reference) fun v s => { s with reference := v }) .allows <|
    .consumed .done) <|
  .consumed .done

/-- Records a check that has a kind and a time. -/
def apply (c : ConfirmIdentity) (d : Document) : Except Refusal Document :=
  match c.kind, c.checkedAt with
  | some kind, some checkedAt => .ok (c.party.record ⟨kind, checkedAt, c.reference⟩ d)
  | _, _ => .error (.identityIncomplete c.party)

end ConfirmIdentity

/-! ## Restrictions -/

namespace SeverRestrictions

/-- The key of the wording that is left. -/
def key : String := "/restrictionsAndConditions"

/-- The wording that is left of the restrictions. -/
def script : Script String :=
  .field key (.text id fun v _ => v) .allows <|
  .consumed .done

/-- Sets the wording, drops the images of the earlier one, and notes both. -/
def apply (now : Instant) (wording : String) (d : Document) : Document :=
  { d with
    restrictions := wording
    restrictionImages := []
    notes := d.notes ++
      [⟨"RESTRICTIONS_AND_CONDITIONS_SEVERED_V1", now,
        .ofList [("previous", d.restrictions), ("current", wording)]⟩] }

end SeverRestrictions

end PowerOfAttorney
