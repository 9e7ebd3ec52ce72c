import PowerOfAttorney.Document.Basic
import PowerOfAttorney.Proofs.Script.Layout

/-!
# `PowerOfAttorney.Proofs.Document.Holds` — what a document holds at each place

The fields of a document that any update may name, by place. The entries of a list are named by index;
an absent part reads as one of which nothing is known.

## Contents
- **Entries.** `Entries.holds`, what a list holds below its indexes.
- **People.** `Address.holds`, `Donor.holds` and so on, one for each part of a document.
- **The document.** `Document.holds`.
-/

namespace PowerOfAttorney

/-! ## Entries -/

/-- What the entries of a list hold, below their indexes. -/
def Entries.holds {α : Type} (holds : α → Place → Option Held) (xs : List α) : Place → Option Held
  | .index i :: b => (xs[i]?).bind fun x => holds x b
  | _ => none

namespace Entries

variable {α : Type} {holds : α → Place → Option Held}

theorem holds_index (xs : List α) (i : Nat) (b : Place) :
    Entries.holds holds xs (.index i :: b) = (xs[i]?).bind fun x => holds x b := rfl

/-- The entries hold the same if each holds the same. -/
theorem holds_congr {xs ys : List α} {q : Place}
    (h : ∀ i b, q = .index i :: b →
      ((xs[i]?).bind fun x => holds x b) = (ys[i]?).bind fun y => holds y b) :
    Entries.holds holds xs q = Entries.holds holds ys q := by
  unfold Entries.holds
  split
  · rename_i i b
    exact h i b rfl
  · rfl

end Entries

/-! ## People -/

def Address.holds (a : Address) : Place → Option Held
  | [.name "line1"] => some ⟨.text, a.line1⟩
  | [.name "line2"] => some ⟨.text, a.line2⟩
  | [.name "line3"] => some ⟨.text, a.line3⟩
  | [.name "town"] => some ⟨.text, a.town⟩
  | [.name "postcode"] => some ⟨.text, a.postcode⟩
  | [.name "country"] => some ⟨.text, a.country⟩
  | _ => none

/-- Every address has the same places. -/
theorem Address.isSome_holds (a a' : Address) (p : Place) : (a.holds p).isSome = (a'.holds p).isSome := by
  unfold Address.holds
  split <;> rfl

def IdentityCheck.holds (c : Option IdentityCheck) : Place → Option Held
  | [.name "type"] => some ⟨.maybeWord .identityCheckKind, c.map (·.kind)⟩
  | [.name "checkedAt"] => some ⟨.time, c.map (·.checkedAt)⟩
  | [.name "reference"] => some ⟨.text, (c.map (·.reference)).getD ""⟩
  | _ => none

def Donor.holds (d : Donor) : Place → Option Held
  | [.name "firstNames"] => some ⟨.text, d.firstNames⟩
  | [.name "lastName"] => some ⟨.text, d.lastName⟩
  | [.name "otherNamesKnownBy"] => some ⟨.text, d.otherNamesKnownBy⟩
  | [.name "dateOfBirth"] => some ⟨.date, d.dateOfBirth⟩
  | [.name "email"] => some ⟨.text, d.email⟩
  | .name "address" :: b => d.address.holds b
  | .name "identityCheck" :: b => IdentityCheck.holds d.identityCheck b
  | _ => none

def Attorney.holds (a : Attorney) : Place → Option Held
  | [.name "firstNames"] => some ⟨.text, a.firstNames⟩
  | [.name "lastName"] => some ⟨.text, a.lastName⟩
  | [.name "dateOfBirth"] => some ⟨.date, a.dateOfBirth⟩
  | [.name "email"] => some ⟨.text, a.email⟩
  | [.name "mobile"] => some ⟨.text, a.mobile⟩
  | .name "address" :: b => a.address.holds b
  | [.name "status"] => some ⟨.word .attorneyStatus, a.status⟩
  | [.name "signedAt"] => some ⟨.time, a.signedAt⟩
  | [.name "cannotMakeJointDecisions"] => some ⟨.flag, a.cannotMakeJointDecisions⟩
  | _ => none

def Signatory.holds (s : Signatory) : Place → Option Held
  | [.name "firstNames"] => some ⟨.text, s.firstNames⟩
  | [.name "lastName"] => some ⟨.text, s.lastName⟩
  | [.name "professionalTitle"] => some ⟨.text, s.professionalTitle⟩
  | [.name "signedAt"] => some ⟨.time, s.signedAt⟩
  | _ => none

def TrustCorporation.holds (t : TrustCorporation) : Place → Option Held
  | [.name "name"] => some ⟨.text, t.name⟩
  | [.name "companyNumber"] => some ⟨.text, t.companyNumber⟩
  | [.name "email"] => some ⟨.text, t.email⟩
  | [.name "mobile"] => some ⟨.text, t.mobile⟩
  | .name "address" :: b => t.address.holds b
  | .name "signatories" :: b => Entries.holds Signatory.holds t.signatories b
  | _ => none

def CertificateProvider.holds (p : CertificateProvider) : Place → Option Held
  | [.name "firstNames"] => some ⟨.text, p.firstNames⟩
  | [.name "lastName"] => some ⟨.text, p.lastName⟩
  | [.name "email"] => some ⟨.text, p.email⟩
  | [.name "phone"] => some ⟨.text, p.phone⟩
  | .name "address" :: b => p.address.holds b
  | [.name "signedAt"] => some ⟨.time, p.signedAt⟩
  | .name "identityCheck" :: b => IdentityCheck.holds p.identityCheck b
  | _ => none

def AuthorisedSignatory.holds (s : AuthorisedSignatory) : Place → Option Held
  | [.name "firstNames"] => some ⟨.text, s.firstNames⟩
  | [.name "lastName"] => some ⟨.text, s.lastName⟩
  | _ => none

theorem AuthorisedSignatory.isSome_holds (s s' : AuthorisedSignatory) (p : Place) :
    (s.holds p).isSome = (s'.holds p).isSome := by
  unfold AuthorisedSignatory.holds
  split <;> rfl

def IndependentWitness.holds (w : IndependentWitness) : Place → Option Held
  | [.name "firstNames"] => some ⟨.text, w.firstNames⟩
  | [.name "lastName"] => some ⟨.text, w.lastName⟩
  | [.name "phone"] => some ⟨.text, w.phone⟩
  | .name "address" :: b => w.address.holds b
  | _ => none

theorem IndependentWitness.isSome_holds (w w' : IndependentWitness) (p : Place) :
    (w.holds p).isSome = (w'.holds p).isSome := by
  unfold IndependentWitness.holds
  split <;> first | rfl | exact Address.isSome_holds _ _ _

def Decisions.holds (s : Decisions) : Place → Option Held
  | [.name "howAttorneysMakeDecisions"] => some ⟨.maybeWord .decisionMode, s.attorneysDecide⟩
  | [.name "howAttorneysMakeDecisionsDetails"] => some ⟨.text, s.attorneysDecideDetails⟩
  | [.name "howReplacementAttorneysStepIn"] => some ⟨.maybeWord .stepIn, s.replacementsStepIn⟩
  | [.name "howReplacementAttorneysStepInDetails"] => some ⟨.text, s.replacementsStepInDetails⟩
  | [.name "howReplacementAttorneysMakeDecisions"] =>
    some ⟨.maybeWord .decisionMode, s.replacementsDecide⟩
  | [.name "howReplacementAttorneysMakeDecisionsDetails"] =>
    some ⟨.text, s.replacementsDecideDetails⟩
  | [.name "lifeSustainingTreatmentOption"] =>
    some ⟨.maybeWord .lifeSustainingTreatment, s.lifeSustainingTreatment⟩
  | [.name "whenTheLpaCanBeUsed"] => some ⟨.maybeWord .usableWhen, s.usableWhen⟩
  | _ => none

/-! ## The document -/

def Document.holds (d : Document) : Place → Option Held
  | .name "donor" :: b => d.donor.holds b
  | .name "attorneys" :: b => Entries.holds Attorney.holds d.attorneys b
  | .name "trustCorporations" :: b => Entries.holds TrustCorporation.holds d.trustCorporations b
  | .name "certificateProvider" :: b => d.certificateProvider.holds b
  | .name "authorisedSignatory" :: b => (d.authorisedSignatory.getD {}).holds b
  | .name "independentWitness" :: b => (d.independentWitness.getD {}).holds b
  | [.name "signedAt"] => some ⟨.time, d.signedAt⟩
  | [.name "witnessedByCertificateProviderAt"] => some ⟨.time, d.witnessedByCertificateProviderAt⟩
  | [.name "witnessedByIndependentWitnessAt"] => some ⟨.time, d.witnessedByIndependentWitnessAt⟩
  | [.name "status"] => some ⟨.word .status, d.status⟩
  | [.name "restrictionsAndConditions"] => some ⟨.text, d.restrictions⟩
  | p => d.decisions.holds p

end PowerOfAttorney
