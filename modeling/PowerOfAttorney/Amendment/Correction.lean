import PowerOfAttorney.Amendment.Decisions
import PowerOfAttorney.Amendment.Person

/-!
# `PowerOfAttorney.Amendment.Correction` — correcting a document

Corrections before registration reach every party and the dates of signing; those after it leave
signing dates, trust corporations and the donor's date of birth alone. Either concerns at most one
attorney at a time.

## Contents
- **Before registration.** `Correction`, by the places of attorneys and trust corporations. On a
  document that was made online, signing dates are fixed.
- **After registration.** `RegisteredCorrection`, by the uids of attorneys.

Each starts from the document (`of`), is read by its `script`, and is carried out by `apply`.
-/

namespace PowerOfAttorney

/-- A list with the entry at a place corrected, if there is such a place. -/
def amendAt {α β : Type} (amend : β → α → α) (target : Option (Nat × β)) (xs : List α) : List α :=
  match target with
  | some (i, c) => xs.modify i (amend c)
  | none => xs

/-! ## Before registration -/

/-- A correction of a document that is not registered. -/
structure Correction where
  donor : DonorCorrection
  attorney : Option (Nat × AttorneyCorrection)
  trustCorporation : Option (Nat × TrustCorporationCorrection)
  certificateProvider : CertificateProviderCorrection
  authorisedSignatory : Option AuthorisedSignatory
  independentWitness : Option IndependentWitness
  signedAt : Option Instant
  witnessedByCertificateProviderAt : Option Instant
  witnessedByIndependentWitnessAt : Option Instant
  decisions : Decisions
deriving DecidableEq

namespace Correction

/-- What is on record; no entry of a list is chosen yet. -/
def of (d : Document) : Correction where
  donor := .of d.donor
  attorney := none
  trustCorporation := none
  certificateProvider := .of d.certificateProvider
  authorisedSignatory := none
  independentWitness := none
  signedAt := d.signedAt
  witnessedByCertificateProviderAt := d.witnessedByCertificateProviderAt
  witnessedByIndependentWitnessAt := d.witnessedByIndependentWitnessAt
  decisions := d.decisions

/-- A part of a correction that begins as `seed` once it is named. -/
def named {α : Type} (part : Focus Correction (Option α)) (seed : α) (fields : Script α) :
    Script Correction :=
  .alter (part.set (some seed)) <|
    fields.within ⟨fun c => (part.get c).getD seed, fun v c => part.set (some v) c⟩ .done

/-- The fields of a document that is not registered. -/
def script (d : Document) : Script Correction :=
  .under "/donor" false
    (DonorCorrection.fields.within ⟨(·.donor), fun v c => { c with donor := v }⟩ .done) <|
  .field "/signedAt" (.time (·.signedAt) fun v c => { c with signedAt := v }) .keeps <|
  .field "/witnessedByCertificateProviderAt"
    (.time (·.witnessedByCertificateProviderAt)
      fun v c => { c with witnessedByCertificateProviderAt := v })
    .keeps <|
  .field "/witnessedByIndependentWitnessAt"
    (.time (·.witnessedByIndependentWitnessAt)
      fun v c => { c with witnessedByIndependentWitnessAt := v })
    .keeps <|
  .under "/attorneys" false
    (Script.within ⟨(·.attorney), fun v c => { c with attorney := v }⟩
      (.each []
        (fun i =>
          match d.attorneys[i]? with
          | none => .outOfRange .done
          | some a => .choose i (.of a) AttorneyCorrection.unregistered) <|
      .consumed .done) .done) <|
  .under "/trustCorporations" false
    (Script.within ⟨(·.trustCorporation), fun v c => { c with trustCorporation := v }⟩
      (.each []
        (fun i =>
          match d.trustCorporations[i]? with
          | none => .outOfRange .done
          | some t => .choose i (.of t) TrustCorporationCorrection.fields) <|
      .consumed .done) .done) <|
  .under "/certificateProvider" false
    (CertificateProviderCorrection.unregistered.within
      ⟨(·.certificateProvider), fun v c => { c with certificateProvider := v }⟩ .done) <|
  .under "/authorisedSignatory" false
    (named ⟨(·.authorisedSignatory), fun v c => { c with authorisedSignatory := v }⟩
      (d.authorisedSignatory.getD {}) AuthorisedSignatory.fields) <|
  .under "/independentWitness" false
    (named ⟨(·.independentWitness), fun v c => { c with independentWitness := v }⟩
      (d.independentWitness.getD {}) IndependentWitness.fields) <|
  (Decisions.script d .done).within ⟨(·.decisions), fun v c => { c with decisions := v }⟩ <|
  .consumed .done

/-- The first signatory of a correction whose signing date is not the one on record. -/
def movedSignatory? (stored : List Signatory) (corrected : List Signatory) : Option Nat :=
  corrected.zipIdx.findSome? fun (s, n) =>
    if (stored[n]?.bind (·.signedAt)) ≠ s.signedAt then some n else none

/-- The first signing date that a correction would move. -/
def movedDate? (c : Correction) (d : Document) : Option Refusal :=
  let attorney? : Option Refusal := do
    let (i, a) ← c.attorney
    if d.attorneys[i]?.map (·.signedAt) ≠ some a.signedAt then some (.attorneySigningDate i) else none
  let signatory? : Option Refusal := do
    let (i, t) ← c.trustCorporation
    let n ← movedSignatory? ((d.trustCorporations[i]?.map (·.signatories)).getD []) t.signatories
    some (.signatorySigningDate i n)
  if c.signedAt ≠ d.signedAt then some .signingDate
  else
    attorney?.or <| signatory?.or <|
      if c.certificateProvider.signedAt ≠ d.certificateProvider.signedAt then
        some .certificateProviderSigningDate
      else none

/-- The notes of a correction. -/
def notes (c : Correction) (now : Instant) (d : Document) : List Note :=
  let ofAttorney := do
    let (i, a) ← c.attorney
    let old ← d.attorneys[i]?
    some (a.notes now old)
  c.donor.notes now d.donor ++ ofAttorney.getD [] ++
    c.certificateProvider.notes now d.certificateProvider

/-- The document as corrected, with its notes. -/
def amend (c : Correction) (now : Instant) (d : Document) : Document :=
  { d with
    donor := c.donor.amend d.donor
    attorneys := amendAt AttorneyCorrection.amend c.attorney d.attorneys
    trustCorporations :=
      amendAt TrustCorporationCorrection.amend c.trustCorporation d.trustCorporations
    certificateProvider := c.certificateProvider.amend d.certificateProvider
    authorisedSignatory := c.authorisedSignatory.or d.authorisedSignatory
    independentWitness := c.independentWitness.or d.independentWitness
    signedAt := c.signedAt
    witnessedByCertificateProviderAt := c.witnessedByCertificateProviderAt
    witnessedByIndependentWitnessAt := c.witnessedByIndependentWitnessAt
    decisions := c.decisions.settled
    notes := d.notes ++ c.notes now d }

/-- Corrects a document that is not registered; online, the signing dates have to stay. -/
def apply (c : Correction) (now : Instant) (d : Document) : Except Refusal Document :=
  if d.status = .registered then .error .correctRegistered
  else
    match if d.channel = .online then c.movedDate? d else none with
    | some why => .error why
    | none => .ok (c.amend now d)

end Correction

/-! ## After registration -/

/-- A correction of a registered document. -/
structure RegisteredCorrection where
  donor : DonorCorrection
  attorney : Option (Nat × AttorneyCorrection)
  certificateProvider : CertificateProviderCorrection
  decisions : Decisions
  restrictions : String
deriving DecidableEq

namespace RegisteredCorrection

/-- What is on record; no attorney is chosen yet. -/
def of (d : Document) : RegisteredCorrection where
  donor := .of d.donor
  attorney := none
  certificateProvider := .of d.certificateProvider
  decisions := d.decisions
  restrictions := d.restrictions

/-- The fields of a registered document. -/
def script (d : Document) : Script RegisteredCorrection :=
  .under "/donor" false
    (DonorCorrection.fields.within ⟨(·.donor), fun v c => { c with donor := v }⟩ .done) <|
  .under "/certificateProvider" false
    (CertificateProviderCorrection.registered.within
      ⟨(·.certificateProvider), fun v c => { c with certificateProvider := v }⟩ .done) <|
  .under "/attorneys" false
    (Script.within ⟨(·.attorney), fun v c => { c with attorney := v }⟩
      (.eachKey
        (fun uid =>
          match d.attorneyIndex? uid with
          | none => .outOfRange .done
          | some i =>
            match d.attorneys[i]? with
            | none => .outOfRange .done
            | some a => .choose i (.of a) AttorneyCorrection.registered) <|
      .consumed .done) .done) <|
  (Decisions.script d .done).within ⟨(·.decisions), fun v c => { c with decisions := v }⟩ <|
  .field "/restrictionsAndConditions"
    (.text (·.restrictions) fun v c => { c with restrictions := v }) .allows <|
  .consumed .done

/-- The notes of a correction. -/
def notes (c : RegisteredCorrection) (now : Instant) (d : Document) : List Note :=
  let ofAttorney := do
    let (i, a) ← c.attorney
    let old ← d.attorneys[i]?
    some (a.notes now old)
  c.donor.notes now d.donor ++ c.certificateProvider.notes now d.certificateProvider ++
    ofAttorney.getD []

/-- The document as corrected, with its notes. -/
def amend (c : RegisteredCorrection) (now : Instant) (d : Document) : Document :=
  { d with
    donor := c.donor.amend d.donor
    attorneys := amendAt AttorneyCorrection.amend c.attorney d.attorneys
    certificateProvider := c.certificateProvider.amend d.certificateProvider
    decisions := c.decisions.settled
    restrictions := c.restrictions
    notes := d.notes ++ c.notes now d }

/-- Corrects a document; the donor's date of birth has to stay. -/
def apply (c : RegisteredCorrection) (now : Instant) (d : Document) : Except Refusal Document :=
  if c.donor.dateOfBirth ≠ d.donor.dateOfBirth then .error .birthDateRegistered
  else .ok (c.amend now d)

end RegisteredCorrection

end PowerOfAttorney
