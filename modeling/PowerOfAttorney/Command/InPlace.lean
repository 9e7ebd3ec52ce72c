import PowerOfAttorney.Command.Basic

/-!
# `PowerOfAttorney.Command.InPlace` — carrying out a command on the document itself

`Command.apply` makes a new document of an old one. Here the commands are procedures on one document: they
read it and write to it step by step, and what has been written stays written when a procedure breaks off.
An entry of a list can be written only where there is one.

## Contents
- **Procedures.** `Halt`, why a procedure breaks off, and `Procedure`; `refuse`, and the entries of lists.
- **Signing.** By the certificate provider, an attorney or a trust corporation.
- **Opting out.** The party is removed before it is asked whether the others can act.
- **Lifecycle.** Steps of the status.
- **Lists.** `ChangeAttorneys` and `AttorneyDecisions` look at all entries before they write to any.
- **Corrections.** Each person is written in turn, and the notes come last.
- **Commands.** `Command.carryOut`.
-/

namespace PowerOfAttorney

/-! ## Procedures -/

/-- Why a procedure breaks off. -/
inductive Halt
  /-- The document does not allow it. -/
  | refused (errors : List FieldError)
  /-- The list has no entry at the place that is to be read or written. -/
  | noEntry (index : Nat)
deriving DecidableEq

/-- Steps on one document. A procedure that breaks off leaves the document as it is at that point. -/
abbrev Procedure := EStateM Halt Document

/-- The attorneys of a document. -/
def Focus.attorneys : Focus Document (List Attorney) :=
  ⟨(·.attorneys), fun attorneys d => { d with attorneys }⟩

/-- The trust corporations of a document. -/
def Focus.trustCorporations : Focus Document (List TrustCorporation) :=
  ⟨(·.trustCorporations), fun trustCorporations d => { d with trustCorporations }⟩

namespace Procedure

/-- Breaks off because of a rule. -/
def refuse (why : Refusal) : Procedure Unit :=
  throw (.refused [why.toFieldError])

/-- Breaks off if some rule is broken. -/
def refuseIf (why? : Option Refusal) : Procedure Unit :=
  match why? with
  | some why => refuse why
  | none => pure ()

/-- The entry of a list at a place, where there has to be one. -/
def readEntry {α : Type} (list : Focus Document (List α)) (i : Nat) : Procedure α := do
  match (list.get (← get))[i]? with
  | some x => pure x
  | none => throw (.noEntry i)

/-- Writes to the entry of a list at a place. -/
def writeEntry {α : Type} (list : Focus Document (List α)) (i : Nat) (f : α → α) : Procedure Unit := do
  let x ← readEntry list i
  modify fun d => list.set ((list.get d).set i (f x)) d

/-- Writes to the certificate provider. -/
def writeCertificateProvider (f : CertificateProvider → CertificateProvider) : Procedure Unit :=
  modify fun d => { d with certificateProvider := f d.certificateProvider }

/-- Writes the status. -/
def writeStatus (next : Status) : Procedure Unit :=
  modify fun d => { d with status := next }

end Procedure

open Procedure

/-! ## Signing -/

/-- Signs for the certificate provider. -/
def CertificateProviderSign.carryOut (s : CertificateProviderSign) : Procedure Unit := do
  if (← get).certificateProvider.signedAt.isSome then
    refuse .certificateProviderSignsAgain
  unless s.address.isUnknown do
    writeCertificateProvider fun p => { p with address := s.address }
  writeCertificateProvider fun p => { p with signedAt := s.signedAt }
  writeCertificateProvider fun p => { p with contactLanguage := s.contactLanguage }

/-- Signs for the attorney at `i`. -/
def AttorneySign.carryOut (i : Nat) (s : AttorneySign) : Procedure Unit := do
  match (← get).attorneys[i]? with
  | none => refuse .attorneyNotFound
  | some a =>
    if a.signedAt.isSome then
      refuse .attorneySignsAgain
    unless s.mobile.isEmpty do
      writeEntry .attorneys i fun a => { a with mobile := s.mobile }
    writeEntry .attorneys i fun a => { a with signedAt := s.signedAt }
    writeEntry .attorneys i fun a => { a with contactLanguage := s.contactLanguage }

/-- Signs for the trust corporation at `i`. -/
def TrustCorporationSign.carryOut (i : Nat) (s : TrustCorporationSign) : Procedure Unit := do
  match (← get).trustCorporations[i]? with
  | none => refuse .trustCorporationNotFound
  | some t =>
    if t.signatories.head?.any Signatory.isSigned then
      refuse .trustCorporationSignsAgain
    unless s.mobile.isEmpty do
      writeEntry .trustCorporations i fun t => { t with mobile := s.mobile }
    writeEntry .trustCorporations i fun t => { t with signatories := s.signatories }
    writeEntry .trustCorporations i fun t => { t with contactLanguage := s.contactLanguage }

/-! ## Opting out -/

/-- Notes that the document cannot be registered if those who are left cannot act. -/
def Procedure.leave (left : Appointment) : Procedure Unit := do
  unless (← get).canRegisterWithout left do
    writeStatus .cannotRegister

/-- Removes a party, whose place is looked up by uid. -/
def OptOut.carryOut : OptOut → Procedure Unit
  | .attorney uid => do
    match (← get).attorneyIndex? uid with
    | none => refuse .attorneyNotFound
    | some i =>
      let a ← readEntry .attorneys i
      if a.signedAt.isSome then
        refuse .attorneyLeavesSigned
      writeEntry .attorneys i fun a => { a with status := .removed }
      leave a.appointment
  | .trustCorporation uid => do
    match (← get).trustCorporationIndex? uid with
    | none => refuse .trustCorporationNotFound
    | some i =>
      let t ← readEntry .trustCorporations i
      if t.signatories.any Signatory.isSigned then
        refuse .trustCorporationLeavesSigned
      writeEntry .trustCorporations i fun t => { t with status := .removed }
      leave t.appointment
  | .certificateProvider => do
    if (← get).certificateProvider.signedAt.isSome then
      refuse .certificateProviderLeavesSigned
    writeStatus .cannotRegister

/-! ## Lifecycle -/

namespace Procedure

/-- The donor withdraws the document. -/
def withdraw : Procedure Unit := do
  match (← get).status with
  | .withdrawn => refuse .alreadyWithdrawn
  | .registered => refuse .withdrawRegistered
  | .cannotRegister => refuse .withdrawUnregisterable
  | _ => writeStatus .withdrawn

/-- Leaves progress for another status, once everyone has signed. -/
def leaveProgress (next : Status) (early : Refusal) : Procedure Unit := do
  if (← get).status ≠ .inProgress then
    refuse early
  refuseIf ((← get).unsigned?.map .unsigned)
  writeStatus next

/-- Registers the document. -/
def register (now : Instant) : Procedure Unit := do
  if (← get).status ≠ .statutoryWaitingPeriod then
    refuse .registerNotWaiting
  writeStatus .registered
  modify fun d => { d with registrationDate := some now }

/-- Sets the status. -/
def setStatus (next : Status) : Procedure Unit := do
  refuseIf ((Document.blocked? next (← get).status).map .status)
  writeStatus next

end Procedure

/-! ## Lists -/

/-- Looks at the rules for one move. -/
def ChangeAttorneys.check : Nat × AttorneyStatus → Procedure Unit
  | (i, next) => do
    match (← get).attorneys[i]? with
    | none => refuse .attorneyNotFound
    | some a => refuseIf ((blocked? a.status next).map (.attorneyStatus i))

/-- Moves attorneys. -/
def ChangeAttorneys.carryOut (c : ChangeAttorneys) : Procedure Unit := do
  forM c.moves check
  forM c.moves fun (i, next) => writeEntry .attorneys i fun a => { a with status := next }

/-- Looks at the rules for one exception. -/
def AttorneyDecisions.check : Nat × Bool → Procedure Unit
  | (i, _) => do
    let d ← get
    match d.attorneys[i]? with
    | none => refuse .attorneyNotFound
    | some a =>
      if modeOf d a ≠ some .jointlyForSomeSeverallyForOthers then
        refuse (.notMixed i)

/-- Records who takes part in joint decisions. -/
def AttorneyDecisions.carryOut (c : AttorneyDecisions) : Procedure Unit := do
  forM c.exceptions check
  forM c.exceptions fun (i, v) =>
    writeEntry .attorneys i fun a => { a with cannotMakeJointDecisions := v }

/-! ## Corrections -/

/-- Writes the donor and gives what has to be noted. -/
def DonorCorrection.carryOut (c : DonorCorrection) (now : Instant) : Procedure (List Note) := do
  let notes := c.notes now (← get).donor
  modify fun d => { d with donor := c.amend d.donor }
  return notes

/-- Writes the attorney that a correction is about, if there is one, and gives what has to be noted. -/
def AttorneyCorrection.carryOut (target : Option (Nat × AttorneyCorrection)) (now : Instant) :
    Procedure (List Note) := do
  match target with
  | none => return []
  | some (i, c) =>
    match (← get).attorneys[i]? with
    | none => return []
    | some a =>
      writeEntry .attorneys i c.amend
      return c.notes now a

/-- Writes the trust corporation that a correction is about, if there is one. -/
def TrustCorporationCorrection.carryOut (target : Option (Nat × TrustCorporationCorrection)) :
    Procedure Unit := do
  match target with
  | none => pure ()
  | some (i, c) =>
    match (← get).trustCorporations[i]? with
    | none => pure ()
    | some _ => writeEntry .trustCorporations i c.amend

/-- Writes the certificate provider and gives what has to be noted. -/
def CertificateProviderCorrection.carryOut (c : CertificateProviderCorrection) (now : Instant) :
    Procedure (List Note) := do
  let notes := c.notes now (← get).certificateProvider
  writeCertificateProvider c.amend
  return notes

/-- Writes the decisions, without wording that the modes do not call for. -/
def Decisions.carryOut (s : Decisions) : Procedure Unit :=
  modify fun d => { d with decisions := s.settled }

/-- Adds notes. -/
def Procedure.note (notes : List Note) : Procedure Unit :=
  modify fun d => { d with notes := d.notes ++ notes }

/-- Writes the parts of a document that a correction is about, and the notes. -/
def Correction.write (c : Correction) (now : Instant) : Procedure Unit := do
  let ofDonor ← c.donor.carryOut now
  let ofAttorney ← AttorneyCorrection.carryOut c.attorney now
  TrustCorporationCorrection.carryOut c.trustCorporation
  let ofProvider ← c.certificateProvider.carryOut now
  modify fun d => { d with authorisedSignatory := c.authorisedSignatory.or d.authorisedSignatory }
  modify fun d => { d with independentWitness := c.independentWitness.or d.independentWitness }
  modify fun d => { d with signedAt := c.signedAt }
  modify fun d => { d with witnessedByCertificateProviderAt := c.witnessedByCertificateProviderAt }
  modify fun d => { d with witnessedByIndependentWitnessAt := c.witnessedByIndependentWitnessAt }
  c.decisions.carryOut
  note (ofDonor ++ ofAttorney ++ ofProvider)

/-- Corrects a document that is not registered. -/
def Correction.carryOut (c : Correction) (now : Instant) : Procedure Unit := do
  if (← get).status = .registered then
    refuse .correctRegistered
  if (← get).channel = .online then
    refuseIf (c.movedDate? (← get))
  c.write now

/-- Writes the parts of a registered document that a correction is about, and the notes. -/
def RegisteredCorrection.write (c : RegisteredCorrection) (now : Instant) : Procedure Unit := do
  let ofDonor ← c.donor.carryOut now
  let ofProvider ← c.certificateProvider.carryOut now
  let ofAttorney ← AttorneyCorrection.carryOut c.attorney now
  c.decisions.carryOut
  modify fun d => { d with restrictions := c.restrictions }
  note (ofDonor ++ ofProvider ++ ofAttorney)

/-- Corrects a document after registration. -/
def RegisteredCorrection.carryOut (c : RegisteredCorrection) (now : Instant) : Procedure Unit := do
  if c.donor.dateOfBirth ≠ (← get).donor.dateOfBirth then
    refuse .birthDateRegistered
  c.write now

/-! ## Particulars -/

/-- Records the address of the attorney at `i`. -/
def AttorneyAccess.carryOut (i : Nat) (email : String) : Procedure Unit := do
  match (← get).attorneys[i]? with
  | none => refuse .attorneyNotFound
  | some a =>
    if a.channel ≠ .paper then
      refuse .notPaper
    writeEntry .attorneys i fun a => { a with email := email }

/-- Records the address of the certificate provider. -/
def CertificateProviderAccess.carryOut (email : String) : Procedure Unit := do
  if (← get).certificateProvider.channel ≠ .paper then
    refuse .notPaper
  writeCertificateProvider fun p => { p with email := email }

/-- Notes the earlier and the later wording of the restrictions, and sets the later one. -/
def SeverRestrictions.carryOut (wording : String) (now : Instant) : Procedure Unit := do
  note [⟨"RESTRICTIONS_AND_CONDITIONS_SEVERED_V1", now,
    .ofList [("previous", (← get).restrictions), ("current", wording)]⟩]
  modify fun d => { d with restrictions := wording }
  modify fun d => { d with restrictionImages := [] }

/-- Records a check of someone's identity. -/
def ConfirmIdentity.carryOut (c : ConfirmIdentity) : Procedure Unit :=
  match c.kind, c.checkedAt with
  | some kind, some checkedAt => modify (c.party.record ⟨kind, checkedAt, c.reference⟩)
  | _, _ => refuse (.identityIncomplete c.party)

/-! ## Commands -/

/-- Carries out a command on the document itself. -/
def Command.carryOut (now : Instant) : Command → Procedure Unit
  | .certificateProviderSign s => s.carryOut
  | .attorneySign i s => s.carryOut i
  | .trustCorporationSign i s => s.carryOut i
  | .optOut party => party.carryOut
  | .withdraw => Procedure.withdraw
  | .makePerfect => leaveProgress .perfect .perfectNotInProgress
  | .beginWaiting => leaveProgress .statutoryWaitingPeriod .waitNotInProgress
  | .register => Procedure.register now
  | .setStatus next => Procedure.setStatus next
  | .correct c => c.carryOut now
  | .correctRegistered c => c.carryOut now
  | .decideJointly c => c.carryOut
  | .changeAttorneys c => c.carryOut
  | .attorneyAccess i email => AttorneyAccess.carryOut i email
  | .certificateProviderAccess email => CertificateProviderAccess.carryOut email
  | .severRestrictions wording => SeverRestrictions.carryOut wording now
  | .confirmIdentity c => c.carryOut

end PowerOfAttorney
