import PowerOfAttorney.Amendment.Correction
import PowerOfAttorney.Change.Redundancy
import PowerOfAttorney.Command.Lifecycle
import PowerOfAttorney.Command.Particulars
import PowerOfAttorney.Command.Standing

/-!
# `PowerOfAttorney.Command.Basic` — from an update to a changed document

An update is first validated against a document, which gives a command or all faults of its changes.
A command is then applied, perhaps to another document, which gives a document or the one rule that
the command breaks.

## Contents
- **Commands.** `Command`, one constructor for each kind of effect.
- **Reading.** `Command.ofChanges` runs the script of an operation.
- **Validation.** `Update.validate` also refuses changes that change nothing.
- **Application.** `Command.apply`, given the time at which it happens.
-/

namespace PowerOfAttorney

/-- What a valid update does. -/
inductive Command
  | certificateProviderSign (s : CertificateProviderSign)
  | attorneySign (index : Nat) (s : AttorneySign)
  | trustCorporationSign (index : Nat) (s : TrustCorporationSign)
  | optOut (party : OptOut)
  | withdraw
  | makePerfect
  | beginWaiting
  | register
  | setStatus (next : Status)
  | correct (c : Correction)
  | correctRegistered (c : RegisteredCorrection)
  | decideJointly (c : AttorneyDecisions)
  | changeAttorneys (c : ChangeAttorneys)
  | attorneyAccess (index : Nat) (email : String)
  | certificateProviderAccess (email : String)
  | severRestrictions (wording : String)
  | confirmIdentity (c : ConfirmIdentity)
deriving DecidableEq

namespace Command

/-- The command of changes that are read from a draft by a script. -/
def reading {σ : Type} (script : Script σ) (draft : σ) (changes : List Change) (make : σ → Command) :
    Command × List Fault :=
  let (s, faults) := script.read draft changes
  (make s, faults)

/-- A command that takes no changes. -/
def bare (c : Command) (changes : List Change) : Command × List Fault :=
  reading (.consumed .done) () changes fun _ => c

/-- The opt-out of the author of an update, who has to be known. -/
def ofAuthor (party : String → OptOut) (author : String) (changes : List Change) :
    Command × List Fault :=
  let uid := authorUid author
  let (c, faults) := bare (.optOut (party uid)) changes
  (c, faults ++ if uid.isEmpty then [.anonymous] else [])

/-- The command of an operation with its changes, and what is wrong with them. If anything is, the
    command is of no meaning. -/
def ofChanges (d : Document) (author : String) (changes : List Change) :
    Operation → Command × List Fault
  | .certificateProviderSign =>
    reading CertificateProviderSign.script {} changes .certificateProviderSign
  | .attorneySign =>
    reading (AttorneySign.script d) none changes fun s =>
      let (i, s) := s.getD (0, {})
      .attorneySign i s
  | .trustCorporationSign =>
    reading (TrustCorporationSign.script d) none changes fun s =>
      let (i, s) := s.getD (0, {})
      .trustCorporationSign i s
  | .attorneyOptOut => ofAuthor .attorney author changes
  | .certificateProviderOptOut => bare (.optOut .certificateProvider) changes
  | .trustCorporationOptOut => ofAuthor .trustCorporation author changes
  | .donorWithdraw => bare .withdraw changes
  | .perfect => bare .makePerfect changes
  | .register => bare .register changes
  | .statutoryWaitingPeriod => bare .beginWaiting changes
  | .statusChange => reading statusScript d.status changes .setStatus
  | .correction => reading (Correction.script d) (.of d) changes .correct
  | .postRegistrationCorrection =>
    reading (RegisteredCorrection.script d) (.of d) changes .correctRegistered
  | .attorneyDecisions => reading (AttorneyDecisions.script d) ⟨[]⟩ changes .decideJointly
  | .changeAttorneys => reading (ChangeAttorneys.script d) ⟨[]⟩ changes .changeAttorneys
  | .attorneyAccessOnline =>
    reading (AttorneyAccess.script d) none changes fun s =>
      let (i, email) := s.getD (0, "")
      .attorneyAccess i email
  | .certificateProviderAccessOnline =>
    reading CertificateProviderAccess.script d.certificateProvider.email changes
      .certificateProviderAccess
  | .severRestrictions =>
    reading SeverRestrictions.script d.restrictions changes fun wording =>
      .severRestrictions (if changes.any (·.key == SeverRestrictions.key) then wording else "")
  | .donorConfirmIdentity =>
    reading (ConfirmIdentity.script .donor d) (.onRecord .donor d) changes .confirmIdentity
  | .certificateProviderConfirmIdentity =>
    reading (ConfirmIdentity.script .certificateProvider d) (.onRecord .certificateProvider d)
      changes .confirmIdentity

/-- Carries out a command on a document, or names the first rule that it breaks. -/
def apply (now : Instant) : Command → Document → Except Refusal Document
  | .certificateProviderSign s, d => s.apply d
  | .attorneySign i s, d => s.apply i d
  | .trustCorporationSign i s, d => s.apply i d
  | .optOut party, d => party.apply d
  | .withdraw, d => d.withdraw
  | .makePerfect, d => d.makePerfect
  | .beginWaiting, d => d.beginWaiting
  | .register, d => d.register now
  | .setStatus next, d => d.setStatus next
  | .correct c, d => c.apply now d
  | .correctRegistered c, d => c.apply now d
  | .decideJointly c, d => c.apply d
  | .changeAttorneys c, d => c.apply d
  | .attorneyAccess i email, d => AttorneyAccess.apply i email d
  | .certificateProviderAccess email, d => CertificateProviderAccess.apply email d
  | .severRestrictions wording, d => .ok (SeverRestrictions.apply now wording d)
  | .confirmIdentity c, d => c.apply d

end Command

/-- The command of an update against a document, or everything that is wrong with it. -/
def Update.validate (u : Update) (d : Document) : Except (List Fault) Command :=
  match (Word.ofText? u.type : Option Operation) with
  | none => .error [.unknownOperation]
  | some op =>
    let (c, faults) := Command.ofChanges d u.author u.changes op
    let faults := faults ++ Change.redundancies u.changes
    if faults.isEmpty then .ok c else .error faults

end PowerOfAttorney
