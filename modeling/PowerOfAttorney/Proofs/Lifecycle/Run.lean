import PowerOfAttorney.Proofs.Command.Effect
import PowerOfAttorney.Proofs.Operation.Accepted
import PowerOfAttorney.Proofs.Operation.Signers
import PowerOfAttorney.Register.Service

/-!
# `PowerOfAttorney.Proofs.Lifecycle.Run` — the life of a document, update by update

A document lives through a sequence of updates. Each is validated against the document as it then is,
and applied to it; those that are rejected are skipped.

## Contents
- **Operations.** `Command.operation`: which operation a command is read for.
- **Readings.** `Command.IsRead`: from which script, and from which draft, a command is read.
- **Attempts.** `Attempt`, `Document.submit`, and `submit_eq_ok_iff`: an attempt is accepted exactly when
  a command is read that takes effect. `Service.prepare_ok` says that the service does the same.
- **Runs.** `Document.run` and `run_induction`: what every attempt keeps, a run keeps.
- **Accepted.** `Document.accepted`, the attempts of a run that are not rejected.
-/

namespace PowerOfAttorney

/-! ## Operations -/

/-- The operation that checks the identity of a party. -/
def CheckedParty.operation : CheckedParty → Operation
  | .donor => .donorConfirmIdentity
  | .certificateProvider => .certificateProviderConfirmIdentity

/-- The operation that a command is read for. -/
def Command.operation : Command → Operation
  | .certificateProviderSign _ => .certificateProviderSign
  | .attorneySign _ _ => .attorneySign
  | .trustCorporationSign _ _ => .trustCorporationSign
  | .optOut (.attorney _) => .attorneyOptOut
  | .optOut (.trustCorporation _) => .trustCorporationOptOut
  | .optOut .certificateProvider => .certificateProviderOptOut
  | .withdraw => .donorWithdraw
  | .makePerfect => .perfect
  | .beginWaiting => .statutoryWaitingPeriod
  | .register => .register
  | .setStatus _ => .statusChange
  | .correct _ => .correction
  | .correctRegistered _ => .postRegistrationCorrection
  | .decideJointly _ => .attorneyDecisions
  | .changeAttorneys _ => .changeAttorneys
  | .attorneyAccess _ _ => .attorneyAccessOnline
  | .certificateProviderAccess _ => .certificateProviderAccessOnline
  | .severRestrictions _ => .severRestrictions
  | .confirmIdentity c => c.party.operation

/-- The check of an identity is no correction. -/
theorem CheckedParty.operation_ne (party : CheckedParty) :
    party.operation ≠ .correction ∧ party.operation ≠ .postRegistrationCorrection := by
  cases party <;> exact ⟨by decide, by decide⟩

/-- A command that is read for a correction before registration is one. -/
theorem Command.exists_eq_correct {c : Command} (h : c.operation = .correction) :
    ∃ x, c = .correct x := by
  cases c with
  | correct x => exact ⟨x, rfl⟩
  | optOut party => cases party <;> simp [operation] at h
  | confirmIdentity c => exact absurd h c.party.operation_ne.1
  | _ => simp [operation] at h

/-- A command that is read for a correction after registration is one. -/
theorem Command.exists_eq_correctRegistered {c : Command}
    (h : c.operation = .postRegistrationCorrection) : ∃ x, c = .correctRegistered x := by
  cases c with
  | correctRegistered x => exact ⟨x, rfl⟩
  | optOut party => cases party <;> simp [operation] at h
  | confirmIdentity c => exact absurd h c.party.operation_ne.2
  | _ => simp [operation] at h

/-- A check is read for the party whose identity is checked. -/
theorem ConfirmIdentity.keeps_party (party : CheckedParty) (d : Document) :
    (script party d).Keeps fun c => c.party = party :=
  Script.keeps_under
    (Script.keeps_field (fun _ _ hc _ => hc) <|
      Script.keeps_field (fun _ _ hc _ => hc) <|
      Script.keeps_field (fun _ _ hc _ => hc) Script.keeps_done)
    Script.keeps_done

theorem ConfirmIdentity.party_of_read {party : CheckedParty} {d : Document} {changes : List Change}
    (h : ((script party d).read (.onRecord party d) changes).2 = []) :
    ((script party d).read (.onRecord party d) changes).1.party = party := by
  refine (keeps_party party d _ ?_).read h
  unfold onRecord
  split <;> rfl

/-- A command that is read without faults is one of its operation. -/
theorem Command.operation_of_ofChanges {d : Document} {author : String} {changes : List Change}
    {op : Operation} {c : Command} (h : ofChanges d author changes op = (c, [])) :
    c.operation = op := by
  obtain ⟨rfl, hnone⟩ := Prod.mk.inj h
  cases op with
  | donorConfirmIdentity =>
      exact congrArg CheckedParty.operation (ConfirmIdentity.party_of_read hnone)
  | certificateProviderConfirmIdentity =>
      exact congrArg CheckedParty.operation (ConfirmIdentity.party_of_read hnone)
  | _ => rfl

/-! ## Readings -/

/-- The draft that a command carries is what a script has read without faults. -/
def Command.IsRead (d : Document) (changes : List Change) : Command → Prop
  | .certificateProviderSign s => CertificateProviderSign.script.read {} changes = (s, [])
  | .attorneySign i s => (AttorneySign.script d).read none changes = (some (i, s), [])
  | .trustCorporationSign i s => (TrustCorporationSign.script d).read none changes = (some (i, s), [])
  | .setStatus next => statusScript.read d.status changes = (next, [])
  | .correct c => (Correction.script d).read (.of d) changes = (c, [])
  | .correctRegistered c => (RegisteredCorrection.script d).read (.of d) changes = (c, [])
  | .decideJointly c => (AttorneyDecisions.script d).read ⟨[]⟩ changes = (c, [])
  | .changeAttorneys c => (ChangeAttorneys.script d).read ⟨[]⟩ changes = (c, [])
  | .certificateProviderAccess email =>
    CertificateProviderAccess.script.read d.certificateProvider.email changes = (email, [])
  | .confirmIdentity c =>
    (ConfirmIdentity.script c.party d).read (.onRecord c.party d) changes = (c, [])
  | _ => True

/-- **A command that is read without faults has been read from the script of its operation.** -/
theorem Command.isRead_of_ofChanges {d : Document} {author : String} {changes : List Change}
    {c : Command} (h : ofChanges d author changes c.operation = (c, [])) : c.IsRead d changes := by
  obtain ⟨hdraft, hnone⟩ := Prod.mk.inj h
  cases c with
  | certificateProviderSign s => exact Prod.ext (certificateProviderSign.inj hdraft) hnone
  | attorneySign i s =>
      -- Where no attorney is named, there are faults, so one has been chosen.
      obtain ⟨i', s', hs, _⟩ := AttorneySign.exists_of_read hnone
      have hpair : (((AttorneySign.script d).read none changes).1.getD (0, {})) = (i, s) :=
        Prod.ext (attorneySign.inj hdraft).1 (attorneySign.inj hdraft).2
      rw [hs, Option.getD_some] at hpair
      exact Prod.ext (hpair ▸ hs) hnone
  | trustCorporationSign i s =>
      obtain ⟨i', s', hs, _⟩ := TrustCorporationSign.exists_of_read hnone
      have hpair : (((TrustCorporationSign.script d).read none changes).1.getD (0, {})) = (i, s) :=
        Prod.ext (trustCorporationSign.inj hdraft).1 (trustCorporationSign.inj hdraft).2
      rw [hs, Option.getD_some] at hpair
      exact Prod.ext (hpair ▸ hs) hnone
  | setStatus next => exact Prod.ext (setStatus.inj hdraft) hnone
  | correct c => exact Prod.ext (correct.inj hdraft) hnone
  | correctRegistered c => exact Prod.ext (correctRegistered.inj hdraft) hnone
  | decideJointly c => exact Prod.ext (decideJointly.inj hdraft) hnone
  | changeAttorneys c => exact Prod.ext (changeAttorneys.inj hdraft) hnone
  | certificateProviderAccess email => exact Prod.ext (certificateProviderAccess.inj hdraft) hnone
  | confirmIdentity c =>
      change (ofChanges d author changes c.party.operation).1 = confirmIdentity c at hdraft
      change (ofChanges d author changes c.party.operation).2 = [] at hnone
      show (ConfirmIdentity.script c.party d).read (.onRecord c.party d) changes = (c, [])
      generalize c.party = party at hdraft hnone ⊢
      cases party with
      | donor => exact Prod.ext (confirmIdentity.inj hdraft) hnone
      | certificateProvider => exact Prod.ext (confirmIdentity.inj hdraft) hnone
  | _ => trivial

/-- The command of a valid update is one of the operation that the update names, and has been read. -/
theorem Update.isRead_of_validate {u : Update} {d : Document} {c : Command} (h : u.validate d = .ok c) :
    Word.ofText? u.type = some c.operation ∧ c.IsRead d u.changes := by
  obtain ⟨op, hop, hread⟩ := ofChanges_of_validate h
  obtain rfl := Command.operation_of_ofChanges hread
  exact ⟨hop, Command.isRead_of_ofChanges hread⟩

/-! ## Attempts -/

/-- An update that is tried at some time. -/
structure Attempt where
  update : Update
  now : Instant

/-- The operation that an attempt names, if there is one of that name. -/
def Attempt.operation? (a : Attempt) : Option Operation :=
  Word.ofText? a.update.type

/-- The attempt of an operation by some author. -/
def Attempt.of (type author : String) (changes : List Change) : Attempt :=
  ⟨⟨"", "", none, author, type, changes⟩, .ofNanoseconds 0⟩

/-- The attempt to move the second attorney of a document. -/
def Attempt.ofMove (old new : String) : Attempt :=
  .of "CHANGE_ATTORNEYS" "" [⟨"/attorneys/1/status", .str old, .str new⟩]

/-- The attempt of an attorney to opt out. -/
def Attempt.ofOptOut (uid : String) : Attempt :=
  .of "ATTORNEY_OPT_OUT" ("urn:opg:poas:makeregister:users:" ++ uid) []

namespace Document

/-- The document that an attempt makes of a document, or what is wrong with the attempt. -/
def submit (d : Document) (a : Attempt) : Except (List FieldError) Document :=
  match a.update.validate d with
  | .error faults => .error (faults.map Fault.toFieldError)
  | .ok c =>
    match c.apply a.now d with
    | .error why => .error [why.toFieldError]
    | .ok d' => .ok d'

variable {d d' : Document} {a : Attempt}

/-- **An attempt is accepted exactly when a command is read from it that takes effect.** -/
theorem submit_eq_ok_iff :
    d.submit a = .ok d' ↔ ∃ c, a.update.validate d = .ok c ∧ c.Effect a.now d d' := by
  unfold submit
  constructor
  · intro h
    split at h
    · exact absurd h nofun
    · rename_i c hvalid
      split at h
      · exact absurd h nofun
      · rename_i d'' happly
        rw [Except.ok.inj h] at happly
        exact ⟨c, hvalid, Command.effect_of_apply happly⟩
  · rintro ⟨c, hvalid, heffect⟩
    rw [hvalid]
    dsimp only
    rw [heffect.apply_eq]

/-- The command of an accepted attempt is one of the operation that the attempt names. -/
theorem effect_of_submit (h : d.submit a = .ok d') :
    ∃ c, a.operation? = some c.operation ∧
      Command.ofChanges d a.update.author a.update.changes c.operation = (c, []) ∧
      c.Effect a.now d d' := by
  obtain ⟨c, hvalid, heffect⟩ := submit_eq_ok_iff.mp h
  obtain ⟨op, hop, hread⟩ := Update.ofChanges_of_validate hvalid
  obtain rfl := Command.operation_of_ofChanges hread
  exact ⟨c, hop, hread, heffect⟩

end Document

/-- The service prepares what an attempt makes of the document that it reads, with the time of the
    change. -/
theorem Service.prepare_ok (o : Occasion) (u : Update) (d : Document) :
    prepare o u (.ok d) =
      match d.submit ⟨{ u with uid := d.uid }, o.ruledAt⟩ with
      | .error errors => .error (Problem.invalidRequest.withErrors errors)
      | .ok d' =>
        .ok ⟨{ d' with updatedAt := some o.appliedAt },
          { u with uid := d.uid, id := o.id, applied := some o.appliedAt }, d.updatedAt⟩ := by
  unfold prepare Document.submit
  dsimp only
  cases Update.validate { u with uid := d.uid } d with
  | error faults => rfl
  | ok c =>
      dsimp only
      cases c.apply o.ruledAt d <;> rfl

/-! ## Runs -/

namespace Document

/-- The document after an attempt, which is as it was if the attempt is rejected. -/
def after (d : Document) (a : Attempt) : Document :=
  match d.submit a with
  | .ok d' => d'
  | .error _ => d

/-- The document after some attempts, one after the other. -/
def run (d : Document) (as : List Attempt) : Document :=
  as.foldl after d

variable {d d' : Document} {a : Attempt}

theorem after_of_ok (h : d.submit a = .ok d') : d.after a = d' := by
  unfold after
  rw [h]

theorem after_of_error {errors : List FieldError} (h : d.submit a = .error errors) :
    d.after a = d := by
  unfold after
  rw [h]

/-- An attempt is accepted, or the document is as it was. -/
theorem submit_after_or (d : Document) (a : Attempt) :
    d.submit a = .ok (d.after a) ∨ (∃ errors, d.submit a = .error errors) ∧ d.after a = d := by
  cases h : d.submit a with
  | ok d' =>
      rw [after_of_ok h]
      exact Or.inl rfl
  | error errors => exact Or.inr ⟨⟨errors, rfl⟩, after_of_error h⟩

theorem run_append (d : Document) (as bs : List Attempt) : d.run (as ++ bs) = (d.run as).run bs :=
  List.foldl_append

theorem run_concat (d : Document) (as : List Attempt) (a : Attempt) :
    d.run (as ++ [a]) = (d.run as).after a :=
  d.run_append as [a]

/-- **What every attempt keeps, a run keeps.** -/
theorem run_induction {P : Document → Prop} (hstep : ∀ d a, P d → P (d.after a)) {d : Document}
    (h : P d) (as : List Attempt) : P (d.run as) := by
  induction as generalizing d with
  | nil => exact h
  | cons a as ih => exact ih (hstep d a h)

/-! ## Accepted -/

/-- An attempt names an operation and is accepted. -/
def Accepts (d : Document) (a : Attempt) (op : Operation) : Prop :=
  a.operation? = some op ∧ ∃ d', d.submit a = .ok d'

/-- The attempts of a run that are accepted, in order. -/
def accepted (d : Document) : List Attempt → List Attempt
  | [] => []
  | a :: as =>
    match d.submit a with
    | .ok d' => a :: d'.accepted as
    | .error _ => d.accepted as

theorem accepted_cons_of_ok (h : d.submit a = .ok d') (as : List Attempt) :
    d.accepted (a :: as) = a :: d'.accepted as := by
  rw [accepted, h]

theorem accepted_cons_of_error {errors : List FieldError} (h : d.submit a = .error errors)
    (as : List Attempt) : d.accepted (a :: as) = d.accepted as := by
  rw [accepted, h]

end Document

end PowerOfAttorney
