import PowerOfAttorney.Command.Basic

/-!
# `PowerOfAttorney.Proofs.Command.Effect` — all that a command can do

A command that is not refused does one thing, under one condition. Here both are written down once for
each command, so that what is claimed of all commands is shown by going through the effects.

## Contents
- **Leaving.** `Document.afterLeaving_eq`: if someone leaves, only the status is looked at.
- **Attorneys.** `ChangeAttorneys.Forbidden` and `AttorneyDecisions.Forbidden`: what may not be asked of
  an attorney.
- **Effects.** `Command.Effect`, with one constructor for each way a command takes effect.
- **Guards.** What has held where a guard has let a command pass.
- **Signing, opting out, steps of a life, amendments.** The effect of each function that carries out a
  command.
- **Completeness.** `Command.effect_of_apply`: an effect is behind every command that is carried out.
- **Soundness.** `Command.Effect.apply_eq`: and every effect is carried out.
- **Names.** `Command.uid_of_apply`: a document that is stored under its uid is not written over another.
-/

namespace PowerOfAttorney

/-! ## Leaving -/

theorem Document.afterLeaving_eq (d : Document) (left : Appointment) :
    d.afterLeaving left =
      { d with status := if d.canRegisterWithout left then d.status else .cannotRegister } := by
  unfold afterLeaving
  split <;> rfl

/-! ## Attorneys -/

/-- The three moves between statuses that no attorney may make, and what is said of each: an inactive attorney
    is not removed, an active one not made inactive, and a removed one not made active. -/
inductive ChangeAttorneys.Forbidden : (current next : AttorneyStatus) → BlockedMove → Prop
  | removeInactive : Forbidden .inactive .removed .removeInactive
  | deactivate : Forbidden .active .inactive .deactivate
  | reinstate : Forbidden .removed .active .reinstate

/-- **The moves that are blocked are the forbidden ones.** -/
theorem ChangeAttorneys.blocked?_eq_some_iff {current next : AttorneyStatus} {why : BlockedMove} :
    blocked? current next = some why ↔ Forbidden current next why := by
  constructor
  · intro h
    unfold blocked? at h
    split at h
    · exact Option.some.inj h ▸ .removeInactive
    · exact Option.some.inj h ▸ .deactivate
    · exact Option.some.inj h ▸ .reinstate
    · exact absurd h nofun
  · intro h
    cases h with
    | removeInactive => rfl
    | deactivate => rfl
    | reinstate => rfl

theorem ChangeAttorneys.blocked?_eq_none_iff {current next : AttorneyStatus} :
    blocked? current next = none ↔ ∀ why, ¬ Forbidden current next why := by
  rw [Option.eq_none_iff_forall_ne_some]
  exact forall_congr' fun why => not_congr blocked?_eq_some_iff

/-- An attorney's part in joint decisions may not be set, because the group of the attorney's own appointment
    does not decide jointly on some matters and severally on others. -/
inductive AttorneyDecisions.Forbidden (d : Document) (a : Attorney) : Prop
  | original (happointed : a.appointment = .original)
      (hmode : d.decisions.attorneysDecide ≠ some .jointlyForSomeSeverallyForOthers)
  | replacement (happointed : a.appointment = .replacement)
      (hmode : d.decisions.replacementsDecide ≠ some .jointlyForSomeSeverallyForOthers)

theorem AttorneyDecisions.modeOf_ne_iff {d : Document} {a : Attorney} :
    modeOf d a ≠ some .jointlyForSomeSeverallyForOthers ↔ Forbidden d a := by
  unfold modeOf
  constructor
  · intro h
    split at h
    · rename_i happointed
      exact .original happointed h
    · rename_i happointed
      exact .replacement happointed h
  · intro h
    cases h with
    | original happointed hmode => rwa [happointed]
    | replacement happointed hmode => rwa [happointed]

/-! ## Effects -/

/-- What a command makes of a document to which it applies. -/
inductive Command.Effect (now : Instant) (d : Document) : Command → Document → Prop
  | certificateProviderSign (s : CertificateProviderSign)
      (hunsigned : d.certificateProvider.signedAt = none) :
      Effect now d (.certificateProviderSign s)
        { d with
          certificateProvider := { d.certificateProvider with
            address := if s.address.isUnknown then d.certificateProvider.address else s.address
            signedAt := s.signedAt
            contactLanguage := s.contactLanguage } }
  | attorneySign {i : Nat} {a : Attorney} (s : AttorneySign) (ha : d.attorneys[i]? = some a)
      (hunsigned : a.signedAt = none) :
      Effect now d (.attorneySign i s)
        { d with
          attorneys := d.attorneys.set i { a with
            mobile := if s.mobile.isEmpty then a.mobile else s.mobile
            signedAt := s.signedAt
            contactLanguage := s.contactLanguage } }
  | trustCorporationSign {i : Nat} {t : TrustCorporation} (s : TrustCorporationSign)
      (ht : d.trustCorporations[i]? = some t)
      (hunsigned : t.signatories.head?.any Signatory.isSigned = false) :
      Effect now d (.trustCorporationSign i s)
        { d with
          trustCorporations := d.trustCorporations.set i { t with
            mobile := if s.mobile.isEmpty then t.mobile else s.mobile
            signatories := s.signatories
            contactLanguage := s.contactLanguage } }
  | attorneyOptOut {uid : String} {i : Nat} {a : Attorney} (hi : d.attorneyIndex? uid = some i)
      (ha : d.attorneys[i]? = some a) (hunsigned : a.signedAt = none) :
      Effect now d (.optOut (.attorney uid))
        (Document.afterLeaving
          { d with attorneys := d.attorneys.set i { a with status := .removed } } a.appointment)
  | trustCorporationOptOut {uid : String} {i : Nat} {t : TrustCorporation}
      (hi : d.trustCorporationIndex? uid = some i) (ht : d.trustCorporations[i]? = some t)
      (hunsigned : t.signatories.any Signatory.isSigned = false) :
      Effect now d (.optOut (.trustCorporation uid))
        (Document.afterLeaving
          { d with trustCorporations := d.trustCorporations.set i { t with status := .removed } }
          t.appointment)
  | certificateProviderOptOut (hunsigned : d.certificateProvider.signedAt = none) :
      Effect now d (.optOut .certificateProvider) { d with status := .cannotRegister }
  | withdraw (hwithdrawn : d.status ≠ .withdrawn) (hregistered : d.status ≠ .registered)
      (hcannotRegister : d.status ≠ .cannotRegister) :
      Effect now d .withdraw { d with status := .withdrawn }
  | makePerfect (hprogress : d.status = .inProgress) (hsigned : d.unsigned? = none) :
      Effect now d .makePerfect { d with status := .perfect }
  | beginWaiting (hprogress : d.status = .inProgress) (hsigned : d.unsigned? = none) :
      Effect now d .beginWaiting { d with status := .statutoryWaitingPeriod }
  | register (hwaiting : d.status = .statutoryWaitingPeriod) :
      Effect now d .register { d with status := .registered, registrationDate := some now }
  | setStatus {next : Status} (hallowed : Document.blocked? next d.status = none) :
      Effect now d (.setStatus next) { d with status := next }
  | correct (c : Correction) (hstatus : d.status ≠ .registered)
      (hdates : d.channel = .online → c.movedDate? d = none) :
      Effect now d (.correct c) (c.amend now d)
  | correctRegistered (c : RegisteredCorrection) (hbirth : c.donor.dateOfBirth = d.donor.dateOfBirth) :
      Effect now d (.correctRegistered c) (c.amend now d)
  | decideJointly (c : AttorneyDecisions)
      (hallowed : AttorneyDecisions.refusal? d c.exceptions = none) :
      Effect now d (.decideJointly c)
        { d with
          attorneys := c.exceptions.foldl
            (fun attorneys (i, v) =>
              attorneys.modify i fun a => { a with cannotMakeJointDecisions := v })
            d.attorneys }
  | changeAttorneys (c : ChangeAttorneys) (hallowed : ChangeAttorneys.refusal? d c.moves = none) :
      Effect now d (.changeAttorneys c)
        { d with
          attorneys := c.moves.foldl
            (fun attorneys (i, next) => attorneys.modify i fun a => { a with status := next })
            d.attorneys }
  | attorneyAccess {i : Nat} {a : Attorney} (email : String) (ha : d.attorneys[i]? = some a)
      (hpaper : a.channel = .paper) :
      Effect now d (.attorneyAccess i email)
        { d with attorneys := d.attorneys.set i { a with email := email } }
  | certificateProviderAccess (email : String) (hpaper : d.certificateProvider.channel = .paper) :
      Effect now d (.certificateProviderAccess email)
        { d with certificateProvider := { d.certificateProvider with email := email } }
  | severRestrictions (wording : String) :
      Effect now d (.severRestrictions wording) (SeverRestrictions.apply now wording d)
  | confirmIdentity {c : ConfirmIdentity} {kind : IdentityCheckKind} {checkedAt : Instant}
      (hkind : c.kind = some kind) (hcheckedAt : c.checkedAt = some checkedAt) :
      Effect now d (.confirmIdentity c) (c.party.record ⟨kind, checkedAt, c.reference⟩ d)

namespace Command

variable {now : Instant} {d d' : Document}

/-! ## Guards -/

section Guards

variable {α β : Type} {p : Prop} [Decidable p] {why : Refusal} {next : Except Refusal β} {b : β}

/-- What follows a guard is reached only if the guard lets it pass. -/
theorem passes_of_guard (h : (if p then .error why else next) = .ok b) : ¬ p ∧ next = .ok b := by
  by_cases hp : p
  · rw [if_pos hp] at h
    cases h
  · rw [if_neg hp] at h
    exact ⟨hp, h⟩

/-- What a guard demands is so. -/
theorem holds_of_guard (h : (if ¬ p then .error why else next) = .ok b) : p ∧ next = .ok b := by
  obtain ⟨hp, h⟩ := passes_of_guard h
  exact ⟨Decidable.not_not.mp hp, h⟩

/-- What a guard asks not to be there is not there. -/
theorem eq_none_of_guard {o : Option α} (h : (if o.isSome then .error why else next) = .ok b) :
    o = none ∧ next = .ok b := by
  obtain ⟨hnone, h⟩ := passes_of_guard h
  exact ⟨Option.not_isSome_iff_eq_none.mp hnone, h⟩

end Guards

/-! ## Signing -/

theorem effect_of_certificateProviderSign {s : CertificateProviderSign} (h : s.apply d = .ok d') :
    Effect now d (.certificateProviderSign s) d' := by
  obtain ⟨hunsigned, h⟩ := eq_none_of_guard h
  rw [← Except.ok.inj h]
  exact .certificateProviderSign s hunsigned

theorem effect_of_attorneySign {i : Nat} {s : AttorneySign} (h : s.apply i d = .ok d') :
    Effect now d (.attorneySign i s) d' := by
  unfold AttorneySign.apply at h
  split at h
  · cases h
  · rename_i a ha
    obtain ⟨hunsigned, h⟩ := eq_none_of_guard h
    rw [← Except.ok.inj h]
    exact .attorneySign s ha hunsigned

theorem effect_of_trustCorporationSign {i : Nat} {s : TrustCorporationSign} (h : s.apply i d = .ok d') :
    Effect now d (.trustCorporationSign i s) d' := by
  unfold TrustCorporationSign.apply at h
  split at h
  · cases h
  · rename_i t ht
    obtain ⟨hsigned, h⟩ := passes_of_guard h
    rw [← Except.ok.inj h]
    exact .trustCorporationSign s ht (Bool.eq_false_iff.mpr hsigned)

/-! ## Opting out -/

theorem effect_of_attorneyOptOut {uid : String} (h : OptOut.applyAttorney uid d = .ok d') :
    Effect now d (.optOut (.attorney uid)) d' := by
  unfold OptOut.applyAttorney at h
  split at h
  · cases h
  · rename_i i hi
    split at h
    · cases h
    · rename_i a ha
      obtain ⟨hunsigned, h⟩ := eq_none_of_guard h
      rw [← Except.ok.inj h]
      exact .attorneyOptOut hi ha hunsigned

theorem effect_of_trustCorporationOptOut {uid : String}
    (h : OptOut.applyTrustCorporation uid d = .ok d') :
    Effect now d (.optOut (.trustCorporation uid)) d' := by
  unfold OptOut.applyTrustCorporation at h
  split at h
  · cases h
  · rename_i i hi
    split at h
    · cases h
    · rename_i t ht
      obtain ⟨hsigned, h⟩ := passes_of_guard h
      rw [← Except.ok.inj h]
      exact .trustCorporationOptOut hi ht (Bool.eq_false_iff.mpr hsigned)

theorem effect_of_optOut {party : OptOut} (h : party.apply d = .ok d') :
    Effect now d (.optOut party) d' := by
  cases party with
  | attorney uid => exact effect_of_attorneyOptOut h
  | trustCorporation uid => exact effect_of_trustCorporationOptOut h
  | certificateProvider =>
      obtain ⟨hunsigned, h⟩ := eq_none_of_guard h
      rw [← Except.ok.inj h]
      exact .certificateProviderOptOut hunsigned

/-! ## Steps of a life -/

theorem effect_of_withdraw (h : d.withdraw = .ok d') : Effect now d .withdraw d' := by
  unfold Document.withdraw at h
  split at h
  · cases h
  · cases h
  · cases h
  · rename_i hwithdrawn hregistered hcannotRegister
    rw [← Except.ok.inj h]
    exact .withdraw hwithdrawn hregistered hcannotRegister

/-- Progress is left under one condition, whatever comes next. -/
theorem leaveProgress_eq_ok {next : Status} {early : Refusal} (h : d.leaveProgress next early = .ok d') :
    d.status = .inProgress ∧ d.unsigned? = none ∧ d' = { d with status := next } := by
  obtain ⟨hprogress, h⟩ := holds_of_guard h
  split at h
  · cases h
  · rename_i hsigned
    exact ⟨hprogress, hsigned, (Except.ok.inj h).symm⟩

theorem effect_of_setStatus {next : Status} (h : d.setStatus next = .ok d') :
    Effect now d (.setStatus next) d' := by
  unfold Document.setStatus at h
  split at h
  · cases h
  · rename_i hallowed
    rw [← Except.ok.inj h]
    exact .setStatus hallowed

/-! ## Amendments -/

theorem effect_of_correct {c : Correction} (h : c.apply now d = .ok d') : Effect now d (.correct c) d' := by
  obtain ⟨hstatus, h⟩ := passes_of_guard h
  split at h
  · cases h
  · rename_i hdates
    rw [← Except.ok.inj h]
    exact .correct c hstatus fun honline => by rwa [if_pos honline] at hdates

theorem effect_of_decideJointly {c : AttorneyDecisions} (h : c.apply d = .ok d') :
    Effect now d (.decideJointly c) d' := by
  unfold AttorneyDecisions.apply at h
  split at h
  · cases h
  · rename_i hallowed
    rw [← Except.ok.inj h]
    exact .decideJointly c hallowed

theorem effect_of_changeAttorneys {c : ChangeAttorneys} (h : c.apply d = .ok d') :
    Effect now d (.changeAttorneys c) d' := by
  unfold ChangeAttorneys.apply at h
  split at h
  · cases h
  · rename_i hallowed
    rw [← Except.ok.inj h]
    exact .changeAttorneys c hallowed

theorem effect_of_attorneyAccess {i : Nat} {email : String} (h : AttorneyAccess.apply i email d = .ok d') :
    Effect now d (.attorneyAccess i email) d' := by
  unfold AttorneyAccess.apply at h
  split at h
  · cases h
  · rename_i a ha
    obtain ⟨hpaper, h⟩ := holds_of_guard h
    rw [← Except.ok.inj h]
    exact .attorneyAccess email ha hpaper

theorem effect_of_confirmIdentity {c : ConfirmIdentity} (h : c.apply d = .ok d') :
    Effect now d (.confirmIdentity c) d' := by
  unfold ConfirmIdentity.apply at h
  split at h
  · rename_i kind checkedAt hkind hcheckedAt
    rw [← Except.ok.inj h]
    exact .confirmIdentity hkind hcheckedAt
  · cases h

/-! ## Completeness -/

/-- **Every command that is carried out has an effect.** -/
theorem effect_of_apply {c : Command} (h : c.apply now d = .ok d') : Effect now d c d' := by
  cases c with
  | certificateProviderSign s => exact effect_of_certificateProviderSign h
  | attorneySign i s => exact effect_of_attorneySign h
  | trustCorporationSign i s => exact effect_of_trustCorporationSign h
  | optOut party => exact effect_of_optOut h
  | withdraw => exact effect_of_withdraw h
  | makePerfect =>
      obtain ⟨hprogress, hsigned, rfl⟩ := leaveProgress_eq_ok h
      exact .makePerfect hprogress hsigned
  | beginWaiting =>
      obtain ⟨hprogress, hsigned, rfl⟩ := leaveProgress_eq_ok h
      exact .beginWaiting hprogress hsigned
  | register =>
      obtain ⟨hwaiting, h⟩ := holds_of_guard h
      rw [← Except.ok.inj h]
      exact .register hwaiting
  | setStatus next => exact effect_of_setStatus h
  | correct c => exact effect_of_correct h
  | correctRegistered c =>
      obtain ⟨hbirth, h⟩ := holds_of_guard h
      rw [← Except.ok.inj h]
      exact .correctRegistered c hbirth
  | decideJointly c => exact effect_of_decideJointly h
  | changeAttorneys c => exact effect_of_changeAttorneys h
  | attorneyAccess i email => exact effect_of_attorneyAccess h
  | certificateProviderAccess email =>
      obtain ⟨hpaper, h⟩ := holds_of_guard h
      rw [← Except.ok.inj h]
      exact .certificateProviderAccess email hpaper
  | severRestrictions wording =>
      rw [← Except.ok.inj h]
      exact .severRestrictions wording
  | confirmIdentity c => exact effect_of_confirmIdentity h

/-! ## Soundness -/

/-- **Every effect is carried out.** -/
theorem Effect.apply_eq {c : Command} (h : Effect now d c d') : c.apply now d = .ok d' := by
  cases h with
  | certificateProviderSign s hunsigned =>
      simp [apply, CertificateProviderSign.apply, hunsigned]
  | attorneySign s ha hunsigned => simp [apply, AttorneySign.apply, ha, hunsigned]
  | trustCorporationSign s ht hunsigned => simp [apply, TrustCorporationSign.apply, ht, hunsigned]
  | attorneyOptOut hi ha hunsigned =>
      simp [apply, OptOut.apply, OptOut.applyAttorney, hi, ha, hunsigned]
  | trustCorporationOptOut hi ht hunsigned =>
      simp only [apply, OptOut.apply, OptOut.applyTrustCorporation, hi, ht, hunsigned,
        Bool.false_eq_true, if_false]
  | certificateProviderOptOut hunsigned => simp [apply, OptOut.apply, hunsigned]
  | withdraw hwithdrawn hregistered hcannotRegister =>
      show d.withdraw = _
      unfold Document.withdraw
      split <;> first | contradiction | rfl
  | makePerfect hprogress hsigned =>
      simp [apply, Document.makePerfect, Document.leaveProgress, hprogress, hsigned]
  | beginWaiting hprogress hsigned =>
      simp [apply, Document.beginWaiting, Document.leaveProgress, hprogress, hsigned]
  | register hwaiting => simp [apply, Document.register, hwaiting]
  | setStatus hallowed => simp [apply, Document.setStatus, hallowed]
  | correct c hstatus hdates =>
      have hmoved : (if d.channel = .online then c.movedDate? d else none) = none := by
        split
        · rename_i honline
          exact hdates honline
        · rfl
      simp [apply, Correction.apply, hstatus, hmoved]
  | correctRegistered c hbirth => simp [apply, RegisteredCorrection.apply, hbirth]
  | decideJointly c hallowed => simp [apply, AttorneyDecisions.apply, hallowed]
  | changeAttorneys c hallowed => simp [apply, ChangeAttorneys.apply, hallowed]
  | attorneyAccess email ha hpaper => simp [apply, AttorneyAccess.apply, ha, hpaper]
  | certificateProviderAccess email hpaper =>
      simp [apply, CertificateProviderAccess.apply, hpaper]
  | severRestrictions wording => rfl
  | confirmIdentity hkind hcheckedAt => simp [apply, ConfirmIdentity.apply, hkind, hcheckedAt]

/-! ## Names -/

/-- **No command changes the uid of a document.** -/
theorem uid_of_apply {c : Command} (h : c.apply now d = .ok d') : d'.uid = d.uid := by
  cases effect_of_apply h with
  | attorneyOptOut _ _ _ => rw [Document.afterLeaving_eq]
  | trustCorporationOptOut _ _ _ => rw [Document.afterLeaving_eq]
  | confirmIdentity _ _ =>
      unfold CheckedParty.record
      split <;> rfl
  | _ => rfl

end Command

end PowerOfAttorney
