import PowerOfAttorney.Proofs.Lifecycle.Parties
import PowerOfAttorney.Proofs.Lifecycle.Perfected

/-!
# `PowerOfAttorney.Proofs.Lifecycle.Subject` — who a document is about

Several commands replace whole persons or go through whole lists, with data that may have been read
against another document. Still none of them touches who the document is about: the names by which it and
its parties are known, how each of them is appointed and takes part, and the version that conflicts are
detected by. What has been noted stays noted.

## Contents
- **Entries.** `Attorney.Becomes` and `TrustCorporation.Becomes`: all that an operation can make of an entry
  of a list. `Command.Effect.attorneys` and `Command.Effect.trustCorporations` find nothing else in a list.
- **Subject.** `SameParty` and `Document.SameSubject`, and `Command.sameSubject_of_apply` for any command
  on any document.
- **Runs.** `Document.sameSubject_run`.
-/

namespace PowerOfAttorney

/-! ## Entries -/

/-- All that an operation can make of an attorney. -/
inductive Attorney.Becomes : Operation → Attorney → Attorney → Prop
  | same (op : Operation) (a : Attorney) : Becomes op a a
  | signs {a : Attorney} (s : AttorneySign) (hunsigned : a.signedAt = none) :
      Becomes .attorneySign a { a with
        mobile := if s.mobile.isEmpty then a.mobile else s.mobile
        signedAt := s.signedAt
        contactLanguage := s.contactLanguage }
  | leaves {a : Attorney} (hunsigned : a.signedAt = none) :
      Becomes .attorneyOptOut a { a with status := .removed }
  | corrected (a : Attorney) (c : AttorneyCorrection) : Becomes .correction a (c.amend a)
  | correctedRegistered (a : Attorney) (c : AttorneyCorrection) :
      Becomes .postRegistrationCorrection a (c.amend a)
  | excepted (a : Attorney) (v : Bool) :
      Becomes .attorneyDecisions a { a with cannotMakeJointDecisions := v }
  | moved {a : Attorney} {next : AttorneyStatus}
      (hallowed : ChangeAttorneys.blocked? a.status next = none) :
      Becomes .changeAttorneys a { a with status := next }
  | reachable (a : Attorney) (email : String) :
      Becomes .attorneyAccessOnline a { a with email := email }

/-- All that an operation can make of a trust corporation. -/
inductive TrustCorporation.Becomes : Operation → TrustCorporation → TrustCorporation → Prop
  | same (op : Operation) (t : TrustCorporation) : Becomes op t t
  | signs {t : TrustCorporation} (s : TrustCorporationSign)
      (hunsigned : t.signatories.head?.any Signatory.isSigned = false) :
      Becomes .trustCorporationSign t { t with
        mobile := if s.mobile.isEmpty then t.mobile else s.mobile
        signatories := s.signatories
        contactLanguage := s.contactLanguage }
  | leaves {t : TrustCorporation} (hunsigned : t.signatories.any Signatory.isSigned = false) :
      Becomes .trustCorporationOptOut t { t with status := .removed }
  | corrected (t : TrustCorporation) (c : TrustCorporationCorrection) : Becomes .correction t (c.amend t)

/-- A list with the chosen entry amended, whatever entry that is. -/
theorem forall₂_amendAt_any {α β : Type} {R : α → α → Prop} (hrefl : ∀ x, R x x) {amend : β → α → α}
    (h : ∀ x b, R x (amend b x)) (target : Option (Nat × β)) (xs : List α) :
    List.Forall₂ R xs (amendAt amend target xs) := by
  cases target with
  | none => exact forall₂_of_refl hrefl xs
  | some t => exact forall₂_modify hrefl fun x _ => h x t.2

namespace Command

variable {now : Instant} {d d' : Document} {c : Command}

/-- **Entry by entry, the attorneys are what the operation can make of them.** -/
theorem Effect.attorneys (h : c.Effect now d d') :
    List.Forall₂ (Attorney.Becomes c.operation) d.attorneys d'.attorneys := by
  cases h with
  | attorneySign s ha hunsigned => exact forall₂_set (.same _) ha (.signs s hunsigned)
  | attorneyOptOut hi ha hunsigned =>
      rw [Document.afterLeaving_eq]
      exact forall₂_set (.same _) ha (.leaves hunsigned)
  | trustCorporationOptOut hi ht hunsigned =>
      rw [Document.afterLeaving_eq]
      exact forall₂_of_refl (.same _) _
  | correct c hstatus hdates =>
      exact forall₂_amendAt_any (.same _) Attorney.Becomes.corrected c.attorney d.attorneys
  | correctRegistered c hbirth =>
      exact forall₂_amendAt_any (.same _) Attorney.Becomes.correctedRegistered c.attorney d.attorneys
  | decideJointly c hallowed =>
      exact forall₂_moved (Attorney.Becomes.same .attorneyDecisions)
        (fun v a => { a with cannotMakeJointDecisions := v }) (fun _ _ _ => rfl)
        c.exceptions d.attorneys fun i v a hm ha => .excepted a v
  | changeAttorneys c hallowed =>
      exact forall₂_moved (Attorney.Becomes.same .changeAttorneys)
        (fun next a => { a with status := next }) (fun _ _ _ => rfl) c.moves d.attorneys
        fun i next a hm ha => .moved (ChangeAttorneys.allowed_of_refusal? hallowed hm ha)
  | attorneyAccess email ha hpaper => exact forall₂_set (.same _) ha (.reachable _ email)
  | confirmIdentity hkind hcheckedAt =>
      unfold CheckedParty.record
      split <;> exact forall₂_of_refl (.same _) _
  | _ => exact forall₂_of_refl (.same _) _

/-- **Entry by entry, the trust corporations are what the operation can make of them.** -/
theorem Effect.trustCorporations (h : c.Effect now d d') :
    List.Forall₂ (TrustCorporation.Becomes c.operation) d.trustCorporations d'.trustCorporations := by
  cases h with
  | trustCorporationSign s ht hunsigned => exact forall₂_set (.same _) ht (.signs s hunsigned)
  | attorneyOptOut hi ha hunsigned =>
      rw [Document.afterLeaving_eq]
      exact forall₂_of_refl (.same _) _
  | trustCorporationOptOut hi ht hunsigned =>
      rw [Document.afterLeaving_eq]
      exact forall₂_set (.same _) ht (.leaves hunsigned)
  | correct c hstatus hdates =>
      exact forall₂_amendAt_any (.same _) TrustCorporation.Becomes.corrected c.trustCorporation
        d.trustCorporations
  | confirmIdentity hkind hcheckedAt =>
      unfold CheckedParty.record
      split <;> exact forall₂_of_refl (.same _) _
  | _ => exact forall₂_of_refl (.same _) _

end Command

/-! ## Subject -/

/-- The same attorney, appointed and taking part in the same way. -/
structure Attorney.SameParty (a a' : Attorney) : Prop where
  uid : a'.uid = a.uid
  appointment : a'.appointment = a.appointment
  channel : a'.channel = a.channel

/-- The same trust corporation, appointed and taking part in the same way. -/
structure TrustCorporation.SameParty (t t' : TrustCorporation) : Prop where
  uid : t'.uid = t.uid
  appointment : t'.appointment = t.appointment
  channel : t'.channel = t.channel

theorem Attorney.Becomes.sameParty {op : Operation} {a a' : Attorney} (h : a.Becomes op a') :
    a.SameParty a' := by
  cases h <;> exact ⟨rfl, rfl, rfl⟩

theorem TrustCorporation.Becomes.sameParty {op : Operation} {t t' : TrustCorporation}
    (h : t.Becomes op t') : t.SameParty t' := by
  cases h <;> exact ⟨rfl, rfl, rfl⟩

/-- The same document in the same version, about the same parties in the same order. -/
structure Document.SameSubject (d d' : Document) : Prop where
  uid : d'.uid = d.uid
  kind : d'.kind = d.kind
  channel : d'.channel = d.channel
  updatedAt : d'.updatedAt = d.updatedAt
  donor : d'.donor.uid = d.donor.uid
  certificateProvider : d'.certificateProvider.uid = d.certificateProvider.uid
  certificateProviderChannel : d'.certificateProvider.channel = d.certificateProvider.channel
  attorneys : List.Forall₂ Attorney.SameParty d.attorneys d'.attorneys
  trustCorporations : List.Forall₂ TrustCorporation.SameParty d.trustCorporations d'.trustCorporations

namespace Document

theorem SameSubject.refl (d : Document) : d.SameSubject d :=
  ⟨rfl, rfl, rfl, rfl, rfl, rfl, rfl, forall₂_of_refl (fun _ => ⟨rfl, rfl, rfl⟩) _,
    forall₂_of_refl (fun _ => ⟨rfl, rfl, rfl⟩) _⟩

theorem notes_afterLeaving (d : Document) (left : Appointment) :
    (d.afterLeaving left).notes = d.notes := by
  rw [afterLeaving_eq]

theorem sameSubject_record (party : CheckedParty) (check : IdentityCheck) (d : Document) :
    d.SameSubject (party.record check d) := by
  obtain ⟨_, _, _, _, _, _, _, hattorneys, htrustCorporations⟩ := SameSubject.refl d
  cases party with
  | donor => exact ⟨rfl, rfl, rfl, rfl, rfl, rfl, rfl, hattorneys, htrustCorporations⟩
  | certificateProvider => exact ⟨rfl, rfl, rfl, rfl, rfl, rfl, rfl, hattorneys, htrustCorporations⟩

end Document

namespace Command

variable {now : Instant} {d d' : Document} {c : Command}

theorem Effect.sameSubject (h : c.Effect now d d') : d.SameSubject d' := by
  have hattorneys : List.Forall₂ Attorney.SameParty d.attorneys d'.attorneys :=
    h.attorneys.imp fun _ _ => Attorney.Becomes.sameParty
  have htrustCorporations :
      List.Forall₂ TrustCorporation.SameParty d.trustCorporations d'.trustCorporations :=
    h.trustCorporations.imp fun _ _ => TrustCorporation.Becomes.sameParty
  -- The lists are done. Of all else each effect writes only what the subject leaves out.
  cases h with
  | attorneyOptOut hi ha hunsigned =>
      rw [Document.afterLeaving_eq] at *
      exact ⟨rfl, rfl, rfl, rfl, rfl, rfl, rfl, hattorneys, htrustCorporations⟩
  | trustCorporationOptOut hi ht hunsigned =>
      rw [Document.afterLeaving_eq] at *
      exact ⟨rfl, rfl, rfl, rfl, rfl, rfl, rfl, hattorneys, htrustCorporations⟩
  | confirmIdentity hkind hcheckedAt => exact Document.sameSubject_record _ _ _
  | _ => exact ⟨rfl, rfl, rfl, rfl, rfl, rfl, rfl, hattorneys, htrustCorporations⟩

/-- What has been noted stays noted, and what is new comes after it. -/
theorem Effect.notes_prefix (h : c.Effect now d d') : d.notes <+: d'.notes := by
  cases h with
  | attorneyOptOut hi ha hunsigned => simp [Document.notes_afterLeaving]
  | trustCorporationOptOut hi ht hunsigned => simp [Document.notes_afterLeaving]
  | correct c hstatus hdates => exact List.prefix_append _ _
  | correctRegistered c hbirth => exact List.prefix_append _ _
  | severRestrictions wording => exact List.prefix_append _ _
  | confirmIdentity hkind hcheckedAt =>
      unfold CheckedParty.record
      split <;> exact List.prefix_refl _
  | _ => exact List.prefix_refl _

/-- **No command changes who a document is about, and none takes a note away**, also where the command
    was read against another document. -/
theorem sameSubject_of_apply (h : c.apply now d = .ok d') :
    d.SameSubject d' ∧ d.notes <+: d'.notes := by
  have heffect : c.Effect now d d' := effect_of_apply h
  exact ⟨heffect.sameSubject, heffect.notes_prefix⟩

/-- A correction of the donor's name is read against a document with one attorney who is yet to step in,
    and is applied to one whose attorneys decide jointly. -/
theorem sameSubject_of_apply_elsewhere :
    let u : Update :=
      ⟨"", "", none, "", "CORRECTION", [⟨"/donor/firstNames", .str "Ada", .str "Eve"⟩]⟩
    let read := Correction.of .ofTwoAttorneys
    let c : Correction := { read with donor := { read.donor with firstNames := "Eve" } }
    let d' := c.amend (.ofNanoseconds 0) .ofJointAttorneys
    u.validate .ofTwoAttorneys = .ok (.correct c) ∧
      (Command.correct c).apply (.ofNanoseconds 0) .ofJointAttorneys = .ok d' ∧ d'.notes.length = 1 ∧
      Document.SameSubject .ofJointAttorneys d' ∧ Document.ofJointAttorneys.notes <+: d'.notes := by
  intro u read c d'
  have hread : u.validate .ofTwoAttorneys = .ok (.correct c) := by decide +kernel
  have happly : (Command.correct c).apply (.ofNanoseconds 0) .ofJointAttorneys = .ok d' := rfl
  exact ⟨hread, happly, rfl, sameSubject_of_apply happly⟩

end Command

/-! ## Runs -/

namespace Document

theorem SameSubject.trans {d d' d'' : Document} (h : d.SameSubject d') (h' : d'.SameSubject d'') :
    d.SameSubject d'' where
  uid := h'.uid.trans h.uid
  kind := h'.kind.trans h.kind
  channel := h'.channel.trans h.channel
  updatedAt := h'.updatedAt.trans h.updatedAt
  donor := h'.donor.trans h.donor
  certificateProvider := h'.certificateProvider.trans h.certificateProvider
  certificateProviderChannel := h'.certificateProviderChannel.trans h.certificateProviderChannel
  attorneys := by
    refine forall₂_trans ?_ h.attorneys h'.attorneys
    intro a a' a'' hfirst hsecond
    exact ⟨hsecond.uid.trans hfirst.uid, hsecond.appointment.trans hfirst.appointment,
      hsecond.channel.trans hfirst.channel⟩
  trustCorporations := by
    refine forall₂_trans ?_ h.trustCorporations h'.trustCorporations
    intro t t' t'' hfirst hsecond
    exact ⟨hsecond.uid.trans hfirst.uid, hsecond.appointment.trans hfirst.appointment,
      hsecond.channel.trans hfirst.channel⟩

/-- **A document is about the same parties all its life**, and its notes only grow. -/
theorem sameSubject_run (d : Document) (as : List Attempt) :
    d.SameSubject (d.run as) ∧ d.notes <+: (d.run as).notes := by
  refine run_induction (P := fun d' => d.SameSubject d' ∧ d.notes <+: d'.notes) ?_
    ⟨.refl d, List.prefix_refl _⟩ as
  intro d' a hd'
  rcases submit_after_or d' a with hok | ⟨_, heq⟩
  · obtain ⟨c, _, heffect⟩ := submit_eq_ok_iff.mp hok
    exact ⟨hd'.1.trans heffect.sameSubject, hd'.2.trans heffect.notes_prefix⟩
  · rw [heq]
    exact hd'

end Document

end PowerOfAttorney
