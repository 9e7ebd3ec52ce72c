import PowerOfAttorney.Proofs.Lifecycle.Signatures
import PowerOfAttorney.Proofs.Lifecycle.Status
import PowerOfAttorney.Proofs.Lifecycle.Subject

/-!
# `PowerOfAttorney.Proofs.Lifecycle.Frozen` — what registration freezes

No single guard protects a registered document. A correction is refused because of the status, and a
correction after registration because of the donor's date of birth; whoever has signed is refused a second
time; and of the rest of what was registered no script has a field. Taken together, what was registered
stays for as long as the document is registered, whatever is done to it in the meantime.

## Contents
- **Facts.** `TrustCorporation.KeepsRegistered` and `Document.KeepsRegistered`: what stays.
- **Entries.** What an operation other than a correction keeps of an entry of a list, from
  `Attorney.Becomes` and `TrustCorporation.Becomes`.
- **Updates.** `Command.Effect.keepsRegistered`, and `Update.registered_frozen` for every update.
- **Runs.** `Document.keepsRegistered_run`, up to the end of the registration.
-/

namespace PowerOfAttorney

/-! ## Facts -/

/-- What a registered document keeps of a trust corporation. The signatories are kept once the first of
    them has signed. -/
structure TrustCorporation.KeepsRegistered (t t' : TrustCorporation) : Prop where
  name : t'.name = t.name
  companyNumber : t'.companyNumber = t.companyNumber
  email : t'.email = t.email
  address : t'.address = t.address
  signatories : t.signatories.head?.any Signatory.isSigned → t'.signatories = t.signatories

/-- What a registered document keeps. Of a date of signing that is asked for a second time, it keeps the
    one that is set. -/
structure Document.KeepsRegistered (d d' : Document) : Prop where
  dateOfBirth : d'.donor.dateOfBirth = d.donor.dateOfBirth
  registrationDate : d'.registrationDate = d.registrationDate
  signedAt : d'.signedAt = d.signedAt
  witnessedByCertificateProviderAt :
    d'.witnessedByCertificateProviderAt = d.witnessedByCertificateProviderAt
  witnessedByIndependentWitnessAt :
    d'.witnessedByIndependentWitnessAt = d.witnessedByIndependentWitnessAt
  certificateProviderNotRelatedConfirmedAt :
    d'.certificateProviderNotRelatedConfirmedAt = d.certificateProviderNotRelatedConfirmedAt
  authorisedSignatory : d'.authorisedSignatory = d.authorisedSignatory
  independentWitness : d'.independentWitness = d.independentWitness
  certificateProvider : d.certificateProvider.signedAt.isSome →
    d'.certificateProvider.signedAt = d.certificateProvider.signedAt
  attorneys :
    List.Forall₂ (fun a a' => a.signedAt.isSome → a'.signedAt = a.signedAt) d.attorneys d'.attorneys
  trustCorporations :
    List.Forall₂ TrustCorporation.KeepsRegistered d.trustCorporations d'.trustCorporations

theorem TrustCorporation.KeepsRegistered.refl (t : TrustCorporation) : t.KeepsRegistered t :=
  ⟨rfl, rfl, rfl, rfl, fun _ => rfl⟩

theorem TrustCorporation.KeepsRegistered.trans {t t' t'' : TrustCorporation}
    (h : t.KeepsRegistered t') (h' : t'.KeepsRegistered t'') : t.KeepsRegistered t'' where
  name := h'.name.trans h.name
  companyNumber := h'.companyNumber.trans h.companyNumber
  email := h'.email.trans h.email
  address := h'.address.trans h.address
  signatories := by
    intro hsigned
    have hkept := h.signatories hsigned
    rw [← hkept] at hsigned
    exact (h'.signatories hsigned).trans hkept

theorem Document.KeepsRegistered.refl (d : Document) : d.KeepsRegistered d :=
  ⟨rfl, rfl, rfl, rfl, rfl, rfl, rfl, rfl, fun _ => rfl, forall₂_of_refl (fun _ _ => rfl) _,
    forall₂_of_refl .refl _⟩

theorem Document.KeepsRegistered.trans {d d' d'' : Document} (h : d.KeepsRegistered d')
    (h' : d'.KeepsRegistered d'') : d.KeepsRegistered d'' where
  dateOfBirth := h'.dateOfBirth.trans h.dateOfBirth
  registrationDate := h'.registrationDate.trans h.registrationDate
  signedAt := h'.signedAt.trans h.signedAt
  witnessedByCertificateProviderAt :=
    h'.witnessedByCertificateProviderAt.trans h.witnessedByCertificateProviderAt
  witnessedByIndependentWitnessAt :=
    h'.witnessedByIndependentWitnessAt.trans h.witnessedByIndependentWitnessAt
  certificateProviderNotRelatedConfirmedAt :=
    h'.certificateProviderNotRelatedConfirmedAt.trans h.certificateProviderNotRelatedConfirmedAt
  authorisedSignatory := h'.authorisedSignatory.trans h.authorisedSignatory
  independentWitness := h'.independentWitness.trans h.independentWitness
  certificateProvider := by
    intro hsigned
    have hkept := h.certificateProvider hsigned
    rw [← hkept] at hsigned
    exact (h'.certificateProvider hsigned).trans hkept
  attorneys := by
    refine forall₂_trans ?_ h.attorneys h'.attorneys
    intro a a' a'' hfirst hsecond hsigned
    have hkept := hfirst hsigned
    rw [← hkept] at hsigned
    exact (hsecond hsigned).trans hkept
  trustCorporations := by
    refine forall₂_trans ?_ h.trustCorporations h'.trustCorporations
    intro t t' t'' hfirst hsecond
    exact hfirst.trans hsecond

/-- A check of someone's identity is kept apart from all that was registered. -/
theorem Document.keepsRegistered_record (party : CheckedParty) (check : IdentityCheck) (d : Document) :
    d.KeepsRegistered (party.record check d) := by
  obtain ⟨_, _, _, _, _, _, _, _, _, hattorneys, htrustCorporations⟩ := KeepsRegistered.refl d
  cases party with
  | donor => exact ⟨rfl, rfl, rfl, rfl, rfl, rfl, rfl, rfl, fun _ => rfl, hattorneys, htrustCorporations⟩
  | certificateProvider =>
      exact ⟨rfl, rfl, rfl, rfl, rfl, rfl, rfl, rfl, fun _ => rfl, hattorneys, htrustCorporations⟩

theorem Document.certificateProvider_signedAt_record (party : CheckedParty) (check : IdentityCheck)
    (d : Document) :
    (party.record check d).certificateProvider.signedAt = d.certificateProvider.signedAt := by
  cases party <;> rfl

/-! ## Entries -/

section

variable {op : Operation}

/-- A trust corporation that has signed cannot sign again, and only a correction reaches its particulars. -/
theorem TrustCorporation.Becomes.keepsRegistered {t t' : TrustCorporation} (h : t.Becomes op t')
    (hop : op ≠ .correction) : t.KeepsRegistered t' := by
  cases h with
  | same _ _ => exact .refl t
  | signs s hunsigned =>
      constructor <;> try rfl
      intro hsigned
      rw [hunsigned] at hsigned
      exact absurd hsigned Bool.false_ne_true
  | leaves hunsigned => constructor <;> intros <;> rfl
  | corrected _ _ => exact absurd rfl hop

/-- An attorney who has signed cannot sign again, and only a correction reaches the date. -/
theorem Attorney.Becomes.signedAt_eq {a a' : Attorney} (h : a.Becomes op a') (hop : op ≠ .correction)
    (hregistered : op ≠ .postRegistrationCorrection) (hsigned : a.signedAt.isSome) :
    a'.signedAt = a.signedAt := by
  cases h with
  | signs s hunsigned =>
      rw [hunsigned] at hsigned
      exact absurd hsigned Bool.false_ne_true
  | corrected _ _ => exact absurd rfl hop
  | correctedRegistered _ _ => exact absurd rfl hregistered
  | _ => rfl

end

/-! ## Updates -/

namespace Command

variable {now : Instant} {d d' : Document} {c : Command} {changes : List Change}

/-- A registered document is not corrected in the way of one that is not. -/
theorem Effect.operation_ne_correction (h : c.Effect now d d') (hregistered : d.status = .registered) :
    c.operation ≠ .correction := by
  intro hop
  obtain ⟨_, rfl⟩ := exists_eq_correct hop
  cases h with
  | correct _ hstatus _ => exact hstatus hregistered

/-- Attorneys who have signed a registered document have signed it when they had. -/
theorem Effect.attorneys_signedAt (h : c.Effect now d d') (hread : c.IsRead d changes)
    (hregistered : d.status = .registered) :
    List.Forall₂ (fun a a' => a.signedAt.isSome → a'.signedAt = a.signedAt) d.attorneys
      d'.attorneys := by
  by_cases hop : c.operation = .postRegistrationCorrection
  · obtain ⟨_, rfl⟩ := exists_eq_correctRegistered hop
    cases h with
    | correctRegistered _ hbirth =>
        -- Its draft has a date of signing, but no field reaches it.
        obtain ⟨_, hattorney⟩ := RegisteredCorrection.keepsSignatures_of_read hread
        refine forall₂_amendAt (fun _ _ => rfl) hattorney ?_
        intro a b hdate _
        exact hdate
  · refine h.attorneys.imp ?_
    intro a a' hbecomes hsigned
    exact hbecomes.signedAt_eq (h.operation_ne_correction hregistered) hop hsigned

/-- So has the certificate provider. -/
theorem Effect.certificateProvider_signedAt (h : c.Effect now d d') (hread : c.IsRead d changes)
    (hregistered : d.status = .registered) (hsigned : d.certificateProvider.signedAt.isSome) :
    d'.certificateProvider.signedAt = d.certificateProvider.signedAt := by
  cases h with
  | certificateProviderSign s hunsigned =>
      rw [hunsigned] at hsigned
      exact absurd hsigned Bool.false_ne_true
  | attorneyOptOut hi ha hunsigned => rw [Document.afterLeaving_eq]
  | trustCorporationOptOut hi ht hunsigned => rw [Document.afterLeaving_eq]
  | correct c hstatus hdates => exact absurd hregistered hstatus
  | correctRegistered c hbirth => exact (RegisteredCorrection.keepsSignatures_of_read hread).1
  | confirmIdentity hkind hcheckedAt => exact Document.certificateProvider_signedAt_record _ _ _
  | _ => rfl

/-- **No command that is read against a registered document unsettles what was registered.** -/
theorem Effect.keepsRegistered (h : c.Effect now d d') (hread : c.IsRead d changes)
    (hregistered : d.status = .registered) : d.KeepsRegistered d' := by
  have hdate : d'.registrationDate = d.registrationDate := by
    rcases Document.registrationDate_of_effect h with hsame | rfl
    · exact hsame
    · cases h with
      | register hwaiting => simp [hregistered] at hwaiting
  have hprovider := h.certificateProvider_signedAt hread hregistered
  have hattorneys := h.attorneys_signedAt hread hregistered
  have htrustCorporations :
      List.Forall₂ TrustCorporation.KeepsRegistered d.trustCorporations d'.trustCorporations := by
    refine h.trustCorporations.imp ?_
    intro t t' hbecomes
    exact hbecomes.keepsRegistered (h.operation_ne_correction hregistered)
  -- Signatures and lists are done. The rest is the document's own, and no other command writes it.
  cases h with
  | attorneyOptOut hi ha hunsigned =>
      rw [Document.afterLeaving_eq] at *
      exact ⟨rfl, rfl, rfl, rfl, rfl, rfl, rfl, rfl, hprovider, hattorneys, htrustCorporations⟩
  | trustCorporationOptOut hi ht hunsigned =>
      rw [Document.afterLeaving_eq] at *
      exact ⟨rfl, rfl, rfl, rfl, rfl, rfl, rfl, rfl, hprovider, hattorneys, htrustCorporations⟩
  | correct c hstatus hdates => exact absurd hregistered hstatus
  | correctRegistered c hbirth =>
      exact ⟨hbirth, rfl, rfl, rfl, rfl, rfl, rfl, rfl, hprovider, hattorneys, htrustCorporations⟩
  | confirmIdentity hkind hcheckedAt => exact Document.keepsRegistered_record _ _ _
  | _ => exact ⟨rfl, hdate, rfl, rfl, rfl, rfl, rfl, rfl, hprovider, hattorneys, htrustCorporations⟩

end Command

/-- **What was registered is frozen.** Whatever update of whatever operation is accepted on a registered
    document, the donor's date of birth, the dates of registration, of signing and of witnessing, who
    signed and witnessed in the donor's place, and the particulars of the trust corporations are as they
    were, and whoever had signed has signed as they had. -/
theorem Update.registered_frozen {u : Update} {now : Instant} {d d' : Document} {c : Command}
    (hregistered : d.status = .registered) (hvalid : u.validate d = .ok c)
    (happly : c.apply now d = .ok d') : d.KeepsRegistered d' := by
  have hread : c.IsRead d u.changes := (isRead_of_validate hvalid).2
  exact (Command.effect_of_apply happly).keepsRegistered hread hregistered

namespace Document

/-- A registered document that everyone has signed, a trust corporation with one of its two signatories
    in the first place. -/
def ofRegistered : Document :=
  { ofJointAttorneys with
    status := .registered
    trustCorporations := [
      ⟨"t", "Trust", "1", "", "", {}, .active, .original, .paper,
        [⟨"Ed", "Ede", "", some (.ofNanoseconds 0)⟩, {}], none⟩]
    witnessedByCertificateProviderAt := some (.ofNanoseconds 0)
    registrationDate := some (.ofNanoseconds 0) }

end Document

/-- An attorney who has signed is corrected after registration. -/
theorem Update.registered_frozen_attorney :
    let u : Update := ⟨"", "", none, "", "POST_REGISTRATION_CORRECTION",
      [⟨"/attorneys/a/firstNames", .str "Bo", .str "Beau"⟩]⟩
    ∃ (c : Command) (d' : Document), Document.ofRegistered.status = .registered ∧
      u.validate .ofRegistered = .ok c ∧ c.apply (.ofNanoseconds 1) .ofRegistered = .ok d' ∧
      d'.attorneys.map (·.firstNames) = ["Beau", "Cy"] ∧ Document.ofRegistered.KeepsRegistered d' := by
  intro u
  let read := RegisteredCorrection.of .ofRegistered
  let a : Attorney := Document.ofRegistered.attorneys.head (by decide)
  let x : RegisteredCorrection :=
    { read with attorney := some (0, { AttorneyCorrection.of a with firstNames := "Beau" }) }
  have hvalid : u.validate .ofRegistered = .ok (.correctRegistered x) := by decide +kernel
  have happly : (Command.correctRegistered x).apply (.ofNanoseconds 1) .ofRegistered =
      .ok (x.amend (.ofNanoseconds 1) .ofRegistered) := rfl
  exact ⟨_, _, rfl, hvalid, happly, rfl, registered_frozen rfl hvalid happly⟩

/-! ## Runs -/

namespace Document

variable {d : Document}

/-- **What was registered stays for as long as the document is registered**, through any number of
    attempts. A document that is no longer registered is not registered again, so it has been all along. -/
theorem keepsRegistered_run (hregistered : d.status = .registered) (as : List Attempt)
    (hstill : (d.run as).status = .registered) : d.KeepsRegistered (d.run as) := by
  induction as generalizing d with
  | nil => exact .refl d
  | cons a as ih =>
      have hnext : (d.after a).status = .registered := by
        by_contra hleft
        have hne : (d.run [a]).status ≠ d.status := by
          rw [hregistered]
          exact hleft
        exact status_run_ne hne as (hstill.trans hregistered.symm)
      have hstep : d.KeepsRegistered (d.after a) := by
        rcases d.submit_after_or a with hok | ⟨_, hsame⟩
        · obtain ⟨c, hvalid, heffect⟩ := submit_eq_ok_iff.mp hok
          exact heffect.keepsRegistered (Update.isRead_of_validate hvalid).2 hregistered
        · rw [hsame]
          exact .refl d
      exact hstep.trans (ih hnext hstill)

end Document

end PowerOfAttorney
