import Mathlib.Data.List.Induction
import PowerOfAttorney.Proofs.Lifecycle.Parties
import PowerOfAttorney.Proofs.Lifecycle.Status

/-!
# `PowerOfAttorney.Proofs.Lifecycle.Perfected` — who has signed once a document has left progress

Signatures are asked for when a document leaves progress, and of everyone who has not been removed.
Afterwards no signature is taken away and no trust corporation comes back. But an attorney comes back in
two moves, from removed to inactive and from inactive to active, and is not asked again.

## Contents
- **Signatures.** `Document.IsSigned`, by everyone who has not been removed, apart from some attorneys.
- **Coming back.** `Document.Reinstated`: an attorney was removed unsigned, then made inactive.
- **Runs.** `isSigned_of_run` and `signed_or_reinstated`: from progress on, only such attorneys can be
  without a signature.
- **The way back.** `not_forall_isSigned`: they can be, on a registered document.
-/

namespace PowerOfAttorney

/-! ## Signatures -/

/-- A document comes to the status after everyone has signed. -/
def Status.followsSigning : Status → Bool
  | .perfect | .statutoryWaitingPeriod | .registered => true
  | _ => false

/-- Progress is left for such a status by two commands. -/
theorem Status.Moves.followsSigning {c : Command} {s s' : Status} (h : Moves c s s')
    (hs' : s'.followsSigning) : s.followsSigning ∨ c = .makePerfect ∨ c = .beginWaiting := by
  cases h with
  | optOut party => exact absurd hs' nofun
  | withdraw _ _ _ => exact absurd hs' nofun
  | makePerfect => exact Or.inr (Or.inl rfl)
  | beginWaiting => exact Or.inr (Or.inr rfl)
  | register => exact Or.inl rfl
  | setStatus hallowed =>
      exfalso
      revert hallowed hs'
      cases s <;> cases s' <;> decide

namespace Document

/-- Everyone has signed who has not been removed, apart from attorneys who are excused. -/
structure IsSigned (d : Document) (excused : Nat → Prop) : Prop where
  donor : d.signedAt.isSome
  certificateProvider : d.certificateProvider.signedAt.isSome
  attorneys : ∀ i a, d.attorneys[i]? = some a → a.status ≠ .removed → a.signedAt.isSome ∨ excused i
  trustCorporations : ∀ t ∈ d.trustCorporations, t.status ≠ .removed → t.isSigned

variable {d d' : Document} {excused : Nat → Prop}

/-- Without a missing signature everyone has signed. -/
theorem isSigned_of_unsigned? (h : d.unsigned? = none) : d.IsSigned excused := by
  unfold unsigned? at h
  split at h
  · exact absurd h nofun
  rename_i hdonor
  split at h
  · exact absurd h nofun
  rename_i hprovider
  split at h
  · exact absurd h nofun
  rename_i hattorneys
  split at h
  · exact absurd h nofun
  rename_i htrustCorporations
  refine ⟨Option.isSome_iff_ne_none.mpr (by simpa using hdonor),
    Option.isSome_iff_ne_none.mpr (by simpa using hprovider), fun i a ha hstatus => Or.inl ?_,
    fun t ht hstatus => ?_⟩
  · have hnone := List.any_eq_false.mp (Bool.eq_false_iff.mpr hattorneys) a (List.mem_of_getElem? ha)
    exact Option.isSome_iff_ne_none.mpr (by simpa [hstatus] using hnone)
  · have hnone := List.any_eq_false.mp (Bool.eq_false_iff.mpr htrustCorporations) t ht
    simpa [hstatus] using hnone

/-- The status has nothing to do with who has signed. -/
theorem IsSigned.setStatus (h : d.IsSigned excused) (s : Status) :
    { d with status := s }.IsSigned excused :=
  ⟨h.donor, h.certificateProvider, h.attorneys, h.trustCorporations⟩

/-- More attorneys may be excused. -/
theorem IsSigned.mono {excused' : Nat → Prop} (h : d.IsSigned excused)
    (hle : ∀ i, excused i → excused' i) : d.IsSigned excused' :=
  ⟨h.donor, h.certificateProvider, fun i a ha hstatus => (h.attorneys i a ha hstatus).imp id (hle i),
    h.trustCorporations⟩

/-- What continues stays signed, if attorneys are excused who come back without a signature. -/
theorem IsSigned.continues {op : Operation} (h : d.IsSigned excused) (hstep : d.Continues op d')
    (hback : ∀ i a a', d.attorneys[i]? = some a → a.status = .removed → a.signedAt = none →
      d'.attorneys[i]? = some a' → a'.status = .inactive → op = .changeAttorneys → excused i) :
    d'.IsSigned excused where
  donor := hstep.donor h.donor
  certificateProvider := hstep.certificateProvider h.certificateProvider
  attorneys i a' ha' hstatus := by
    -- Whoever is there was there before, and may have come back.
    obtain ⟨a, ha, hcontinues⟩ := exists_of_forall₂ hstep.attorneys ha'
    by_cases hremoved : a.status = .removed
    · obtain ⟨hop, hinactive⟩ := (hcontinues.removed hremoved).resolve_left hstatus
      cases hsigned : a.signedAt with
      | some t => exact Or.inl (hcontinues.signed (by rw [hsigned]; rfl))
      | none => exact Or.inr (hback i a a' ha hremoved hsigned ha' hinactive hop)
    · exact (h.attorneys i a ha hremoved).imp hcontinues.signed id
  trustCorporations t' ht' hstatus := by
    obtain ⟨i, hi⟩ := List.mem_iff_getElem?.mp ht'
    obtain ⟨t, ht, hcontinues⟩ := exists_of_forall₂ hstep.trustCorporations hi
    refine hcontinues.signed (h.trustCorporations t (List.mem_of_getElem? ht) fun hremoved => ?_)
    exact hstatus (hcontinues.removed hremoved)

/-! ## Coming back -/

/-- In the course of a run an attorney who had been removed without a signature was made inactive, when
    all others had been asked for theirs. -/
def Reinstated (d : Document) (as : List Attempt) (i : Nat) : Prop :=
  ∃ before a, before ++ [a] <+: as ∧ (d.run before).status.followsSigning ∧
    a.operation? = some .changeAttorneys ∧
    (∃ x, (d.run before).attorneys[i]? = some x ∧ x.status = .removed ∧ x.signedAt = none) ∧
    ∃ x, (d.run (before ++ [a])).attorneys[i]? = some x ∧ x.status = .inactive

theorem Reinstated.append {as : List Attempt} {i : Nat} (h : d.Reinstated as i) (bs : List Attempt) :
    d.Reinstated (as ++ bs) i := by
  obtain ⟨before, a, hprefix, hrest⟩ := h
  exact ⟨before, a, hprefix.trans (List.prefix_append as bs), hrest⟩

/-! ## Runs -/

/-- A document that comes to a status after signing comes from one, or everyone has just signed. -/
theorem followsSigning_of_submit {a : Attempt} (h : d.submit a = .ok d')
    (hafter : d'.status.followsSigning) : d.status.followsSigning ∨ d'.IsSigned excused := by
  obtain ⟨c, hop, _, heffect⟩ := effect_of_submit h
  rcases heffect.moves with hsame | hmoves
  · exact Or.inl (hsame ▸ hafter)
  · rcases hmoves.followsSigning hafter with hbefore | rfl | rfl
    · exact Or.inl hbefore
    · cases heffect with
      | makePerfect _ hsigned => exact Or.inr ((isSigned_of_unsigned? hsigned).setStatus _)
    · cases heffect with
      | beginWaiting _ hsigned => exact Or.inr ((isSigned_of_unsigned? hsigned).setStatus _)

/-- Once a document has left progress, everyone has signed who has not been removed, apart from attorneys
    who were removed without a signature and have come back since. -/
theorem isSigned_of_run (hd : d.status = .inProgress) (as : List Attempt)
    (hafter : (d.run as).status.followsSigning) : (d.run as).IsSigned (d.Reinstated as) := by
  -- By induction over the run, from its end. As long as everyone has signed, only a move back can bring in
  -- an attorney without a signature, and such a move is what excuses the attorney.
  induction as using List.reverseRecOn with
  | nil =>
      have hstart : d.status.followsSigning := hafter
      rw [hd] at hstart
      exact absurd hstart nofun
  | append_singleton as a ih =>
      rw [run_concat] at hafter ⊢
      rcases (d.run as).submit_after_or a with hok | ⟨_, hsame⟩
      · rcases followsSigning_of_submit hok hafter with hbefore | hsigned
        · obtain ⟨op, hop, hcontinues⟩ := continues_of_submit hok
          refine ((ih hbefore).mono fun i hi => hi.append [a]).continues hcontinues ?_
          rintro i x x' hx hremoved hunsigned hx' hinactive rfl
          refine ⟨as, a, List.prefix_rfl, hbefore, hop, ⟨x, hx, hremoved, hunsigned⟩, x', ?_, hinactive⟩
          rwa [run_concat]
        · exact hsigned
      · rw [hsame] at hafter ⊢
        exact (ih hafter).mono fun i hi => hi.append [a]

/-- **A document that is perfect, waits or is registered is signed**: by the donor, the certificate
    provider, every attorney and every trust corporation who has not been removed. An attorney who was
    reinstated is the only exception. -/
theorem signed_or_reinstated (hd : d.status = .inProgress) (as : List Attempt)
    (hafter : (d.run as).status = .perfect ∨ (d.run as).status = .statutoryWaitingPeriod ∨
      (d.run as).status = .registered) :
    (d.run as).signedAt.isSome ∧ (d.run as).certificateProvider.signedAt.isSome ∧
      (∀ i a, (d.run as).attorneys[i]? = some a → a.status ≠ .removed →
        a.signedAt.isSome ∨ d.Reinstated as i) ∧
      ∀ t ∈ (d.run as).trustCorporations, t.status ≠ .removed →
        t.signatories ≠ [] ∧ ∀ s ∈ t.signatories, s.signedAt.isSome := by
  have hfollows : (d.run as).status.followsSigning := by
    rcases hafter with h | h | h <;> rw [h] <;> rfl
  have hsigned := isSigned_of_run hd as hfollows
  refine ⟨hsigned.donor, hsigned.certificateProvider, hsigned.attorneys, fun t ht hstatus => ?_⟩
  obtain ⟨hsome, hall⟩ := Bool.and_eq_true_iff.mp (hsigned.trustCorporations t ht hstatus)
  exact ⟨by simpa using hsome, List.all_eq_true.mp hall⟩

/-! ## The way back -/

/-- Two attorneys who decide jointly. Everyone has signed but the second of them. -/
def ofJointAttorneys : Document :=
  { ofTwoAttorneys with
    attorneys := [
      ⟨"a", "Bo", "Bell", none, "", "", {}, .active, .original, .paper, some (.ofNanoseconds 0), none,
        false⟩,
      ⟨"b", "Cy", "Cole", none, "", "", {}, .active, .original, .paper, none, none, false⟩]
    certificateProvider :=
      { ofTwoAttorneys.certificateProvider with signedAt := some (.ofNanoseconds 0) }
    decisions := { ofTwoAttorneys.decisions with attorneysDecide := some .jointly }
    signedAt := some (.ofNanoseconds 0) }

/-- The second attorney is removed, is away while signatures are asked for, and comes back. -/
def comeback : List Attempt :=
  [.ofMove "active" "removed", .of "STATUTORY_WAITING_PERIOD" "" [], .ofMove "removed" "inactive",
    .ofMove "inactive" "active", .of "REGISTER" "" []]

/-- In the end the document is registered. -/
theorem signed_or_reinstated_comeback :
    let d := ofJointAttorneys.run comeback
    ofJointAttorneys.status = .inProgress ∧
      (d.status = .perfect ∨ d.status = .statutoryWaitingPeriod ∨ d.status = .registered) ∧
      d.signedAt.isSome ∧ d.certificateProvider.signedAt.isSome ∧
      (∀ i a, d.attorneys[i]? = some a → a.status ≠ .removed →
        a.signedAt.isSome ∨ ofJointAttorneys.Reinstated comeback i) ∧
      ∀ t ∈ d.trustCorporations, t.status ≠ .removed →
        t.signatories ≠ [] ∧ ∀ s ∈ t.signatories, s.signedAt.isSome := by
  intro d
  have hstatus : ofJointAttorneys.status = .inProgress := rfl
  have hafter : d.status = .perfect ∨ d.status = .statutoryWaitingPeriod ∨ d.status = .registered := by
    decide +kernel
  exact ⟨hstatus, hafter, signed_or_reinstated hstatus comeback hafter⟩

/-- The attorney who came back is without a signature, so not everyone has signed. -/
theorem not_forall_isSigned :
    ¬ ∀ (d : Document) (as : List Attempt), d.status = .inProgress →
      (d.run as).status.followsSigning → (d.run as).IsSigned fun _ => False := by
  intro h
  have hback : ∃ a, (ofJointAttorneys.run comeback).attorneys[1]? = some a ∧
      a.status ≠ .removed ∧ a.signedAt = none := by decide +kernel
  obtain ⟨a, ha, hstatus, hunsigned⟩ := hback
  have hsigned := (h ofJointAttorneys comeback rfl (by decide +kernel)).attorneys 1 a ha hstatus
  rw [hunsigned] at hsigned
  exact hsigned.elim Bool.false_ne_true id

end Document

end PowerOfAttorney
