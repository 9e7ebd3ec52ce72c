import PowerOfAttorney.Command.Basic
import PowerOfAttorney.Proofs.Script.Conservation

/-!
# `PowerOfAttorney.Proofs.Operation.Ends` — every operation refuses what it does not read

The script of each operation ends by refusing the changes that are left, and so do the scripts on its
parts. A change can therefore not be overlooked: it is taken by a field or it is blamed.

## Contents
- **Parts.** `Ends.within` for the script on a part, `Ends.within_after` where more is read after it.
- **Corrections.** `Correction.ends` and `RegisteredCorrection.ends`.
- **Signing and standing.** One lemma for each of the other scripts.
-/

namespace PowerOfAttorney

namespace Script

variable {σ τ : Type}

/-! ## Parts -/

/-- A script that ends does so on a part of a draft as well. -/
theorem Ends.within {s : Script τ} (h : s.Ends) (part : Focus σ τ) : (s.within part .done).Ends := by
  induction s with
  | done => exact h
  | field key slot rule next ih => exact ih h
  | under key needed inner next ihInner ih => exact ⟨ihInner h.1, ih h.2⟩
  | each always inner next ihInner ih => exact ⟨fun i => ihInner i (h.1 i), ih h.2⟩
  | eachKey inner next ihInner ih => exact ⟨fun k => ihInner k (h.1 k), ih h.2⟩
  | outOfRange next ih =>
      rcases h with rfl | h
      · exact Or.inl rfl
      · exact Or.inr (ih h)
  | consumed next ih =>
      rcases h with rfl | h
      · exact Or.inl rfl
      · exact Or.inr (ih h)
  | alter f next ih => exact ih h
  | look next ih => exact fun s => ih (part.get s) (h (part.get s))

/-- Every inner script ends by refusing what is left; the script itself may leave that to what comes
    after it. -/
def IsOpen : Script σ → Prop
  | .done => True
  | .field _ _ _ next => next.IsOpen
  | .under _ _ inner next => inner.Ends ∧ next.IsOpen
  | .each _ inner next => (∀ i, (inner i).Ends) ∧ next.IsOpen
  | .eachKey inner next => (∀ k, (inner k).Ends) ∧ next.IsOpen
  | .outOfRange next | .consumed next => next.IsOpen
  | .alter _ next => next.IsOpen
  | .look next => ∀ s, (next s).IsOpen

/-- What comes after a script on a part ends for both. -/
theorem Ends.within_after {s : Script τ} (h : s.IsOpen) (part : Focus σ τ) {after : Script σ}
    (hafter : after.Ends) : (s.within part after).Ends := by
  induction s with
  | done => exact hafter
  | field key slot rule next ih => exact ih h
  | under key needed inner next _ ih => exact ⟨h.1.within part, ih h.2⟩
  | each always inner next _ ih => exact ⟨fun i => (h.1 i).within part, ih h.2⟩
  | eachKey inner next _ ih => exact ⟨fun k => (h.1 k).within part, ih h.2⟩
  | outOfRange next ih => exact Or.inr (ih h)
  | consumed next ih => exact Or.inr (ih h)
  | alter f next ih => exact ih h
  | look next ih => exact fun s => ih (part.get s) (h (part.get s))

/-- A script that reads nothing refuses everything. -/
theorem ends_consumed : (Script.consumed (.done : Script σ)).Ends :=
  Or.inl rfl

/-- Nothing is left of the changes of an entry, whether it is the chosen one or not. -/
theorem Ends.choose {inner : Script τ} (h : inner.Ends) (i : Nat) (seed : τ) :
    (Script.choose i seed inner).Ends := by
  intro s
  dsimp only
  split
  · exact h.within _
  · exact Or.inl rfl

end Script

open Script

/-! ## Corrections -/

theorem Address.ends_fields (line1 town country : Rule) : (fields line1 town country).Ends :=
  Or.inl rfl

theorem DonorCorrection.ends_fields : fields.Ends :=
  ⟨(Address.ends_fields _ _ _).within _, Or.inl rfl⟩

theorem AttorneyCorrection.ends_unregistered : unregistered.Ends :=
  ⟨(Address.ends_fields _ _ _).within _, Or.inl rfl⟩

theorem AttorneyCorrection.ends_registered : registered.Ends :=
  ⟨(Address.ends_fields _ _ _).within _, Or.inl rfl⟩

theorem Signatory.ends_fields (rule : Rule) : (fields rule).Ends :=
  Or.inl rfl

theorem TrustCorporationCorrection.ends_signatory (i : Nat) : (signatory i).Ends := by
  intro s
  dsimp only
  split
  · exact (Signatory.ends_fields _).within _
  · exact Or.inl rfl

theorem TrustCorporationCorrection.ends_fields : fields.Ends :=
  ⟨(Address.ends_fields _ _ _).within _, ⟨fun i => (ends_signatory i).within _, Or.inl rfl⟩, Or.inl rfl⟩

theorem CertificateProviderCorrection.ends_unregistered : unregistered.Ends :=
  ⟨(Address.ends_fields _ _ _).within _, Or.inl rfl⟩

theorem CertificateProviderCorrection.ends_registered : registered.Ends :=
  ⟨(Address.ends_fields _ _ _).within _, Or.inl rfl⟩

theorem AuthorisedSignatory.ends_fields : fields.Ends :=
  Or.inl rfl

theorem IndependentWitness.ends_fields : fields.Ends :=
  ⟨(Address.ends_fields _ _ _).within _, Or.inl rfl⟩

/-- The decisions have no parts. -/
theorem Decisions.isOpen_script (d : Document) : (script d .done).IsOpen := by
  have hif : ∀ {condition : Decisions → Bool} {key : String} {slot : Slot Decisions} {rule : Rule}
      {next : Script Decisions}, next.IsOpen → (fieldIf condition (.field key slot rule) next).IsOpen := by
    intro condition key slot rule next hnext s
    dsimp only
    split
    · exact hnext
    · exact hnext
  have hkind : (kindField d.kind .done).IsOpen := by
    cases d.kind with
    | personalWelfare => exact trivial
    | propertyAndAffairs => exact trivial
  exact hif fun _ => hif fun _ => hif fun _ => hkind

namespace Correction

theorem ends_named {α : Type} {fields : Script α} (h : fields.Ends)
    (part : Focus Correction (Option α)) (seed : α) : (named part seed fields).Ends :=
  h.within _

theorem ends_attorney (d : Document) (i : Nat) :
    Script.Ends (match d.attorneys[i]? with
      | none => .outOfRange .done
      | some a => .choose i (.of a) AttorneyCorrection.unregistered) := by
  split
  · exact Or.inl rfl
  · exact Ends.choose AttorneyCorrection.ends_unregistered _ _

theorem ends_trustCorporation (d : Document) (i : Nat) :
    Script.Ends (match d.trustCorporations[i]? with
      | none => .outOfRange .done
      | some t => .choose i (.of t) TrustCorporationCorrection.fields) := by
  split
  · exact Or.inl rfl
  · exact Ends.choose TrustCorporationCorrection.ends_fields _ _

theorem ends (d : Document) : (script d).Ends :=
  ⟨DonorCorrection.ends_fields.within _,
    ⟨fun i => (ends_attorney d i).within _, Or.inl rfl⟩,
    ⟨fun i => (ends_trustCorporation d i).within _, Or.inl rfl⟩,
    CertificateProviderCorrection.ends_unregistered.within _,
    ends_named AuthorisedSignatory.ends_fields _ _,
    ends_named IndependentWitness.ends_fields _ _,
    Ends.within_after (Decisions.isOpen_script d) _ (Or.inl rfl)⟩

end Correction

namespace RegisteredCorrection

theorem ends_attorney (d : Document) (uid : String) :
    Script.Ends (match d.attorneyIndex? uid with
      | none => .outOfRange .done
      | some i =>
        match d.attorneys[i]? with
        | none => .outOfRange .done
        | some a => .choose i (.of a) AttorneyCorrection.registered) := by
  split
  · exact Or.inl rfl
  · split
    · exact Or.inl rfl
    · exact Ends.choose AttorneyCorrection.ends_registered _ _

theorem ends (d : Document) : (script d).Ends :=
  ⟨DonorCorrection.ends_fields.within _,
    CertificateProviderCorrection.ends_registered.within _,
    ⟨fun uid => (ends_attorney d uid).within _, Or.inl rfl⟩,
    Ends.within_after (Decisions.isOpen_script d) _ (Or.inl rfl)⟩

end RegisteredCorrection

/-! ## Signing and standing -/

theorem CertificateProviderSign.ends : script.Ends :=
  ⟨⟨(Address.ends_fields _ _ _).within _, Or.inl rfl⟩, Or.inl rfl⟩

theorem AttorneySign.ends (d : Document) : (script d).Ends := by
  refine ⟨⟨fun i => ?_, Or.inl rfl⟩, Or.inl rfl⟩
  dsimp only
  split
  · exact Ends.choose (show fields.Ends from Or.inl rfl) _ _
  · exact Or.inl rfl

theorem TrustCorporationSign.ends_signatory (i : Nat) : (signatory i).Ends := by
  match i with
  | 0 => exact (Signatory.ends_fields _).within _
  | 1 => exact (Signatory.ends_fields _).within _
  | _ + 2 => exact Or.inl rfl

theorem TrustCorporationSign.ends (d : Document) : (script d).Ends := by
  refine ⟨⟨fun i => ?_, Or.inl rfl⟩, Or.inl rfl⟩
  dsimp only
  split
  · exact Ends.choose (show fields.Ends from ⟨⟨ends_signatory, Or.inl rfl⟩, Or.inl rfl⟩) _ _
  · exact Or.inl rfl

theorem ChangeAttorneys.ends (d : Document) : (script d).Ends := by
  refine ⟨⟨fun i => ?_, Or.inl rfl⟩, Or.inl rfl⟩
  dsimp only
  split
  · exact Or.inl rfl
  · exact Or.inl rfl

theorem AttorneyDecisions.ends (d : Document) : (script d).Ends := by
  refine ⟨⟨fun uid => ?_, Or.inl rfl⟩, Or.inl rfl⟩
  dsimp only
  split
  · exact Or.inl rfl
  · exact Or.inl rfl

theorem AttorneyAccess.ends (d : Document) : (script d).Ends := by
  refine ⟨⟨fun uid => ?_, Or.inl rfl⟩, Or.inl rfl⟩
  dsimp only
  split
  · exact Or.inl rfl
  · refine Ends.choose ?_ _ _
    exact Or.inl rfl

theorem CertificateProviderAccess.ends : script.Ends :=
  Or.inl rfl

theorem SeverRestrictions.ends : script.Ends :=
  Or.inl rfl

theorem statusScript_ends : statusScript.Ends :=
  Or.inl rfl

theorem ConfirmIdentity.ends (party : CheckedParty) (d : Document) : (script party d).Ends :=
  ⟨Or.inl rfl, Or.inl rfl⟩

end PowerOfAttorney
