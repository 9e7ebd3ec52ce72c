import PowerOfAttorney.Amendment.Correction
import PowerOfAttorney.Proofs.Script.Yields

/-!
# `PowerOfAttorney.Proofs.Operation.Signatures` — corrections do not take signatures away

A correction before registration may move the dates of signing, but its checks do not let one be
emptied; one after registration does not reach them. Either starts from what is on record, so whoever
has signed has signed in the draft at every point of the reading.

## Contents
- **Checks.** What the checks of dates, texts and words are for.
- **People.** What the scripts on an attorney, a trust corporation and a certificate provider keep.
- **Corrections.** `Correction.KeepsSignatures` and `RegisteredCorrection.KeepsSignatures`, which hold of
  what is read without faults.
-/

namespace PowerOfAttorney

open Script

/-! ## Checks -/

/-- A date that is not empty is set. -/
theorem Slot.isSome_of_passes_notEmpty {σ : Type} {get : σ → Option Instant}
    {set : Option Instant → σ → σ} {v : Option Instant}
    (h : (Slot.time get set).Passes (some .notEmpty) v) : v.isSome := by
  have hnone := h .notEmpty rfl
  cases v with
  | none => exact absurd hnone nofun
  | some t => rfl

/-- A text that passes for not empty is not. -/
theorem Slot.ne_empty_of_passes {σ : Type} {get : σ → String} {set : String → σ → σ} {v : String}
    (h : (Slot.text get set).Passes (some .notEmpty) v) : v ≠ "" := by
  intro hempty
  have hnone := h .notEmpty rfl
  rw [hempty] at hnone
  exact absurd hnone nofun

/-- A word that passes for chosen is. -/
theorem Check.isSome_of_chosen {w : Choice} {v : Option w.Of}
    (h : Check.chosen.fault? (FieldType.view (.maybeWord w) v) = none) : v.isSome := by
  cases v with
  | none => exact absurd h nofun
  | some _ => rfl

/-! ## People -/

section

variable {P : Option Instant → Prop}

/-- The fields of an attorney that may always be corrected have nothing to do with signing. -/
theorem AttorneyCorrection.keeps_fields {after : Script AttorneyCorrection}
    (h : after.Keeps fun c => P c.signedAt) : (fields after).Keeps fun c => P c.signedAt :=
  keeps_field (fun _ _ hc _ => hc) <|
  keeps_field (fun _ _ hc _ => hc) <|
  keeps_field (fun _ _ hc _ => hc) <|
  keeps_field (fun _ _ hc _ => hc) <|
  keeps_field (fun _ _ hc _ => hc) <|
  keeps_under (keeps_aside (fun _ _ hc => hc) keeps_done) h

/-- Nor have those of a certificate provider. -/
theorem CertificateProviderCorrection.keeps_fields {after : Script CertificateProviderCorrection}
    (h : after.Keeps fun c => P c.signedAt) : (fields after).Keeps fun c => P c.signedAt :=
  keeps_field (fun _ _ hc _ => hc) <|
  keeps_field (fun _ _ hc _ => hc) <|
  keeps_under (keeps_aside (fun _ _ hc => hc) keeps_done) <|
  keeps_field (fun _ _ hc _ => hc) <|
  keeps_field (fun _ _ hc _ => hc) h

/-- Before registration an attorney who has signed has signed. -/
theorem AttorneyCorrection.keeps_unregistered (signed : Prop) :
    unregistered.Keeps fun c => signed → c.signedAt.isSome :=
  keeps_fields (P := fun t => signed → t.isSome) <|
    keeps_field (fun _ _ _ hv _ => Slot.isSome_of_passes_notEmpty hv) keeps_done

/-- So has a certificate provider. -/
theorem CertificateProviderCorrection.keeps_unregistered (signed : Prop) :
    unregistered.Keeps fun c => signed → c.signedAt.isSome :=
  keeps_fields (P := fun t => signed → t.isSome) <|
    keeps_field (fun _ _ _ hv _ => Slot.isSome_of_passes_notEmpty hv) keeps_done

/-- After registration the date of an attorney stays. -/
theorem AttorneyCorrection.keeps_registered : registered.Keeps fun c => P c.signedAt :=
  keeps_fields <| keeps_field (fun _ _ hc _ => hc) keeps_done

/-- So does that of a certificate provider. -/
theorem CertificateProviderCorrection.keeps_registered : registered.Keeps fun c => P c.signedAt :=
  keeps_fields keeps_done

end

/-- A signatory who has signed has signed. -/
theorem Signatory.keeps_fields (signed : Prop) :
    (fields .keeps).Keeps fun s => signed → s.isSigned :=
  keeps_field (fun _ _ hs _ => hs) <|
  keeps_field (fun _ _ hs _ => hs) <|
  keeps_field (fun _ _ hs _ => hs) <|
  keeps_field (fun _ _ _ hv _ => Slot.isSome_of_passes_notEmpty hv) keeps_done

namespace TrustCorporationCorrection

/-- If all signatories have signed, they still have after one of them is corrected. -/
theorem keeps_signatory (signed : Prop) (i : Nat) :
    (signatory i).Keeps fun xs => signed → (!xs.isEmpty && xs.all Signatory.isSigned) = true := by
  intro xs hxs
  show (if i < xs.length then _ else _ : Script _).Yields _ xs
  split
  · rename_i hi
    refine Yields.within ⟨fun w => ?_, fun _ _ => List.set_set _, ?_⟩
      ((Signatory.keeps_fields signed _ fun hsigned => ?_).mono fun w hw hsigned => ?_)
    · show ((xs.set i w)[i]?).getD {} = w
      rw [List.getElem?_set_self hi, Option.getD_some]
    · show xs.set i ((xs[i]?).getD {}) = xs
      rw [List.getElem?_eq_getElem hi, Option.getD_some, List.set_getElem_self]
    · have hall := (Bool.and_eq_true_iff.mp (hxs hsigned)).2
      show ((xs[i]?).getD {}).isSigned = true
      rw [List.getElem?_eq_getElem hi, Option.getD_some]
      exact List.all_eq_true.mp hall _ (List.getElem_mem hi)
    · obtain ⟨hsome, hall⟩ := Bool.and_eq_true_iff.mp (hxs hsigned)
      rw [Bool.and_eq_true_iff]
      refine ⟨?_, List.all_eq_true.mpr fun s hs => ?_⟩
      · show (!(xs.set i w).isEmpty) = true
        simpa using hsome
      · rcases List.mem_or_eq_of_mem_set hs with hs | rfl
        · exact List.all_eq_true.mp hall s hs
        · exact hw hsigned
  · exact hxs

/-- If a trust corporation has signed, it still has after it is corrected. -/
theorem keeps_fields (t : TrustCorporation) :
    fields.Keeps fun c => t.isSigned → (c.amend t).isSigned :=
  keeps_field (fun _ _ hc _ => hc) <|
  keeps_field (fun _ _ hc _ => hc) <|
  keeps_field (fun _ _ hc _ => hc) <|
  keeps_field (fun _ _ hc _ => hc) <|
  keeps_under (keeps_aside (fun _ _ hc => hc) keeps_done) <|
  keeps_under
    (keeps_within (keeps_each (keeps_signatory t.isSigned) keeps_done)
      (fun _ _ => ⟨fun _ => rfl, fun _ _ => rfl, rfl⟩) (fun _ hc => hc) (fun _ _ _ hw => hw)
      keeps_done)
    keeps_done

end TrustCorporationCorrection

/-! ## Corrections -/

namespace Correction

/-- Whoever has signed has signed in the draft. -/
def KeepsSignatures (d : Document) (c : Correction) : Prop :=
  (d.signedAt.isSome → c.signedAt.isSome) ∧
  (d.certificateProvider.signedAt.isSome → c.certificateProvider.signedAt.isSome) ∧
  ChosenFrom d.attorneys (fun a b => a.signedAt.isSome → b.signedAt.isSome) c.attorney ∧
  ChosenFrom d.trustCorporations (fun t b => t.isSigned → (b.amend t).isSigned) c.trustCorporation

theorem keeps_named {α : Type} {P : Correction → Prop} {part : Focus Correction (Option α)} {seed : α}
    {fields : Script α} (hset : ∀ c w, P c → P (part.set w c)) : (named part seed fields).Keeps P :=
  fun c hc => keeps_aside (fun c w hc => hset c (some w) hc) keeps_done _ (hset c (some seed) hc)

/-- The reading of a correction keeps signatures. -/
theorem keeps_keepsSignatures (d : Document) : (script d).Keeps (KeepsSignatures d) := by
  refine keeps_under (keeps_aside (fun _ _ hc => hc) keeps_done) <|
    keeps_field (fun _ _ hc hv => ⟨fun _ => Slot.isSome_of_passes_notEmpty hv, hc.2⟩) <|
    keeps_field (fun _ _ hc _ => hc) <|
    keeps_field (fun _ _ hc _ => hc) <|
    keeps_under (keeps_within (keeps_each (fun i => ?_) keeps_done)
      (fun _ _ => ⟨fun _ => rfl, fun _ _ => rfl, rfl⟩) (fun _ hc => hc.2.2.1)
      (fun _ _ hc hw => ⟨hc.1, hc.2.1, hw, hc.2.2.2⟩) keeps_done) <|
    keeps_under (keeps_within (keeps_each (fun i => ?_) keeps_done)
      (fun _ _ => ⟨fun _ => rfl, fun _ _ => rfl, rfl⟩) (fun _ hc => hc.2.2.2)
      (fun _ _ hc hw => ⟨hc.1, hc.2.1, hc.2.2.1, hw⟩) keeps_done) <|
    keeps_under (keeps_within (CertificateProviderCorrection.keeps_unregistered _)
      (fun _ _ => ⟨fun _ => rfl, fun _ _ => rfl, rfl⟩) (fun _ hc => hc.2.1)
      (fun _ _ hc hw => ⟨hc.1, hw, hc.2.2⟩) keeps_done) <|
    keeps_under (keeps_named fun _ _ hc => hc) <|
    keeps_under (keeps_named fun _ _ hc => hc) <|
    keeps_aside (fun _ _ hc => hc) keeps_done
  · cases ha : d.attorneys[i]? with
    | none => exact keeps_done
    | some a => exact keeps_choose ha id (AttorneyCorrection.keeps_unregistered _)
  · cases ht : d.trustCorporations[i]? with
    | none => exact keeps_done
    | some t => exact keeps_choose ht id (TrustCorporationCorrection.keeps_fields t)

/-- **A correction that is read without faults keeps signatures.** -/
theorem keepsSignatures_of_read {d : Document} {changes : List Change} {c : Correction}
    (h : (script d).read (of d) changes = (c, [])) : KeepsSignatures d c := by
  obtain ⟨rfl, hnone⟩ := Prod.mk.inj h
  exact (keeps_keepsSignatures d _ ⟨id, id, chosenFrom_none _ _, chosenFrom_none _ _⟩).read hnone

end Correction

namespace RegisteredCorrection

/-- Signing dates in the draft are those on record. -/
def KeepsSignatures (d : Document) (c : RegisteredCorrection) : Prop :=
  c.certificateProvider.signedAt = d.certificateProvider.signedAt ∧
  ChosenFrom d.attorneys (fun a b => b.signedAt = a.signedAt) c.attorney

/-- The reading of a correction keeps signing dates. -/
theorem keeps_keepsSignatures (d : Document) : (script d).Keeps (KeepsSignatures d) := by
  refine keeps_under (keeps_aside (fun _ _ hc => hc) keeps_done) <|
    keeps_under (keeps_within (CertificateProviderCorrection.keeps_registered
        (P := fun t => t = d.certificateProvider.signedAt))
      (fun _ _ => ⟨fun _ => rfl, fun _ _ => rfl, rfl⟩) (fun _ hc => hc.1)
      (fun _ _ hc hw => ⟨hw, hc.2⟩) keeps_done) <|
    keeps_under (keeps_within (keeps_eachKey (fun uid => ?_) keeps_done)
      (fun _ _ => ⟨fun _ => rfl, fun _ _ => rfl, rfl⟩) (fun _ hc => hc.2)
      (fun _ _ hc hw => ⟨hc.1, hw⟩) keeps_done) <|
    keeps_aside (fun _ _ hc => hc) <|
    keeps_field (fun _ _ hc _ => hc) keeps_done
  cases d.attorneyIndex? uid with
  | none => exact keeps_done
  | some i =>
      dsimp only
      cases ha : d.attorneys[i]? with
      | none => exact keeps_done
      | some a =>
          exact keeps_choose ha rfl
            (AttorneyCorrection.keeps_registered (P := fun t => t = a.signedAt))

/-- **A correction after registration leaves signing dates alone.** -/
theorem keepsSignatures_of_read {d : Document} {changes : List Change} {c : RegisteredCorrection}
    (h : (script d).read (of d) changes = (c, [])) : KeepsSignatures d c := by
  obtain ⟨rfl, hnone⟩ := Prod.mk.inj h
  exact (keeps_keepsSignatures d _ ⟨rfl, chosenFrom_none _ _⟩).read hnone

end RegisteredCorrection

end PowerOfAttorney
