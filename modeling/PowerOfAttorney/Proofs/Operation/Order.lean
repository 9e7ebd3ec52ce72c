import PowerOfAttorney.Proofs.Operation.Accepted
import PowerOfAttorney.Proofs.Script.Order

/-!
# `PowerOfAttorney.Proofs.Operation.Order` — the order of changes in an update does not matter

The fields of every operation have plain names, so that what holds of the scripts holds of updates: in
whichever order the changes of an update come, they are accepted or not, and make the same command.

## Contents
- **Plain keys.** `IsPlain` for the script of each operation and for those on its parts.
- **Commands.** `ofChanges_of_perm`, operation by operation.
- **Updates.** `Update.validate_of_perm`.
-/

namespace PowerOfAttorney

namespace Script

variable {σ τ : Type}

/-! ## Plain keys -/

/-- A script on a part has the keys of the script on the part. -/
theorem IsPlain.within {s : Script τ} (h : s.IsPlain) (part : Focus σ τ) {after : Script σ}
    (hafter : after.IsPlain) : (s.within part after).IsPlain := by
  induction s generalizing after with
  | done => exact hafter
  | field key slot rule next ih => exact ⟨h.1, ih h.2 hafter⟩
  | under key needed inner next ihInner ih => exact ⟨ihInner h.1 trivial, ih h.2 hafter⟩
  | each always inner next ihInner ih => exact ⟨fun i => ihInner i (h.1 i) trivial, ih h.2 hafter⟩
  | eachKey inner next ihInner ih => exact ⟨fun k => ihInner k (h.1 k) trivial, ih h.2 hafter⟩
  | outOfRange next ih => exact ih h hafter
  | consumed next ih => exact ih h hafter
  | alter f next ih => exact ih h hafter
  | look next ih => exact fun s => ih (part.get s) (h (part.get s)) hafter

theorem IsPlain.choose {inner : Script τ} (h : inner.IsPlain) (i : Nat) (seed : τ) :
    (Script.choose i seed inner).IsPlain := by
  intro s
  dsimp only
  split
  · exact h.within _ trivial
  · trivial

end Script

open Script

theorem Address.isPlain_fields (line1 town country : Rule) : (fields line1 town country).IsPlain :=
  ⟨by decide, by decide, by decide, by decide, by decide, by decide, trivial⟩

theorem DonorCorrection.isPlain_fields : fields.IsPlain :=
  ⟨by decide, by decide, by decide, by decide, (Address.isPlain_fields _ _ _).within _ trivial,
    by decide, trivial⟩

theorem AttorneyCorrection.isPlain_fields {after : Script AttorneyCorrection} (h : after.IsPlain) :
    (fields after).IsPlain :=
  ⟨by decide, by decide, by decide, by decide, by decide,
    (Address.isPlain_fields _ _ _).within _ trivial, h⟩

theorem AttorneyCorrection.isPlain_unregistered : unregistered.IsPlain := by
  refine isPlain_fields ?_
  exact ⟨by decide, trivial⟩

theorem AttorneyCorrection.isPlain_registered : registered.IsPlain := by
  refine isPlain_fields ?_
  exact ⟨by decide, trivial⟩

theorem Signatory.isPlain_fields (rule : Rule) : (fields rule).IsPlain :=
  ⟨by decide, by decide, by decide, by decide, trivial⟩

theorem TrustCorporationCorrection.isPlain_signatory (i : Nat) : (signatory i).IsPlain := by
  intro s
  dsimp only
  split
  · exact (Signatory.isPlain_fields _).within _ trivial
  · trivial

theorem TrustCorporationCorrection.isPlain_fields : fields.IsPlain :=
  ⟨by decide, by decide, by decide, by decide, (Address.isPlain_fields _ _ _).within _ trivial,
    ⟨fun i => (isPlain_signatory i).within _ trivial, trivial⟩, trivial⟩

theorem CertificateProviderCorrection.isPlain_fields {after : Script CertificateProviderCorrection}
    (h : after.IsPlain) : (fields after).IsPlain :=
  ⟨by decide, by decide, (Address.isPlain_fields _ _ _).within _ trivial, by decide, by decide, h⟩

theorem CertificateProviderCorrection.isPlain_unregistered : unregistered.IsPlain := by
  refine isPlain_fields ?_
  exact ⟨by decide, trivial⟩

theorem CertificateProviderCorrection.isPlain_registered : registered.IsPlain := by
  refine isPlain_fields ?_
  exact trivial

theorem AuthorisedSignatory.isPlain_fields : fields.IsPlain :=
  ⟨by decide, by decide, trivial⟩

theorem IndependentWitness.isPlain_fields : fields.IsPlain :=
  ⟨by decide, by decide, by decide, (Address.isPlain_fields _ _ _).within _ trivial, trivial⟩

theorem Decisions.isPlain_script (d : Document) : (script d .done).IsPlain := by
  have hif {condition : Decisions → Bool} {key : String} {slot : Slot Decisions} {rule : Rule}
      {next : Script Decisions} (hkey : (Path.ofString key).isPlain) (hnext : next.IsPlain) :
      (fieldIf condition (.field key slot rule) next).IsPlain := by
    intro s
    dsimp only
    split
    · exact ⟨hkey, hnext⟩
    · exact hnext
  have hkind : (kindField d.kind .done).IsPlain := by
    cases d.kind with
    | personalWelfare => exact ⟨by decide, trivial⟩
    | propertyAndAffairs => exact ⟨by decide, trivial⟩
  exact hif (by decide) fun _ => ⟨by decide, hif (by decide) fun _ => ⟨by decide,
    hif (by decide) fun _ => ⟨by decide, hkind⟩⟩⟩

namespace Correction

theorem isPlain_script (d : Document) : (script d).IsPlain := by
  refine ⟨DonorCorrection.isPlain_fields.within _ trivial, by decide, by decide, by decide,
    ⟨fun i => IsPlain.within ?_ _ trivial, trivial⟩, ⟨fun i => IsPlain.within ?_ _ trivial, trivial⟩,
    CertificateProviderCorrection.isPlain_unregistered.within _ trivial,
    AuthorisedSignatory.isPlain_fields.within _ trivial,
    IndependentWitness.isPlain_fields.within _ trivial,
    (Decisions.isPlain_script d).within _ trivial⟩
  · dsimp only
    split
    · trivial
    · exact IsPlain.choose AttorneyCorrection.isPlain_unregistered _ _
  · dsimp only
    split
    · trivial
    · exact IsPlain.choose TrustCorporationCorrection.isPlain_fields _ _

end Correction

theorem RegisteredCorrection.isPlain_script (d : Document) : (script d).IsPlain := by
  refine ⟨DonorCorrection.isPlain_fields.within _ trivial,
    CertificateProviderCorrection.isPlain_registered.within _ trivial,
    ⟨fun uid => IsPlain.within ?_ _ trivial, trivial⟩,
    (Decisions.isPlain_script d).within _ ⟨by decide, trivial⟩⟩
  dsimp only
  split
  · trivial
  · split
    · trivial
    · exact IsPlain.choose AttorneyCorrection.isPlain_registered _ _

theorem CertificateProviderSign.isPlain_script : script.IsPlain :=
  ⟨⟨(Address.isPlain_fields _ _ _).within _ trivial, by decide, by decide, trivial⟩, trivial⟩

theorem AttorneySign.isPlain_script (d : Document) : (script d).IsPlain := by
  refine ⟨⟨fun i => ?_, trivial⟩, trivial⟩
  dsimp only
  split
  · refine IsPlain.choose ?_ _ _
    exact ⟨by decide, by decide, by decide, trivial⟩
  · trivial

theorem TrustCorporationSign.isPlain_signatory (i : Nat) : (signatory i).IsPlain := by
  match i with
  | 0 => exact (Signatory.isPlain_fields _).within _ trivial
  | 1 => exact (Signatory.isPlain_fields _).within _ trivial
  | _ + 2 => trivial

theorem TrustCorporationSign.isPlain_script (d : Document) : (script d).IsPlain := by
  refine ⟨⟨fun i => ?_, trivial⟩, trivial⟩
  dsimp only
  split
  · refine IsPlain.choose ?_ _ _
    exact ⟨by decide, ⟨isPlain_signatory, trivial⟩, by decide, trivial⟩
  · trivial

theorem ChangeAttorneys.isPlain_script (d : Document) : (script d).IsPlain := by
  refine ⟨⟨fun i => ?_, trivial⟩, trivial⟩
  dsimp only
  split
  · trivial
  · exact ⟨by decide, trivial⟩

theorem AttorneyDecisions.isPlain_script (d : Document) : (script d).IsPlain := by
  refine ⟨⟨fun uid => ?_, trivial⟩, trivial⟩
  dsimp only
  split
  · trivial
  · exact ⟨by decide, trivial⟩

theorem AttorneyAccess.isPlain_script (d : Document) : (script d).IsPlain := by
  refine ⟨⟨fun uid => ?_, trivial⟩, trivial⟩
  dsimp only
  split
  · trivial
  · refine IsPlain.choose ?_ _ _
    exact ⟨by decide, trivial⟩

theorem ConfirmIdentity.isPlain_script (party : CheckedParty) (d : Document) :
    (script party d).IsPlain :=
  ⟨⟨by decide, by decide, by decide, trivial⟩, trivial⟩

/-! ## Commands -/

namespace Command

variable {σ : Type} {changes changes' : List Change}

/-- A command that is read without faults is read from the changes in any order. -/
theorem reading_of_perm {script : Script σ} (hends : script.Ends) (hplain : script.IsPlain)
    {L : Layout σ} (hfits : script.Fits L True (fun _ => True) (fun _ => True) [])
    {make : σ → Command} (hperm : changes.Perm changes')
    (hnone : (reading script L.start changes make).2 = []) :
    reading script L.start changes' make = reading script L.start changes make := by
  unfold reading at hnone ⊢
  rw [Script.read_of_perm hends hplain hfits hperm hnone]

/-- A command that takes no changes is read from none. -/
theorem bare_of_perm {c : Command} (hperm : changes.Perm changes')
    (hnone : (bare c changes).2 = []) : bare c changes' = bare c changes := by
  -- A draft that shows nothing and owns nothing.
  let L : Layout Unit := .record (fun _ _ => none) () fun _ => none
  exact reading_of_perm (L := L) Script.ends_consumed trivial trivial hperm hnone

theorem ofAuthor_of_perm {party : String → OptOut} {author : String} (hperm : changes.Perm changes')
    (hnone : (ofAuthor party author changes).2 = []) :
    ofAuthor party author changes' = ofAuthor party author changes := by
  unfold ofAuthor at hnone ⊢
  dsimp only at hnone ⊢
  rw [bare_of_perm hperm (List.append_eq_nil_iff.mp hnone).1]

/-- **Whatever the operation, its command may be read from the changes in any order.** -/
theorem ofChanges_of_perm {d : Document} {author : String} {op : Operation}
    (hperm : changes.Perm changes') (hnone : (ofChanges d author changes op).2 = []) :
    ofChanges d author changes' op = ofChanges d author changes op := by
  cases op with
  | certificateProviderSign =>
      exact reading_of_perm CertificateProviderSign.ends CertificateProviderSign.isPlain_script
        CertificateProviderSign.fits hperm hnone
  | attorneySign =>
      exact reading_of_perm (AttorneySign.ends d) (AttorneySign.isPlain_script d)
        (AttorneySign.fits d) hperm hnone
  | trustCorporationSign =>
      exact reading_of_perm (TrustCorporationSign.ends d) (TrustCorporationSign.isPlain_script d)
        (TrustCorporationSign.fits d) hperm hnone
  | attorneyOptOut => exact ofAuthor_of_perm hperm hnone
  | certificateProviderOptOut => exact bare_of_perm hperm hnone
  | trustCorporationOptOut => exact ofAuthor_of_perm hperm hnone
  | donorWithdraw => exact bare_of_perm hperm hnone
  | perfect => exact bare_of_perm hperm hnone
  | register => exact bare_of_perm hperm hnone
  | statutoryWaitingPeriod => exact bare_of_perm hperm hnone
  | statusChange =>
      exact reading_of_perm statusScript_ends ⟨by decide, trivial⟩ (statusScript_fits d) hperm hnone
  | correction =>
      exact reading_of_perm (Correction.ends d) (Correction.isPlain_script d) (Correction.fits d)
        hperm hnone
  | postRegistrationCorrection =>
      exact reading_of_perm (RegisteredCorrection.ends d) (RegisteredCorrection.isPlain_script d)
        (RegisteredCorrection.fits d) hperm hnone
  | attorneyDecisions =>
      exact reading_of_perm (AttorneyDecisions.ends d) (AttorneyDecisions.isPlain_script d)
        (AttorneyDecisions.fits d) hperm hnone
  | changeAttorneys =>
      exact reading_of_perm (ChangeAttorneys.ends d) (ChangeAttorneys.isPlain_script d)
        (ChangeAttorneys.fits d) hperm hnone
  | attorneyAccessOnline =>
      exact reading_of_perm (AttorneyAccess.ends d) (AttorneyAccess.isPlain_script d)
        (AttorneyAccess.fits d) hperm hnone
  | certificateProviderAccessOnline =>
      exact reading_of_perm CertificateProviderAccess.ends ⟨by decide, trivial⟩
        (CertificateProviderAccess.fits d) hperm hnone
  | severRestrictions =>
      -- The wording counts only if some change names it, whichever that is.
      unfold ofChanges
      dsimp only
      rw [← hperm.any_eq]
      exact reading_of_perm SeverRestrictions.ends ⟨by decide, trivial⟩ (SeverRestrictions.fits d)
        hperm hnone
  | donorConfirmIdentity =>
      exact reading_of_perm (ConfirmIdentity.ends .donor d) (ConfirmIdentity.isPlain_script .donor d)
        (ConfirmIdentity.fits .donor d rfl) hperm hnone
  | certificateProviderConfirmIdentity =>
      exact reading_of_perm (ConfirmIdentity.ends .certificateProvider d)
        (ConfirmIdentity.isPlain_script .certificateProvider d)
        (ConfirmIdentity.fits .certificateProvider d rfl) hperm hnone

end Command

/-! ## Updates -/

/-- No change is redundant, in whichever order they come. -/
theorem Change.redundancies_eq_nil_iff {changes : List Change} :
    redundancies changes = [] ↔ ∀ c ∈ changes, c.isRedundant = false := by
  unfold redundancies
  rw [List.filterMap_eq_nil_iff]
  constructor
  · intro h c hc
    obtain ⟨i, hi⟩ := List.mem_iff_getElem?.mp hc
    have hnone := h (c, i) (List.mem_zipIdx_iff_getElem?.mpr hi)
    by_contra hredundant
    simp [hredundant] at hnone
  · intro h x hx
    have hfalse := h x.1 (List.fst_mem_of_mem_zipIdx hx)
    simp [hfalse]

namespace Update

variable {u : Update} {d : Document} {c : Command}

/-- An update is valid if its command is read without faults and no change is redundant. -/
theorem validate_eq_ok_iff : u.validate d = .ok c ↔ ∃ op, Word.ofText? u.type = some op ∧
    Command.ofChanges d u.author u.changes op = (c, []) ∧
      ∀ change ∈ u.changes, change.isRedundant = false := by
  constructor
  · intro h
    obtain ⟨op, hop, hread⟩ := ofChanges_of_validate h
    refine ⟨op, hop, hread, Change.redundancies_eq_nil_iff.mp ?_⟩
    unfold validate at h
    rw [hop] at h
    dsimp only at h
    rw [hread] at h
    split at h
    · rename_i hnone
      exact (List.append_eq_nil_iff.mp (List.isEmpty_iff.mp hnone)).2
    · exact absurd h nofun
  · rintro ⟨op, hop, hread, hredundant⟩
    unfold validate
    rw [hop]
    dsimp only
    rw [hread, Change.redundancies_eq_nil_iff.mpr hredundant]
    rfl

/-- What makes an update valid does not depend on the order of its changes. -/
theorem validate_of_perm_of_ok {changes : List Change} (hperm : u.changes.Perm changes)
    (h : u.validate d = .ok c) : { u with changes := changes }.validate d = .ok c := by
  obtain ⟨op, hop, hread, hredundant⟩ := validate_eq_ok_iff.mp h
  refine validate_eq_ok_iff.mpr ⟨op, hop, ?_, fun change hchange =>
    hredundant change (hperm.mem_iff.mpr hchange)⟩
  show Command.ofChanges d u.author changes op = (c, [])
  rw [Command.ofChanges_of_perm hperm (by rw [hread]), hread]

/-- **The order of the changes in an update does not matter.** With its changes in any other order it is
    accepted exactly if it is accepted as it stands, and it is the same command. -/
theorem validate_of_perm (u : Update) (d : Document) {changes : List Change}
    (hperm : changes.Perm u.changes) (c : Command) :
    { u with changes := changes }.validate d = .ok c ↔ u.validate d = .ok c :=
  ⟨fun h => validate_of_perm_of_ok (u := { u with changes := changes }) hperm h,
    validate_of_perm_of_ok hperm.symm⟩

/-- Two attorneys are moved at once, the second one first. -/
theorem validate_of_perm_twoMoves :
    let first : Change := ⟨"/attorneys/0/status", .str "active", .str "removed"⟩
    let second : Change := ⟨"/attorneys/1/status", .str "inactive", .str "active"⟩
    let u : Update := ⟨"", "", none, "", "CHANGE_ATTORNEYS", [first, second]⟩
    let c : Command := .changeAttorneys ⟨[(0, .removed), (1, .active)]⟩
    [second, first].Perm u.changes ∧ u.validate .ofTwoAttorneys = .ok c ∧
      { u with changes := [second, first] }.validate .ofTwoAttorneys = .ok c := by
  intro first second u c
  have hperm : [second, first].Perm u.changes := .swap first second []
  have h : u.validate .ofTwoAttorneys = .ok c := by decide +kernel
  exact ⟨hperm, h, (validate_of_perm u .ofTwoAttorneys hperm c).mpr h⟩

end Update

end PowerOfAttorney
