import PowerOfAttorney.Proofs.Lifecycle.Perfected

/-!
# `PowerOfAttorney.Proofs.Lifecycle.Wording` — decisions are worded exactly where a mode calls for it

Three decisions of a document go with a wording: how the attorneys decide, how the replacements do, and how
they step in. Only corrections write them. A correction is read from the decisions on record, mode by mode,
and each wording right after its mode: if the mode newly calls for a wording one has to be sent, and if it
called for one before, one is on record and cannot be emptied. So in the end every mode that calls for a
wording has one. Wording that no mode calls for is dropped when the correction is carried out.

## Contents
- **Decisions.** `Decisions.IsConsistent`, `Decisions.IsWorded` for one half of it, and `IsWorded.settled`
  for the other.
- **Reading.** `leads_wording` for a wording after its mode, and `Decisions.leads_isWorded`.
- **Corrections.** What is read without faults is worded.
- **Runs.** `Document.isConsistent_run`.
-/

namespace PowerOfAttorney

open Script

/-! ## Decisions -/

namespace Decisions

/-- Each decision has a wording exactly if its mode calls for one. -/
structure IsConsistent (s : Decisions) : Prop where
  attorneys : s.attorneysDecideDetails ≠ "" ↔
    s.attorneysDecide = some .jointlyForSomeSeverallyForOthers
  replacements : s.replacementsDecideDetails ≠ "" ↔
    s.replacementsDecide = some .jointlyForSomeSeverallyForOthers
  stepIn : s.replacementsStepInDetails ≠ "" ↔ s.replacementsStepIn = some .anotherWay

/-- Each decision whose mode calls for a wording has one. -/
structure IsWorded (s : Decisions) : Prop where
  attorneys : s.attorneysMixed → s.attorneysDecideDetails ≠ ""
  stepIn : s.stepInAnotherWay → s.replacementsStepInDetails ≠ ""
  replacements : s.replacementsMixed → s.replacementsDecideDetails ≠ ""

variable {s : Decisions}

theorem IsConsistent.isWorded (h : s.IsConsistent) : s.IsWorded where
  attorneys hmixed := h.attorneys.mpr (beq_iff_eq.mp hmixed)
  stepIn hother := h.stepIn.mpr (beq_iff_eq.mp hother)
  replacements hmixed := h.replacements.mpr (beq_iff_eq.mp hmixed)

/-- A wording that is dropped unless it is called for is there exactly if it is. -/
theorem kept_ne_empty_iff {called : Bool} {details : String} (h : called → details ≠ "") :
    (if called then details else "") ≠ "" ↔ called = true := by
  cases called with
  | true => simpa using h rfl
  | false => simp

/-- **Worded decisions are consistent once they are settled.** -/
theorem IsWorded.settled (h : s.IsWorded) : s.settled.IsConsistent where
  attorneys := (kept_ne_empty_iff h.attorneys).trans beq_iff_eq
  replacements := (kept_ne_empty_iff h.replacements).trans beq_iff_eq
  stepIn := (kept_ne_empty_iff h.stepIn).trans beq_iff_eq

end Decisions

/-! ## Reading -/

namespace Decisions

section

variable {P Q R : Decisions → Prop} {next : Script Decisions}

/-- A decision that is read where a condition holds. -/
theorem leads_fieldIf {condition : Decisions → Bool} {key : String} {slot : Slot Decisions} {rule : Rule}
    (hset : ∀ s v, P s → P (slot.set v s)) (hnext : next.Leads P Q) :
    (fieldIf condition (.field key slot rule) next).Leads P Q := by
  intro s hs
  show (if condition s then Script.field key slot rule next else next).Yields Q s
  by_cases hcondition : condition s
  · rw [if_pos hcondition]
    exact leads_field (fun x v hx _ => hset x v hx) hnext s hs
  · rw [if_neg hcondition]
    exact hnext s hs

/-- **A wording is read after its mode.** If it is set, it is not empty where the mode calls for one. If
    it is not, the mode does not call for one or did so before. -/
theorem leads_wording {key : String} {get : Decisions → String} {set : String → Decisions → Decisions}
    {called newlySet : Decisions → Bool} (hset : ∀ s v, P s → (called s → v ≠ "") → R (set v s))
    (hkeep : ∀ s, P s → (called s → newlySet s = false) → R s) (hnext : next.Leads R Q) :
    (Script.look fun s =>
      .field key (.text get set) (wordingRule (called s) (newlySet s)) next).Leads P Q := by
  intro s hs
  constructor
  · intro v hv
    refine hnext _ (hset s v hs ?_)
    intro hcalled
    have hcheck : (wordingRule (called s) (newlySet s)).check = some .notEmpty := by
      rw [hcalled]
      cases newlySet s <;> rfl
    rw [hcheck] at hv
    exact Slot.ne_empty_of_passes hv
  · intro hneeded
    refine hnext s (hkeep s hs ?_)
    intro hcalled
    rw [hcalled] at hneeded
    cases hnew : newlySet s with
    | false => rfl
    | true => simp [hnew, wordingRule, Rule.needs, Rule.checking] at hneeded

theorem leads_kindField (kind : Kind) (htreatment : ∀ s v, P s → P { s with lifeSustainingTreatment := v })
    (husable : ∀ s v, P s → P { s with usableWhen := v }) (hnext : next.Leads P Q) :
    (kindField kind next).Leads P Q := by
  cases kind with
  | personalWelfare => exact leads_field (fun s v hs _ => htreatment s v hs) hnext
  | propertyAndAffairs => exact leads_field (fun s v hs _ => husable s v hs) hnext

end

/-- All wordings are those of the decisions on record. -/
structure SameWording (b s : Decisions) : Prop where
  attorneys : s.attorneysDecideDetails = b.attorneysDecideDetails
  stepIn : s.replacementsStepInDetails = b.replacementsStepInDetails
  replacements : s.replacementsDecideDetails = b.replacementsDecideDetails

/-- The attorneys' decision has been read, with its wording. -/
structure AttorneysRead (b s : Decisions) : Prop where
  attorneys : s.attorneysMixed → s.attorneysDecideDetails ≠ ""
  stepIn : s.replacementsStepInDetails = b.replacementsStepInDetails
  replacements : s.replacementsDecideDetails = b.replacementsDecideDetails

/-- So has how the replacements step in. -/
structure StepInRead (b s : Decisions) : Prop where
  attorneys : s.attorneysMixed → s.attorneysDecideDetails ≠ ""
  stepIn : s.stepInAnotherWay → s.replacementsStepInDetails ≠ ""
  replacements : s.replacementsDecideDetails = b.replacementsDecideDetails

/-- Where no wording is sent for a mode that calls for one, the mode is the one on record, and so is the
    wording. -/
theorem worded_of_stood {α : Type} [BEq α] [LawfulBEq α] {calling mode recorded : α}
    {details recordedDetails : String} (hrecorded : recorded == calling → recordedDetails ≠ "")
    (hdetails : details = recordedDetails)
    (hstood : mode == calling → (mode != recorded) = false) : mode == calling → details ≠ "" := by
  intro hcalled
  have hmode : mode = recorded := bne_eq_false_iff_eq.mp (hstood hcalled)
  rw [hmode] at hcalled
  rw [hdetails]
  exact hrecorded hcalled

/-- **From worded decisions on record, decisions that are read without faults are worded.** -/
theorem leads_isWorded (d : Document) (hd : d.decisions.IsWorded) :
    (script d .done).Leads (SameWording d.decisions) IsWorded := by
  unfold script
  refine leads_fieldIf ?_ <| leads_wording (R := AttorneysRead d.decisions) ?_ ?_ <|
    leads_fieldIf ?_ <| leads_wording (R := StepInRead d.decisions) ?_ ?_ <|
    leads_fieldIf ?_ <| leads_wording (R := IsWorded) ?_ ?_ <|
    leads_kindField d.kind ?_ ?_ keeps_done
  -- How the attorneys decide.
  · intro s v hs
    exact ⟨hs.attorneys, hs.stepIn, hs.replacements⟩
  · intro s v hs hv
    exact ⟨hv, hs.stepIn, hs.replacements⟩
  · intro s hs hstood
    exact ⟨worded_of_stood hd.attorneys hs.attorneys hstood, hs.stepIn, hs.replacements⟩
  -- How the replacements step in.
  · intro s v hs
    exact ⟨hs.attorneys, hs.stepIn, hs.replacements⟩
  · intro s v hs hv
    exact ⟨hs.attorneys, hv, hs.replacements⟩
  · intro s hs hstood
    exact ⟨hs.attorneys, worded_of_stood hd.stepIn hs.stepIn hstood, hs.replacements⟩
  -- How they decide.
  · intro s v hs
    exact ⟨hs.attorneys, hs.stepIn, hs.replacements⟩
  · intro s v hs hv
    exact ⟨hs.attorneys, hs.stepIn, hv⟩
  · intro s hs hstood
    exact ⟨hs.attorneys, hs.stepIn, worded_of_stood hd.replacements hs.replacements hstood⟩
  -- The decision that goes with the kind of document has no wording.
  · intro s v hs
    exact ⟨hs.attorneys, hs.stepIn, hs.replacements⟩
  · intro s v hs
    exact ⟨hs.attorneys, hs.stepIn, hs.replacements⟩

end Decisions

/-! ## Corrections -/

section

open Decisions

variable {d : Document} {changes : List Change}

/-- The decisions of a correction are read last and beside all else. -/
theorem Correction.isWorded_of_read {c : Correction} (hd : d.decisions.IsWorded)
    (h : (script d).read (of d) changes = (c, [])) : c.decisions.IsWorded := by
  obtain ⟨rfl, hnone⟩ := Prod.mk.inj h
  have hleads : (script d).Leads (fun c => SameWording d.decisions c.decisions)
      (fun c => c.decisions.IsWorded) :=
    leads_under (keeps_aside (fun _ _ hc => hc) keeps_done) <|
    leads_field (fun _ _ hc _ => hc) <|
    leads_field (fun _ _ hc _ => hc) <|
    leads_field (fun _ _ hc _ => hc) <|
    leads_under (keeps_aside (fun _ _ hc => hc) keeps_done) <|
    leads_under (keeps_aside (fun _ _ hc => hc) keeps_done) <|
    leads_under (keeps_aside (fun _ _ hc => hc) keeps_done) <|
    leads_under (keeps_named fun _ _ hc => hc) <|
    leads_under (keeps_named fun _ _ hc => hc) <|
    leads_within (leads_isWorded d hd) (fun _ _ => ⟨fun _ => rfl, fun _ _ => rfl, rfl⟩)
      (fun _ hc => hc) (fun _ _ _ hw => hw) keeps_done
  exact (hleads (of d) ⟨rfl, rfl, rfl⟩).read hnone

theorem RegisteredCorrection.isWorded_of_read {c : RegisteredCorrection} (hd : d.decisions.IsWorded)
    (h : (script d).read (of d) changes = (c, [])) : c.decisions.IsWorded := by
  obtain ⟨rfl, hnone⟩ := Prod.mk.inj h
  have hleads : (script d).Leads (fun c => SameWording d.decisions c.decisions)
      (fun c => c.decisions.IsWorded) :=
    leads_under (keeps_aside (fun _ _ hc => hc) keeps_done) <|
    leads_under (keeps_aside (fun _ _ hc => hc) keeps_done) <|
    leads_under (keeps_aside (fun _ _ hc => hc) keeps_done) <|
    leads_within (leads_isWorded d hd) (fun _ _ => ⟨fun _ => rfl, fun _ _ => rfl, rfl⟩)
      (fun _ hc => hc) (fun _ _ _ hw => hw) <|
    keeps_field (fun _ _ hc _ => hc) keeps_done
  exact (hleads (of d) ⟨rfl, rfl, rfl⟩).read hnone

end

/-! ## Runs -/

/-- **Every command that is read without faults leaves consistent decisions consistent.** -/
theorem Command.Effect.isConsistent {now : Instant} {d d' : Document} {c : Command}
    {changes : List Change} (h : c.Effect now d d') (hread : c.IsRead d changes)
    (hd : d.decisions.IsConsistent) : d'.decisions.IsConsistent := by
  cases h with
  | correct c hstatus hdates => exact (Correction.isWorded_of_read hd.isWorded hread).settled
  | correctRegistered c hbirth => exact (RegisteredCorrection.isWorded_of_read hd.isWorded hread).settled
  | attorneyOptOut hi ha hunsigned =>
      rw [Document.afterLeaving_eq]
      exact hd
  | trustCorporationOptOut hi ht hunsigned =>
      rw [Document.afterLeaving_eq]
      exact hd
  | confirmIdentity hkind hcheckedAt =>
      unfold CheckedParty.record
      split <;> exact hd
  | _ => exact hd

namespace Document

theorem isConsistent_after {d : Document} (hd : d.decisions.IsConsistent) (a : Attempt) :
    (d.after a).decisions.IsConsistent := by
  rcases d.submit_after_or a with hok | ⟨_, hsame⟩
  · obtain ⟨c, _, hread, heffect⟩ := effect_of_submit hok
    exact heffect.isConsistent (Command.isRead_of_ofChanges hread) hd
  · rw [hsame]
    exact hd

/-- **Consistent decisions stay consistent through every run.** -/
theorem isConsistent_run (d : Document) (hd : d.decisions.IsConsistent) (as : List Attempt) :
    (d.run as).decisions.IsConsistent :=
  run_induction (P := fun d => d.decisions.IsConsistent) (fun _ a hd => isConsistent_after hd a) hd as

/-- The attorneys come to decide jointly on some matters only, which has to be worded. -/
theorem isConsistent_run_mixed :
    let as : List Attempt := [.of "CORRECTION" "" [
      ⟨"/howAttorneysMakeDecisions", .str "jointly", .str "jointly-for-some-severally-for-others"⟩,
      ⟨"/howAttorneysMakeDecisionsDetails", .null, .str "The house jointly"⟩]]
    let s := (ofJointAttorneys.run as).decisions
    ofJointAttorneys.decisions.IsConsistent ∧
      s.attorneysDecide = some .jointlyForSomeSeverallyForOthers ∧ s.IsConsistent := by
  intro as s
  have hstart : ofJointAttorneys.decisions.IsConsistent := ⟨by decide, by decide, by decide⟩
  have hmixed : s.attorneysDecide = some .jointlyForSomeSeverallyForOthers := by decide +kernel
  exact ⟨hstart, hmixed, isConsistent_run ofJointAttorneys hstart as⟩

end Document

end PowerOfAttorney
