import PowerOfAttorney.Proofs.Operation.Parts

/-!
# `PowerOfAttorney.Proofs.Operation.Decisions` — the script on decisions respects its fields

Which decisions may be corrected, and whether a wording has to be there, is decided while the changes
are read, by what the modes are then. Each mode is read before anything that depends on it, so it is
already what it will be in the end.

## Contents
- **Conditions.** `fits_fieldIf`, for a field that is read where a condition holds.
- **Decisions.** `Decisions.fits`.
-/

namespace PowerOfAttorney.Decisions

open Script.Fits

/-! ## Conditions -/

/-- A decision that is read where a condition holds; that it holds is known when the field is read. -/
theorem fits_fieldIf {L : Layout Decisions} {outer : Prop} {P : Decisions → Prop} {free : Place → Prop}
    {condition : Decisions → Bool} {key : String} {slot : Slot Decisions} {rule : Rule}
    {next : Script Decisions} (name : String) (hname : Place.ofKey key = [.name name])
    (hget : ∀ s, L.view s [.name name] = some ⟨slot.type, slot.get s⟩)
    (hset : ∀ s v, slot.get (slot.set v s) = v)
    (hframe : ∀ s v q, q ≠ [.name name] → L.view (slot.set v s) q = L.view s q)
    (hkeep : ∀ s v, P s → P (slot.set v s))
    (howns : ∀ s, P s → condition s = true → ∀ s', (outer → P s') →
      L.owns s' [.name name] rule.check)
    (hfree : free [.name name])
    (hnext : next.Fits L outer P (fun q => free q ∧ q ≠ [.name name]) []) :
    (fieldIf condition (.field key slot rule) next).Fits L outer P free [] := by
  intro s hs
  refine ⟨P, hs, fun _ hs' => hs', ?_⟩
  dsimp only
  split
  · rename_i hcondition
    exact fits_field_known name hname hget hset hframe hkeep (howns s hs hcondition) hfree hnext
  · exact hnext.mono fun _ hq => hq.1

/-! ## Decisions -/

/-- A wording rule checks that the wording is there exactly if a mode calls for it. -/
theorem check_wordingRule (called newlySet : Bool) :
    (wordingRule called newlySet).check = some (wordingCheck called) := by
  cases called <;> cases newlySet <;> rfl

/-- The places of the decisions. -/
def places : List Place :=
  [[.name "howAttorneysMakeDecisions"], [.name "howAttorneysMakeDecisionsDetails"],
    [.name "howReplacementAttorneysStepIn"], [.name "howReplacementAttorneysStepInDetails"],
    [.name "howReplacementAttorneysMakeDecisions"],
    [.name "howReplacementAttorneysMakeDecisionsDetails"], [.name "lifeSustainingTreatmentOption"],
    [.name "whenTheLpaCanBeUsed"]]

/-- The decisions of a document. -/
def layout (d : Document) : Layout Decisions where
  view := holds
  start := d.decisions
  owns s p check := checks d s p = some check

theorem kindField_fits (d : Document) {P : Decisions → Prop} {free : Place → Prop}
    (htreatment : ∀ s v, P s → P { s with lifeSustainingTreatment := v })
    (husable : ∀ s v, P s → P { s with usableWhen := v })
    (hfree : free [.name "lifeSustainingTreatmentOption"] ∧ free [.name "whenTheLpaCanBeUsed"]) :
    (kindField d.kind .done).Fits (layout d) True P free [] := by
  have howns : ∀ (s : Decisions) (p : Place),
      (d.kind = .personalWelfare ∧ p = [.name "lifeSustainingTreatmentOption"] ∨
        d.kind = .propertyAndAffairs ∧ p = [.name "whenTheLpaCanBeUsed"]) →
      checks d s p = some (some .chosen) := by
    rintro s p (⟨hkind, rfl⟩ | ⟨hkind, rfl⟩)
    · exact if_pos hkind
    · exact if_pos hkind
  cases hkind : d.kind with
  | personalWelfare =>
      refine fits_field_known "lifeSustainingTreatmentOption" (by decide) (fun _ => rfl)
        (fun _ _ => rfl) ?_ htreatment (fun s _ => howns s _ (Or.inl ⟨hkind, rfl⟩)) hfree.1 trivial
      intro s v q hq
      show holds _ q = holds s q
      unfold holds
      split <;> first | rfl | exact absurd rfl hq
  | propertyAndAffairs =>
      refine fits_field_known "whenTheLpaCanBeUsed" (by decide) (fun _ => rfl) (fun _ _ => rfl) ?_
        husable (fun s _ => howns s _ (Or.inr ⟨hkind, rfl⟩)) hfree.2 trivial
      intro s v q hq
      show holds _ q = holds s q
      unfold holds
      split <;> first | rfl | exact absurd rfl hq

/-- The wording of how the attorneys decide is checked by the mode in the end. -/
theorem checks_attorneysDecideDetails (d : Document) {s s' : Decisions} (newlySet : Bool)
    (h : s.attorneysDecide = s'.attorneysDecide) :
    checks d s [.name "howAttorneysMakeDecisionsDetails"] =
      some (wordingRule s'.attorneysMixed newlySet).check := by
  rw [check_wordingRule]
  unfold attorneysMixed
  rw [← h]
  rfl

/-- How the replacements step in matters where there are some and the attorneys decide severally. -/
theorem checks_replacementsStepIn {d : Document} {s s' : Decisions}
    (h : s'.attorneysDecide = s.attorneysDecide)
    (hcondition : (decide (0 < d.replacementCount) && s.attorneysSeveral) = true) :
    checks d s' [.name "howReplacementAttorneysStepIn"] = some (some .chosen) := by
  rw [Bool.and_eq_true, decide_eq_true_eq] at hcondition
  unfold attorneysSeveral at hcondition
  rw [← h] at hcondition
  exact if_pos hcondition

theorem checks_replacementsStepInDetails (d : Document) {s s' : Decisions} (newlySet : Bool)
    (h : s.replacementsStepIn = s'.replacementsStepIn) :
    checks d s [.name "howReplacementAttorneysStepInDetails"] =
      some (wordingRule s'.stepInAnotherWay newlySet).check := by
  rw [check_wordingRule]
  unfold stepInAnotherWay
  rw [← h]
  rfl

/-- How the replacements decide matters where there are several who may act together. -/
theorem checks_replacementsDecide {d : Document} {s s' : Decisions}
    (h : s'.attorneysDecide = s.attorneysDecide) (h' : s'.replacementsStepIn = s.replacementsStepIn)
    (hcondition : (decide (1 < d.replacementCount) &&
      (s.replacementsStepIn == some .allCanNoLongerAct || !s.attorneysSeveral)) = true) :
    checks d s' [.name "howReplacementAttorneysMakeDecisions"] = some (some .chosen) := by
  rw [Bool.and_eq_true, decide_eq_true_eq, Bool.or_eq_true, beq_iff_eq, Bool.not_eq_true'] at hcondition
  unfold attorneysSeveral at hcondition
  rw [← h, ← h'] at hcondition
  refine if_pos ⟨hcondition.1, hcondition.2.imp id fun hnot => ?_⟩
  unfold attorneysSeveral
  rw [hnot]
  exact Bool.false_ne_true

theorem checks_replacementsDecideDetails (d : Document) {s s' : Decisions} (newlySet : Bool)
    (h : s.replacementsDecide = s'.replacementsDecide) :
    checks d s [.name "howReplacementAttorneysMakeDecisionsDetails"] =
      some (wordingRule s'.replacementsMixed newlySet).check := by
  rw [check_wordingRule]
  unfold replacementsMixed
  rw [← h]
  rfl

/-- **The decisions that are read are those that the document allows with the modes in the end.** -/
theorem fits (d : Document) :
    (script d .done).Fits (layout d) True (fun _ => True) (· ∈ places) [] := by
  refine fits_fieldIf "howAttorneysMakeDecisions" (by decide) (fun _ => rfl) (fun _ _ => rfl) ?_
      (fun _ _ _ => trivial) (fun _ _ hmany _ _ => if_pos (of_decide_eq_true hmany))
      (by simp [places]) <|
    fits_look attorneysDecide fun s₁ _ =>
    fits_field_known "howAttorneysMakeDecisionsDetails" (by decide) (fun _ => rfl) (fun _ _ => rfl) ?_
      (fun _ _ hs => hs) (fun _ hs => checks_attorneysDecideDetails d _ (hs trivial).2) (by simp [places]) <|
    fits_fieldIf "howReplacementAttorneysStepIn" (by decide) (fun _ => rfl) (fun _ _ => rfl) ?_
      (fun _ _ hs => hs)
      (fun _ hs hcondition _ hs' =>
        checks_replacementsStepIn ((hs' trivial).2.trans hs.2.symm) hcondition) (by simp [places]) <|
    fits_look replacementsStepIn fun s₂ _ =>
    fits_field_known "howReplacementAttorneysStepInDetails" (by decide) (fun _ => rfl)
      (fun _ _ => rfl) ?_ (fun _ _ hs => hs)
      (fun _ hs => checks_replacementsStepInDetails d _ (hs trivial).2) (by simp [places]) <|
    fits_fieldIf "howReplacementAttorneysMakeDecisions" (by decide) (fun _ => rfl) (fun _ _ => rfl) ?_
      (fun _ _ hs => hs)
      (fun _ hs hcondition _ hs' =>
        checks_replacementsDecide ((hs' trivial).1.2.trans hs.1.2.symm)
          ((hs' trivial).2.trans hs.2.symm) hcondition) (by simp [places]) <|
    fits_look replacementsDecide fun s₃ _ =>
    fits_field_known "howReplacementAttorneysMakeDecisionsDetails" (by decide) (fun _ => rfl)
      (fun _ _ => rfl) ?_ (fun _ _ hs => hs)
      (fun _ hs => checks_replacementsDecideDetails d _ (hs trivial).2) (by simp [places]) <|
    kindField_fits d (fun _ _ hs => hs) (fun _ _ hs => hs) (by simp [places])
  all_goals
    intro s v q hq
    show holds _ q = holds s q
    unfold holds
    split <;> first | rfl | exact absurd rfl hq

/-- What follows may read any other place. -/
theorem avoids (d : Document) {rest : Place → Prop} (h : ∀ p ∈ places, ¬ rest p) :
    (script d .done).Avoids rest [] := by
  have hfield : ∀ {key : String} {slot : Slot Decisions} {rule : Rule} {next : Script Decisions},
      Place.ofKey key ∈ places → next.Avoids rest [] →
      (Script.field key slot rule next).Avoids rest [] :=
    fun hkey hnext => ⟨h _ hkey, hnext⟩
  have hif : ∀ {condition : Decisions → Bool} {key : String} {slot : Slot Decisions} {rule : Rule}
      {next : Script Decisions}, Place.ofKey key ∈ places → next.Avoids rest [] →
      (fieldIf condition (.field key slot rule) next).Avoids rest [] := by
    intro condition key slot rule next hkey hnext s
    dsimp only
    split
    · exact hfield hkey hnext
    · exact hnext
  have hkind : (kindField d.kind .done).Avoids rest [] := by
    cases d.kind with
    | personalWelfare => exact hfield (by decide) trivial
    | propertyAndAffairs => exact hfield (by decide) trivial
  exact hif (by decide) fun _ => hfield (by decide) <|
    hif (by decide) fun _ => hfield (by decide) <|
    hif (by decide) fun _ => hfield (by decide) hkind

/-- The places of the decisions are those at which something is held. -/
theorem mem_places_of_holds {s : Decisions} {p : Place} {x : Held} (h : s.holds p = some x) :
    p ∈ places := by
  unfold holds at h
  split at h <;> first | (simp [places]; done) | cases h

/-- The places of the decisions are those that may be changed. -/
theorem mem_places_of_checks {d : Document} {s : Decisions} {p : Place} {check : Option Check}
    (h : checks d s p = some check) : p ∈ places := by
  unfold checks at h
  split at h <;> first | (simp [places]; done) | cases h

end PowerOfAttorney.Decisions
