import PowerOfAttorney.Proofs.Lifecycle.OptOuts
import PowerOfAttorney.Proofs.Lifecycle.Patch

/-!
# `PowerOfAttorney.Proofs.Lifecycle.Allowed` — a correction decides only what the document leaves open

Which decisions a correction may send depends on how many attorneys can act and step in, on the kind of
document, and on decisions that the same correction may send before. What is looked at while the changes
are read is then what the decisions are in the end, since each mode is read before all that depends on it.
So the conditions hold between the document before, with its counts, and the decisions afterwards.

## Contents
- **Decisions.** `Document.DecidesWithin`: each decision is as before, or the document leaves it open and it
  is made.
- **Patches.** `Document.Patched.changesOnlyIf`, for one decision, and `decidesWithin_of_patched`.
- **Updates.** `Update.corrections_decideWithin`, for corrections before and after registration.
-/

namespace PowerOfAttorney

/-! ## Decisions -/

/-- A decision changes only if there is something to decide, and what has been decided stays decided. -/
structure Decisions.ChangesOnlyIf {α : Type} (isOpen : Prop) (before after : Option α) : Prop where
  isOpen_of_ne : after ≠ before → isOpen
  isSome : before.isSome → after.isSome

/-- It is enough that a change is allowed and leaves the decision made. -/
theorem Decisions.changesOnlyIf_of_ne {α : Type} {isOpen : Prop} {before after : Option α}
    (h : after ≠ before → isOpen ∧ after.isSome) : ChangesOnlyIf isOpen before after where
  isOpen_of_ne hchanged := (h hchanged).1
  isSome hbefore := by
    by_cases hsame : after = before
    · rw [hsame]
      exact hbefore
    · exact (h hsame).2

/-- One may follow from a weaker condition. -/
theorem Decisions.ChangesOnlyIf.imp {α : Type} {P Q : Prop} {before after : Option α}
    (h : ChangesOnlyIf P before after) (himp : P → Q) : ChangesOnlyIf Q before after where
  isOpen_of_ne hchanged := himp (h.isOpen_of_ne hchanged)
  isSome := h.isSome

/-- **The decisions of a document are changed only where it leaves them open**: how the attorneys decide if
    several can act, when the replacements step in if there are any and the attorneys decide severally, how
    the replacements decide if there are several and they act together, and of the last two decisions the
    one that the kind of document has. The counts are those before, the modes those afterwards. -/
structure Document.DecidesWithin (d d' : Document) : Prop where
  attorneysDecide : Decisions.ChangesOnlyIf (1 < d.activeCount)
    d.decisions.attorneysDecide d'.decisions.attorneysDecide
  replacementsStepIn : Decisions.ChangesOnlyIf
    (0 < d.replacementCount ∧ d'.decisions.attorneysDecide = some .jointlyAndSeverally)
    d.decisions.replacementsStepIn d'.decisions.replacementsStepIn
  replacementsDecide : Decisions.ChangesOnlyIf
    (1 < d.replacementCount ∧ (d'.decisions.replacementsStepIn = some .allCanNoLongerAct ∨
      d'.decisions.attorneysDecide ≠ some .jointlyAndSeverally))
    d.decisions.replacementsDecide d'.decisions.replacementsDecide
  lifeSustainingTreatment : Decisions.ChangesOnlyIf (d.kind = .personalWelfare)
    d.decisions.lifeSustainingTreatment d'.decisions.lifeSustainingTreatment
  usableWhen : Decisions.ChangesOnlyIf (d.kind = .propertyAndAffairs)
    d.decisions.usableWhen d'.decisions.usableWhen

/-- The attorneys decide severally exactly if the mode says so. -/
theorem Decisions.attorneysSeveral_iff (s : Decisions) :
    s.attorneysSeveral = true ↔ s.attorneysDecide = some .jointlyAndSeverally :=
  beq_iff_eq

/-! ## Patches -/

section

variable {op : Operation} {d d' : Document} {changes : List Change} {s : Decisions}

/-- A decision that may be sent under a condition is changed only under this condition, and is made then. -/
theorem Document.Patched.changesOnlyIf (hpatched : d.Patched op changes d')
    (haccepts : op.Accepts d s changes) {p : Place} (hmode : ∀ s : Decisions, s.isIdle p = false)
    {w : Choice} {v v' : Option w.Of} (hheld : op.held? d p = d.holds p)
    (hbefore : d.holds p = some ⟨.maybeWord w, v⟩) (hafter : d'.holds p = some ⟨.maybeWord w, v'⟩)
    {isOpen : Prop} [Decidable isOpen]
    (hcheck : op.check? d s p = if isOpen then some (some .chosen) else none) :
    Decisions.ChangesOnlyIf isOpen v v' := by
  refine Decisions.changesOnlyIf_of_ne fun hchanged => ?_
  by_cases hnames : op.Names d changes p
  · -- The change that names the decision is accepted, so it is open and what is sent passes for a word.
    obtain ⟨c, hc, hkey⟩ := hnames
    obtain ⟨place, _, hedits⟩ := haccepts
    obtain ⟨i, hi, rfl⟩ := List.mem_iff_getElem.mp hc
    obtain ⟨hnamed, x, check, hx, hallowed, _, y, hdecode, hpasses⟩ := hedits ⟨i, hi⟩
    obtain rfl : place ⟨i, hi⟩ = p := Option.some.inj (hnamed.symm.trans hkey)
    obtain ⟨p', x', y', hkey', hx', hdecode', hshown⟩ := hpatched.named _ hc
    obtain rfl : place ⟨i, hi⟩ = p' := Option.some.inj (hkey.symm.trans hkey')
    obtain rfl : x' = x := Option.some.inj (hx'.symm.trans (hheld.symm.trans hx))
    obtain rfl : y' = y := Except.ok.inj (hdecode'.symm.trans hdecode)
    obtain rfl : x' = ⟨.maybeWord w, v⟩ := Option.some.inj (hx'.symm.trans hbefore)
    obtain rfl : y' = v' := Held.value_inj (t := .maybeWord w) (hshown.symm.trans hafter)
    rw [hcheck, Option.ite_none_right_eq_some] at hallowed
    exact ⟨hallowed.1, Check.isSome_of_chosen (hpasses .chosen (Option.some.inj hallowed.2).symm)⟩
  · have hkept := hpatched.unnamed p hnames
    rw [hmode, if_neg Bool.false_ne_true, hbefore, hafter] at hkept
    exact absurd (Held.value_inj (t := .maybeWord w) hkept) hchanged

/-- **A patch decides only what the document leaves open**, where the decisions are checked as those that the
    patch makes. -/
theorem Document.decidesWithin_of_patched (hpatched : d.Patched op changes d')
    (haccepts : op.Accepts d s changes) (hmodes : d'.decisions = s.settled)
    (hheld : ∀ p ∈ Decisions.places, op.held? d p = d.holds p)
    (hchecks : ∀ p ∈ Decisions.places, op.check? d s p = Decisions.checks d s p) :
    d.DecidesWithin d' where
  attorneysDecide :=
    hpatched.changesOnlyIf haccepts (p := [.name "howAttorneysMakeDecisions"]) (fun _ => rfl)
      (hheld _ (by decide)) rfl rfl (hchecks _ (by decide))
  replacementsStepIn := by
    refine (hpatched.changesOnlyIf haccepts (p := [.name "howReplacementAttorneysStepIn"])
      (fun _ => rfl) (hheld _ (by decide)) rfl rfl (hchecks _ (by decide))).imp ?_
    rintro ⟨hsome, hseverally⟩
    rw [hmodes]
    exact ⟨hsome, s.attorneysSeveral_iff.mp hseverally⟩
  replacementsDecide := by
    refine (hpatched.changesOnlyIf haccepts (p := [.name "howReplacementAttorneysMakeDecisions"])
      (fun _ => rfl) (hheld _ (by decide)) rfl rfl (hchecks _ (by decide))).imp ?_
    rintro ⟨hseveral, htogether⟩
    rw [hmodes]
    exact ⟨hseveral, htogether.imp_right (mt s.attorneysSeveral_iff.mpr)⟩
  lifeSustainingTreatment :=
    hpatched.changesOnlyIf haccepts (p := [.name "lifeSustainingTreatmentOption"]) (fun _ => rfl)
      (hheld _ (by decide)) rfl rfl (hchecks _ (by decide))
  usableWhen :=
    hpatched.changesOnlyIf haccepts (p := [.name "whenTheLpaCanBeUsed"]) (fun _ => rfl)
      (hheld _ (by decide)) rfl rfl (hchecks _ (by decide))

end

/-! ## Updates -/

/-- A valid update is accepted by the operation of its command. -/
theorem Update.accepts_operation {u : Update} {d : Document} {c : Command}
    (hvalid : u.validate d = .ok c) : c.operation.Accepts d (c.decisions d) u.changes := by
  obtain ⟨op, _, hread⟩ := ofChanges_of_validate hvalid
  obtain rfl := Command.operation_of_ofChanges hread
  have haccepts := Command.accepts_ofChanges (d := d) (by rw [hread])
  rw [hread] at haccepts
  exact haccepts

/-- **The decisions change only where the document allows it**, by corrections before registration and after
    it. -/
theorem Update.corrections_decideWithin {u : Update} {now : Instant} {d d' : Document} {c : Command}
    (htype : Word.ofText? u.type = some Operation.correction ∨
      Word.ofText? u.type = some Operation.postRegistrationCorrection)
    (hvalid : u.validate d = .ok c) (happly : c.apply now d = .ok d') : d.DecidesWithin d' := by
  obtain ⟨hop, hread⟩ := isRead_of_validate hvalid
  have haccepts := accepts_operation hvalid
  rcases htype with htype | htype
  · obtain ⟨x, rfl⟩ := Command.exists_eq_correct (Option.some.inj (hop.symm.trans htype))
    cases Command.effect_of_apply happly with
    | correct _ hstatus hdates =>
        exact Document.decidesWithin_of_patched (Correction.patched_of_read hread now) haccepts rfl
          (fun _ _ => rfl) fun p hp => Correction.checks_eq_decisions d _ hp
  · obtain ⟨x, rfl⟩ := Command.exists_eq_correctRegistered (Option.some.inj (hop.symm.trans htype))
    cases Command.effect_of_apply happly with
    | correctRegistered _ hbirth =>
        exact Document.decidesWithin_of_patched (RegisteredCorrection.patched_of_read hread now)
          haccepts rfl (fun _ _ => rfl) fun p hp => RegisteredCorrection.checks_eq_decisions d _ hp

/-- When the replacement steps in may be decided because the same correction lets the attorneys decide
    severally, whichever of the two comes first. -/
theorem Update.corrections_decideWithin_severally :
    let u : Update := ⟨"", "", none, "", "CORRECTION",
      [⟨"/howReplacementAttorneysStepIn", .null, .str "all-can-no-longer-act"⟩,
        ⟨"/howAttorneysMakeDecisions", .str "jointly", .str "jointly-and-severally"⟩]⟩
    ∃ (c : Command) (d' : Document), Word.ofText? u.type = some Operation.correction ∧
      u.validate .ofReplacement = .ok c ∧
      c.apply (.ofNanoseconds 1) .ofReplacement = .ok d' ∧
      d'.decisions.attorneysDecide = some .jointlyAndSeverally ∧
      d'.decisions.replacementsStepIn = some .allCanNoLongerAct ∧
      Document.ofReplacement.DecidesWithin d' := by
  intro u
  let read := Correction.of .ofReplacement
  let x : Correction := { read with
    decisions := { read.decisions with
      attorneysDecide := some .jointlyAndSeverally
      replacementsStepIn := some .allCanNoLongerAct } }
  have htype : Word.ofText? u.type = some Operation.correction := by decide +kernel
  have hvalid : u.validate .ofReplacement = .ok (.correct x) := by decide +kernel
  have happly : (Command.correct x).apply (.ofNanoseconds 1) .ofReplacement =
      .ok (x.amend (.ofNanoseconds 1) .ofReplacement) := rfl
  exact ⟨_, _, htype, hvalid, happly, rfl, rfl,
    corrections_decideWithin (Or.inl htype) hvalid happly⟩

end PowerOfAttorney
