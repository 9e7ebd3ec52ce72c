import PowerOfAttorney.Proofs.Lifecycle.Frozen
import PowerOfAttorney.Proofs.Operation.Named
import PowerOfAttorney.Proofs.Operation.Reach

/-!
# `PowerOfAttorney.Proofs.Lifecycle.Patch` — a correction is the patch that its changes describe

A correction is read into a draft that begins with what is on record, and then the whole draft is written
back, field by field. So a field that is seeded, read or written back wrongly would spoil what nobody has
mentioned. None is: the document comes to hold what the changes bring where they name a field, and what it
held before everywhere else. The exceptions are few, and they are part of what is meant by a patch here:
wording that no mode calls for is dropped, a part that was absent is there once something of it is named,
and notes are added. They leave no choice, so a patch is known from its changes and its notes.

## Contents
- **Wording.** `Decisions.isIdle`, and what settled decisions hold.
- **Patches.** `Operation.ConcernsOne` and `Document.Patched`; `Patched.unique`: there is one patch.
- **Corrections.** `Correction.patched_of_read` and `RegisteredCorrection.patched_of_read`.
- **Updates.** `Update.correction_patches`, `Update.registeredCorrection_patches`, and
  `Document.SameStanding` for what the latter never changes.
-/

namespace PowerOfAttorney

open Script

/-! ## Wording -/

namespace Decisions

/-- The wording of a decision whose mode does not call for one. -/
def isIdle (s : Decisions) : Place → Bool
  | [.name "howAttorneysMakeDecisionsDetails"] => !s.attorneysMixed
  | [.name "howReplacementAttorneysStepInDetails"] => !s.stepInAnotherWay
  | [.name "howReplacementAttorneysMakeDecisionsDetails"] => !s.replacementsMixed
  | _ => false

variable {s s' : Decisions}

/-- Where wording may be idle. -/
theorem mem_of_isIdle {p : Place} (h : s.isIdle p = true) :
    p = [.name "howAttorneysMakeDecisionsDetails"] ∨
      p = [.name "howReplacementAttorneysStepInDetails"] ∨
      p = [.name "howReplacementAttorneysMakeDecisionsDetails"] := by
  unfold isIdle at h
  split at h
  · exact Or.inl rfl
  · exact Or.inr (Or.inl rfl)
  · exact Or.inr (Or.inr rfl)
  · exact absurd h Bool.false_ne_true

theorem mem_places_of_isIdle {p : Place} (h : s.isIdle p = true) : p ∈ places := by
  rcases mem_of_isIdle h with rfl | rfl | rfl <;> decide

/-- Only the modes decide which wording is idle. -/
theorem isIdle_congr (hattorneys : s'.attorneysDecide = s.attorneysDecide)
    (hstepIn : s'.replacementsStepIn = s.replacementsStepIn)
    (hreplacements : s'.replacementsDecide = s.replacementsDecide) (p : Place) :
    s'.isIdle p = s.isIdle p := by
  simp only [isIdle, attorneysMixed, stepInAnotherWay, replacementsMixed, hattorneys, hstepIn,
    hreplacements]

theorem isIdle_settled (s : Decisions) (p : Place) : s.settled.isIdle p = s.isIdle p :=
  isIdle_congr rfl rfl rfl p

/-- Wording that is kept if it is called for. -/
theorem held_kept (called : Bool) (details : String) :
    some (Held.mk .text (if called then details else "")) =
      if !called then some ⟨.text, ""⟩ else some ⟨.text, details⟩ := by
  cases called <;> rfl

/-- Settled decisions hold what the decisions hold, but for idle wording. -/
theorem holds_settled (s : Decisions) {p : Place} (hp : p ∈ places) :
    s.settled.holds p = if s.isIdle p then some ⟨.text, ""⟩ else s.holds p := by
  simp only [places, List.mem_cons, List.not_mem_nil, or_false] at hp
  rcases hp with rfl | rfl | rfl | rfl | rfl | rfl | rfl | rfl
  case inr.inl => exact held_kept s.attorneysMixed _
  case inr.inr.inr.inl => exact held_kept s.stepInAnotherWay _
  case inr.inr.inr.inr.inr.inl => exact held_kept s.replacementsMixed _
  all_goals rfl

/-- Wording that is not called for has to be empty. -/
theorem wordingCheck_of_not_called {called : Bool} (h : (!called) = true) :
    wordingCheck called = .empty := by
  rw [(Bool.not_eq_true' called).mp h]
  rfl

/-- So has idle wording. -/
theorem checks_of_isIdle (d : Document) {p : Place} (h : s.isIdle p = true) :
    checks d s p = some (some .empty) := by
  rcases mem_of_isIdle h with rfl | rfl | rfl
  · show some (some (wordingCheck s.attorneysMixed)) = _
    rw [wordingCheck_of_not_called h]
  · show some (some (wordingCheck s.stepInAnotherWay)) = _
    rw [wordingCheck_of_not_called h]
  · show some (some (wordingCheck s.replacementsMixed)) = _
    rw [wordingCheck_of_not_called h]

/-- It is held as a text. -/
theorem exists_holds_of_isIdle {p : Place} (h : s.isIdle p = true) (s' : Decisions) :
    ∃ details, s'.holds p = some ⟨.text, details⟩ := by
  rcases mem_of_isIdle h with rfl | rfl | rfl <;> exact ⟨_, rfl⟩

end Decisions

/-- A document holds what it does with settled decisions, but for idle wording. -/
theorem Document.holds_settled (d : Document) (notes : List Note) (p : Place) :
    Document.holds { d with decisions := d.decisions.settled, notes := notes } p =
      if d.decisions.isIdle p then some ⟨.text, ""⟩ else d.holds p := by
  by_cases hp : p ∈ Decisions.places
  · rw [Correction.holds_eq_decisions _ hp, Correction.holds_eq_decisions d hp]
    exact d.decisions.holds_settled hp
  · have hidle : ¬ d.decisions.isIdle p := fun h => hp (Decisions.mem_places_of_isIdle h)
    have hnone : ∀ s : Decisions, s.holds p = none := by
      intro s
      by_contra hsome
      obtain ⟨x, hx⟩ := Option.ne_none_iff_exists'.mp hsome
      exact hp (Decisions.mem_places_of_holds hx)
    rw [if_neg hidle]
    unfold Document.holds
    split <;> first | rfl | rw [hnone, hnone]

/-! ## Patches -/

section

variable {op : Operation} {d d' e : Document} {changes : List Change}

/-- All that changes name of a list is below one of its entries, and the other entries are as they were. -/
def Operation.ConcernsOne {α : Type} (op : Operation) (d : Document) (changes : List Change)
    (name : String) (xs xs' : List α) : Prop :=
  ∃ i, (∀ j b, op.Names d changes (.name name :: .index j :: b) → j = i) ∧
    ∀ j, j ≠ i → xs'[j]? = xs[j]?

/-- **The patch that changes describe.** Every field that they name holds what they bring, and all else is as
    it was, but that wording is empty where no mode calls for it any more, that a part is there once
    something of it is named, and that notes are added. Of the attorneys and of the trust corporations
    they name one at most. -/
structure Document.Patched (op : Operation) (changes : List Change) (d d' : Document) : Prop where
  named : ∀ c ∈ changes, ∃ p x v, op.place? d c.key = some p ∧ d.holds p = some x ∧
    x.type.decode c.new = .ok v ∧ d'.holds p = some ⟨x.type, v⟩
  unnamed : ∀ p, ¬ op.Names d changes p →
    d'.holds p = if d'.decisions.isIdle p then some ⟨.text, ""⟩ else d.holds p
  rest : d'.emptied = d.emptied
  authorisedSignatory : d'.authorisedSignatory.isSome ↔
    d.authorisedSignatory.isSome ∨ ∃ b, op.Names d changes (.name "authorisedSignatory" :: b)
  independentWitness : d'.independentWitness.isSome ↔
    d.independentWitness.isSome ∨ ∃ b, op.Names d changes (.name "independentWitness" :: b)
  notes : d.notes <+: d'.notes
  attorneys : op.ConcernsOne d changes "attorneys" d.attorneys d'.attorneys
  trustCorporations :
    op.ConcernsOne d changes "trustCorporations" d.trustCorporations d'.trustCorporations

namespace Document.Patched

/-- What patches bring to a field that is named is the same. -/
theorem holds_named (h : d.Patched op changes d') (h' : d.Patched op changes e) {p : Place}
    (hp : op.Names d changes p) : e.holds p = d'.holds p := by
  obtain ⟨c, hc, hkey⟩ := hp
  obtain ⟨p₁, x₁, v₁, hp₁, hx₁, hv₁, hd'⟩ := h.named c hc
  obtain ⟨p₂, x₂, v₂, hp₂, hx₂, hv₂, he⟩ := h'.named c hc
  obtain rfl : p₁ = p := Option.some.inj (hp₁.symm.trans hkey)
  obtain rfl : p₂ = p₁ := Option.some.inj (hp₂.symm.trans hkey)
  obtain rfl : x₂ = x₁ := Option.some.inj (hx₂.symm.trans hx₁)
  obtain rfl : v₂ = v₁ := Except.ok.inj (hv₂.symm.trans hv₁)
  rw [hd', he]

/-- So is what they leave where no wording can be idle. -/
theorem holds_mode (h : d.Patched op changes d') (h' : d.Patched op changes e) {p : Place}
    (hmode : ∀ s : Decisions, s.isIdle p = false) : e.holds p = d'.holds p := by
  by_cases hp : op.Names d changes p
  · exact h.holds_named h' hp
  · rw [h.unnamed p hp, h'.unnamed p hp, hmode, hmode]

/-- **There is one patch**, up to the notes. -/
theorem unique (h : d.Patched op changes d') (h' : d.Patched op changes e)
    (hnotes : e.notes = d'.notes) : e = d' := by
  -- The modes agree, so the same wording is idle, and then all fields agree.
  have hattorneys : e.decisions.attorneysDecide = d'.decisions.attorneysDecide :=
    Held.value_inj (t := .maybeWord .decisionMode)
      (h.holds_mode h' (p := [.name "howAttorneysMakeDecisions"]) fun _ => rfl)
  have hstepIn : e.decisions.replacementsStepIn = d'.decisions.replacementsStepIn :=
    Held.value_inj (t := .maybeWord .stepIn)
      (h.holds_mode h' (p := [.name "howReplacementAttorneysStepIn"]) fun _ => rfl)
  have hreplacements : e.decisions.replacementsDecide = d'.decisions.replacementsDecide :=
    Held.value_inj (t := .maybeWord .decisionMode)
      (h.holds_mode h' (p := [.name "howReplacementAttorneysMakeDecisions"]) fun _ => rfl)
  have hholds : ∀ p, e.holds p = d'.holds p := by
    intro p
    by_cases hp : op.Names d changes p
    · exact h.holds_named h' hp
    · rw [h.unnamed p hp, h'.unnamed p hp,
        Decisions.isIdle_congr hattorneys hstepIn hreplacements]
  refine eq_of_holds (h'.rest.trans h.rest.symm) hholds ?_ ?_ hnotes
  · rw [Bool.eq_iff_iff, h.authorisedSignatory, h'.authorisedSignatory]
  · rw [Bool.eq_iff_iff, h.independentWitness, h'.independentWitness]

end Document.Patched

/-! ## Corrections -/

/-- A text that passes for empty is. -/
theorem eq_empty_of_passes {v : String} (h : Check.empty.fault? (FieldType.text.view v) = none) :
    v = "" := by
  by_contra hne
  have hempty : v.isEmpty = false := by simpa using hne
  simp [FieldType.view, Check.fault?, hempty] at h

/-- What a correction does is a patch if the draft holds what the changes bring. Wording that is dropped in
    the end has been brought as empty if it has been brought at all. -/
theorem Document.patched_of_onto {notes : List Note}
    (hnamed : ∀ c ∈ changes, ∃ p x v check, op.place? d c.key = some p ∧ d.holds p = some x ∧
      x.type.decode c.new = .ok v ∧ e.holds p = some ⟨x.type, v⟩ ∧
      op.check? d e.decisions p = some check ∧ ∀ k, check = some k → k.fault? (x.type.view v) = none)
    (hchecks : ∀ p ∈ Decisions.places,
      op.check? d e.decisions p = Decisions.checks d e.decisions p)
    (hunnamed : ∀ p, ¬ op.Names d changes p → e.holds p = d.holds p)
    (hrest : e.emptied = d.emptied)
    (hauthorised : e.authorisedSignatory.isSome ↔
      d.authorisedSignatory.isSome ∨ ∃ b, op.Names d changes (.name "authorisedSignatory" :: b))
    (hwitness : e.independentWitness.isSome ↔
      d.independentWitness.isSome ∨ ∃ b, op.Names d changes (.name "independentWitness" :: b))
    (hattorneys : op.ConcernsOne d changes "attorneys" d.attorneys e.attorneys)
    (htrustCorporations :
      op.ConcernsOne d changes "trustCorporations" d.trustCorporations e.trustCorporations) :
    d.Patched op changes { e with decisions := e.decisions.settled, notes := d.notes ++ notes } where
  named := by
    intro c hc
    obtain ⟨p, x, v, check, hp, hx, hv, hshown, hcheck, hpasses⟩ := hnamed c hc
    refine ⟨p, x, v, hp, hx, hv, ?_⟩
    rw [holds_settled]
    by_cases hidle : e.decisions.isIdle p = true
    · have hplace := Decisions.mem_places_of_isIdle hidle
      obtain ⟨details, hdetails⟩ := Decisions.exists_holds_of_isIdle hidle d.decisions
      rw [Correction.holds_eq_decisions d hplace, hdetails] at hx
      obtain rfl := Option.some.inj hx
      rw [hchecks p hplace, Decisions.checks_of_isIdle d hidle] at hcheck
      have hempty : v = "" := eq_empty_of_passes (hpasses .empty (Option.some.inj hcheck).symm)
      rw [if_pos hidle, hempty]
    · rw [if_neg hidle]
      exact hshown
  unnamed := by
    intro p hp
    rw [holds_settled, hunnamed p hp]
    show _ = if e.decisions.settled.isIdle p then _ else _
    rw [Decisions.isIdle_settled]
  rest := hrest
  authorisedSignatory := hauthorised
  independentWitness := hwitness
  notes := List.prefix_append _ _
  attorneys := hattorneys
  trustCorporations := htrustCorporations

/-- A list in which the entry that is chosen is amended, if that is the one that is named. -/
theorem Operation.concernsOne_amendAt {α β : Type} {amend : β → α → α} {name : String}
    {chosen : Option (Nat × β)} (xs : List α)
    (h : ∀ j b, op.Names d changes (.name name :: .index j :: b) → ∃ w, chosen = some (j, w)) :
    op.ConcernsOne d changes name xs (amendAt amend chosen xs) := by
  cases chosen with
  | none =>
      refine ⟨0, ?_, fun _ _ => rfl⟩
      intro j b hnames
      obtain ⟨_, hw⟩ := h j b hnames
      exact absurd hw nofun
  | some e =>
      obtain ⟨i, c⟩ := e
      refine ⟨i, ?_, ?_⟩
      · intro j b hnames
        obtain ⟨_, hw⟩ := h j b hnames
        exact (congrArg Prod.fst (Option.some.inj hw)).symm
      · intro j hj
        refine getElem?_amendAt xs ?_
        rintro w ⟨⟩
        exact hj rfl

/-- The part that is made is there, and so is the one on record. -/
theorem Makes.isSome_or {α : Type} {name : String} {ps : List Place} {part stored : Option α}
    (h : Makes name ps part) (hnames : ∀ p, op.Names d changes p ↔ p ∈ ps) :
    (part.or stored).isSome ↔ stored.isSome ∨ ∃ b, op.Names d changes (.name name :: b) := by
  have hmade : part.isSome ↔ ∃ b, op.Names d changes (.name name :: b) := by
    refine Iff.trans h ?_
    constructor
    · rintro ⟨q, hq, b, rfl⟩
      exact ⟨b, (hnames _).mpr hq⟩
    · rintro ⟨b, hb⟩
      exact ⟨_, (hnames _).mp hb, List.prefix_append [.name name] b⟩
  rw [Option.isSome_or, Bool.or_eq_true, hmade, or_comm]

namespace Correction

/-- The entry that is chosen is the one that is named. -/
theorem concernsOne_of_picks {α β : Type} {amend : β → α → α} {name : String} {ps : List Place}
    {chosen : Option (Nat × β)} {xs : List α} (h : Picks Label.index? name ps chosen)
    (hnames : ∀ p, op.Names d changes p ↔ p ∈ ps) :
    op.ConcernsOne d changes name xs (amendAt amend chosen xs) := by
  refine Operation.concernsOne_amendAt xs ?_
  intro j b hb
  obtain ⟨⟨i, w⟩, he, hi⟩ := h.below (.index j) b ((hnames _).mp hb)
  obtain rfl : j = i := Option.some.inj hi
  exact ⟨w, he⟩

/-- **A correction that is read without faults is the patch that its changes describe.** -/
theorem patched_of_read {c : Correction} (h : (script d).read (of d) changes = (c, []))
    (now : Instant) : d.Patched .correction changes (c.amend now d) := by
  have hfollows := follows_of_read h
  have hrest := emptied_onto h
  obtain ⟨rfl, hnone⟩ := Prod.mk.inj h
  have hnames : ∀ p, Operation.correction.Names d changes p ↔
      p ∈ ((script d).log (of d) changes).map Hit.place := by
    intro p
    rw [names_iff (ends d) (fits d) (describes d) hnone]
    constructor
    · rintro ⟨q, hq, hsame⟩
      obtain rfl : q = p := Option.some.inj hsame
      exact hq
    · intro hp
      exact ⟨p, hp, rfl⟩
  rw [amend_eq]
  refine Document.patched_of_onto ?_ (fun p hp => checks_eq_decisions d _ hp) ?_ hrest ?_ ?_ ?_ ?_
  · intro c hc
    obtain ⟨q, p, x, v, check, hkey, hq, hheld, hdecode, hshown, hcheck, hpasses⟩ :=
      view_of_change (ends d) (fits d) (describes d) hnone hc
    obtain rfl : q = p := Option.some.inj hq
    exact ⟨q, x, v, check, hkey, hheld, hdecode, hshown, hcheck, hpasses⟩
  · intro p hp
    exact view_of_unnamed (ends d) (fits d) (describes d) hnone (q := p) rfl hp
  · exact hfollows.authorisedSignatory.isSome_or hnames
  · exact hfollows.independentWitness.isSome_or hnames
  · exact concernsOne_of_picks hfollows.attorney hnames
  · exact concernsOne_of_picks hfollows.trustCorporation hnames

end Correction

namespace RegisteredCorrection

/-- After registration the parts that may be absent and the trust corporations are not named. -/
theorem not_names (name : String) (b : Place) (hnone : ((script d).read (of d) changes).2 = [])
    (hother : ∀ s, checks d s (.name name :: b) = Decisions.checks d s (.name name :: b))
    (hplaces : ∀ p ∈ Decisions.places, ¬ [.name name] <+: p) :
    ¬ Operation.postRegistrationCorrection.Names d changes (.name name :: b) := by
  intro hnames
  obtain ⟨check, hcheck⟩ :=
    exists_check_of_names (ends d) (fits d) (describes d) hnone hnames
  have hmem := Decisions.mem_places_of_checks ((hother _).symm.trans hcheck)
  exact hplaces _ hmem (List.prefix_append [.name name] b)

/-- The attorney who is chosen is the first with the uid that is named. -/
theorem exists_chosen_of_names {c : RegisteredCorrection}
    (h : (script d).read (of d) changes = (c, [])) {i : Nat} {b : Place}
    (hnames : Operation.postRegistrationCorrection.Names d changes
      (.name "attorneys" :: .index i :: b)) : ∃ w, c.attorney = some (i, w) := by
  have hfollows := follows_of_read h
  obtain ⟨rfl, hnone⟩ := Prod.mk.inj h
  obtain ⟨q, hq, hmeant⟩ :=
    (names_iff (ends d) (fits d) (describes d) hnone).mp hnames
  change d.locate? q = some _ at hmeant
  rcases Document.eq_of_locate? hmeant with rfl | ⟨uid, i', b', hi, rfl, hsame⟩
  · exact absurd rfl (Document.ne_attorneys_of_locate? hmeant _)
  · simp only [List.cons.injEq, Label.index.injEq, true_and] at hsame
    obtain ⟨rfl, rfl⟩ := hsame
    obtain ⟨⟨j, w⟩, hw, hj⟩ := hfollows.below (.name uid) b hq
    obtain rfl : i = j := Option.some.inj (hi.symm.trans hj)
    exact ⟨w, hw⟩

/-- An attorney who cannot be named, because another with the same uid comes first, is as before. -/
theorem holds_of_not_meant {c : RegisteredCorrection} {ps : List Place} (hfollows : Follows d ps c)
    {p : Place} (hmeant : ∀ q, d.locate? q ≠ some p) : (c.onto d).holds p = d.holds p := by
  -- Only attorneys are meant by another place than their own.
  have hattorneys : ∃ b, p = .name "attorneys" :: b := by
    by_contra hother
    refine hmeant p ?_
    unfold Document.locate?
    split
    · exact absurd ⟨_, rfl⟩ hother
    · exact absurd ⟨_, rfl⟩ hother
    · rfl
  obtain ⟨b, rfl⟩ := hattorneys
  refine Entries.holds_congr ?_
  rintro i b' rfl
  have hsame : (amendAt AttorneyCorrection.amend c.attorney d.attorneys)[i]? = d.attorneys[i]? := by
    refine getElem?_amendAt d.attorneys ?_
    intro w hchosen
    obtain ⟨l, hl⟩ := hfollows.labelled (i, w) hchosen
    exact hmeant _ (d.locate?_attorney hl b')
  show ((amendAt AttorneyCorrection.amend c.attorney d.attorneys)[i]?).bind _ = _
  rw [hsame]

/-- What no change names is as it was. -/
theorem holds_of_unnamed {c : RegisteredCorrection}
    (h : (script d).read (of d) changes = (c, [])) {p : Place}
    (hp : ¬ Operation.postRegistrationCorrection.Names d changes p) :
    (c.onto d).holds p = d.holds p := by
  have hfollows := follows_of_read h
  obtain ⟨rfl, hnone⟩ := Prod.mk.inj h
  by_cases hmeant : ∃ q, d.locate? q = some p
  · obtain ⟨q, hq⟩ := hmeant
    have hview := view_of_unnamed (ends d) (fits d) (describes d) hnone (q := q) hq hp
    change (d.locate? q).bind _ = (d.locate? q).bind d.holds at hview
    rw [hq] at hview
    exact hview
  · exact holds_of_not_meant hfollows fun q hq => hmeant ⟨q, hq⟩

/-- **A correction after registration that is read without faults is the patch that its changes
    describe.** -/
theorem patched_of_read {c : RegisteredCorrection} (h : (script d).read (of d) changes = (c, []))
    (now : Instant) : d.Patched .postRegistrationCorrection changes (c.amend now d) := by
  have hrest := emptied_onto c d
  have hunnamed := fun p => holds_of_unnamed h (p := p)
  have hattorney := fun i b => exists_chosen_of_names h (i := i) (b := b)
  obtain ⟨rfl, hnone⟩ := Prod.mk.inj h
  have hauthorised := fun b => not_names "authorisedSignatory" b hnone (fun _ => rfl) (by decide)
  have hwitness := fun b => not_names "independentWitness" b hnone (fun _ => rfl) (by decide)
  have htrustCorporations := fun b => not_names "trustCorporations" b hnone (fun _ => rfl) (by decide)
  rw [amend_eq]
  refine Document.patched_of_onto ?_ (fun p hp => checks_eq_decisions d _ hp) hunnamed hrest ?_ ?_
    (Operation.concernsOne_amendAt d.attorneys hattorney)
    ⟨0, fun j b hnames => absurd hnames (htrustCorporations _), fun _ _ => rfl⟩
  · intro c hc
    obtain ⟨q, p, x, v, check, hkey, hq, hheld, hdecode, hshown, hcheck, hpasses⟩ :=
      view_of_change (ends d) (fits d) (describes d) hnone hc
    change d.locate? q = some p at hq
    change (d.locate? q).bind _ = some _ at hshown
    rw [hq] at hshown
    exact ⟨p, x, v, check, hkey, hheld, hdecode, hshown, hcheck, hpasses⟩
  · exact ⟨Or.inl, fun hsome => hsome.resolve_right fun hnames => hnames.elim hauthorised⟩
  · exact ⟨Or.inl, fun hsome => hsome.resolve_right fun hnames => hnames.elim hwitness⟩

end RegisteredCorrection

end

/-! ## Updates -/

/-- **A correction is exactly the patch that its changes describe.** Every field that they name holds what
    they bring, and every other field of the document is as before: a document that is patched in the same
    way, with the same notes, is the one that the correction makes. -/
theorem Update.correction_patches {u : Update} {now : Instant} {d d' : Document} {c : Command}
    (htype : Word.ofText? u.type = some Operation.correction) (hvalid : u.validate d = .ok c)
    (happly : c.apply now d = .ok d') :
    d.Patched .correction u.changes d' ∧
      ∀ e, d.Patched .correction u.changes e → e.notes = d'.notes → e = d' := by
  obtain ⟨hop, hread⟩ := isRead_of_validate hvalid
  obtain ⟨x, rfl⟩ := Command.exists_eq_correct (Option.some.inj (hop.symm.trans htype))
  have hpatched : d.Patched .correction u.changes d' := by
    cases Command.effect_of_apply happly with
    | correct _ hstatus hdates => exact Correction.patched_of_read hread now
  exact ⟨hpatched, fun e he hnotes => hpatched.unique he hnotes⟩

/-- The attorneys are to decide jointly, and one of them is renamed. Someone signs for the donor. What is to
    be decided jointly does not have to be said any more. -/
theorem Update.correction_patches_mode :
    let d : Document := { Document.ofJointAttorneys with
      decisions := { Document.ofJointAttorneys.decisions with
        attorneysDecide := some .jointlyForSomeSeverallyForOthers
        attorneysDecideDetails := "The house jointly" } }
    let u : Update := ⟨"", "", none, "", "CORRECTION",
      [⟨"/howAttorneysMakeDecisions", .str "jointly-for-some-severally-for-others", .str "jointly"⟩,
        ⟨"/attorneys/+1/firstNames", .str "Cy", .str "Cyd"⟩,
        ⟨"/authorisedSignatory/firstNames", .null, .str "Sy"⟩]⟩
    ∃ (c : Command) (d' : Document), Word.ofText? u.type = some Operation.correction ∧
      u.validate d = .ok c ∧ c.apply (.ofNanoseconds 1) d = .ok d' ∧
      d'.attorneys.map (·.firstNames) = ["Bo", "Cyd"] ∧ d'.decisions.attorneysDecideDetails = "" ∧
      d'.authorisedSignatory = some ⟨"", "Sy", ""⟩ ∧ d.Patched .correction u.changes d' := by
  intro d u
  let read := Correction.of d
  let a : Attorney := d.attorneys[1]
  let x : Correction := { read with
    attorney := some (1, { AttorneyCorrection.of a with firstNames := "Cyd" })
    authorisedSignatory := some ⟨"", "Sy", ""⟩
    decisions := { read.decisions with attorneysDecide := some .jointly } }
  have htype : Word.ofText? u.type = some Operation.correction := by decide +kernel
  have hvalid : u.validate d = .ok (.correct x) := by decide +kernel
  have happly : (Command.correct x).apply (.ofNanoseconds 1) d =
      .ok (x.amend (.ofNanoseconds 1) d) := rfl
  exact ⟨_, _, htype, hvalid, happly, rfl, rfl, rfl, (correction_patches htype hvalid happly).1⟩

/-- What a correction after registration leaves alone, named or not: statuses, dates of signing, trust
    corporations, and the donor's date of birth. -/
structure Document.SameStanding (d d' : Document) : Prop where
  status : d'.status = d.status
  dateOfBirth : d'.donor.dateOfBirth = d.donor.dateOfBirth
  signedAt : d'.signedAt = d.signedAt
  witnessedByCertificateProviderAt :
    d'.witnessedByCertificateProviderAt = d.witnessedByCertificateProviderAt
  witnessedByIndependentWitnessAt :
    d'.witnessedByIndependentWitnessAt = d.witnessedByIndependentWitnessAt
  certificateProvider : d'.certificateProvider.signedAt = d.certificateProvider.signedAt
  attorneys : List.Forall₂ (fun a a' => a'.signedAt = a.signedAt ∧ a'.status = a.status) d.attorneys
    d'.attorneys
  trustCorporations : d'.trustCorporations = d.trustCorporations

theorem RegisteredCorrection.sameStanding_of_read {c : RegisteredCorrection} {d : Document}
    {changes : List Change} (h : (script d).read (of d) changes = (c, []))
    (hbirth : c.donor.dateOfBirth = d.donor.dateOfBirth) (now : Instant) :
    d.SameStanding (c.amend now d) := by
  obtain ⟨hprovider, hattorney⟩ := keepsSignatures_of_read h
  have hattorneys : List.Forall₂ (fun a a' => a'.signedAt = a.signedAt ∧ a'.status = a.status)
      d.attorneys (amendAt AttorneyCorrection.amend c.attorney d.attorneys) := by
    refine forall₂_amendAt (fun _ => ⟨rfl, rfl⟩) hattorney ?_
    intro a b hdate
    exact ⟨hdate, rfl⟩
  exact ⟨rfl, hbirth, rfl, rfl, rfl, hprovider, hattorneys, rfl⟩

/-- **A correction after registration is exactly the patch that its changes describe**, where the key of an
    attorney names the first attorney with that uid. It leaves alone what has to stay. -/
theorem Update.registeredCorrection_patches {u : Update} {now : Instant} {d d' : Document} {c : Command}
    (htype : Word.ofText? u.type = some Operation.postRegistrationCorrection)
    (hvalid : u.validate d = .ok c) (happly : c.apply now d = .ok d') :
    d.Patched .postRegistrationCorrection u.changes d' ∧
      (∀ e, d.Patched .postRegistrationCorrection u.changes e → e.notes = d'.notes → e = d') ∧
      d.SameStanding d' := by
  obtain ⟨hop, hread⟩ := isRead_of_validate hvalid
  obtain ⟨x, rfl⟩ := Command.exists_eq_correctRegistered (Option.some.inj (hop.symm.trans htype))
  cases Command.effect_of_apply happly with
  | correctRegistered _ hbirth =>
      have hpatched := RegisteredCorrection.patched_of_read hread now
      exact ⟨hpatched, fun e he hnotes => hpatched.unique he hnotes,
        RegisteredCorrection.sameStanding_of_read hread hbirth now⟩

/-- Of two attorneys with the same uid it is the first who is renamed. -/
theorem Update.registeredCorrection_patches_first :
    let d : Document := { Document.ofRegistered with
      attorneys := Document.ofRegistered.attorneys.map fun a => { a with uid := "a" } }
    let u : Update := ⟨"", "", none, "", "POST_REGISTRATION_CORRECTION",
      [⟨"/attorneys/a/firstNames", .str "Bo", .str "Beau"⟩,
        ⟨"/restrictionsAndConditions", .str "", .str "None"⟩]⟩
    ∃ (c : Command) (d' : Document),
      Word.ofText? u.type = some Operation.postRegistrationCorrection ∧ u.validate d = .ok c ∧
      c.apply (.ofNanoseconds 1) d = .ok d' ∧ d'.attorneys.map (·.firstNames) = ["Beau", "Cy"] ∧
      d.Patched .postRegistrationCorrection u.changes d' ∧ d.SameStanding d' := by
  intro d u
  let read := RegisteredCorrection.of d
  let a : Attorney := d.attorneys.head (by decide)
  let x : RegisteredCorrection := { read with
    attorney := some (0, { AttorneyCorrection.of a with firstNames := "Beau" })
    restrictions := "None" }
  have htype : Word.ofText? u.type = some Operation.postRegistrationCorrection := by decide +kernel
  have hvalid : u.validate d = .ok (.correctRegistered x) := by decide +kernel
  have happly : (Command.correctRegistered x).apply (.ofNanoseconds 1) d =
      .ok (x.amend (.ofNanoseconds 1) d) := rfl
  obtain ⟨hpatched, _, hstanding⟩ := registeredCorrection_patches htype hvalid happly
  exact ⟨_, _, htype, hvalid, happly, rfl, hpatched, hstanding⟩

end PowerOfAttorney
