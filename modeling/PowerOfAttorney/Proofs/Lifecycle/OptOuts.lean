import PowerOfAttorney.Proofs.Lifecycle.Run
import PowerOfAttorney.Proofs.Lifecycle.Seats

/-!
# `PowerOfAttorney.Proofs.Lifecycle.OptOuts` — two parties opt out, in either order

Whether a party may opt out does not depend on who has left before, and to be removed is the same whoever
goes first. So two opt-outs commute, but for the status of the document. That is looked at after each of
them, and whether the originals need a replacement is asked only when one of them leaves: the order
counts if an original leaves and the last one who could have stepped in.

## Contents
- **Attempts.** `Attempt.leaver?`, and `submit_of_leaver`: an attempt is rejected or someone `Leaves`.
- **Survival.** `survivesBoth_iff`, when the others can act with one order of leaving and not with the
  other.
- **Orders.** `Document.Hinges`, `InEitherOrder` and `inEitherOrder`, which says all that can differ.
- **The case.** `not_forall_after_comm`: it does occur.
-/

namespace PowerOfAttorney

/-! ## Attempts -/

/-- The attorney or the trust corporation that opts out by an attempt. -/
def Attempt.leaver? (a : Attempt) : Option OptOut :=
  match a.operation? with
  | some .attorneyOptOut => some (.attorney a.update.authorUid)
  | some .trustCorporationOptOut => some (.trustCorporation a.update.authorUid)
  | _ => none

namespace Document

variable {d e : Document} {a b : Attempt} {p q : OptOut}

/-- If changes are read alike from all documents, an update is valid for all or for none. -/
theorem validate_of_ofChanges {u : Update} {op : Operation} {c : Command} {faults : List Fault}
    (hop : Word.ofText? u.type = some op)
    (hread : ∀ d, Command.ofChanges d u.author u.changes op = (c, faults)) :
    (∃ faults, ∀ d, u.validate d = .error faults) ∨ ∀ d, u.validate d = .ok c := by
  by_cases hnone : (faults ++ Change.redundancies u.changes).isEmpty
  · refine Or.inr fun d => ?_
    unfold Update.validate
    rw [hop]
    dsimp only
    rw [hread d]
    exact if_pos hnone
  · refine Or.inl ⟨faults ++ Change.redundancies u.changes, fun d => ?_⟩
    unfold Update.validate
    rw [hop]
    dsimp only
    rw [hread d]
    exact if_neg hnone

theorem validate_of_leaver (h : a.leaver? = some p) :
    p ≠ .certificateProvider ∧ ((∃ faults, ∀ d : Document, a.update.validate d = .error faults) ∨
      ∀ d : Document, a.update.validate d = .ok (.optOut p)) := by
  unfold Attempt.leaver? at h
  split at h
  · rename_i hop
    rw [← Option.some.inj h]
    exact ⟨nofun, validate_of_ofChanges hop fun d => rfl⟩
  · rename_i hop
    rw [← Option.some.inj h]
    exact ⟨nofun, validate_of_ofChanges hop fun d => rfl⟩
  · exact absurd h nofun

/-- A party leaves its seat by an attempt, and does so from any document with the same roll. -/
structure Leaves (d : Document) (a : Attempt) (p : OptOut) (k : Seat)
    (x : AttorneyStatus × Appointment) : Prop where
  seat : p.seat? d = some k
  standing : d.standing? k = some x
  submit_eq : ∀ e, d.SameRoll e → e.submit a = .ok ((e.vacate k).afterLeaving x.2)

/-- **An attempt to opt out is rejected or someone leaves by it**, whatever the statuses are. -/
theorem submit_of_leaver (h : a.leaver? = some p) (d : Document) :
    (∃ errors, ∀ e, d.SameRoll e → e.submit a = .error errors) ∨ ∃ k x, d.Leaves a p k x := by
  obtain ⟨hseated, ⟨faults, hfaults⟩ | hvalid⟩ := validate_of_leaver h
  · refine Or.inl ⟨faults.map Fault.toFieldError, fun e _ => ?_⟩
    unfold submit
    rw [hfaults e]
  · -- What is read does not depend on the document, so it is for the answer to decide.
    have hsubmit : ∀ e, d.SameRoll e → e.submit a =
        ((p.answer d).mapError fun why => [why.toFieldError]).map fun vacant =>
          (e.vacate vacant.1).afterLeaving vacant.2 := by
      intro e he
      unfold submit
      rw [hvalid e, ← OptOut.answer_of_sameRoll he]
      dsimp only [Command.apply]
      rw [OptOut.apply_eq hseated]
      cases p.answer e <;> rfl
    cases hanswer : p.answer d with
    | error why =>
        refine Or.inl ⟨[why.toFieldError], fun e he => ?_⟩
        rw [hsubmit e he, hanswer]
        rfl
    | ok vacant =>
        obtain ⟨hseat, s, hstanding⟩ := OptOut.seat?_of_answer hanswer
        refine Or.inr ⟨vacant.1, (s, vacant.2), hseat, hstanding, fun e he => ?_⟩
        rw [hsubmit e he, hanswer]
        rfl

theorem Leaves.after {k : Seat} {x : AttorneyStatus × Appointment} (h : d.Leaves a p k x)
    (he : d.SameRoll e) : e.after a = (e.vacate k).afterLeaving x.2 :=
  after_of_ok (h.submit_eq e he)

/-- The same parties are there when someone has left. -/
theorem sameRoll_after (h : a.leaver? = some p) (d : Document) : d.SameRoll (d.after a) := by
  rcases submit_of_leaver h d with ⟨errors, herror⟩ | ⟨k, x, hleaves⟩
  · rw [after_of_error (herror d (.refl d))]
    exact .refl d
  · rw [hleaves.after (.refl d)]
    exact sameRoll_leaving k x.2

/-! ## Survival -/

theorem canRegisterWithout_iff (d : Document) (left : Appointment) :
    d.canRegisterWithout left = true ↔ 0 < d.activeCount + d.replacementCount ∧
      (left = .original → d.decidesJointly = true → 0 < d.replacementCount) := by
  unfold canRegisterWithout
  cases left <;> cases d.decidesJointly <;> simp <;> omega

/-- Two parties can leave, one after the other, and the others can act at any time. -/
def SurvivesBoth (d : Document) (k l : Seat) (left left' : Appointment) : Prop :=
  (d.vacate k).canRegisterWithout left = true ∧
    ((d.vacate k).vacate l).canRegisterWithout left' = true

theorem survivesBoth_iff_counts {k l : Seat} {y : AttorneyStatus × Appointment} (hkl : k ≠ l)
    (hy : d.standing? l = some y) (left left' : Appointment) :
    d.SurvivesBoth k l left left' ↔
      0 < ((d.vacate k).vacate l).activeCount + ((d.vacate k).vacate l).replacementCount ∧
      (left = .original → d.decidesJointly = true → 0 < (d.vacate k).replacementCount) ∧
      (left' = .original → d.decidesJointly = true →
        0 < ((d.vacate k).vacate l).replacementCount) := by
  have hy' : (d.vacate k).standing? l = some y := (standing?_vacate_ne hkl).trans hy
  have hactive := activeCount_vacate hy'
  have hreplacement := replacementCount_vacate hy'
  unfold SurvivesBoth
  simp only [canRegisterWithout_iff, decidesJointly_vacate]
  constructor
  · rintro ⟨⟨_, hfirst⟩, hothers, hsecond⟩
    exact ⟨hothers, hfirst, hsecond⟩
  · rintro ⟨hothers, hfirst, hsecond⟩
    exact ⟨⟨by omega, hfirst⟩, hothers, hsecond⟩

/-- **When the order of two who leave counts**: it does if an original leaves and then the last one who
    could have stepped in, of those who have to agree. -/
theorem survivesBoth_iff {k l : Seat} {x y : AttorneyStatus × Appointment} (hkl : k ≠ l)
    (hx : d.standing? k = some x) (hy : d.standing? l = some y) :
    (d.SurvivesBoth k l x.2 y.2 ∧ ¬ d.SurvivesBoth l k y.2 x.2) ↔
      x.2 = .original ∧ y = (.inactive, .replacement) ∧ d.replacementCount = 1 ∧
        d.decidesJointly = true ∧ 0 < ((d.vacate k).vacate l).activeCount := by
  have hy' : (d.vacate k).standing? l = some y := (standing?_vacate_ne hkl).trans hy
  have hfirst := replacementCount_vacate hx
  have hsecond := replacementCount_vacate hy
  have hboth := replacementCount_vacate hy'
  rw [survivesBoth_iff_counts hkl hy, survivesBoth_iff_counts hkl.symm hx, vacate_comm hkl.symm]
  by_cases hjoint : d.decidesJointly = true
  · simp only [hjoint, forall_const, true_and]
    by_cases hstepIn : y = (.inactive, .replacement)
    · -- Only an original misses who could have stepped in, and only if they leave second.
      subst hstepIn
      rw [if_pos rfl] at hsecond hboth
      by_cases horiginal : x.2 = .original
      · have hx' : x ≠ (.inactive, .replacement) := fun h => by simp [h] at horiginal
        rw [if_neg hx'] at hfirst
        simp only [horiginal, forall_const, reduceCtorEq, false_implies, true_and, and_true]
        omega
      · simp only [horiginal, false_implies, reduceCtorEq, and_true, false_and, and_not_self]
    · -- As many can step in whether or not they have left.
      rw [if_neg hstepIn] at hsecond hboth
      refine iff_of_false ?_ fun h => hstepIn h.2.1
      rintro ⟨⟨hothers, hx', hy'⟩, hnot⟩
      refine hnot ⟨hothers, fun hleft => ?_, fun hleft => ?_⟩
      · have hpos := hy' hleft
        omega
      · have hpos := hx' hleft
        omega
  · refine iff_of_false ?_ fun h => hjoint h.2.2.2.1
    rintro ⟨⟨hothers, _⟩, hnot⟩
    exact hnot ⟨hothers, fun _ h => absurd h hjoint, fun _ h => absurd h hjoint⟩

/-- The document after two have left. -/
theorem afterLeaving_both (d : Document) (k l : Seat) (left left' : Appointment) :
    (((d.vacate k).afterLeaving left).vacate l).afterLeaving left' =
      { (d.vacate k).vacate l with
        status :=
          if ((d.vacate k).vacate l).canRegisterWithout left' then
            if (d.vacate k).canRegisterWithout left then d.status else .cannotRegister
          else .cannotRegister } := by
  rw [afterLeaving_eq (d.vacate k), vacate_setStatus, afterLeaving_eq, status_vacate]
  rfl

theorem status_of_survivesBoth {k l : Seat} {left left' : Appointment}
    (h : d.SurvivesBoth k l left left') :
    ((((d.vacate k).afterLeaving left).vacate l).afterLeaving left').status = d.status := by
  rw [afterLeaving_both]
  dsimp only
  rw [if_pos h.2, if_pos h.1]

theorem status_of_not_survivesBoth {k l : Seat} {left left' : Appointment}
    (h : ¬ d.SurvivesBoth k l left left') :
    ((((d.vacate k).afterLeaving left).vacate l).afterLeaving left').status = .cannotRegister := by
  rw [afterLeaving_both]
  dsimp only
  split
  · rename_i hsecond
    exact if_neg fun hfirst => h ⟨hfirst, hsecond⟩
  · rfl

/-! ## Orders -/

/-- What is wrong with an attempt, if anything is. -/
def rejection? (d : Document) (a : Attempt) : Option (List FieldError) :=
  match d.submit a with
  | .ok _ => none
  | .error errors => some errors

/-- An original leaves by one attempt, and by another the only one who could step in; the originals have
    to agree, and there are others who act. -/
structure Hinges (d : Document) (a b : Attempt) (p q : OptOut) : Prop where
  accepted : d.rejection? a = none ∧ d.rejection? b = none
  original : ∃ k s, p.seat? d = some k ∧ d.standing? k = some (s, .original)
  replacement : ∃ l, q.seat? d = some l ∧ d.standing? l = some (.inactive, .replacement)
  last : d.replacementCount = 1
  jointly : d.decidesJointly = true
  others : 0 < ((d.after a).after b).activeCount
  undecided : d.status ≠ .cannotRegister

/-- Two parties opt out in either order, with the same answers and the same document in the end. Only its
    status may differ, if the second is the last to step in for the first or the other way round. -/
structure InEitherOrder (d : Document) (a b : Attempt) (p q : OptOut) : Prop where
  answer_left : (d.after b).rejection? a = d.rejection? a
  answer_right : (d.after a).rejection? b = d.rejection? b
  document : ∀ s, { (d.after a).after b with status := s } = { (d.after b).after a with status := s }
  status_ne_iff : ((d.after a).after b).status ≠ ((d.after b).after a).status ↔
    d.Hinges a b p q ∨ d.Hinges b a q p
  original_left : d.Hinges a b p q →
    ((d.after a).after b).status = d.status ∧ ((d.after b).after a).status = .cannotRegister
  original_right : d.Hinges b a q p →
    ((d.after a).after b).status = .cannotRegister ∧ ((d.after b).after a).status = d.status

theorem rejection?_of_ok (h : d.submit a = .ok e) : d.rejection? a = none := by
  unfold rejection?
  rw [h]

theorem rejection?_of_error {errors : List FieldError} (h : d.submit a = .error errors) :
    d.rejection? a = some errors := by
  unfold rejection?
  rw [h]

/-- If one of the attempts is rejected at any time, it does not matter when it is made. -/
theorem inEitherOrder_of_error {errors : List FieldError}
    (herror : ∀ e, d.SameRoll e → e.submit a = .error errors) (hroll : d.SameRoll (d.after b)) :
    d.InEitherOrder a b p q := by
  have hself := herror d (.refl d)
  have hrejected := rejection?_of_error hself
  have hafter : d.after a = d := after_of_error hself
  have hboth : (d.after a).after b = (d.after b).after a := by
    rw [hafter, after_of_error (herror _ hroll)]
  exact
    { answer_left := (rejection?_of_error (herror _ hroll)).trans hrejected.symm
      answer_right := by rw [hafter]
      document := fun s => by rw [hboth]
      status_ne_iff := by
        rw [hboth]
        refine iff_of_false (fun h => h rfl) ?_
        rintro (h | h)
        · exact absurd (hrejected.symm.trans h.accepted.1) nofun
        · exact absurd (hrejected.symm.trans h.accepted.2) nofun
      original_left := fun h => absurd (hrejected.symm.trans h.accepted.1) nofun
      original_right := fun h => absurd (hrejected.symm.trans h.accepted.2) nofun }

/-- To look at the two attempts the other way round is to say the same. -/
theorem InEitherOrder.symm (h : d.InEitherOrder b a q p) : d.InEitherOrder a b p q where
  answer_left := h.answer_right
  answer_right := h.answer_left
  document s := (h.document s).symm
  status_ne_iff := by
    rw [ne_comm, h.status_ne_iff, or_comm]
  original_left hinges := (h.original_right hinges).symm
  original_right hinges := (h.original_left hinges).symm

section

variable {k l : Seat} {x y : AttorneyStatus × Appointment}

/-- The document after two have left by attempts. -/
theorem Leaves.after_after (h : d.Leaves a p k x) (h' : d.Leaves b q l y) :
    (d.after a).after b = (((d.vacate k).afterLeaving x.2).vacate l).afterLeaving y.2 := by
  rw [h.after (.refl d), h'.after (sameRoll_leaving k x.2)]

/-- The order hinges on those who leave as it counts for their seats. -/
theorem Leaves.hinges_iff (h : d.Leaves a p k x) (h' : d.Leaves b q l y) (hkl : k ≠ l) :
    d.Hinges a b p q ↔ (d.SurvivesBoth k l x.2 y.2 ∧ ¬ d.SurvivesBoth l k y.2 x.2) ∧
      d.status ≠ .cannotRegister := by
  have hactive : ((d.after a).after b).activeCount = ((d.vacate k).vacate l).activeCount := by
    rw [h.after_after h', afterLeaving_both]
    rfl
  rw [survivesBoth_iff hkl h.standing h'.standing, ← hactive]
  constructor
  · intro hinges
    obtain ⟨k', s, hk', hs⟩ := hinges.original
    obtain rfl : k = k' := Option.some.inj (h.seat.symm.trans hk')
    obtain rfl : x = (s, .original) := Option.some.inj (h.standing.symm.trans hs)
    obtain ⟨l', hl', hstepIn⟩ := hinges.replacement
    obtain rfl : l = l' := Option.some.inj (h'.seat.symm.trans hl')
    have hy : y = (.inactive, .replacement) := Option.some.inj (h'.standing.symm.trans hstepIn)
    exact ⟨⟨rfl, hy, hinges.last, hinges.jointly, hinges.others⟩, hinges.undecided⟩
  · rintro ⟨⟨horiginal, rfl, hlast, hjointly, hothers⟩, hundecided⟩
    exact
      { accepted := ⟨rejection?_of_ok (h.submit_eq d (.refl d)), rejection?_of_ok (h'.submit_eq d (.refl d))⟩
        original := ⟨k, x.1, h.seat, horiginal ▸ h.standing⟩
        replacement := ⟨l, h'.seat, h'.standing⟩
        last := hlast
        jointly := hjointly
        others := hothers
        undecided := hundecided }

/-- If the others can act with one order and not with the other, the status depends on it. -/
theorem Leaves.status_of_hinges (h : d.Leaves a p k x) (h' : d.Leaves b q l y) (hkl : k ≠ l)
    (hinges : d.Hinges a b p q) :
    ((d.after a).after b).status = d.status ∧ ((d.after b).after a).status = .cannotRegister := by
  obtain ⟨⟨hsurvives, hfails⟩, _⟩ := (h.hinges_iff h' hkl).mp hinges
  rw [h.after_after h', h'.after_after h]
  exact ⟨status_of_survivesBoth hsurvives, status_of_not_survivesBoth hfails⟩

/-- Two parties leave from two seats. -/
theorem Leaves.eitherOrder (h : d.Leaves a p k x) (h' : d.Leaves b q l y) (hkl : k ≠ l) :
    d.InEitherOrder a b p q where
  answer_left := by
    rw [rejection?_of_ok (h.submit_eq d (.refl d)), h'.after (.refl d)]
    exact rejection?_of_ok (h.submit_eq _ (sameRoll_leaving l y.2))
  answer_right := by
    rw [rejection?_of_ok (h'.submit_eq d (.refl d)), h.after (.refl d)]
    exact rejection?_of_ok (h'.submit_eq _ (sameRoll_leaving k x.2))
  document s := by
    rw [h.after_after h', h'.after_after h, afterLeaving_both, afterLeaving_both, vacate_comm hkl]
  status_ne_iff := by
    constructor
    · -- The statuses differ only if one order keeps the status and the other does not.
      intro hne
      rw [h.hinges_iff h' hkl, h'.hinges_iff h hkl.symm]
      rw [h.after_after h', h'.after_after h] at hne
      by_cases hfirst : d.SurvivesBoth k l x.2 y.2
      · by_cases hsecond : d.SurvivesBoth l k y.2 x.2
        · exact absurd ((status_of_survivesBoth hfirst).trans (status_of_survivesBoth hsecond).symm) hne
        · rw [status_of_survivesBoth hfirst, status_of_not_survivesBoth hsecond] at hne
          exact Or.inl ⟨⟨hfirst, hsecond⟩, hne⟩
      · by_cases hsecond : d.SurvivesBoth l k y.2 x.2
        · rw [status_of_not_survivesBoth hfirst, status_of_survivesBoth hsecond] at hne
          exact Or.inr ⟨⟨hsecond, hfirst⟩, hne.symm⟩
        · exact absurd
            ((status_of_not_survivesBoth hfirst).trans (status_of_not_survivesBoth hsecond).symm) hne
    · rintro (hinges | hinges)
      · obtain ⟨hkept, hlost⟩ := h.status_of_hinges h' hkl hinges
        rw [hkept, hlost]
        exact hinges.undecided
      · obtain ⟨hkept, hlost⟩ := h'.status_of_hinges h hkl.symm hinges
        rw [hkept, hlost]
        exact hinges.undecided.symm
  original_left := h.status_of_hinges h' hkl
  original_right hinges := (h'.status_of_hinges h hkl.symm hinges).symm

end

/-- **The order of two opt-outs counts in one case only**: if an original leaves and the last replacement,
    and only for the status of the document. -/
theorem inEitherOrder (d : Document) (ha : a.leaver? = some p) (hb : b.leaver? = some q) (hne : p ≠ q) :
    d.InEitherOrder a b p q := by
  rcases submit_of_leaver ha d with ⟨errors, herror⟩ | ⟨k, x, hleaves⟩
  · exact inEitherOrder_of_error herror (sameRoll_after hb d)
  · rcases submit_of_leaver hb d with ⟨errors, herror⟩ | ⟨l, y, hleaves'⟩
    · exact (inEitherOrder_of_error herror (sameRoll_after ha d)).symm
    · refine hleaves.eitherOrder hleaves' fun hkl => hne ?_
      exact OptOut.seat?_inj hleaves.seat (hkl ▸ hleaves'.seat)

/-! ## The case -/

/-- Two originals who decide jointly, with someone to step in for them. No one has signed. -/
def ofReplacement : Document :=
  { ofTwoAttorneys with
    attorneys := [
      ⟨"a", "Bo", "Bell", none, "", "", {}, .active, .original, .paper, none, none, false⟩,
      ⟨"b", "Cy", "Cole", none, "", "", {}, .active, .original, .paper, none, none, false⟩,
      ⟨"r", "Ed", "Eden", none, "", "", {}, .inactive, .replacement, .paper, none, none, false⟩]
    decisions := { ofTwoAttorneys.decisions with attorneysDecide := some .jointly } }

/-- An original and the one who could have stepped in. -/
theorem inEitherOrder_ofReplacement :
    (Attempt.ofOptOut "a").leaver? = some (.attorney "a") ∧
      (Attempt.ofOptOut "r").leaver? = some (.attorney "r") ∧
      OptOut.attorney "a" ≠ .attorney "r" ∧
      ofReplacement.InEitherOrder (.ofOptOut "a") (.ofOptOut "r") (.attorney "a") (.attorney "r") := by
  have ha : (Attempt.ofOptOut "a").leaver? = some (.attorney "a") := by decide +kernel
  have hr : (Attempt.ofOptOut "r").leaver? = some (.attorney "r") := by decide +kernel
  have hne : OptOut.attorney "a" ≠ .attorney "r" := by decide
  exact ⟨ha, hr, hne, inEitherOrder ofReplacement ha hr hne⟩

/-- They leave a document in progress or one that cannot be registered, so opt-outs do not commute. -/
theorem not_forall_after_comm :
    ¬ ∀ (d : Document) (a b : Attempt) (p q : OptOut), a.leaver? = some p → b.leaver? = some q →
      p ≠ q → (d.after b).rejection? a = d.rejection? a ∧ (d.after a).rejection? b = d.rejection? b ∧
        (d.after a).after b = (d.after b).after a := by
  intro h
  have hcomm := (h ofReplacement (.ofOptOut "a") (.ofOptOut "r") (.attorney "a") (.attorney "r")
    (by decide +kernel) (by decide +kernel) (by decide)).2.2
  have hne : ((ofReplacement.after (.ofOptOut "a")).after (.ofOptOut "r")).status ≠
      ((ofReplacement.after (.ofOptOut "r")).after (.ofOptOut "a")).status := by decide +kernel
  exact hne (congrArg Document.status hcomm)

end Document

end PowerOfAttorney
