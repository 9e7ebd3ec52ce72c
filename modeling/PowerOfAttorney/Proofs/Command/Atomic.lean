import PowerOfAttorney.Command.InPlace
import PowerOfAttorney.Proofs.Operation.Standing
import PowerOfAttorney.Proofs.Script.Yields

/-!
# `PowerOfAttorney.Proofs.Command.Atomic` — a command is carried out as a whole or not at all

A procedure that breaks off leaves behind what it has written. Here each command is shown to look at all
that its rules ask about before it writes anything, and to write only to entries that are there. So
carrying out a command on the document itself comes to what `Command.apply` says, which is a new document
or one broken rule. The command may have been read against another document, since nothing is assumed of it.

## Contents
- **Steps.** What each step does to a document; `Procedure.outcome`, the result that stands for a pure one.
- **Loops.** `forM_check`: a loop of checks refuses what the first broken rule refuses, and writes nothing.
  `forM_writeEntry`: a loop of writes to entries that are there.
- **Commands.** One lemma for each: `carryOut` has the outcome of `apply`.
- **All or nothing.** `Command.carryOut_eq` and `Command.carryOut_allOrNothing`.
-/

namespace PowerOfAttorney

/-! ## Steps -/

namespace Procedure

variable {α β : Type} {d d' : Document}

theorem bind_of_ok {x : Procedure α} {a : α} (h : x d = .ok a d') (f : α → Procedure β) :
    (x >>= f) d = f a d' := by
  show EStateM.bind x f d = _
  unfold EStateM.bind
  rw [h]

theorem bind_of_error {x : Procedure α} {e : Halt} (h : x d = .error e d') (f : α → Procedure β) :
    (x >>= f) d = .error e d' := by
  show EStateM.bind x f d = _
  unfold EStateM.bind
  rw [h]

@[simp] theorem pure_apply (x : α) : (pure x : Procedure α) d = .ok x d := rfl

@[simp] theorem get_bind (f : Document → Procedure β) : (get >>= f) d = f d d := rfl

@[simp] theorem modify_apply (g : Document → Document) :
    (modify g : Procedure PUnit) d = .ok ⟨⟩ (g d) := rfl

@[simp] theorem refuse_apply (why : Refusal) :
    refuse why d = .error (.refused [why.toFieldError]) d := rfl

@[simp] theorem refuse_bind (why : Refusal) (f : Unit → Procedure β) :
    (refuse why >>= f) d = .error (.refused [why.toFieldError]) d := rfl

@[simp] theorem refuseIf_none : refuseIf none = pure () := rfl

@[simp] theorem refuseIf_some (why : Refusal) : refuseIf (some why) = refuse why := rfl

@[simp] theorem writeStatus_apply (next : Status) :
    writeStatus next d = .ok () { d with status := next } := rfl

@[simp] theorem writeStatus_bind (next : Status) (f : Unit → Procedure β) :
    (writeStatus next >>= f) d = f () { d with status := next } := rfl

@[simp] theorem writeCertificateProvider_apply (g : CertificateProvider → CertificateProvider) :
    writeCertificateProvider g d = .ok () { d with certificateProvider := g d.certificateProvider } := rfl

@[simp] theorem writeCertificateProvider_bind (g : CertificateProvider → CertificateProvider)
    (f : Unit → Procedure β) :
    (writeCertificateProvider g >>= f) d =
      f () { d with certificateProvider := g d.certificateProvider } := rfl

/-! ### Entries of lists -/

variable {list : Focus Document (List α)} {i : Nat} {x : α}

theorem readEntry_apply (hx : (list.get d)[i]? = some x) : readEntry list i d = .ok x d := by
  unfold readEntry
  simp only [get_bind, hx]
  rfl

theorem readEntry_eq_error (hx : (list.get d)[i]? = none) : readEntry list i d = .error (.noEntry i) d := by
  unfold readEntry
  simp only [get_bind, hx]
  rfl

theorem writeEntry_apply (hx : (list.get d)[i]? = some x) (f : α → α) :
    writeEntry list i f d = .ok () (list.set ((list.get d).set i (f x)) d) := by
  unfold writeEntry
  rw [bind_of_ok (readEntry_apply hx)]
  rfl

theorem writeEntry_eq_error (hx : (list.get d)[i]? = none) (f : α → α) :
    writeEntry list i f d = .error (.noEntry i) d := by
  unfold writeEntry
  rw [bind_of_error (readEntry_eq_error hx)]

/-- **Two writes to one entry are one write**, also where there is no such entry. -/
theorem writeEntry_writeEntry (hlist : ∀ d, list.LawfulAt d) (i : Nat) (f g : α → α) :
    (do writeEntry list i f; writeEntry list i g) = writeEntry list i (g ∘ f) := by
  funext d
  cases hx : (list.get d)[i]? with
  | none =>
      rw [bind_of_error (writeEntry_eq_error hx f), writeEntry_eq_error hx]
  | some x =>
      have hwritten : (list.get (list.set ((list.get d).set i (f x)) d))[i]? = some (f x) := by
        obtain ⟨hlt, _⟩ := List.getElem?_eq_some_iff.mp hx
        rw [(hlist d).get_set, List.getElem?_set_self hlt]
      rw [bind_of_ok (writeEntry_apply hx f), writeEntry_apply hwritten, writeEntry_apply hx,
        (hlist d).get_set, (hlist d).set_set, List.set_set]
      rfl

end Procedure

@[simp] theorem Focus.attorneys_get (d : Document) : Focus.attorneys.get d = d.attorneys := rfl

@[simp] theorem Focus.attorneys_set (as : List Attorney) (d : Document) :
    Focus.attorneys.set as d = { d with attorneys := as } := rfl

@[simp] theorem Focus.trustCorporations_get (d : Document) :
    Focus.trustCorporations.get d = d.trustCorporations := rfl

@[simp] theorem Focus.trustCorporations_set (ts : List TrustCorporation) (d : Document) :
    Focus.trustCorporations.set ts d = { d with trustCorporations := ts } := rfl

theorem Focus.attorneys_lawful (d : Document) : Focus.attorneys.LawfulAt d :=
  ⟨fun _ => rfl, fun _ _ => rfl, rfl⟩

theorem Focus.trustCorporations_lawful (d : Document) : Focus.trustCorporations.LawfulAt d :=
  ⟨fun _ => rfl, fun _ _ => rfl, rfl⟩

/-- The result of a procedure that stands for a pure one: a refusal leaves the document as it was. -/
def Procedure.outcome (d : Document) : Except Refusal Document → EStateM.Result Halt Document Unit
  | .ok d' => .ok () d'
  | .error why => .error (.refused [why.toFieldError]) d

@[simp] theorem Procedure.outcome_ok (d d' : Document) : outcome d (.ok d') = .ok () d' := rfl

@[simp] theorem Procedure.outcome_error (d : Document) (why : Refusal) :
    outcome d (.error why) = .error (.refused [why.toFieldError]) d := rfl

/-! ## Loops -/

section

variable {α β : Type} {list : Focus Document (List α)} {refusal? : List (Nat × β) → Option Refusal}
  {check : Nat × β → Procedure Unit} {d : Document}

/-- The rules for writes to entries of a list: the first broken rule is found one write after the other,
    a check refuses what breaks the rules of one write, and an entry that may be written is there. -/
structure Procedure.Guards (refusal? : List (Nat × β) → Option Refusal)
    (check : Nat × β → Procedure Unit) (list : Focus Document (List α)) (d : Document) : Prop where
  nil : refusal? [] = none
  cons : ∀ m ms, refusal? (m :: ms) = (refusal? [m]).or (refusal? ms)
  check_eq : ∀ m, check m d = refuseIf (refusal? [m]) d
  there : ∀ m, refusal? [m] = none → m.1 < (list.get d).length

namespace Procedure

/-- **A loop of checks refuses what the first broken rule refuses, and writes nothing.** -/
theorem Guards.forM_check (hguards : Guards refusal? check list d) (ms : List (Nat × β)) :
    forM ms check d = refuseIf (refusal? ms) d := by
  induction ms with
  | nil =>
      rw [hguards.nil]
      rfl
  | cons m ms ih =>
      have hm := hguards.check_eq m
      rw [List.forM_cons, hguards.cons]
      cases hfirst : refusal? [m] with
      | none =>
          rw [hfirst, refuseIf_none, pure_apply] at hm
          rw [bind_of_ok hm, ih, Option.none_or]
      | some why =>
          rw [hfirst, refuseIf_some, refuse_apply] at hm
          rw [bind_of_error hm, Option.some_or, refuseIf_some, refuse_apply]

/-- Where no rule is broken, all entries are there. -/
theorem Guards.all_there (hguards : Guards refusal? check list d) {ms : List (Nat × β)}
    (hnone : refusal? ms = none) : ∀ m ∈ ms, m.1 < (list.get d).length := by
  induction ms with
  | nil =>
      intro m hm
      cases hm
  | cons first rest ih =>
      rw [hguards.cons, Option.or_eq_none_iff] at hnone
      intro m hm
      rcases List.mem_cons.mp hm with rfl | hrest
      · exact hguards.there m hnone.1
      · exact ih hnone.2 m hrest

/-- **A loop of writes moves the entries**, if all of them are there. -/
theorem forM_writeEntry (hlist : ∀ d, list.LawfulAt d) (set : β → α → α) (ms : List (Nat × β))
    (hthere : ∀ m ∈ ms, m.1 < (list.get d).length) :
    forM ms (fun m => writeEntry list m.1 (set m.2)) d =
      .ok () (list.set (moved set ms (list.get d)) d) := by
  -- By induction over the writes, from any document. A write leaves the list as long as it was.
  induction ms generalizing d with
  | nil =>
      show EStateM.Result.ok () d = .ok () (list.set (list.get d) d)
      rw [(hlist d).set_get]
  | cons m ms ih =>
      have hlt : m.1 < (list.get d).length := hthere m List.mem_cons_self
      have hx : (list.get d)[m.1]? = some (list.get d)[m.1] := List.getElem?_eq_getElem hlt
      have hmodify : (list.get d).modify m.1 (set m.2) =
          (list.get d).set m.1 (set m.2 (list.get d)[m.1]) := by
        rw [List.modify_eq_set_getElem?, hx]
        rfl
      have hrest : ∀ m' ∈ ms,
          m'.1 < (list.get (list.set ((list.get d).set m.1 (set m.2 (list.get d)[m.1])) d)).length := by
        intro m' hm'
        rw [(hlist d).get_set, List.length_set]
        exact hthere m' (List.mem_cons_of_mem m hm')
      rw [List.forM_cons, bind_of_ok (writeEntry_apply hx (set m.2)), ih hrest, (hlist d).get_set,
        (hlist d).set_set, ← hmodify]
      rfl

/-- **All entries are looked at before any is written**, so the writes are made all or none. -/
theorem Guards.forM_forM (hguards : Guards refusal? check list d) (hlist : ∀ d, list.LawfulAt d)
    (set : β → α → α) (ms : List (Nat × β)) :
    (forM ms check >>= fun _ => forM ms fun m => writeEntry list m.1 (set m.2) : Procedure Unit) d =
      outcome d ((refusal? ms).elim (.ok (list.set (moved set ms (list.get d)) d)) .error) := by
  have hcheck := hguards.forM_check ms
  cases hrefusal : refusal? ms with
  | some why =>
      rw [hrefusal, refuseIf_some, refuse_apply] at hcheck
      exact bind_of_error hcheck _
  | none =>
      rw [hrefusal, refuseIf_none, pure_apply] at hcheck
      exact (bind_of_ok hcheck _).trans (forM_writeEntry hlist set ms (hguards.all_there hrefusal))

end Procedure

end

/-! ## Commands -/

open Procedure

theorem CertificateProviderSign.carryOut_eq (s : CertificateProviderSign) (d : Document) :
    s.carryOut d = outcome d (s.apply d) := by
  unfold carryOut apply
  by_cases hsigned : d.certificateProvider.signedAt.isSome
  · simp [hsigned]
  · by_cases haddress : s.address.isUnknown
    · simp [hsigned, haddress]
    · simp [hsigned, haddress]

theorem AttorneySign.carryOut_eq (i : Nat) (s : AttorneySign) (d : Document) :
    carryOut i s d = outcome d (s.apply i d) := by
  unfold carryOut apply
  cases ha : d.attorneys[i]? with
  | none => simp [ha]
  | some a =>
      have hentry : (Focus.attorneys.get d)[i]? = some a := ha
      by_cases hsigned : a.signedAt.isSome
      · simp [ha, hsigned]
      · by_cases hmobile : s.mobile.isEmpty
        · simp [ha, hsigned, hmobile, writeEntry_writeEntry Focus.attorneys_lawful,
            writeEntry_apply hentry]
        · simp [ha, hsigned, hmobile, writeEntry_writeEntry Focus.attorneys_lawful,
            writeEntry_apply hentry]

theorem TrustCorporationSign.carryOut_eq (i : Nat) (s : TrustCorporationSign) (d : Document) :
    carryOut i s d = outcome d (s.apply i d) := by
  unfold carryOut apply
  cases ht : d.trustCorporations[i]? with
  | none => simp [ht]
  | some t =>
      have hentry : (Focus.trustCorporations.get d)[i]? = some t := ht
      by_cases hsigned : t.signatories.head?.any Signatory.isSigned
      · simp [ht, hsigned]
      · by_cases hmobile : s.mobile.isEmpty
        · simp [ht, hsigned, hmobile, writeEntry_writeEntry Focus.trustCorporations_lawful,
            writeEntry_apply hentry]
        · simp [ht, hsigned, hmobile, writeEntry_writeEntry Focus.trustCorporations_lawful,
            writeEntry_apply hentry]

/-! ### Opting out -/

theorem Procedure.leave_apply (left : Appointment) (d : Document) :
    leave left d = .ok () (d.afterLeaving left) := by
  unfold leave Document.afterLeaving
  by_cases hothers : d.canRegisterWithout left
  · simp [hothers]
  · simp [hothers]

theorem OptOut.carryOut_eq (party : OptOut) (d : Document) :
    party.carryOut d = outcome d (party.apply d) := by
  cases party with
  | attorney uid =>
      unfold carryOut apply applyAttorney
      cases hi : d.attorneyIndex? uid with
      | none => simp [hi]
      | some i =>
          obtain ⟨a, ha, _⟩ := Document.uid_of_attorneyIndex? hi
          have hentry : (Focus.attorneys.get d)[i]? = some a := ha
          by_cases hsigned : a.signedAt.isSome
          · simp [hi, ha, hsigned, bind_of_ok (readEntry_apply hentry)]
          · simp [hi, ha, hsigned, bind_of_ok (readEntry_apply hentry),
              bind_of_ok (writeEntry_apply hentry _), leave_apply]
  | trustCorporation uid =>
      unfold carryOut apply applyTrustCorporation
      cases hi : d.trustCorporationIndex? uid with
      | none => simp [hi]
      | some i =>
          obtain ⟨t, ht, _⟩ := Document.uid_of_trustCorporationIndex? hi
          have hentry : (Focus.trustCorporations.get d)[i]? = some t := ht
          by_cases hsigned : t.signatories.any Signatory.isSigned
          · simp only [hi, ht, hsigned, get_bind, bind_of_ok (readEntry_apply hentry), if_true,
              refuse_bind, outcome_error]
          · simp only [hi, ht, hsigned, get_bind, bind_of_ok (readEntry_apply hentry),
              bind_of_ok (writeEntry_apply hentry _), leave_apply, if_false, outcome_ok,
              Bool.false_eq_true, Focus.trustCorporations_get, Focus.trustCorporations_set]
  | certificateProvider =>
      unfold carryOut apply
      by_cases hsigned : d.certificateProvider.signedAt.isSome
      · simp [hsigned]
      · simp [hsigned]

/-! ### Lifecycle -/

theorem Procedure.withdraw_eq (d : Document) : withdraw d = outcome d d.withdraw := by
  unfold Procedure.withdraw Document.withdraw
  cases hstatus : d.status <;> simp [hstatus]

theorem Procedure.leaveProgress_eq (next : Status) (early : Refusal) (d : Document) :
    leaveProgress next early d = outcome d (d.leaveProgress next early) := by
  unfold Procedure.leaveProgress Document.leaveProgress
  by_cases hprogress : d.status = .inProgress
  · cases hsigned : d.unsigned? with
    | none => simp [hprogress, hsigned]
    | some first => simp [hprogress, hsigned]
  · simp [hprogress]

theorem Procedure.register_eq (now : Instant) (d : Document) :
    register now d = outcome d (d.register now) := by
  unfold Procedure.register Document.register
  by_cases hwaiting : d.status = .statutoryWaitingPeriod
  · simp [hwaiting]
  · simp [hwaiting]

theorem Procedure.setStatus_eq (next : Status) (d : Document) :
    setStatus next d = outcome d (d.setStatus next) := by
  unfold Procedure.setStatus Document.setStatus
  cases hblocked : Document.blocked? next d.status with
  | none => simp [hblocked]
  | some why => simp [hblocked]

/-! ### Lists -/

theorem ChangeAttorneys.guards (d : Document) : Guards (refusal? d) check Focus.attorneys d where
  nil := rfl
  cons m ms := by
    simp only [refusal?]
    cases d.attorneys[m.1]? with
    | none => rfl
    | some a =>
        dsimp only
        cases blocked? a.status m.2 <;> rfl
  check_eq m := by
    simp only [check, refusal?, get_bind]
    cases d.attorneys[m.1]? with
    | none => rfl
    | some a =>
        dsimp only
        cases blocked? a.status m.2 <;> rfl
  there m hnone := by
    by_contra hout
    have habsent : d.attorneys[m.1]? = none := List.getElem?_eq_none (Nat.le_of_not_lt hout)
    simp [refusal?, habsent] at hnone

theorem ChangeAttorneys.carryOut_eq (c : ChangeAttorneys) (d : Document) :
    c.carryOut d = outcome d (c.apply d) := by
  have hloops := (guards d).forM_forM Focus.attorneys_lawful
    (fun next a => { a with status := next }) c.moves
  refine hloops.trans (congrArg (outcome d) ?_)
  unfold apply
  cases refusal? d c.moves <;> rfl

theorem AttorneyDecisions.guards (d : Document) : Guards (refusal? d) check Focus.attorneys d where
  nil := rfl
  cons m ms := by
    simp only [refusal?]
    cases d.attorneys[m.1]? with
    | none => rfl
    | some a =>
        by_cases hmixed : modeOf d a = some .jointlyForSomeSeverallyForOthers
        · simp [hmixed]
        · simp [hmixed]
  check_eq m := by
    simp only [check, refusal?, get_bind]
    cases d.attorneys[m.1]? with
    | none => rfl
    | some a =>
        by_cases hmixed : modeOf d a = some .jointlyForSomeSeverallyForOthers
        · simp [hmixed]
        · simp [hmixed]
  there m hnone := by
    by_contra hout
    have habsent : d.attorneys[m.1]? = none := List.getElem?_eq_none (Nat.le_of_not_lt hout)
    simp [refusal?, habsent] at hnone

theorem AttorneyDecisions.carryOut_eq (c : AttorneyDecisions) (d : Document) :
    c.carryOut d = outcome d (c.apply d) := by
  have hloops := (guards d).forM_forM Focus.attorneys_lawful
    (fun v a => { a with cannotMakeJointDecisions := v }) c.exceptions
  refine hloops.trans (congrArg (outcome d) ?_)
  unfold apply
  cases refusal? d c.exceptions <;> rfl

/-! ### Corrections -/

section

variable {α β : Type} {amend : β → α → α} {i : Nat} {c : β} {xs : List α}

theorem amendAt_of_none (hx : xs[i]? = none) : amendAt amend (some (i, c)) xs = xs := by
  show xs.modify i (amend c) = xs
  rw [List.modify_eq_set_getElem?, hx]
  rfl

theorem amendAt_of_some {x : α} (hx : xs[i]? = some x) :
    amendAt amend (some (i, c)) xs = xs.set i (amend c x) := by
  show xs.modify i (amend c) = _
  rw [List.modify_eq_set_getElem?, hx]
  rfl

end

/-- What is noted of the attorney that a correction is about. -/
def AttorneyCorrection.noted (target : Option (Nat × AttorneyCorrection)) (now : Instant)
    (attorneys : List Attorney) : List Note :=
  (target.bind fun t => attorneys[t.1]?.map (t.2.notes now)).getD []

/-- An attorney who is not there is not written to, and nothing is noted. -/
theorem AttorneyCorrection.carryOut_apply (target : Option (Nat × AttorneyCorrection)) (now : Instant)
    (d : Document) :
    carryOut target now d =
      .ok (noted target now d.attorneys) { d with attorneys := amendAt amend target d.attorneys } := by
  cases target with
  | none => rfl
  | some t =>
      obtain ⟨i, c⟩ := t
      unfold carryOut noted
      cases ha : d.attorneys[i]? with
      | none =>
          rw [amendAt_of_none ha]
          simp [ha]
      | some a =>
          have hentry : (Focus.attorneys.get d)[i]? = some a := ha
          rw [amendAt_of_some ha]
          simp only [get_bind, ha, bind_of_ok (writeEntry_apply hentry c.amend), pure_apply,
            Focus.attorneys_get, Focus.attorneys_set, Option.bind_some, Option.map_some, Option.getD_some]

theorem TrustCorporationCorrection.carryOut_apply (target : Option (Nat × TrustCorporationCorrection))
    (d : Document) :
    carryOut target d =
      .ok () { d with trustCorporations := amendAt amend target d.trustCorporations } := by
  cases target with
  | none => rfl
  | some t =>
      obtain ⟨i, c⟩ := t
      unfold carryOut
      cases ht : d.trustCorporations[i]? with
      | none =>
          rw [amendAt_of_none ht]
          simp [ht]
      | some t =>
          have hentry : (Focus.trustCorporations.get d)[i]? = some t := ht
          rw [amendAt_of_some ht]
          simp only [get_bind, ht, writeEntry_apply hentry c.amend, Focus.trustCorporations_get,
            Focus.trustCorporations_set]

theorem DonorCorrection.carryOut_apply (c : DonorCorrection) (now : Instant) (d : Document) :
    c.carryOut now d = .ok (c.notes now d.donor) { d with donor := c.amend d.donor } := rfl

theorem CertificateProviderCorrection.carryOut_apply (c : CertificateProviderCorrection) (now : Instant)
    (d : Document) :
    c.carryOut now d = .ok (c.notes now d.certificateProvider)
      { d with certificateProvider := c.amend d.certificateProvider } := rfl

theorem Correction.notes_eq (c : Correction) (now : Instant) (d : Document) :
    c.notes now d = c.donor.notes now d.donor ++ AttorneyCorrection.noted c.attorney now d.attorneys ++
      c.certificateProvider.notes now d.certificateProvider := by
  unfold notes AttorneyCorrection.noted
  cases c.attorney with
  | none => rfl
  | some t => cases ha : d.attorneys[t.1]? <;> simp [ha]

/-- **A correction writes the document as corrected**, part by part. -/
theorem Correction.write_apply (c : Correction) (now : Instant) (d : Document) :
    c.write now d = .ok () (c.amend now d) := by
  unfold write amend
  rw [bind_of_ok (DonorCorrection.carryOut_apply _ _ _),
    bind_of_ok (AttorneyCorrection.carryOut_apply _ _ _),
    bind_of_ok (TrustCorporationCorrection.carryOut_apply _ _),
    bind_of_ok (CertificateProviderCorrection.carryOut_apply _ _ _), notes_eq]
  rfl

theorem Correction.carryOut_eq (c : Correction) (now : Instant) (d : Document) :
    c.carryOut now d = outcome d (c.apply now d) := by
  unfold carryOut apply
  by_cases hregistered : d.status = .registered
  · simp [hregistered]
  · by_cases honline : d.channel = .online
    · cases hmoved : c.movedDate? d with
      | none => simp [hregistered, honline, hmoved, write_apply]
      | some why => simp [hregistered, honline, hmoved]
    · simp [hregistered, honline, write_apply]

theorem RegisteredCorrection.notes_eq (c : RegisteredCorrection) (now : Instant) (d : Document) :
    c.notes now d = c.donor.notes now d.donor ++
      c.certificateProvider.notes now d.certificateProvider ++
      AttorneyCorrection.noted c.attorney now d.attorneys := by
  unfold notes AttorneyCorrection.noted
  cases c.attorney with
  | none => rfl
  | some t => cases ha : d.attorneys[t.1]? <;> simp [ha]

theorem RegisteredCorrection.write_apply (c : RegisteredCorrection) (now : Instant) (d : Document) :
    c.write now d = .ok () (c.amend now d) := by
  unfold write amend
  rw [bind_of_ok (DonorCorrection.carryOut_apply _ _ _),
    bind_of_ok (CertificateProviderCorrection.carryOut_apply _ _ _),
    bind_of_ok (AttorneyCorrection.carryOut_apply _ _ _), notes_eq]
  rfl

theorem RegisteredCorrection.carryOut_eq (c : RegisteredCorrection) (now : Instant) (d : Document) :
    c.carryOut now d = outcome d (c.apply now d) := by
  unfold carryOut apply
  by_cases hbirth : c.donor.dateOfBirth = d.donor.dateOfBirth
  · simp [hbirth, write_apply]
  · simp [hbirth]

/-! ### Particulars -/

theorem AttorneyAccess.carryOut_eq (i : Nat) (email : String) (d : Document) :
    carryOut i email d = outcome d (apply i email d) := by
  unfold carryOut apply
  cases ha : d.attorneys[i]? with
  | none => simp [ha]
  | some a =>
      have hentry : (Focus.attorneys.get d)[i]? = some a := ha
      by_cases hpaper : a.channel = .paper
      · simp [ha, hpaper, writeEntry_apply hentry]
      · simp [ha, hpaper]

theorem CertificateProviderAccess.carryOut_eq (email : String) (d : Document) :
    carryOut email d = outcome d (apply email d) := by
  unfold carryOut apply
  by_cases hpaper : d.certificateProvider.channel = .paper
  · simp [hpaper]
  · simp [hpaper]

theorem SeverRestrictions.carryOut_eq (wording : String) (now : Instant) (d : Document) :
    carryOut wording now d = .ok () (apply now wording d) := by
  rfl

theorem ConfirmIdentity.carryOut_eq (c : ConfirmIdentity) (d : Document) :
    c.carryOut d = outcome d (c.apply d) := by
  unfold carryOut apply
  cases hkind : c.kind with
  | none => simp
  | some kind =>
      cases hcheckedAt : c.checkedAt with
      | none => simp
      | some checkedAt => simp

/-! ## All or nothing -/

namespace Command

/-- **Carrying out a command on the document comes to applying it**: no entry is missing, and where the
    command is refused the document is as it was. -/
theorem carryOut_eq (c : Command) (now : Instant) (d : Document) :
    c.carryOut now d = outcome d (c.apply now d) := by
  cases c with
  | certificateProviderSign s => exact s.carryOut_eq d
  | attorneySign i s => exact s.carryOut_eq i d
  | trustCorporationSign i s => exact s.carryOut_eq i d
  | optOut party => exact party.carryOut_eq d
  | withdraw => exact withdraw_eq d
  | makePerfect => exact leaveProgress_eq .perfect .perfectNotInProgress d
  | beginWaiting => exact leaveProgress_eq .statutoryWaitingPeriod .waitNotInProgress d
  | register => exact register_eq now d
  | setStatus next => exact setStatus_eq next d
  | correct c => exact c.carryOut_eq now d
  | correctRegistered c => exact c.carryOut_eq now d
  | decideJointly c => exact c.carryOut_eq d
  | changeAttorneys c => exact c.carryOut_eq d
  | attorneyAccess i email => exact AttorneyAccess.carryOut_eq i email d
  | certificateProviderAccess email => exact CertificateProviderAccess.carryOut_eq email d
  | severRestrictions wording => exact SeverRestrictions.carryOut_eq wording now d
  | confirmIdentity c => exact c.carryOut_eq d

/-- Whether a command is refused, and why, does not depend on the time. -/
theorem apply_eq_error_of {c : Command} {now : Instant} {d : Document} {why : Refusal}
    (h : c.apply now d = .error why) (later : Instant) : c.apply later d = .error why := by
  cases c with
  | register =>
      change d.register now = .error why at h
      show d.register later = .error why
      unfold Document.register at *
      by_cases hwaiting : d.status = .statutoryWaitingPeriod
      · simp [hwaiting] at h
      · simpa [hwaiting] using h
  | correct c =>
      change c.apply now d = .error why at h
      show c.apply later d = .error why
      unfold Correction.apply at *
      by_cases hregistered : d.status = .registered
      · simpa [hregistered] using h
      · cases hmoved : (if d.channel = .online then c.movedDate? d else none) with
        | none => simp [hregistered, hmoved] at h
        | some first => simpa [hregistered, hmoved] using h
  | correctRegistered c =>
      change c.apply now d = .error why at h
      show c.apply later d = .error why
      unfold RegisteredCorrection.apply at *
      by_cases hbirth : c.donor.dateOfBirth = d.donor.dateOfBirth
      · simp [hbirth] at h
      · simpa [hbirth] using h
  | severRestrictions wording => cases h
  | _ => exact h

/-- **A command is carried out as a whole or not at all**, whatever document it was read against. Either
    it succeeds, or there is one error, the document is as it was in every field, and carrying the
    command out again gives the same error and again leaves the document as it was. -/
theorem carryOut_allOrNothing (c : Command) (now : Instant) (d : Document) :
    (∃ d', c.carryOut now d = .ok () d' ∧ c.apply now d = .ok d') ∨
      ∃ why, c.apply now d = .error why ∧
        ∃ d', c.carryOut now d = .error (.refused [why.toFieldError]) d' ∧ d' = d ∧
          ∀ later, c.carryOut later d' = .error (.refused [why.toFieldError]) d' := by
  cases happly : c.apply now d with
  | ok d' =>
      refine Or.inl ⟨d', ?_, rfl⟩
      rw [carryOut_eq, happly, outcome_ok]
  | error why =>
      refine Or.inr ⟨why, rfl, d, ?_, rfl, ?_⟩
      · rw [carryOut_eq, happly, outcome_error]
      · intro later
        rw [carryOut_eq, apply_eq_error_of happly later, outcome_error]

end Command

end PowerOfAttorney
