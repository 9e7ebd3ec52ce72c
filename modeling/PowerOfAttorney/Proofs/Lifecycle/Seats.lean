import Mathlib.Data.List.Basic
import PowerOfAttorney.Proofs.Command.Effect

/-!
# `PowerOfAttorney.Proofs.Lifecycle.Seats` — attorneys and trust corporations under one roof

An attorney and a trust corporation that opt out are removed from two lists, but what is asked of them
and what follows is the same. Here both have a seat, and to opt out is to be refused or to leave a seat
vacant. Which of the two is not for the status of anyone to decide.

## Contents
- **Lists.** A list with one entry altered: what stays as it was, and how many are counted.
- **Seats.** `Seat`, where a party is found, and `Document.vacate`, which removes who sits there.
- **Counts.** `activeCount_vacate` and `replacementCount_vacate`, how many are left.
- **Rolls.** `Roll`, and `Document.SameRoll` of documents with the same parties in any status.
- **Answers.** `Roll.answer`, for attorneys and trust corporations alike; `OptOut.apply_eq`, by which it is
  the answer of an opt-out, and `answer_of_sameRoll`, by which it does not depend on a status.
-/

namespace PowerOfAttorney

/-! ## Lists -/

section

variable {α β : Type} {f : α → β} {g : α → α} {xs ys : List α}

/-- To alter the entry at a place is to replace it. -/
theorem modify_of_getElem? {i : Nat} {x : α} (h : xs[i]? = some x) : xs.modify i g = xs.set i (g x) := by
  rw [List.modify_eq_set_getElem?, h]
  rfl

/-- What is not altered of an entry is not altered of the list. -/
theorem map_modify_of_eq (hg : ∀ x, f (g x) = f x) (i : Nat) (xs : List α) :
    (xs.modify i g).map f = xs.map f := by
  induction xs generalizing i with
  | nil => cases i <;> rfl
  | cons x xs ih =>
      cases i with
      | zero => exact congrArg (· :: xs.map f) (hg x)
      | succ i => exact congrArg (f x :: ·) (ih i)

/-- How many entries are counted when one is altered that does not count any more. -/
theorem countP_map_modify {p : β → Bool} (hg : ∀ x, p (f (g x)) = false) {i : Nat} {x : α}
    (h : xs[i]? = some x) :
    ((xs.modify i g).map f).countP p + (if p (f x) then 1 else 0) = (xs.map f).countP p := by
  induction xs generalizing i with
  | nil => exact absurd h nofun
  | cons y ys ih =>
      cases i with
      | zero =>
          rw [Option.some.inj h, List.modify_zero_cons, List.map_cons, List.map_cons,
            List.countP_cons_of_neg (by simp [hg]), List.countP_cons]
      | succ i =>
          rw [List.modify_succ_cons, List.map_cons, List.map_cons, List.countP_cons, List.countP_cons]
          have hrest := ih (i := i) h
          omega

/-- Different names are found at different places. -/
theorem findIdx?_name_inj {name : α → String} {i : Nat} {uid uid' : String}
    (h : xs.findIdx? (name · == uid) = some i) (h' : xs.findIdx? (name · == uid') = some i) :
    uid = uid' := by
  obtain ⟨_, hfound, _⟩ := List.findIdx?_eq_some_iff_getElem.mp h
  obtain ⟨_, hfound', _⟩ := List.findIdx?_eq_some_iff_getElem.mp h'
  exact (beq_iff_eq.mp hfound).symm.trans (beq_iff_eq.mp hfound')

end

/-! ## Seats -/

/-- Where an attorney or a trust corporation is found. -/
inductive Seat
  | attorney (index : Nat)
  | trustCorporation (index : Nat)
deriving DecidableEq

/-- Where a party that opts out is found. -/
def OptOut.seat? (d : Document) : OptOut → Option Seat
  | .attorney uid => (d.attorneyIndex? uid).map .attorney
  | .trustCorporation uid => (d.trustCorporationIndex? uid).map .trustCorporation
  | .certificateProvider => none

namespace Document

/-- Status and appointment of who sits somewhere. -/
def standing? (d : Document) : Seat → Option (AttorneyStatus × Appointment)
  | .attorney i => d.attorneys[i]?.map fun a => (a.status, a.appointment)
  | .trustCorporation i => d.trustCorporations[i]?.map fun t => (t.status, t.appointment)

/-- The document with who sits somewhere removed. -/
def vacate (d : Document) : Seat → Document
  | .attorney i => { d with attorneys := d.attorneys.modify i fun a => { a with status := .removed } }
  | .trustCorporation i =>
    { d with
      trustCorporations := d.trustCorporations.modify i fun t => { t with status := .removed } }

variable {d e : Document} {k l : Seat} {p q : OptOut} {left left' : Appointment}

/-- It does not matter which of two seats is vacated first. -/
theorem vacate_comm (h : k ≠ l) : (d.vacate k).vacate l = (d.vacate l).vacate k := by
  cases k with
  | attorney i =>
      cases l with
      | attorney j =>
          have hij : i ≠ j := fun hij => h (hij ▸ rfl)
          unfold vacate
          dsimp only
          rw [List.modify_modify_ne _ _ _ hij]
      | trustCorporation j => rfl
  | trustCorporation i =>
      cases l with
      | attorney j => rfl
      | trustCorporation j =>
          have hij : i ≠ j := fun hij => h (hij ▸ rfl)
          unfold vacate
          dsimp only
          rw [List.modify_modify_ne _ _ _ hij]

theorem standing?_vacate_ne (h : k ≠ l) : (d.vacate k).standing? l = d.standing? l := by
  cases k with
  | attorney i =>
      cases l with
      | attorney j =>
          have hij : i ≠ j := fun hij => h (hij ▸ rfl)
          unfold vacate standing?
          dsimp only
          rw [List.getElem?_modify_ne _ _ hij]
      | trustCorporation j => rfl
  | trustCorporation i =>
      cases l with
      | attorney j => rfl
      | trustCorporation j =>
          have hij : i ≠ j := fun hij => h (hij ▸ rfl)
          unfold vacate standing?
          dsimp only
          rw [List.getElem?_modify_ne _ _ hij]

theorem status_vacate (k : Seat) : (d.vacate k).status = d.status := by
  cases k <;> rfl

theorem decidesJointly_vacate (k : Seat) : (d.vacate k).decidesJointly = d.decidesJointly := by
  cases k <;> rfl

/-- The status of the document has nothing to do with its seats. -/
theorem vacate_setStatus (s : Status) (k : Seat) :
    { d with status := s }.vacate k = { d.vacate k with status := s } := by
  cases k <;> rfl

end Document

/-- Two parties who sit on one seat are the same. -/
theorem OptOut.seat?_inj {d : Document} {p q : OptOut} {k : Seat} (hp : p.seat? d = some k)
    (hq : q.seat? d = some k) : p = q := by
  cases p with
  | attorney uid =>
      obtain ⟨i, hi, rfl⟩ := Option.map_eq_some_iff.mp hp
      cases q with
      | attorney uid' =>
          obtain ⟨j, hj, hij⟩ := Option.map_eq_some_iff.mp hq
          rw [Seat.attorney.inj hij] at hj
          exact congrArg OptOut.attorney (findIdx?_name_inj hi hj)
      | trustCorporation uid' =>
          obtain ⟨j, _, hij⟩ := Option.map_eq_some_iff.mp hq
          exact absurd hij nofun
      | certificateProvider => exact absurd hq nofun
  | trustCorporation uid =>
      obtain ⟨i, hi, rfl⟩ := Option.map_eq_some_iff.mp hp
      cases q with
      | attorney uid' =>
          obtain ⟨j, _, hij⟩ := Option.map_eq_some_iff.mp hq
          exact absurd hij nofun
      | trustCorporation uid' =>
          obtain ⟨j, hj, hij⟩ := Option.map_eq_some_iff.mp hq
          rw [Seat.trustCorporation.inj hij] at hj
          exact congrArg OptOut.trustCorporation (findIdx?_name_inj hi hj)
      | certificateProvider => exact absurd hq nofun
  | certificateProvider => exact absurd hp nofun

/-! ## Counts -/

namespace Document

variable {d : Document} {k : Seat} {x : AttorneyStatus × Appointment}

theorem countP_vacate {P : AttorneyStatus × Appointment → Bool} (hP : ∀ left, P (.removed, left) = false)
    (h : d.standing? k = some x) :
    (d.vacate k).standings.countP P + (if P x then 1 else 0) = d.standings.countP P := by
  cases k with
  | attorney i =>
      obtain ⟨a, ha, rfl⟩ := Option.map_eq_some_iff.mp h
      have hcount := countP_map_modify (f := fun a : Attorney => (a.status, a.appointment))
        (g := fun a => { a with status := .removed }) (p := P) (fun a => hP a.appointment) ha
      unfold standings vacate
      dsimp only
      rw [List.countP_append, List.countP_append]
      omega
  | trustCorporation i =>
      obtain ⟨t, ht, rfl⟩ := Option.map_eq_some_iff.mp h
      have hcount := countP_map_modify (f := fun t : TrustCorporation => (t.status, t.appointment))
        (g := fun t => { t with status := .removed }) (p := P) (fun t => hP t.appointment) ht
      unfold standings vacate
      dsimp only
      rw [List.countP_append, List.countP_append]
      omega

/-- How many can act when someone leaves. -/
theorem activeCount_vacate (h : d.standing? k = some x) :
    (d.vacate k).activeCount + (if x.1 = .active then 1 else 0) = d.activeCount := by
  have hcount : (d.vacate k).activeCount + (if x.1 == .active then 1 else 0) = d.activeCount :=
    countP_vacate (P := fun x => x.1 == .active) (fun _ => rfl) h
  simpa only [beq_iff_eq] using hcount

/-- How many can step in when someone leaves. -/
theorem replacementCount_vacate (h : d.standing? k = some x) :
    (d.vacate k).replacementCount + (if x = (.inactive, .replacement) then 1 else 0) =
      d.replacementCount := by
  have hcount : (d.vacate k).replacementCount + (if x == (.inactive, .replacement) then 1 else 0) =
      d.replacementCount :=
    countP_vacate (P := fun x => x == (.inactive, .replacement)) (fun _ => rfl) h
  simpa only [beq_iff_eq] using hcount

end Document

/-! ## Rolls -/

/-- What decides whether an attorney or a trust corporation may leave, and what follows from it. -/
structure Roll where
  uid : String
  appointment : Appointment
  isSigned : Bool

def Attorney.roll (a : Attorney) : Roll :=
  ⟨a.uid, a.appointment, a.signedAt.isSome⟩

def TrustCorporation.roll (t : TrustCorporation) : Roll :=
  ⟨t.uid, t.appointment, t.signatories.any Signatory.isSigned⟩

namespace Document

/-- The same parties have been appointed alike, and the same have signed. -/
structure SameRoll (d e : Document) : Prop where
  attorneys : e.attorneys.map Attorney.roll = d.attorneys.map Attorney.roll
  trustCorporations :
    e.trustCorporations.map TrustCorporation.roll = d.trustCorporations.map TrustCorporation.roll

variable {d e f : Document} {k : Seat} {left : Appointment}

theorem SameRoll.refl (d : Document) : d.SameRoll d :=
  ⟨rfl, rfl⟩

theorem SameRoll.trans (h : d.SameRoll e) (h' : e.SameRoll f) : d.SameRoll f :=
  ⟨h'.attorneys.trans h.attorneys, h'.trustCorporations.trans h.trustCorporations⟩

theorem sameRoll_vacate (k : Seat) : d.SameRoll (d.vacate k) := by
  cases k with
  | attorney i =>
      exact ⟨map_modify_of_eq (f := Attorney.roll) (g := fun a => { a with status := .removed })
        (fun _ => rfl) i d.attorneys, rfl⟩
  | trustCorporation i =>
      exact ⟨rfl, map_modify_of_eq (f := TrustCorporation.roll)
        (g := fun t => { t with status := .removed }) (fun _ => rfl) i d.trustCorporations⟩

/-- The roll is the same when someone has left. -/
theorem sameRoll_leaving (k : Seat) (left : Appointment) :
    d.SameRoll ((d.vacate k).afterLeaving left) := by
  refine (sameRoll_vacate k).trans ?_
  rw [afterLeaving_eq]
  exact ⟨rfl, rfl⟩

end Document

/-! ## Answers -/

/-- The answer to someone who opts out: a refusal, or the seat that becomes vacant and the appointment of
    who sat there. -/
def Roll.answer (uid : String) (seat : Nat → Seat) (notFound leavesSigned : Refusal) (rolls : List Roll) :
    Except Refusal (Seat × Appointment) :=
  match rolls.findIdx? (·.uid == uid) with
  | none => .error notFound
  | some i =>
    match rolls[i]? with
    | none => .error notFound
    | some r => if r.isSigned then .error leavesSigned else .ok (seat i, r.appointment)

theorem Roll.eq_of_answer {uid : String} {seat : Nat → Seat} {notFound leavesSigned : Refusal}
    {rolls : List Roll} {k : Seat} {left : Appointment}
    (h : answer uid seat notFound leavesSigned rolls = .ok (k, left)) :
    ∃ i r, rolls.findIdx? (·.uid == uid) = some i ∧ rolls[i]? = some r ∧ k = seat i ∧
      left = r.appointment := by
  unfold answer at h
  split at h
  · cases h
  · rename_i i hi
    split at h
    · cases h
    · rename_i r hr
      split at h
      · cases h
      · obtain ⟨hk, hleft⟩ := Prod.mk.inj (Except.ok.inj h)
        exact ⟨i, r, hi, hr, hk.symm, hleft.symm⟩

namespace OptOut

variable {d e : Document} {p q : OptOut} {k : Seat} {left : Appointment}

/-- The answer to an attorney or a trust corporation. The certificate provider has no seat. -/
def answer (d : Document) : OptOut → Except Refusal (Seat × Appointment)
  | .attorney uid =>
    Roll.answer uid .attorney .attorneyNotFound .attorneyLeavesSigned (d.attorneys.map Attorney.roll)
  | .trustCorporation uid =>
    Roll.answer uid .trustCorporation .trustCorporationNotFound .trustCorporationLeavesSigned
      (d.trustCorporations.map TrustCorporation.roll)
  | .certificateProvider => .error .certificateProviderLeavesSigned

theorem findIdx?_attorneys (d : Document) (uid : String) :
    (d.attorneys.map Attorney.roll).findIdx? (·.uid == uid) = d.attorneyIndex? uid :=
  List.findIdx?_map

theorem findIdx?_trustCorporations (d : Document) (uid : String) :
    (d.trustCorporations.map TrustCorporation.roll).findIdx? (·.uid == uid) =
      d.trustCorporationIndex? uid :=
  List.findIdx?_map

/-- An opt-out is carried out by its answer. -/
theorem apply_eq (hp : p ≠ .certificateProvider) (d : Document) :
    p.apply d = (p.answer d).map fun vacant => (d.vacate vacant.1).afterLeaving vacant.2 := by
  cases p with
  | attorney uid =>
      show applyAttorney uid d = _
      unfold applyAttorney answer Roll.answer
      dsimp only
      rw [findIdx?_attorneys]
      cases d.attorneyIndex? uid with
      | none => rfl
      | some i =>
          dsimp only
          rw [List.getElem?_map]
          cases hx : d.attorneys[i]? with
          | none => rfl
          | some x =>
              dsimp only [Option.map_some, Attorney.roll]
              split
              · rfl
              · unfold Except.map Document.vacate
                dsimp only
                rw [modify_of_getElem? hx]
  | trustCorporation uid =>
      show applyTrustCorporation uid d = _
      unfold applyTrustCorporation answer Roll.answer
      dsimp only
      rw [findIdx?_trustCorporations]
      cases d.trustCorporationIndex? uid with
      | none => rfl
      | some i =>
          dsimp only
          rw [List.getElem?_map]
          cases hx : d.trustCorporations[i]? with
          | none => rfl
          | some x =>
              dsimp only [Option.map_some, TrustCorporation.roll]
              split
              · rfl
              · unfold Except.map Document.vacate
                dsimp only
                rw [modify_of_getElem? hx]
  | certificateProvider => exact absurd rfl hp

/-- **An opt-out has the same answer whatever the statuses are.** -/
theorem answer_of_sameRoll (h : d.SameRoll e) (p : OptOut) : p.answer e = p.answer d := by
  unfold answer
  rw [h.attorneys, h.trustCorporations]

/-- Who may leave is found where the seat becomes vacant. -/
theorem seat?_of_answer (h : p.answer d = .ok (k, left)) :
    p.seat? d = some k ∧ ∃ s, d.standing? k = some (s, left) := by
  cases p with
  | attorney uid =>
      obtain ⟨i, r, hi, hr, rfl, rfl⟩ := Roll.eq_of_answer h
      rw [findIdx?_attorneys] at hi
      rw [List.getElem?_map] at hr
      obtain ⟨a, ha, rfl⟩ := Option.map_eq_some_iff.mp hr
      refine ⟨Option.map_eq_some_iff.mpr ⟨i, hi, rfl⟩, a.status, ?_⟩
      exact Option.map_eq_some_iff.mpr ⟨a, ha, rfl⟩
  | trustCorporation uid =>
      obtain ⟨i, r, hi, hr, rfl, rfl⟩ := Roll.eq_of_answer h
      rw [findIdx?_trustCorporations] at hi
      rw [List.getElem?_map] at hr
      obtain ⟨t, ht, rfl⟩ := Option.map_eq_some_iff.mp hr
      refine ⟨Option.map_eq_some_iff.mpr ⟨i, hi, rfl⟩, t.status, ?_⟩
      exact Option.map_eq_some_iff.mpr ⟨t, ht, rfl⟩
  | certificateProvider => cases h

end OptOut

end PowerOfAttorney
