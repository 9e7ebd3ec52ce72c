import PowerOfAttorney.Proofs.Register.Outcome
import PowerOfAttorney.Proofs.Register.Scan

/-!
# `PowerOfAttorney.Proofs.Register.Contention` — requests that contend for one document

Any number of requests to update one document are under way. Each reads the document, has its rules
applied, is given an identifier, and writes; between any two of these the others may come in any order.

## Contents
- **Requests.** `Contention`: a verifier and requests of one uid.
- **States.** `Phase` tells how far a request has come, and `System` is the store with all phases. A system
  also keeps in mind what its store does not: the times the document has carried, and the requests that
  have written, in the order of their writes.
- **Steps.** `Contention.step` on an `Event`, and `Contention.Timely` for what is taken for granted of
  clocks and identifiers. `Contention.Reach` is any course of timely steps.
- **One after another.** `Contention.serially` handles requests without overlap.
- **Progress and inversion.** What a step does from each phase, and `Contention.step_cases`: what a step
  can do.
-/

namespace PowerOfAttorney

namespace Service

/-! ## States -/

/-- Requests to update the document of one uid. -/
structure Contention where
  verify : Verifier
  uid : String
  request : Nat → Request
  uid_request : ∀ i, (request i).uid = uid

/-- How far a request has come. -/
inductive Phase
  | waiting
  /-- The document has been read for an update. -/
  | holding (u : Update) (d : Document)
  /-- The rules have been applied, and the clock has been read. -/
  | ruled (u : Update) (d : Document) (ruledAt appliedAt : Instant)
  /-- All is there to be written. -/
  | ready (o : Occasion) (k : Commit)
  | answered (answer : Response)

/-- What happens next. -/
inductive Event
  | read (i : Nat)
  | rule (i : Nat) (ruledAt appliedAt : Instant)
  | name (i : Nat) (id : String)
  | write (i : Nat)

/-- A store and the requests that are under way. -/
structure System where
  store : Store
  phase : Nat → Phase
  /-- The times of the last change that the document has carried so far. -/
  carried : List (Option Instant)
  /-- The requests that have written, each with its occasion, in the order of their writes. -/
  log : List (Nat × Occasion)

/-- One request goes on. -/
def System.set (t : System) (i : Nat) (p : Phase) : System :=
  { t with phase := fun j => if j = i then p else t.phase j }

@[simp] theorem System.phase_set_self (t : System) (i : Nat) (p : Phase) : (t.set i p).phase i = p :=
  if_pos rfl

@[simp] theorem System.phase_set_of_ne {t : System} {i j : Nat} (p : Phase) (h : j ≠ i) :
    (t.set i p).phase j = t.phase j :=
  if_neg h

/-- The time of the last change of a stored document, if it can be read. -/
def carriedBy (s : Store) (uid : String) : List (Option Instant) :=
  match s.get uid with
  | .ok d => [d.updatedAt]
  | .error _ => []

namespace Contention

variable (c : Contention)

/-- No request has begun. -/
def start (s : Store) : System :=
  ⟨s, fun _ => .waiting, carriedBy s c.uid, []⟩

/-! ## Steps -/

/-- A request reads the document. -/
def read (t : System) (i : Nat) : Phase :=
  match receive c.verify (c.request i) with
  | .error p => .answered p.respond
  | .ok u =>
    match t.store.get (c.request i).uid with
    | .error why => .answered (unread why).respond
    | .ok d => .holding u d

/-- The rules are applied to what a request holds; the clock is read for what passes. -/
def rule (u : Update) (d : Document) (ruledAt appliedAt : Instant) : Phase :=
  match prepare ⟨ruledAt, appliedAt, ""⟩ u (.ok d) with
  | .error p => .answered p.respond
  | .ok _ => .ruled u d ruledAt appliedAt

/-- What has passed the rules is given an identifier. -/
def name (u : Update) (d : Document) (o : Occasion) : Phase :=
  match prepare o u (.ok d) with
  | .error p => .answered p.respond
  | .ok k => .ready o k

/-- A request writes, if the document is still the one that it has read. -/
def write (t : System) (i : Nat) (o : Occasion) (k : Commit) : System :=
  let (answer, s) := commit t.store k
  let done := answer.status = 201
  { t.set i (.answered answer) with
    store := s
    carried := if done then carriedBy s c.uid ++ t.carried else t.carried
    log := if done then t.log ++ [(i, o)] else t.log }

/-- One event, where the request that it concerns has come so far. -/
def step (t : System) : Event → Option System
  | .read i =>
    match t.phase i with
    | .waiting => some (t.set i (c.read t i))
    | _ => none
  | .rule i ruledAt appliedAt =>
    match t.phase i with
    | .holding u d => some (t.set i (rule u d ruledAt appliedAt))
    | _ => none
  | .name i id =>
    match t.phase i with
    | .ruled u d ruledAt appliedAt => some (t.set i (name u d ⟨ruledAt, appliedAt, id⟩))
    | _ => none
  | .write i =>
    match t.phase i with
    | .ready o k => some (c.write t i o k)
    | _ => none

/-- What is taken for granted: a clock gives a storable time that the document has not carried before,
    and a new identifier comes after those of all updates that have been recorded of the document. It is
    enough for this that identifiers grow in the order in which they are given. -/
def Timely (t : System) : Event → Prop
  | .read _ => True
  | .rule _ _ appliedAt => appliedAt.IsStorable ∧ some appliedAt ∉ t.carried
  | .name _ id => ∀ d, t.store.get c.uid = .ok d → t.store.IsLast d.uid id
  | .write _ => True

/-- What the requests can come to, in any order of steps. -/
inductive Reach (s : Store) : System → Prop
  | start : Reach s (c.start s)
  | step {t t' : System} {e : Event} (h : Reach s t) (htimely : c.Timely t e)
      (hstep : c.step t e = some t') : Reach s t'

/-! ## One after another -/

/-- Handles requests without overlap: their answers, and the store after them. -/
def serially (s : Store) (log : List (Nat × Occasion)) : List Response × Store :=
  log.foldl
    (fun (answers, s) (i, o) =>
      let (answer, s) := handle c.verify o (c.request i) s
      (answers ++ [answer], s))
    ([], s)

theorem serially_append (s : Store) (log : List (Nat × Occasion)) (i : Nat) (o : Occasion) :
    c.serially s (log ++ [(i, o)]) =
      ((c.serially s log).1 ++ [(handle c.verify o (c.request i) (c.serially s log).2).1],
        (handle c.verify o (c.request i) (c.serially s log).2).2) := by
  unfold serially
  rw [List.foldl_append]
  rfl

variable {c}

/-! ## Progress -/

section Progress

variable {t : System} {i : Nat}

theorem step_read (h : t.phase i = .waiting) : c.step t (.read i) = some (t.set i (c.read t i)) := by
  unfold step
  dsimp only
  rw [h]

theorem step_rule {u : Update} {d : Document} {ruledAt appliedAt : Instant}
    (h : t.phase i = .holding u d) :
    c.step t (.rule i ruledAt appliedAt) = some (t.set i (rule u d ruledAt appliedAt)) := by
  unfold step
  dsimp only
  rw [h]

theorem step_name {u : Update} {d : Document} {ruledAt appliedAt : Instant} {id : String}
    (h : t.phase i = .ruled u d ruledAt appliedAt) :
    c.step t (.name i id) = some (t.set i (name u d ⟨ruledAt, appliedAt, id⟩)) := by
  unfold step
  dsimp only
  rw [h]

theorem step_write {o : Occasion} {k : Commit} (h : t.phase i = .ready o k) :
    c.step t (.write i) = some (c.write t i o k) := by
  unfold step
  dsimp only
  rw [h]

end Progress

/-! ## Inversion -/

/-- A step moves one request on, from one phase to the next; the store changes only where a request
    writes. -/
theorem step_cases {t t' : System} {e : Event} (h : c.step t e = some t') :
    (∃ i, e = .read i ∧ t.phase i = .waiting ∧ t' = t.set i (c.read t i)) ∨
    (∃ i u d ruledAt appliedAt, e = .rule i ruledAt appliedAt ∧ t.phase i = .holding u d ∧
      t' = t.set i (rule u d ruledAt appliedAt)) ∨
    (∃ i id u d ruledAt appliedAt, e = .name i id ∧ t.phase i = .ruled u d ruledAt appliedAt ∧
      t' = t.set i (name u d ⟨ruledAt, appliedAt, id⟩)) ∨
    ∃ i o k, e = .write i ∧ t.phase i = .ready o k ∧ t' = c.write t i o k := by
  cases e with
  | read i =>
      unfold step at h
      dsimp only at h
      split at h
      · rename_i hphase
        exact .inl ⟨i, rfl, hphase, (Option.some.inj h).symm⟩
      · exact absurd h nofun
  | rule i ruledAt appliedAt =>
      unfold step at h
      dsimp only at h
      split at h
      · rename_i u d hphase
        exact .inr (.inl ⟨i, u, d, ruledAt, appliedAt, rfl, hphase, (Option.some.inj h).symm⟩)
      · exact absurd h nofun
  | name i id =>
      unfold step at h
      dsimp only at h
      split at h
      · rename_i u d ruledAt appliedAt hphase
        exact .inr (.inr (.inl
          ⟨i, id, u, d, ruledAt, appliedAt, rfl, hphase, (Option.some.inj h).symm⟩))
      · exact absurd h nofun
  | write i =>
      unfold step at h
      dsimp only at h
      split at h
      · rename_i o k hphase
        exact .inr (.inr (.inr ⟨i, o, k, rfl, hphase, (Option.some.inj h).symm⟩))
      · exact absurd h nofun

end Contention

end Service

end PowerOfAttorney
