import PowerOfAttorney.Proofs.Cbor.RoundTrip
import PowerOfAttorney.Proofs.Register.Outcome
import PowerOfAttorney.Register.InPlace

/-!
# `PowerOfAttorney.Proofs.Register.CompareAndSet` — writing an update happens as a whole, and once

An update is written by a transaction that can break off in three places, all before the first of its two
writes. So it writes both keys or none. What is compared is read from the bytes on record: after a
write these are the bytes of a document, and no time is read from them but the one that was written. So those
who expect the same version and bring another one exclude each other, whoever comes first.

## Contents
- **Records.** `Update.IsRecordable`.
- **Transactions.** `Store.run_compareAndSet`: on the store itself the transaction does what
  `Store.putChanges` does.
- **Calls.** `Store.successes` of calls one after another; none after the version has moved on.
- **Compare and set.** `Store.compareAndSet_excludes`.
-/

namespace PowerOfAttorney

/-! ## Records -/

/-- The record of an update can be encoded: its time can, if it has one, and its lengths fit 64 bits. -/
def Update.IsRecordable (u : Update) : Prop :=
  (∀ t ∈ u.applied, t.cbor?.isSome = true) ∧ (AuditRecord.ofUpdate u).fits = true

theorem Update.isRecordable_iff {u : Update} :
    u.IsRecordable ↔ ∃ record, (AuditRecord.ofUpdate u).encode? = some record := by
  rw [AuditRecord.encode?_eq_bind]
  constructor
  · rintro ⟨htime, hfits⟩
    obtain ⟨applied, happlied⟩ : ∃ applied, AuditRecord.encodeApplied? u.applied = some applied := by
      cases hat : u.applied with
      | none => exact ⟨_, rfl⟩
      | some t => exact Option.isSome_iff_exists.mp (htime t hat)
    exact ⟨_, by rw [show (AuditRecord.ofUpdate u).applied = u.applied from rfl, happlied,
      Option.bind_some, if_pos hfits]⟩
  · rintro ⟨record, hrecord⟩
    obtain ⟨applied, happlied, hencoded⟩ := Option.bind_eq_some_iff.mp hrecord
    obtain ⟨hfits, _⟩ := Option.ite_none_right_eq_some.mp hencoded
    refine ⟨fun t ht => ?_, hfits⟩
    rw [show (AuditRecord.ofUpdate u).applied = some t from ht] at happlied
    exact Option.isSome_iff_exists.mpr ⟨applied, happlied⟩

namespace Store

variable {s : Store} {d : Document} {u : Update} {expected : Option Instant} {uid : String}

/-! ## Transactions -/

/-- What a transaction comes to that leaves the store alone unless it succeeds. -/
def Transaction.wholly (s : Store) : Except StoreError Store → EStateM.Result StoreError Store Unit
  | .ok s' => .ok () s'
  | .error why => .error why s

/-- **On the store itself an update is written as a whole or not at all.** -/
theorem run_compareAndSet (s : Store) (d : Document) (u : Update) (expected : Option Instant) :
    (compareAndSet d u expected).run s = Transaction.wholly s (s.putChanges d u expected) := by
  unfold compareAndSet putChanges
  cases (AuditRecord.ofUpdate u).encode? with
  | none => rfl
  | some record =>
      simp only [EStateM.run, bind, EStateM.bind, pure, EStateM.pure, Transaction.readVersion, Except.bind]
      cases s.version d.uid with
      | error why => rfl
      | ok stored =>
          by_cases hsame : stored = expected
          · simp only [Transaction.attempt, pure, EStateM.pure, ne_eq, not_true, hsame, if_true, if_false]
            rfl
          · simp only [Transaction.attempt, pure, EStateM.pure, ne_eq, hsame, not_false_eq_true, if_true,
              if_false]
            rfl

/-- The transaction breaks off and has written nothing, or the update is written. -/
theorem run_compareAndSet_cases (s : Store) (d : Document) (u : Update) (expected : Option Instant) :
    (∃ why, (compareAndSet d u expected).run s = .error why s) ∨
      ∃ s', (compareAndSet d u expected).run s = .ok () s' ∧ s.putChanges d u expected = .ok s' := by
  rw [run_compareAndSet]
  cases s.putChanges d u expected with
  | error why => exact .inl ⟨why, rfl⟩
  | ok s' => exact .inr ⟨s', rfl, rfl⟩

/-- Without a record the transaction breaks off at once. -/
theorem run_of_not_isRecordable (h : ¬ u.IsRecordable) :
    (compareAndSet d u expected).run s = .error .auditNotEncoded s := by
  rw [run_compareAndSet, putChanges]
  cases hrecord : (AuditRecord.ofUpdate u).encode? with
  | none => rfl
  | some record => exact absurd (Update.isRecordable_iff.mpr ⟨record, hrecord⟩) h

/-- With a record it breaks off if the version that is stored cannot be read. -/
theorem run_of_version_error {why : StoreError} (h : u.IsRecordable)
    (hversion : s.version d.uid = .error why) :
    (compareAndSet d u expected).run s = .error why s := by
  obtain ⟨record, hrecord⟩ := Update.isRecordable_iff.mp h
  rw [run_compareAndSet, putChanges, hrecord]
  dsimp only
  rw [hversion]
  rfl

/-- It breaks off as well if another version is stored. -/
theorem run_of_ne {stored : Option Instant} (h : u.IsRecordable) (hversion : s.version d.uid = .ok stored)
    (hne : stored ≠ expected) : (compareAndSet d u expected).run s = .error (.conflict d.uid) s := by
  obtain ⟨record, hrecord⟩ := Update.isRecordable_iff.mp h
  rw [run_compareAndSet, putChanges, hrecord]
  dsimp only
  rw [hversion]
  show Transaction.wholly s (if stored = expected then _ else _) = _
  rw [if_neg hne]
  rfl

/-! ## Calls -/

/-- A document that brings another version takes the expected one away. -/
theorem version_ne_of_putChanges {s' : Store} (h : s.putChanges d u expected = .ok s')
    (hne : d.updatedAt ≠ expected) : s'.version d.uid ≠ .ok expected := by
  obtain ⟨record, _, _, rfl⟩ := putChanges_eq_ok.mp h
  intro hversion
  exact hne (eq_updatedAt_of_version (read?_documentKey s d u.id record) hversion).symm

/-- How many calls succeed that are made one after another, each on the store as the one before left it. -/
def successes (expected : Option Instant) : Store → List (Document × Update) → Nat
  | _, [] => 0
  | s, (d, u) :: calls =>
    match (compareAndSet d u expected).run s with
    | .ok _ s' => successes expected s' calls + 1
    | .error _ s' => successes expected s' calls

/-- Once the version has moved on, no call succeeds. -/
theorem successes_of_version_ne {calls : List (Document × Update)} (huid : ∀ call ∈ calls, call.1.uid = uid)
    (hversion : s.version uid ≠ .ok expected) : successes expected s calls = 0 := by
  induction calls with
  | nil => rfl
  | cons call calls ih =>
      obtain ⟨d, u⟩ := call
      obtain ⟨hd, hcalls⟩ := List.forall_mem_cons.mp huid
      rw [successes]
      rcases run_compareAndSet_cases s d u expected with ⟨why, hrun⟩ | ⟨s', _, hput⟩
      · rw [hrun]
        exact ih hcalls
      · obtain ⟨_, _, hstored, _⟩ := putChanges_eq_ok.mp hput
        rw [show d.uid = uid from hd] at hstored
        exact absurd hstored hversion

/-- Of calls that expect one version and bring others, one succeeds at most. -/
theorem successes_le_one {calls : List (Document × Update)}
    (h : ∀ call ∈ calls, call.1.uid = uid ∧ call.1.updatedAt ≠ expected) :
    successes expected s calls ≤ 1 := by
  induction calls with
  | nil => exact Nat.zero_le 1
  | cons call calls ih =>
      obtain ⟨d, u⟩ := call
      obtain ⟨⟨hd, hne⟩, hcalls⟩ := List.forall_mem_cons.mp h
      rw [successes]
      rcases run_compareAndSet_cases s d u expected with ⟨why, hrun⟩ | ⟨s', hrun, hput⟩
      · rw [hrun]
        exact ih hcalls
      · -- The first one that succeeds leaves a version that none of the others expects.
        have hversion := version_ne_of_putChanges hput hne
        rw [show d.uid = uid from hd] at hversion
        rw [hrun]
        dsimp only
        rw [successes_of_version_ne (fun call hcall => (hcalls call hcall).1) hversion]

/-! ## Compare and set -/

/-- **An update is written as a whole, where the expected version is stored, and of updates that expect
    the same version and bring others one is written at most.** The record has to have an encoding, then
    the version that is stored has to be readable, then it has to be the expected one; otherwise the call
    fails with the error of the first that is not so, and the store is as before. -/
theorem compareAndSet_atomic (s : Store) (expected : Option Instant) :
    (∀ (d : Document) (u : Update),
      (¬ u.IsRecordable → (compareAndSet d u expected).run s = .error .auditNotEncoded s) ∧
      (u.IsRecordable →
        (∀ bytes why, s.read? (documentKey d.uid) = some bytes →
          Document.version.decodeText (Bytes.jsonText bytes) = .error why →
            (compareAndSet d u expected).run s = .error (.json why) s) ∧
        (∀ stored, s.version d.uid = .ok stored → stored ≠ expected →
          (compareAndSet d u expected).run s = .error (.conflict d.uid) s) ∧
        (s.version d.uid = .ok expected →
          ∃ s' record, (compareAndSet d u expected).run s = .ok () s' ∧
            s'.read? (documentKey d.uid) = some (documentBytes d) ∧
            (AuditRecord.ofUpdate u).encode? = some record ∧
            s'.read? (changeKey d.uid u.id) = some record ∧
            ∀ key, key ≠ documentKey d.uid → key ≠ changeKey d.uid u.id → s'.read? key = s.read? key))) ∧
    (∀ (uid : String) (calls : List (Document × Update)),
      (∀ call ∈ calls, call.1.uid = uid ∧ call.1.updatedAt ≠ expected) → successes expected s calls ≤ 1) := by
  refine ⟨fun d u => ⟨run_of_not_isRecordable, fun hrecordable => ?_⟩, fun uid calls => successes_le_one⟩
  refine ⟨?_, fun stored => run_of_ne hrecordable, ?_⟩
  · intro bytes why hbytes hdecode
    refine run_of_version_error hrecordable ?_
    unfold version decode
    rw [hbytes]
    dsimp only
    rw [hdecode]
    rfl
  · intro hversion
    obtain ⟨record, hrecord⟩ := Update.isRecordable_iff.mp hrecordable
    have hput : s.putChanges d u expected = .ok ((s.put d).write (changeKey d.uid u.id) record) :=
      putChanges_eq_ok.mpr ⟨record, hrecord, hversion, rfl⟩
    refine ⟨_, record, ?_, read?_documentKey s d u.id record, hrecord, read?_changeKey s d u.id record,
      fun key => read?_of_ne s d u.id record⟩
    rw [run_compareAndSet, hput]
    rfl

/-- Two updates are made of one document; the first is written, and so the second is not. -/
theorem compareAndSet_atomic_race :
    let d : Document := { Document.ofTwoAttorneys with updatedAt := some (.ofNanoseconds 1) }
    let u : Update := { Service.removal with id := "0001" }
    (∃ s', (compareAndSet d u none).run Service.oneDocument = .ok () s' ∧
      s'.read? (documentKey "M-1") = some (documentBytes d)) ∧
    successes none Service.oneDocument [(d, u), (d, { u with id := "0002" })] ≤ 1 := by
  intro d u
  have hatomic := compareAndSet_atomic Service.oneDocument none
  have hrecordable : u.IsRecordable := ⟨nofun, by decide +kernel⟩
  obtain ⟨s', _, hrun, hdocument, _⟩ := ((hatomic.1 d u).2 hrecordable).2.2 Service.version_oneDocument
  refine ⟨⟨s', hrun, hdocument⟩, hatomic.2 "M-1" _ ?_⟩
  exact List.forall_mem_cons.mpr ⟨⟨rfl, nofun⟩, List.forall_mem_singleton.mpr ⟨rfl, nofun⟩⟩

end Store

end PowerOfAttorney
