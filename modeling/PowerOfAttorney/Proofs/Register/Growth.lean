import PowerOfAttorney.Proofs.Register.NoLostUpdate

/-!
# `PowerOfAttorney.Proofs.Register.Growth` — identifiers that grow come last

An identifier is given before its update is written, and some updates are never written. Still it is enough
that identifiers grow in the order in which they are given: what has been recorded since the start has been
given since the start, so the next identifier comes after it. So no update is lost in such a course.

## Contents
- **Courses.** `Contention.Course` is a course of steps that keeps the given identifiers in mind, each later
  than those before it.
- **Invariant.** `Contention.Recorded`: what is recorded was there at the start or has been given.
- **Runs.** `Contention.reach_of_course`: such a course is timely. `Contention.isSerial_of_course`: its
  requests might have come one after another.
-/

namespace PowerOfAttorney

namespace Service

/-! ## Courses -/

/-- The identifiers that an event gives. -/
def Event.given : Event → List String
  | .name _ id => [id]
  | _ => []

namespace Contention

/-- An identifier is later than those given before it, and than those of the updates of the document that
    were recorded at the start. Clocks are as in `Contention.Timely`. -/
def Grows (own : String) (s₀ : Store) (given : List String) (t : System) : Event → Prop
  | .read _ => True
  | .rule _ _ appliedAt => appliedAt.IsStorable ∧ some appliedAt ∉ t.carried
  | .name _ id =>
    (∀ id' ∈ given, id' < id) ∧
      ∀ id', (s₀.read? (Store.changeKey own id')).isSome = true → id' < id
  | .write _ => True

/-- What the requests can come to, with the identifiers that have been given on the way. -/
inductive Course (c : Contention) (own : String) (s₀ : Store) : List String → System → Prop
  | start : Course c own s₀ [] (c.start s₀)
  | step {given : List String} {t t' : System} {e : Event} (h : Course c own s₀ given t)
      (hgrows : Grows own s₀ given t e) (hstep : c.step t e = some t') :
      Course c own s₀ (given ++ e.given) t'

/-! ## Invariant -/

/-- What is recorded of the document was there at the start or has been given, and so has what is about to
    be recorded. -/
structure Recorded (own : String) (s₀ : Store) (given : List String) (t : System) : Prop where
  stored : ∀ id, (t.store.read? (Store.changeKey own id)).isSome = true →
    (s₀.read? (Store.changeKey own id)).isSome = true ∨ id ∈ given
  ready : ∀ i o k, t.phase i = .ready o k → o.id ∈ given

variable {c : Contention} {own : String} {s₀ : Store} {given given' : List String} {t t' : System}

theorem recorded_start (c : Contention) : Recorded own s₀ [] (c.start s₀) where
  stored _ h := .inl h
  ready _ _ _ h := absurd h nofun

/-- A request goes on without writing. -/
theorem Recorded.set (h : Recorded own s₀ given t) (hsub : given ⊆ given') {i : Nat} {p : Phase}
    (hp : ∀ o k, p = .ready o k → o.id ∈ given') : Recorded own s₀ given' (t.set i p) := by
  refine ⟨fun id hid => (h.stored id hid).imp_right fun hmem => hsub hmem, fun j o k hj => ?_⟩
  by_cases hij : j = i
  · subst hij
    rw [System.phase_set_self] at hj
    exact hp o k hj
  · rw [System.phase_set_of_ne p hij] at hj
    exact hsub (h.ready j o k hj)

theorem read_ne_ready {i : Nat} {o : Occasion} {k : Commit} : c.read t i ≠ .ready o k := by
  unfold read
  split
  · exact nofun
  · split
    · exact nofun
    · exact nofun

theorem rule_ne_ready {u : Update} {d : Document} {ruledAt appliedAt : Instant} {o : Occasion}
    {k : Commit} : rule u d ruledAt appliedAt ≠ .ready o k := by
  unfold rule
  split
  · exact nofun
  · exact nofun

/-- What is ready to be written bears the identifier that it was given. -/
theorem name_eq_ready {u : Update} {d : Document} {o o' : Occasion} {k : Commit}
    (h : name u d o = .ready o' k) : o' = o := by
  unfold name at h
  split at h
  · exact absurd h nofun
  · cases h
    rfl

/-- A write records nothing but an update that was ready. -/
theorem Recorded.write (h : Recorded own s₀ given t) (hsound : c.Sound own s₀ t) {i : Nat}
    {o : Occasion} {k : Commit} (hphase : t.phase i = .ready o k) :
    Recorded own s₀ given (c.write t i o k) := by
  have hset : Recorded own s₀ given (t.set i (.answered (commit t.store k).1)) :=
    h.set (List.Subset.refl given) fun _ _ heq => absurd heq nofun
  rcases commit_cases t.store k with ⟨hstatus, _⟩ | ⟨hstatus, hstore⟩
  · have hdone := hsound.done hphase hstatus
    obtain ⟨record, _, hstore⟩ := hdone.record
    rw [write_of_eq hstatus]
    refine ⟨fun id hid => ?_, hset.ready⟩
    change ((commit t.store k).2.read? (Store.changeKey own id)).isSome = true at hid
    by_cases hkey : Store.changeKey own id = Store.changeKey own o.id
    · -- The key is the one that was written, so the identifier is the one that was given.
      obtain rfl : id = o.id := Store.changeKey_injective hkey
      exact .inr (h.ready i o k hphase)
    · rw [hstore, Store.read?_of_ne _ _ _ _ (Store.documentKey_ne_changeKey _ _ _).symm
        (by rw [hdone.uid]; exact hkey)] at hid
      exact h.stored id hid
  · rw [write_of_ne hstatus hstore]
    exact hset

/-! ## Runs -/

/-- A step records nothing but what has been given. -/
theorem Recorded.step (h : Recorded own s₀ given t) (hsound : c.Sound own s₀ t) {e : Event}
    (hstep : c.step t e = some t') : Recorded own s₀ (given ++ e.given) t' := by
  have hsub : given ⊆ given ++ e.given := List.subset_append_left _ _
  rcases step_cases hstep with ⟨i, rfl, _, rfl⟩ | ⟨i, u, d, ruledAt, appliedAt, rfl, _, rfl⟩ |
    ⟨i, id, u, d, ruledAt, appliedAt, rfl, _, rfl⟩ | ⟨i, o, k, rfl, hphase, rfl⟩
  · exact h.set hsub fun o k heq => absurd heq read_ne_ready
  · exact h.set hsub fun o k heq => absurd heq rule_ne_ready
  · refine h.set hsub fun o k heq => ?_
    rw [name_eq_ready heq]
    exact List.mem_append_right _ (List.mem_singleton.mpr rfl)
  · show Recorded own s₀ (given ++ []) _
    rw [List.append_nil]
    exact h.write hsound hphase

/-- An identifier that is later than all that have been given comes last. -/
theorem timely_of_grows (h : Recorded own s₀ given t) (hsound : c.Sound own s₀ t) {e : Event}
    (hgrows : Grows own s₀ given t e) : c.Timely t e := by
  cases e with
  | read i => trivial
  | rule i ruledAt appliedAt => exact hgrows
  | name i id =>
      obtain ⟨hgiven, hstart⟩ := hgrows
      intro d hd
      rw [(hsound.named d hd).1]
      refine Store.isLast_of_lt fun id' hid' => ?_
      rcases h.stored id' hid' with hold | hmem
      · exact hstart id' hold
      · exact hgiven id' hmem
  | write i => trivial

/-- **Identifiers that grow are timely**: what can be reached by giving each identifier later than those
    before it can be reached by timely steps. -/
theorem reach_of_course (hown : ∀ d, s₀.get c.uid = .ok d → d.uid = own)
    (h : c.Course own s₀ given t) : c.Reach s₀ t ∧ Recorded own s₀ given t := by
  induction h with
  | start => exact ⟨.start, recorded_start c⟩
  | step _ hgrows hstep ih =>
      obtain ⟨hreach, hrecorded⟩ := ih
      have hsound := sound_of_reach hown hreach
      exact ⟨.step hreach (timely_of_grows hrecorded hsound hgrows) hstep,
        hrecorded.step hsound hstep⟩

/-- **No update is lost where identifiers grow**: requests to a document that is stored under its own uid
    might have come one after another, if each identifier is later than those given before it and than
    those recorded at the start. -/
theorem isSerial_of_course (hown : ∀ d, s₀.get c.uid = .ok d → d.uid = own)
    (h : c.Course own s₀ given t) : c.IsSerial s₀ t :=
  (sound_of_reach hown (reach_of_course hown h).1).isSerial hown

end Contention

end Service

end PowerOfAttorney
