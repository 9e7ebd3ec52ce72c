import PowerOfAttorney.Proofs.Lifecycle.Run

/-!
# `PowerOfAttorney.Proofs.Lifecycle.Status` — the status of a document only moves forward

Each status has a rank, and every update that is accepted leaves the status alone or moves it to one of
higher rank. So a status that has been left is not returned to, and since registration has a rank of its
own a document is registered once at most.

## Contents
- **Moves.** `Status.Moves`, the ways a command moves the status, and `Command.Effect.moves`.
- **Ranks.** `Status.rank` and `Moves.rank_lt`, and over a run `rank_of_run` and `status_run_ne`.
- **Registration.** `registrationDate_of_effect`: one command writes the date; `countP_register_le`.
- **The whole.** `Document.GoesForward` and `goesForward`.
-/

namespace PowerOfAttorney

/-! ## Moves -/

/-- A command moves the status of a document from one to another. -/
inductive Status.Moves : Command → Status → Status → Prop
  | optOut (party : OptOut) (s : Status) : Moves (.optOut party) s .cannotRegister
  | withdraw {s : Status} (hwithdrawn : s ≠ .withdrawn) (hregistered : s ≠ .registered)
      (hcannotRegister : s ≠ .cannotRegister) : Moves .withdraw s .withdrawn
  | makePerfect : Moves .makePerfect .inProgress .perfect
  | beginWaiting : Moves .beginWaiting .inProgress .statutoryWaitingPeriod
  | register : Moves .register .statutoryWaitingPeriod .registered
  | setStatus {s next : Status} (hallowed : Document.blocked? next s = none) :
      Moves (.setStatus next) s next

/-- A party that leaves moves the status or not. -/
theorem Document.status_afterLeaving (d : Document) (left : Appointment) :
    (d.afterLeaving left).status = d.status ∨ (d.afterLeaving left).status = .cannotRegister := by
  rw [afterLeaving_eq]
  exact ite_eq_or_eq _ _ _

/-- **A command leaves the status alone or moves it.** -/
theorem Command.Effect.moves {now : Instant} {d d' : Document} {c : Command}
    (h : c.Effect now d d') : d'.status = d.status ∨ Status.Moves c d.status d'.status := by
  cases h with
  | attorneyOptOut _ _ _ =>
      refine (Document.status_afterLeaving _ _).imp id fun hleft => ?_
      rw [hleft]
      exact .optOut _ _
  | trustCorporationOptOut _ _ _ =>
      refine (Document.status_afterLeaving _ _).imp id fun hleft => ?_
      rw [hleft]
      exact .optOut _ _
  | certificateProviderOptOut _ => exact Or.inr (.optOut _ _)
  | withdraw hwithdrawn hregistered hcannotRegister =>
      exact Or.inr (.withdraw hwithdrawn hregistered hcannotRegister)
  | makePerfect hprogress _ => exact Or.inr (hprogress ▸ .makePerfect)
  | beginWaiting hprogress _ => exact Or.inr (hprogress ▸ .beginWaiting)
  | register hwaiting => exact Or.inr (hwaiting ▸ .register)
  | setStatus hallowed => exact Or.inr (.setStatus hallowed)
  | confirmIdentity _ _ =>
      unfold CheckedParty.record
      split <;> exact Or.inl rfl
  | _ => exact Or.inl rfl

/-! ## Ranks -/

namespace Status

/-- How far a status is from the beginning. -/
def rank : Status → Nat
  | .inProgress => 0
  | .perfect | .statutoryWaitingPeriod => 1
  | .registered | .doNotRegister => 2
  | .cancelled | .expired => 3
  | .withdrawn => 4
  | .cannotRegister => 5

/-- **A move to another status is one to a higher rank.** -/
theorem Moves.rank_lt {c : Command} {s s' : Status} (h : Moves c s s') (hne : s' ≠ s) :
    s.rank < s'.rank := by
  cases h with
  | optOut party =>
      revert hne
      cases s <;> decide
  | withdraw hwithdrawn hregistered hcannotRegister =>
      revert hwithdrawn hregistered hcannotRegister
      cases s <;> decide
  | makePerfect => decide
  | beginWaiting => decide
  | register => decide
  | setStatus hallowed =>
      revert hne hallowed
      cases s <;> cases s' <;> decide

end Status

/-! Which moves there are to a status and from one. -/

namespace Status.Moves

variable {c : Command} {s s' : Status}

theorem not_inProgress : ¬ Moves c s .inProgress := by
  intro h
  cases h with
  | setStatus hallowed =>
      revert hallowed
      cases s <;> decide

theorem of_perfect (h : Moves c s .perfect) : s = .inProgress := by
  cases h with
  | makePerfect => rfl
  | setStatus hallowed =>
      revert hallowed
      cases s <;> decide

theorem of_statutoryWaitingPeriod (h : Moves c s .statutoryWaitingPeriod) : s = .inProgress := by
  cases h with
  | beginWaiting => rfl
  | setStatus hallowed =>
      revert hallowed
      cases s <;> decide

theorem of_registered (h : Moves c s .registered) : c = .register := by
  cases h with
  | register => rfl
  | setStatus hallowed =>
      exfalso
      revert hallowed
      cases s <;> decide

theorem eq_cannotRegister (h : Moves c .cannotRegister s') : s' = .cannotRegister := by
  cases h with
  | optOut party => rfl
  | withdraw _ _ hcannotRegister => exact absurd rfl hcannotRegister
  | setStatus hallowed =>
      revert hallowed
      cases s' <;> decide

end Status.Moves

namespace Document

variable {d d' : Document} {a : Attempt}

/-- A status that a document comes to is one that it had, or one that an accepted attempt moves it
    to. -/
theorem moves_of_after {s : Status} (h : (d.after a).status = s) :
    d.status = s ∨ ∃ c : Command, d.Accepts a c.operation ∧ Status.Moves c d.status s := by
  subst h
  rcases d.submit_after_or a with hok | ⟨_, hsame⟩
  · obtain ⟨c, hop, _, heffect⟩ := effect_of_submit hok
    exact heffect.moves.imp Eq.symm fun hmoves => ⟨c, ⟨hop, _, hok⟩, hmoves⟩
  · exact Or.inl (by rw [hsame])

/-- An attempt leaves the status alone or raises its rank. -/
theorem rank_of_after (d : Document) (a : Attempt) :
    (d.after a).status = d.status ∨ d.status.rank < (d.after a).status.rank := by
  by_cases hsame : (d.after a).status = d.status
  · exact Or.inl hsame
  · rcases moves_of_after rfl with hsame' | ⟨c, _, hmoves⟩
    · exact absurd hsame'.symm hsame
    · exact Or.inr (hmoves.rank_lt hsame)

/-- A run leaves the status alone or raises its rank. -/
theorem rank_of_run (d : Document) (as : List Attempt) :
    (d.run as).status = d.status ∨ d.status.rank < (d.run as).status.rank := by
  refine run_induction (P := fun e => e.status = d.status ∨ d.status.rank < e.status.rank)
    (fun e a he => ?_) (Or.inl rfl) as
  rcases e.rank_of_after a with hsame | hlt
  · rwa [hsame]
  · rcases he with heq | hlt'
    · exact Or.inr (heq ▸ hlt)
    · exact Or.inr (Nat.lt_trans hlt' hlt)

/-- **A status that has been left is not returned to.** -/
theorem status_run_ne {as : List Attempt} (hleft : (d.run as).status ≠ d.status)
    (bs : List Attempt) : (d.run (as ++ bs)).status ≠ d.status := by
  have hlt := (d.rank_of_run as).resolve_left hleft
  intro hback
  rw [run_append] at hback
  rcases (d.run as).rank_of_run bs with hsame | hlt'
  · exact hleft (hsame.symm.trans hback)
  · rw [hback] at hlt'
    omega

/-! ## Registration -/

/-- Registration writes the date of registration, and nothing else does. -/
theorem registrationDate_of_effect {now : Instant} {c : Command} (h : c.Effect now d d') :
    d'.registrationDate = d.registrationDate ∨ c = .register := by
  cases h with
  | attorneyOptOut _ _ _ => exact Or.inl (by rw [afterLeaving_eq])
  | trustCorporationOptOut _ _ _ => exact Or.inl (by rw [afterLeaving_eq])
  | register _ => exact Or.inr rfl
  | confirmIdentity _ _ =>
      unfold CheckedParty.record
      split <;> exact Or.inl rfl
  | _ => exact Or.inl rfl

/-- An accepted registration takes a document from its waiting period to being registered. -/
theorem status_of_register (hop : a.operation? = some .register) (h : d.submit a = .ok d') :
    d.status = .statutoryWaitingPeriod ∧ d'.status = .registered ∧
      d'.registrationDate = some a.now := by
  obtain ⟨c, hc, hread, heffect⟩ := effect_of_submit h
  rw [hop, Option.some.injEq] at hc
  rw [← hc] at hread
  obtain rfl := (Prod.mk.inj hread).1
  cases heffect with
  | register hwaiting => exact ⟨hwaiting, rfl, rfl⟩

/-- A document that has been registered, or has gone as far in another way, is not registered again. -/
theorem countP_register_of_rank (hrank : 2 ≤ d.status.rank) (as : List Attempt) :
    (d.accepted as).countP (fun a => a.operation? = some .register) = 0 := by
  induction as generalizing d with
  | nil => rfl
  | cons a as ih =>
      rcases d.submit_after_or a with hok | ⟨⟨errors, herror⟩, _⟩
      · rw [accepted_cons_of_ok hok, List.countP_cons_of_neg]
        · refine ih ?_
          rcases d.rank_of_after a with hsame | hlt
          · rwa [hsame]
          · omega
        · intro hop
          rw [(status_of_register (of_decide_eq_true hop) hok).1] at hrank
          exact absurd hrank (by decide)
      · rw [accepted_cons_of_error herror]
        exact ih hrank

/-- **A document is registered at most once.** -/
theorem countP_register_le (d : Document) (as : List Attempt) :
    (d.accepted as).countP (fun a => a.operation? = some .register) ≤ 1 := by
  induction as generalizing d with
  | nil => exact Nat.zero_le 1
  | cons a as ih =>
      rcases d.submit_after_or a with hok | ⟨⟨errors, herror⟩, _⟩
      · rw [accepted_cons_of_ok hok]
        by_cases hop : a.operation? = some .register
        · -- After a registration the rank leaves no room for another.
          have hrank : 2 ≤ (d.after a).status.rank := by
            rw [(status_of_register hop hok).2.1]
            decide
          refine Nat.le_of_eq ?_
          rw [List.countP_cons, countP_register_of_rank hrank, if_pos (decide_eq_true hop)]
        · rw [List.countP_cons_of_neg (by simpa using hop)]
          exact ih (d.after a)
      · rw [accepted_cons_of_error herror]
        exact ih d

/-! ## The whole -/

/-- One attempt takes a document forward: how the document may come to a status or leave one, and how
    it comes to a date of registration. -/
structure StepsForward (d : Document) (a : Attempt) : Prop where
  inProgress : (d.after a).status = .inProgress → d.status = .inProgress
  cannotRegister : d.status = .cannotRegister → (d.after a).status = .cannotRegister
  perfect : (d.after a).status = .perfect → d.status = .perfect ∨ d.status = .inProgress
  statutoryWaitingPeriod : (d.after a).status = .statutoryWaitingPeriod →
    d.status = .statutoryWaitingPeriod ∨ d.status = .inProgress
  registered : (d.after a).status = .registered → d.status = .registered ∨ d.Accepts a .register
  register : d.Accepts a .register → d.status = .statutoryWaitingPeriod ∧
    (d.after a).status = .registered ∧ (d.after a).registrationDate = some a.now
  registrationDate : (d.after a).registrationDate ≠ d.registrationDate → d.Accepts a .register

/-- A run takes the document forward: no status that has been left comes back, each attempt steps
    forward, and the document is registered at most once. -/
structure GoesForward (d : Document) (as : List Attempt) : Prop where
  never_returns : ∀ as₁ as₂ as₃, as₁ <+: as₂ → as₂ <+: as₃ → as₃ <+: as →
    (d.run as₂).status ≠ (d.run as₁).status → (d.run as₃).status ≠ (d.run as₁).status
  steps : ∀ before a, before ++ [a] <+: as → (d.run before).StepsForward a
  registered_once : (d.accepted as).countP (fun a => a.operation? = some .register) ≤ 1

theorem stepsForward (d : Document) (a : Attempt) : d.StepsForward a where
  inProgress h := by
    rcases moves_of_after h with hsame | ⟨_, _, hmoves⟩
    · exact hsame
    · exact absurd hmoves Status.Moves.not_inProgress
  cannotRegister h := by
    rcases moves_of_after rfl with hsame | ⟨_, _, hmoves⟩
    · exact hsame ▸ h
    · exact (h ▸ hmoves).eq_cannotRegister
  perfect h := (moves_of_after h).imp id fun ⟨_, _, hmoves⟩ => hmoves.of_perfect
  statutoryWaitingPeriod h :=
    (moves_of_after h).imp id fun ⟨_, _, hmoves⟩ => hmoves.of_statutoryWaitingPeriod
  registered h := by
    rcases moves_of_after h with hsame | ⟨_, haccepts, hmoves⟩
    · exact Or.inl hsame
    · obtain rfl := hmoves.of_registered
      exact Or.inr haccepts
  register := by
    rintro ⟨hop, d', hok⟩
    rw [after_of_ok hok]
    exact status_of_register hop hok
  registrationDate h := by
    rcases d.submit_after_or a with hok | ⟨_, hsame⟩
    · obtain ⟨c, hop, _, heffect⟩ := effect_of_submit hok
      obtain rfl := (registrationDate_of_effect heffect).resolve_left h
      exact ⟨hop, _, hok⟩
    · exact absurd (by rw [hsame]) h

/-- **The status of a document never goes backwards**, whatever updates are tried in whatever order. -/
theorem goesForward (d : Document) (as : List Attempt) : d.GoesForward as where
  never_returns := by
    rintro as₁ _ _ ⟨bs, rfl⟩ ⟨cs, rfl⟩ _ hleft
    rw [run_append] at hleft
    rw [List.append_assoc, run_append]
    exact status_run_ne hleft cs
  steps before a _ := (d.run before).stepsForward a
  registered_once := d.countP_register_le as

end Document

end PowerOfAttorney
