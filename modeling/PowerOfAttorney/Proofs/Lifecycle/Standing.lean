import PowerOfAttorney.Proofs.Lifecycle.Subject

/-!
# `PowerOfAttorney.Proofs.Lifecycle.Standing` — the way of an attorney: inactive, active, removed

Two rules keep moves from going back: an active attorney is not made inactive, and a removed one is not made
active. But a removed attorney may be made inactive, and an inactive one active. So what each rule forbids
in one move is reached in two, and this move is the only one in any life of a document that goes back.

## Contents
- **Ranks.** `AttorneyStatus.rank`, the place of a status on the way.
- **Steps.** `Attorney.Becomes.rank_le`: no operation goes back, but for moves from removed to inactive.
- **Coming back.** `Document.BroughtBack`: such a move is accepted in the course of a run.
- **Runs.** `rank_le_or_broughtBack`, and `not_forall_rank_le`: an attorney does come back.
-/

namespace PowerOfAttorney

/-! ## Ranks -/

/-- The place of a status on the way of an attorney. -/
def AttorneyStatus.rank : AttorneyStatus → Nat
  | .inactive => 0
  | .active => 1
  | .removed => 2

theorem AttorneyStatus.rank_le_removed (s : AttorneyStatus) : s.rank ≤ AttorneyStatus.removed.rank := by
  cases s <;> decide

theorem AttorneyStatus.eq_removed_of_rank_le {s : AttorneyStatus}
    (h : AttorneyStatus.removed.rank ≤ s.rank) : s = .removed := by
  cases s with
  | removed => rfl
  | inactive => simp [rank] at h
  | active => simp [rank] at h

theorem AttorneyStatus.ne_inactive_of_rank_le {s : AttorneyStatus}
    (h : AttorneyStatus.active.rank ≤ s.rank) : s ≠ .inactive := by
  intro hs
  simp [hs, rank] at h

/-! ## Steps -/

/-- Of the moves that are allowed, one goes back. -/
theorem ChangeAttorneys.rank_le_of_allowed {current next : AttorneyStatus}
    (hallowed : blocked? current next = none) :
    current.rank ≤ next.rank ∨ current = .removed ∧ next = .inactive := by
  cases current with
  | inactive => exact Or.inl (Nat.zero_le _)
  | active =>
      cases next with
      | inactive => exact absurd .deactivate (blocked?_eq_none_iff.mp hallowed _)
      | active => exact Or.inl (Nat.le_refl _)
      | removed => exact Or.inl (AttorneyStatus.rank_le_removed _)
  | removed =>
      cases next with
      | inactive => exact Or.inr ⟨rfl, rfl⟩
      | active => exact absurd .reinstate (blocked?_eq_none_iff.mp hallowed _)
      | removed => exact Or.inl (Nat.le_refl _)

/-- **No operation sets an attorney back**, but for a move from removed to inactive. -/
theorem Attorney.Becomes.rank_le {op : Operation} {a a' : Attorney} (h : a.Becomes op a') :
    a.status.rank ≤ a'.status.rank ∨
      op = .changeAttorneys ∧ a.status = .removed ∧ a'.status = .inactive := by
  cases h with
  | leaves hunsigned => exact Or.inl (AttorneyStatus.rank_le_removed a.status)
  | moved hallowed =>
      rcases ChangeAttorneys.rank_le_of_allowed hallowed with hforward | hback
      · exact Or.inl hforward
      · exact Or.inr ⟨rfl, hback⟩
  | _ => exact Or.inl (Nat.le_refl _)

/-! ## Coming back -/

namespace Document

/-- In the course of a run a move of the attorney at `i` from removed to inactive is accepted. -/
def BroughtBack (d : Document) (as : List Attempt) (i : Nat) : Prop :=
  ∃ before a, before ++ [a] <+: as ∧ (d.run before).Accepts a .changeAttorneys ∧
    (∃ x, (d.run before).attorneys[i]? = some x ∧ x.status = .removed) ∧
    ∃ x, (d.run (before ++ [a])).attorneys[i]? = some x ∧ x.status = .inactive

variable {d : Document} {as : List Attempt} {i : Nat}

theorem BroughtBack.append (h : d.BroughtBack as i) (bs : List Attempt) :
    d.BroughtBack (as ++ bs) i := by
  obtain ⟨before, a, hprefix, hrest⟩ := h
  exact ⟨before, a, hprefix.trans (List.prefix_append as bs), hrest⟩

/-! ## Runs -/

/-- The attorney at a place keeps it through a run, and is set back only by being brought back. -/
theorem exists_rank_le (d : Document) (as : List Attempt) {a : Attorney}
    (ha : d.attorneys[i]? = some a) :
    ∃ a', (d.run as).attorneys[i]? = some a' ∧ a'.uid = a.uid ∧
      (a.status.rank ≤ a'.status.rank ∨ d.BroughtBack as i) := by
  -- By induction over the run, from its end. Whoever was not brought back so far is not behind, and the
  -- last step does not set them back either, unless it brings them back.
  induction as using List.reverseRecOn with
  | nil => exact ⟨a, ha, rfl, Or.inl (Nat.le_refl _)⟩
  | append_singleton as b ih =>
      obtain ⟨x, hx, huid, hbefore⟩ := ih
      rcases (d.run as).submit_after_or b with hok | ⟨_, hsame⟩
      · obtain ⟨c, hop, _, heffect⟩ := effect_of_submit hok
        obtain ⟨x', hx', hbecomes⟩ := exists_of_forall₂_left heffect.attorneys hx
        rw [← run_concat] at hx'
        refine ⟨x', hx', hbecomes.sameParty.uid.trans huid, ?_⟩
        rcases hbefore with hforward | hback
        · rcases hbecomes.rank_le with hstep | ⟨hmoves, hremoved, hinactive⟩
          · exact Or.inl (Nat.le_trans hforward hstep)
          · rw [hmoves] at hop
            exact Or.inr ⟨as, b, List.prefix_rfl, ⟨hop, _, hok⟩, ⟨x, hx, hremoved⟩, x', hx', hinactive⟩
        · exact Or.inr (hback.append [b])
      · rw [run_concat, hsame]
        exact ⟨x, hx, huid, hbefore.imp_right fun hback => hback.append [b]⟩

/-- **The status of an attorney only moves forward**, from inactive to active to removed, unless a move
    from removed to inactive is accepted in between. Without one, whoever has been removed stays removed,
    and whoever has been active is never inactive again. -/
theorem rank_le_or_broughtBack (d : Document) (as bs : List Attempt) (i : Nat) (a : Attorney)
    (ha : (d.run as).attorneys[i]? = some a) :
    ∃ a', (d.run (as ++ bs)).attorneys[i]? = some a' ∧ a'.uid = a.uid ∧
      ((d.run as).BroughtBack bs i ∨
        a.status.rank ≤ a'.status.rank ∧
        (a.status = .removed → a'.status = .removed) ∧
        (a.status = .active → a'.status ≠ .inactive)) := by
  obtain ⟨a', ha', huid, hforward⟩ := exists_rank_le (d.run as) bs ha
  rw [← run_append] at ha'
  refine ⟨a', ha', huid, ?_⟩
  rcases hforward with hrank | hback
  · refine Or.inr ⟨hrank, ?_, ?_⟩
    · intro hremoved
      rw [hremoved] at hrank
      exact AttorneyStatus.eq_removed_of_rank_le hrank
    · intro hactive
      rw [hactive] at hrank
      exact AttorneyStatus.ne_inactive_of_rank_le hrank
  · exact Or.inl hback

/-- The second attorney is removed, and afterwards made inactive and active. -/
theorem rank_le_or_broughtBack_comeback :
    let before := [Attempt.ofMove "active" "removed"]
    let after := [Attempt.ofMove "removed" "inactive", Attempt.ofMove "inactive" "active"]
    ∃ a, (ofJointAttorneys.run before).attorneys[1]? = some a ∧
      ∃ a', (ofJointAttorneys.run (before ++ after)).attorneys[1]? = some a' ∧ a'.uid = a.uid ∧
        ((ofJointAttorneys.run before).BroughtBack after 1 ∨
          a.status.rank ≤ a'.status.rank ∧
          (a.status = .removed → a'.status = .removed) ∧
          (a.status = .active → a'.status ≠ .inactive)) := by
  intro before after
  have hthere : ((ofJointAttorneys.run before).attorneys[1]?).isSome := by decide +kernel
  obtain ⟨a, ha⟩ := Option.isSome_iff_exists.mp hthere
  exact ⟨a, ha, rank_le_or_broughtBack ofJointAttorneys before after 1 a ha⟩

/-- An attorney who has been removed is active again in the end. -/
theorem not_forall_rank_le :
    ¬ ∀ (d : Document) (as bs : List Attempt) (i : Nat) (a a' : Attorney),
      (d.run as).attorneys[i]? = some a → (d.run (as ++ bs)).attorneys[i]? = some a' →
        a.status.rank ≤ a'.status.rank := by
  intro h
  have hremoved : ∃ a, (ofJointAttorneys.run [.ofMove "active" "removed"]).attorneys[1]? = some a ∧
      a.status = .removed := by decide +kernel
  have hactive : ∃ a, (ofJointAttorneys.run ([.ofMove "active" "removed"] ++
      [.ofMove "removed" "inactive", .ofMove "inactive" "active"])).attorneys[1]? = some a ∧
      a.status = .active := by decide +kernel
  obtain ⟨a, ha, hstatus⟩ := hremoved
  obtain ⟨a', ha', hstatus'⟩ := hactive
  have hrank := h ofJointAttorneys _ _ 1 a a' ha ha'
  simp [hstatus, hstatus', AttorneyStatus.rank] at hrank

end Document

end PowerOfAttorney
