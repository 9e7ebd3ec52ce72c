import PowerOfAttorney.Proofs.Lifecycle.Perfected

/-!
# `PowerOfAttorney.Proofs.Lifecycle.Registered` — how a document stops being registered

A registered document can be cancelled. It can neither be withdrawn nor expire, nor go back to a status
before registration. But an opt-out looks neither at the status nor at whether the party has been
removed before: a party who has never signed can still leave, and the document becomes one that cannot
be registered.

## Contents
- **Moves.** `Status.Moves.of_isRegistered`, the ways there are.
- **Leaving.** `Document.Unseats`, the opt-outs that a registered document does not survive, and
  `unseats_of_effect`.
- **Runs.** `after_of_registered`, the status of a registered document after any attempt.
- **The gap.** `not_forall_registered_or_cancelled`: there are such opt-outs.
-/

namespace PowerOfAttorney

/-! ## Moves -/

/-- Registration ends by a change of the status or by someone's leaving. -/
theorem Status.Moves.of_isRegistered {c : Command} {s' : Status} (h : Moves c .registered s') :
    c = .setStatus .cancelled ∧ s' = .cancelled ∨
      (∃ party, c = .optOut party) ∧ s' = .cannotRegister := by
  cases h with
  | optOut party => exact Or.inr ⟨⟨party, rfl⟩, rfl⟩
  | withdraw _ hregistered _ => exact absurd rfl hregistered
  | setStatus hallowed =>
      have hcancelled : s' = .cancelled := by
        revert hallowed
        cases s' <;> decide
      exact Or.inl ⟨hcancelled ▸ rfl, hcancelled⟩

namespace Document

/-! ## Leaving -/

/-- An attempt is accepted as the opt-out of a party who has not signed and who was removed before, or
    is excused; and those who are left cannot act. -/
inductive Unseats (d : Document) (excused : Nat → Prop) (a : Attempt) : Prop
  | attorney {i : Nat} {x : Attorney} (haccepts : d.Accepts a .attorneyOptOut)
      (hi : d.attorneyIndex? a.update.authorUid = some i) (hx : d.attorneys[i]? = some x)
      (hunsigned : x.signedAt = none) (hexcused : x.status = .removed ∨ excused i)
      (hleft : canRegisterWithout
        { d with attorneys := d.attorneys.set i { x with status := .removed } } x.appointment = false)
  | trustCorporation {i : Nat} {t : TrustCorporation}
      (haccepts : d.Accepts a .trustCorporationOptOut)
      (hi : d.trustCorporationIndex? a.update.authorUid = some i)
      (ht : d.trustCorporations[i]? = some t)
      (hunsigned : t.signatories.any Signatory.isSigned = false) (hremoved : t.status = .removed)
      (hleft : canRegisterWithout
        { d with trustCorporations := d.trustCorporations.set i { t with status := .removed } }
        t.appointment = false)

variable {d d' : Document} {excused : Nat → Prop} {a : Attempt}

/-- The status changes with someone's leaving only if those who are left cannot act. -/
theorem canRegisterWithout_of_afterLeaving {left : Appointment}
    (h : (d.afterLeaving left).status ≠ d.status) : d.canRegisterWithout left = false := by
  rw [← Bool.not_eq_true]
  intro hcan
  rw [afterLeaving_eq] at h
  exact h (if_pos hcan)

/-- **An opt-out that ends a registration is that of a party without a signature.** Since everyone has
    signed who has not been removed, the party has been, or is excused. -/
theorem unseats_of_effect {party : OptOut} (hsigned : d.IsSigned excused)
    (haccepts : d.Accepts a (Command.optOut party).operation)
    (hread : (Command.ofChanges d a.update.author a.update.changes
      (Command.optOut party).operation).1 = .optOut party)
    (heffect : (Command.optOut party).Effect a.now d d') (hstatus : d'.status ≠ d.status) :
    d.Unseats excused a := by
  cases heffect with
  | attorneyOptOut hi hx hunsigned =>
      obtain rfl : a.update.authorUid = _ := OptOut.attorney.inj (Command.optOut.inj hread)
      refine .attorney haccepts hi hx hunsigned ?_ (canRegisterWithout_of_afterLeaving hstatus)
      refine Decidable.or_iff_not_imp_left.mpr fun hremoved => ?_
      refine (hsigned.attorneys _ _ hx hremoved).resolve_left ?_
      rw [hunsigned]
      exact Bool.false_ne_true
  | trustCorporationOptOut hi ht hunsigned =>
      obtain rfl : a.update.authorUid = _ := OptOut.trustCorporation.inj (Command.optOut.inj hread)
      refine .trustCorporation haccepts hi ht hunsigned ?_ (canRegisterWithout_of_afterLeaving hstatus)
      by_contra hremoved
      exact TrustCorporation.not_isSigned_of_any hunsigned
        (hsigned.trustCorporations _ (List.mem_of_getElem? ht) hremoved)
  | certificateProviderOptOut hunsigned =>
      -- The certificate provider has signed, and who has signed cannot opt out.
      have hprovider := hsigned.certificateProvider
      rw [hunsigned] at hprovider
      exact absurd hprovider Bool.false_ne_true

/-! ## Runs -/

/-- **A registered document stays registered or is cancelled**, unless a party opts out who has never
    signed and who was removed before, if only for some time. -/
theorem after_of_registered (hd : d.status = .inProgress) (as : List Attempt)
    (hregistered : (d.run as).status = .registered) (a : Attempt) :
    ((d.run as).after a).status = .registered ∨
      ((d.run as).after a).status = .cancelled ∧ (d.run as).Accepts a .statusChange ∨
      ((d.run as).after a).status = .cannotRegister ∧ (d.run as).Unseats (d.Reinstated as) a := by
  rcases (d.run as).submit_after_or a with hok | ⟨_, hsame⟩
  · obtain ⟨c, hop, hread, heffect⟩ := effect_of_submit hok
    rcases heffect.moves with hsame | hmoves
    · exact Or.inl (hsame.trans hregistered)
    · -- Every move from here that is no opt-out asks for the status first, and only one is let through.
      rw [hregistered] at hmoves
      rcases hmoves.of_isRegistered with ⟨rfl, hcancelled⟩ | ⟨⟨party, rfl⟩, hcannot⟩
      · exact Or.inr (Or.inl ⟨hcancelled, hop, _, hok⟩)
      · have hsigned := isSigned_of_run hd as (by rw [hregistered]; rfl)
        refine Or.inr (Or.inr ⟨hcannot, ?_⟩)
        refine unseats_of_effect hsigned ⟨hop, _, hok⟩ (Prod.mk.inj hread).1 heffect ?_
        rw [hcannot, hregistered]
        decide
  · exact Or.inl (by rw [hsame, hregistered])

/-! ## The gap -/

/-- The second attorney is removed, and the document is registered with the signatures of the others. -/
def registration : List Attempt :=
  [.ofMove "active" "removed", .of "STATUTORY_WAITING_PERIOD" "" [], .of "REGISTER" "" []]

/-- The attorney who was removed can leave once more. -/
theorem after_of_registered_optOut :
    ofJointAttorneys.status = .inProgress ∧ (ofJointAttorneys.run registration).status = .registered ∧
      (((ofJointAttorneys.run registration).after (.ofOptOut "b")).status = .registered ∨
        ((ofJointAttorneys.run registration).after (.ofOptOut "b")).status = .cancelled ∧
          (ofJointAttorneys.run registration).Accepts (.ofOptOut "b") .statusChange ∨
        ((ofJointAttorneys.run registration).after (.ofOptOut "b")).status = .cannotRegister ∧
          (ofJointAttorneys.run registration).Unseats (ofJointAttorneys.Reinstated registration)
            (.ofOptOut "b")) := by
  have hstatus : ofJointAttorneys.status = .inProgress := rfl
  have hregistered : (ofJointAttorneys.run registration).status = .registered := by decide +kernel
  exact ⟨hstatus, hregistered, after_of_registered hstatus registration hregistered (.ofOptOut "b")⟩

/-- Then the document can no longer be registered, although it is neither cancelled nor was anyone left
    to sign. -/
theorem not_forall_registered_or_cancelled :
    ¬ ∀ (d : Document) (as : List Attempt) (a : Attempt), d.status = .inProgress →
      (d.run as).status = .registered →
      ((d.run as).after a).status = .registered ∨ ((d.run as).after a).status = .cancelled := by
  intro h
  have hcannot : ((ofJointAttorneys.run registration).after (.ofOptOut "b")).status = .cannotRegister := by
    decide +kernel
  have hstays := h ofJointAttorneys registration (.ofOptOut "b") rfl (by decide +kernel)
  rw [hcannot] at hstays
  exact absurd hstays (by decide)

end Document

end PowerOfAttorney
