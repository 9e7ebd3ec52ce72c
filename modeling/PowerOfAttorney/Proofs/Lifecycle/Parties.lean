import Mathlib.Data.List.Forall2
import PowerOfAttorney.Proofs.Lifecycle.Run
import PowerOfAttorney.Proofs.Operation.Signatures

/-!
# `PowerOfAttorney.Proofs.Lifecycle.Parties` — the parties of a document, from one update to the next

No update takes a signature away. A trust corporation that has been removed stays removed; an attorney
who has been removed can only be moved, and at first only to be inactive.

## Contents
- **Lists.** `forall₂_modify` and `forall₂_moved`: a list with entries altered, entry by entry.
- **Parties.** `Attorney.Continues` and `TrustCorporation.Continues`, from before to after.
- **Documents.** `Document.Continues`, and `continues_of_submit` for every attempt that is accepted.
-/

namespace PowerOfAttorney

/-! ## Lists -/

section

variable {α β : Type} {R : α → α → Prop}

theorem forall₂_of_refl (hrefl : ∀ x, R x x) (xs : List α) : List.Forall₂ R xs xs :=
  List.forall₂_same.mpr fun x _ => hrefl x

/-- A list with one entry altered. -/
theorem forall₂_modify (hrefl : ∀ x, R x x) {f : α → α} {i : Nat} {xs : List α}
    (h : ∀ x, xs[i]? = some x → R x (f x)) : List.Forall₂ R xs (xs.modify i f) := by
  induction xs generalizing i with
  | nil => cases i <;> exact .nil
  | cons x xs ih =>
      cases i with
      | zero => exact .cons (h x rfl) (forall₂_of_refl hrefl xs)
      | succ i => exact .cons (hrefl x) (ih fun y hy => h y hy)

/-- A list with one entry replaced. -/
theorem forall₂_set (hrefl : ∀ x, R x x) {i : Nat} {x y : α} {xs : List α} (hx : xs[i]? = some x)
    (h : R x y) : List.Forall₂ R xs (xs.set i y) := by
  rw [List.set_eq_modify]
  refine forall₂_modify hrefl fun x' hx' => ?_
  rw [hx, Option.some.injEq] at hx'
  exact hx' ▸ h

/-- A list with the chosen entry amended, if one has been chosen. -/
theorem forall₂_amendAt (hrefl : ∀ x, R x x) {S : α → β → Prop} {amend : β → α → α}
    {target : Option (Nat × β)} {xs : List α} (htarget : ChosenFrom xs S target)
    (h : ∀ x b, S x b → R x (amend b x)) : List.Forall₂ R xs (amendAt amend target xs) := by
  cases target with
  | none => exact forall₂_of_refl hrefl xs
  | some t =>
      obtain ⟨i, b⟩ := t
      obtain ⟨x, hx, hb⟩ := htarget i b rfl
      refine forall₂_modify hrefl fun x' hx' => ?_
      rw [hx, Option.some.injEq] at hx'
      exact hx' ▸ h x b hb

/-- An entry of a list with moves carried out is as it was or as one of its moves leaves it. -/
theorem exists_of_moved {set : β → α → α} (hset : ∀ v w x, set v (set w x) = set v x)
    {moves : List (Nat × β)} {xs : List α} {i : Nat} {y : α}
    (h : (moved set moves xs)[i]? = some y) :
    ∃ x, xs[i]? = some x ∧ (y = x ∨ ∃ v, (i, v) ∈ moves ∧ y = set v x) := by
  -- By induction over the moves. What a later move sets is what is set in the end.
  induction moves generalizing xs with
  | nil => exact ⟨y, h, Or.inl rfl⟩
  | cons m moves ih =>
      obtain ⟨j, w⟩ := m
      obtain ⟨x, hx, hy⟩ := ih h
      by_cases hij : j = i
      · subst hij
        rw [List.getElem?_modify_eq] at hx
        obtain ⟨x₀, hx₀, rfl⟩ := Option.map_eq_some_iff.mp hx
        refine ⟨x₀, hx₀, Or.inr ?_⟩
        rcases hy with rfl | ⟨v, hv, rfl⟩
        · exact ⟨w, List.mem_cons_self, rfl⟩
        · exact ⟨v, List.mem_cons_of_mem _ hv, hset v w x₀⟩
      · rw [List.getElem?_modify_ne _ _ hij] at hx
        exact ⟨x, hx, hy.imp id fun ⟨v, hv, heq⟩ => ⟨v, List.mem_cons_of_mem _ hv, heq⟩⟩

/-- A list with moves carried out. -/
theorem forall₂_moved (hrefl : ∀ x, R x x) (set : β → α → α)
    (hset : ∀ v w x, set v (set w x) = set v x) (moves : List (Nat × β)) (xs : List α)
    (h : ∀ i v x, (i, v) ∈ moves → xs[i]? = some x → R x (set v x)) :
    List.Forall₂ R xs (moved set moves xs) := by
  refine List.forall₂_iff_get.mpr ⟨(length_moved set moves xs).symm, fun i hi hi' => ?_⟩
  obtain ⟨x, hx, hy⟩ := exists_of_moved hset (List.getElem?_eq_getElem hi')
  rw [List.getElem?_eq_getElem hi, Option.some.injEq] at hx
  subst hx
  show R xs[i] (moved set moves xs)[i]
  rcases hy with heq | ⟨v, hv, heq⟩
  · rw [heq]
    exact hrefl _
  · rw [heq]
    exact h i v _ hv (List.getElem?_eq_getElem hi)

/-- What stands at a place of the second list comes from what stands there in the first. -/
theorem exists_of_forall₂ {S : α → β → Prop} {xs : List α} {ys : List β} (h : List.Forall₂ S xs ys)
    {i : Nat} {y : β} (hy : ys[i]? = some y) : ∃ x, xs[i]? = some x ∧ S x y := by
  obtain ⟨hi, rfl⟩ := List.getElem?_eq_some_iff.mp hy
  have hi' : i < xs.length := h.length_eq ▸ hi
  exact ⟨xs[i], List.getElem?_eq_getElem hi', h.get hi' hi⟩

/-- What stands at a place of the first list goes on in the second. -/
theorem exists_of_forall₂_left {S : α → β → Prop} {xs : List α} {ys : List β}
    (h : List.Forall₂ S xs ys) {i : Nat} {x : α} (hx : xs[i]? = some x) :
    ∃ y, ys[i]? = some y ∧ S x y := by
  obtain ⟨hi, rfl⟩ := List.getElem?_eq_some_iff.mp hx
  have hi' : i < ys.length := h.length_eq ▸ hi
  exact ⟨ys[i], List.getElem?_eq_getElem hi', h.get hi hi'⟩

/-- What is the same place by place is the same in the lists. -/
theorem map_eq_of_forall₂ {f : α → β} {xs ys : List α}
    (h : List.Forall₂ (fun x y => f y = f x) xs ys) : ys.map f = xs.map f := by
  induction h with
  | nil => rfl
  | cons hxy _ ih => rw [List.map_cons, List.map_cons, hxy, ih]

theorem forall₂_trans (htrans : ∀ x y z, R x y → R y z → R x z) {xs ys zs : List α}
    (h : List.Forall₂ R xs ys) (h' : List.Forall₂ R ys zs) : List.Forall₂ R xs zs := by
  induction h generalizing zs with
  | nil => exact h'
  | cons hxy _ ih =>
      cases h' with
      | cons hyz hrest => exact .cons (htrans _ _ _ hxy hyz) (ih hrest)

end

/-! ## Parties -/

/-- What may become of an attorney through an update of an operation. -/
structure Attorney.Continues (op : Operation) (a a' : Attorney) : Prop where
  signed : a.signedAt.isSome → a'.signedAt.isSome
  removed : a.status = .removed →
    a'.status = .removed ∨ op = .changeAttorneys ∧ a'.status = .inactive

theorem Attorney.Continues.refl (op : Operation) (a : Attorney) : a.Continues op a :=
  ⟨id, Or.inl⟩

/-- What may become of a trust corporation. -/
structure TrustCorporation.Continues (t t' : TrustCorporation) : Prop where
  signed : t.isSigned → t'.isSigned
  removed : t.status = .removed → t'.status = .removed

theorem TrustCorporation.Continues.refl (t : TrustCorporation) : t.Continues t :=
  ⟨id, id⟩

/-- A trust corporation has not signed if its first signatory has not. -/
theorem TrustCorporation.not_isSigned {t : TrustCorporation}
    (h : t.signatories.head?.any Signatory.isSigned = false) : ¬ t.isSigned := by
  unfold isSigned
  cases hs : t.signatories with
  | nil => simp
  | cons s rest =>
      rw [hs] at h
      have hfirst : s.isSigned = false := h
      simp [hfirst]

/-- Nor has it if none of its signatories has. -/
theorem TrustCorporation.not_isSigned_of_any {t : TrustCorporation}
    (h : t.signatories.any Signatory.isSigned = false) : ¬ t.isSigned := by
  refine not_isSigned ?_
  cases hs : t.signatories with
  | nil => rfl
  | cons s rest =>
      rw [hs, List.any_cons, Bool.or_eq_false_iff] at h
      exact h.1

/-! ## Documents -/

/-- What may become of the parties of a document through an update of an operation. -/
structure Document.Continues (op : Operation) (d d' : Document) : Prop where
  donor : d.signedAt.isSome → d'.signedAt.isSome
  certificateProvider : d.certificateProvider.signedAt.isSome → d'.certificateProvider.signedAt.isSome
  attorneys : List.Forall₂ (Attorney.Continues op) d.attorneys d'.attorneys
  trustCorporations : List.Forall₂ TrustCorporation.Continues d.trustCorporations d'.trustCorporations

namespace Document

variable {op : Operation} {d d' : Document}

/-- If the parties are as they were, they continue. -/
theorem Continues.of_eq (hdonor : d'.signedAt = d.signedAt)
    (hprovider : d'.certificateProvider.signedAt = d.certificateProvider.signedAt)
    (hattorneys : d'.attorneys = d.attorneys)
    (htrustCorporations : d'.trustCorporations = d.trustCorporations) : d.Continues op d' where
  donor := hdonor ▸ id
  certificateProvider := hprovider ▸ id
  attorneys := hattorneys ▸ forall₂_of_refl (.refl op) _
  trustCorporations := htrustCorporations ▸ forall₂_of_refl .refl _

/-- If only attorneys are others, it is enough that they continue. -/
theorem Continues.of_attorneys {as : List Attorney}
    (h : List.Forall₂ (Attorney.Continues op) d.attorneys as) :
    d.Continues op { d with attorneys := as } :=
  ⟨id, id, h, forall₂_of_refl .refl _⟩

/-- If only trust corporations are others, it is enough that they continue. -/
theorem Continues.of_trustCorporations {ts : List TrustCorporation}
    (h : List.Forall₂ TrustCorporation.Continues d.trustCorporations ts) :
    d.Continues op { d with trustCorporations := ts } :=
  ⟨id, id, forall₂_of_refl (.refl op) _, h⟩

/-- Whether the document can be registered has nothing to do with its parties. -/
theorem Continues.afterLeaving (h : d.Continues op d') (left : Appointment) :
    d.Continues op (d'.afterLeaving left) := by
  rw [afterLeaving_eq]
  exact ⟨h.donor, h.certificateProvider, h.attorneys, h.trustCorporations⟩

end Document

/-- Every move that is not refused starts from an attorney who may move so. -/
theorem ChangeAttorneys.allowed_of_refusal? {d : Document} {moves : List (Nat × AttorneyStatus)}
    (h : refusal? d moves = none) {i : Nat} {next : AttorneyStatus} (hm : (i, next) ∈ moves)
    {a : Attorney} (ha : d.attorneys[i]? = some a) : blocked? a.status next = none := by
  induction moves with
  | nil => exact absurd hm List.not_mem_nil
  | cons m moves ih =>
      obtain ⟨j, v⟩ := m
      unfold refusal? at h
      split at h
      · exact absurd h nofun
      · rename_i b hb
        split at h
        · exact absurd h nofun
        · rename_i hallowed
          rcases List.mem_cons.mp hm with heq | hm
          · obtain ⟨rfl, rfl⟩ := Prod.mk.inj heq
            rw [ha, Option.some.injEq] at hb
            exact hb ▸ hallowed
          · exact ih h hm

/-- An attorney who has been removed may be made inactive, but not active. -/
theorem ChangeAttorneys.continues_of_allowed {a : Attorney} {next : AttorneyStatus}
    (h : blocked? a.status next = none) :
    a.Continues .changeAttorneys { a with status := next } where
  signed := id
  removed hremoved := by
    rw [hremoved] at h
    cases next with
    | active => exact absurd .reinstate (blocked?_eq_none_iff.mp h _)
    | inactive => exact Or.inr ⟨rfl, rfl⟩
    | removed => exact Or.inl rfl

namespace Command

open Document

variable {now : Instant} {d d' : Document} {changes : List Change}

/-- **The parties continue through every command that is read without faults.** -/
theorem Effect.continues {c : Command} (h : c.Effect now d d') (hread : c.IsRead d changes) :
    d.Continues c.operation d' := by
  cases h with
  | certificateProviderSign s hunsigned =>
      refine ⟨id, fun hsigned => ?_, forall₂_of_refl (.refl _) _, forall₂_of_refl .refl _⟩
      rw [hunsigned] at hsigned
      exact absurd hsigned Bool.false_ne_true
  | attorneySign s ha hunsigned =>
      refine .of_attorneys (forall₂_set (.refl _) ha ⟨fun hsigned => ?_, Or.inl⟩)
      rw [hunsigned] at hsigned
      exact absurd hsigned Bool.false_ne_true
  | trustCorporationSign s ht hunsigned =>
      refine .of_trustCorporations (forall₂_set .refl ht ⟨fun hsigned => ?_, id⟩)
      exact absurd hsigned (TrustCorporation.not_isSigned hunsigned)
  | attorneyOptOut hi ha hunsigned =>
      refine Continues.afterLeaving (.of_attorneys (forall₂_set (.refl _) ha ?_)) _
      exact ⟨id, fun _ => Or.inl rfl⟩
  | trustCorporationOptOut hi ht hunsigned =>
      refine Continues.afterLeaving (.of_trustCorporations (forall₂_set .refl ht ?_)) _
      exact ⟨id, fun _ => rfl⟩
  | correct c hstatus hdates =>
      -- The draft starts from what is on record, so a signature that is there is still there in the end.
      obtain ⟨hdonor, hprovider, hattorney, htrustCorporation⟩ :=
        Correction.keepsSignatures_of_read hread
      exact ⟨hdonor, hprovider, forall₂_amendAt (.refl _) hattorney fun a b hb => ⟨hb, Or.inl⟩,
        forall₂_amendAt .refl htrustCorporation fun t b hb => ⟨hb, id⟩⟩
  | correctRegistered c hbirth =>
      obtain ⟨hprovider, hattorney⟩ := RegisteredCorrection.keepsSignatures_of_read hread
      refine ⟨id, fun hsigned => ?_, forall₂_amendAt (.refl _) hattorney fun a b hb =>
        ⟨fun hsigned => ?_, Or.inl⟩, forall₂_of_refl .refl _⟩
      · show c.certificateProvider.signedAt.isSome
        rwa [hprovider]
      · show b.signedAt.isSome
        rwa [hb]
  | decideJointly c hallowed =>
      have hmoved := forall₂_moved (Attorney.Continues.refl .attorneyDecisions)
        (fun v a => { a with cannotMakeJointDecisions := v }) (fun _ _ _ => rfl)
        c.exceptions d.attorneys fun _ _ _ _ _ => ⟨id, Or.inl⟩
      exact .of_attorneys hmoved
  | changeAttorneys c hallowed =>
      have hmoved := forall₂_moved (Attorney.Continues.refl .changeAttorneys)
        (fun next a => { a with status := next }) (fun _ _ _ => rfl) c.moves d.attorneys
        fun i next a hm ha =>
          ChangeAttorneys.continues_of_allowed (ChangeAttorneys.allowed_of_refusal? hallowed hm ha)
      exact .of_attorneys hmoved
  | attorneyAccess email ha hpaper =>
      exact .of_attorneys (forall₂_set (.refl _) ha ⟨id, Or.inl⟩)
  | confirmIdentity hkind hcheckedAt =>
      unfold CheckedParty.record
      split <;> exact .of_eq rfl rfl rfl rfl
  | _ => exact .of_eq rfl rfl rfl rfl

end Command

/-- **The parties continue through every attempt that is accepted.** -/
theorem Document.continues_of_submit {d d' : Document} {a : Attempt} (h : d.submit a = .ok d') :
    ∃ op, a.operation? = some op ∧ d.Continues op d' := by
  obtain ⟨c, hop, hread, heffect⟩ := effect_of_submit h
  exact ⟨c.operation, hop, heffect.continues (Command.isRead_of_ofChanges hread)⟩

end PowerOfAttorney
