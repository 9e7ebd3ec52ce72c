import Mathlib.Algebra.BigOperators.Group.List.Basic
import Mathlib.Algebra.GroupWithZero.Nat
import PowerOfAttorney.Change.Script

/-!
# `PowerOfAttorney.Proofs.Script.Grouping` — grouping loses nothing and doubles nothing

`Entry.groups` sorts the entries of a reading into groups, one for each step that is taken or demanded.
A group is counted once because its step stands once in the sorted list of steps, and no entry is lost
because every step that is taken stands there.

## Contents
- **Orders.** `StrictOrder`, what sorting needs of a comparison, with the two that scripts use.
- **Sorting once.** `mem_sortOnce` and `pairwise_sortOnce`: the same elements, in strict order.
- **Groups.** `mem_groups` says what a group holds, `countP_groups` that the groups and the strays
  together hold every entry once.
-/

namespace PowerOfAttorney

/-! ## Orders -/

/-- A comparison that puts any two different elements in one order. -/
structure StrictOrder {α : Type} (lt : α → α → Bool) : Prop where
  irrefl : ∀ a, lt a a = false
  trans : ∀ a b c, lt a b = true → lt b c = true → lt a c = true
  total : ∀ a b, lt a b = false → a ≠ b → lt b a = true

theorem strictOrder_nat : StrictOrder fun i j : Nat => decide (i < j) where
  irrefl a := by simp
  trans a b c hab hbc := by
    rw [decide_eq_true_eq] at hab hbc ⊢
    exact Nat.lt_trans hab hbc
  total a b hab hne := by
    rw [decide_eq_false_iff_not] at hab
    rw [decide_eq_true_eq]
    omega

theorem strictOrder_string : StrictOrder fun k l : String => decide (k < l) where
  irrefl a := decide_eq_false (String.lt_irrefl a)
  trans a b c hab hbc := by
    rw [decide_eq_true_eq] at hab hbc ⊢
    exact String.lt_trans hab hbc
  total a b hab hne := by
    rw [decide_eq_false_iff_not] at hab
    rw [decide_eq_true_eq]
    apply Classical.byContradiction
    intro hba
    exact hne (String.le_antisymm (String.not_lt.mp hba) (String.not_lt.mp hab))

namespace Entry

variable {α : Type} [BEq α] [LawfulBEq α] {lt : α → α → Bool}

/-! ## Sorting once -/

theorem mem_insertOnce {a b : α} {xs : List α} :
    b ∈ insertOnce lt a xs ↔ b = a ∨ b ∈ xs := by
  induction xs with
  | nil => simp [insertOnce]
  | cons x xs ih =>
      unfold insertOnce
      split
      · rw [List.mem_cons]
      · split
        · rename_i hax
          rw [beq_iff_eq] at hax
          subst hax
          rw [List.mem_cons]
          exact ⟨fun h => Or.inr h, fun h => h.elim Or.inl id⟩
        · rw [List.mem_cons, ih, List.mem_cons]
          exact or_left_comm

theorem pairwise_insertOnce (hlt : StrictOrder lt) {a : α} {xs : List α}
    (h : xs.Pairwise fun x y => lt x y = true) :
    (insertOnce lt a xs).Pairwise fun x y => lt x y = true := by
  induction xs with
  | nil => simp [insertOnce]
  | cons x xs ih =>
      obtain ⟨hx, hxs⟩ := List.pairwise_cons.mp h
      unfold insertOnce
      split
      · rename_i hax
        refine List.pairwise_cons.mpr ⟨fun y hy => ?_, h⟩
        rcases List.mem_cons.mp hy with hy | hy
        · exact hy ▸ hax
        · exact hlt.trans a x y hax (hx y hy)
      · split
        · exact h
        · rename_i hax hne
          refine List.pairwise_cons.mpr ⟨fun y hy => ?_, ih hxs⟩
          rcases mem_insertOnce.mp hy with hy | hy
          · subst hy
            exact hlt.total y x (by simpa using hax) (by simpa using hne)
          · exact hx y hy

/-- Sorting goes on from what has been sorted. -/
theorem mem_foldl_insertOnce {b : α} {xs sorted : List α} :
    b ∈ xs.foldl (fun sorted a => insertOnce lt a sorted) sorted ↔ b ∈ sorted ∨ b ∈ xs := by
  induction xs generalizing sorted with
  | nil => simp
  | cons x xs ih =>
      rw [List.foldl_cons, ih, mem_insertOnce, List.mem_cons]
      tauto

theorem mem_sortOnce {b : α} {xs : List α} : b ∈ sortOnce lt xs ↔ b ∈ xs := by
  unfold sortOnce
  rw [mem_foldl_insertOnce]
  simp

theorem pairwise_sortOnce (hlt : StrictOrder lt) (xs : List α) :
    (sortOnce lt xs).Pairwise fun x y => lt x y = true := by
  unfold sortOnce
  suffices h : ∀ sorted : List α, sorted.Pairwise (fun x y => lt x y = true) →
      (xs.foldl (fun sorted a => insertOnce lt a sorted) sorted).Pairwise
        fun x y => lt x y = true from h [] List.Pairwise.nil
  induction xs with
  | nil => exact fun _ h => h
  | cons x xs ih => exact fun sorted h => ih _ (pairwise_insertOnce hlt h)

theorem nodup_sortOnce (hlt : StrictOrder lt) (xs : List α) : (sortOnce lt xs).Nodup := by
  refine (pairwise_sortOnce hlt xs).imp fun {x y} hxy heq => ?_
  subst heq
  rw [hlt.irrefl] at hxy
  exact Bool.false_ne_true hxy

/-! ## Groups -/

variable {step : Path → Option (α × Path)} {always : List α} {es : List Entry}

/-- An entry of a group is an entry of the reading whose path has taken the step of the group. -/
theorem mem_groups {a : α} {g : List Entry} (h : (a, g) ∈ groups lt step always es) {e : Entry}
    (he : e ∈ g) : ∃ e' ∈ es, ∃ rest, step e'.path = some (a, rest) ∧ e = { e' with path := rest } := by
  unfold groups at h
  obtain ⟨b, _, hb⟩ := List.mem_map.mp h
  obtain ⟨rfl, rfl⟩ := Prod.mk.inj hb
  obtain ⟨⟨c, e''⟩, hc, hpick⟩ := List.mem_filterMap.mp he
  obtain ⟨e', he', halong⟩ := List.mem_filterMap.mp hc
  unfold along at halong
  obtain ⟨⟨c', rest⟩, hstep, hpair⟩ := Option.map_eq_some_iff.mp halong
  obtain ⟨rfl, rfl⟩ := Prod.mk.inj hpair
  dsimp only at hpick
  split at hpick
  · rename_i hcb
    rw [beq_iff_eq] at hcb
    subst hcb
    exact ⟨e', he', rest, hstep, (Option.some.inj hpick).symm⟩
  · exact absurd hpick (by simp)

/-- A group that is not demanded is there because an entry is. -/
theorem ne_nil_of_mem_groups {g : α × List Entry} (h : g ∈ groups lt step always es)
    (hg : g.1 ∉ always) : g.2 ≠ [] := by
  unfold groups at h
  obtain ⟨a, ha, rfl⟩ := List.mem_map.mp h
  obtain ⟨x, hx, hxa⟩ := List.mem_map.mp ((List.mem_append.mp (mem_sortOnce.mp ha)).resolve_left hg)
  refine List.ne_nil_of_mem (a := x.2) (List.mem_filterMap.mpr ⟨x, hx, ?_⟩)
  exact if_pos (beq_iff_eq.mpr hxa)

/-- The steps of the groups are different. -/
theorem nodup_groups (hlt : StrictOrder lt) :
    ((groups lt step always es).map Prod.fst).Nodup := by
  unfold groups
  rw [List.map_map]
  simpa [Function.comp_def] using nodup_sortOnce hlt _

/-- One element is counted once over the groups that its key belongs to. -/
private theorem sum_indicator {ks : List α} (hks : ks.Nodup) {b : α} (hb : b ∈ ks) (n : Nat) :
    (ks.map fun a => if b == a then n else 0).sum = n := by
  induction ks with
  | nil => exact absurd hb (List.not_mem_nil)
  | cons k ks ih =>
      obtain ⟨hk, hks⟩ := List.nodup_cons.mp hks
      rw [List.map_cons, List.sum_cons]
      rcases List.mem_cons.mp hb with h | h
      · subst h
        have hzero : (ks.map fun a => if b == a then n else 0).sum = 0 := by
          apply List.sum_eq_zero
          intro m hm
          obtain ⟨a, ha, rfl⟩ := List.mem_map.mp hm
          have hne : (b == a) = false := by
            rw [beq_eq_false_iff_ne]
            exact fun hba => hk (hba ▸ ha)
          rw [hne]
          rfl
        rw [hzero, beq_self_eq_true, if_pos rfl, Nat.add_zero]
      · have hne : (b == k) = false := by
          rw [beq_eq_false_iff_ne]
          exact fun hbk => hk (hbk ▸ h)
        rw [hne, ih hks h, if_neg Bool.false_ne_true, Nat.zero_add]

/-- Elements with keys, counted key by key, are counted once each. -/
theorem sum_countP_keyed {β : Type} (p : β → Bool) {ks : List α} (hks : ks.Nodup)
    (taken : List (α × β)) (hmem : ∀ x ∈ taken, x.1 ∈ ks) :
    (ks.map fun a => (taken.filterMap fun (b, e) => if b == a then some e else none).countP p).sum =
      taken.countP fun x => p x.2 := by
  induction taken with
  | nil => simp
  | cons x taken ih =>
      obtain ⟨b, e⟩ := x
      have hrest := ih fun y hy => hmem y (List.mem_cons_of_mem _ hy)
      have hone := sum_indicator hks (hmem (b, e) List.mem_cons_self) (if p e then 1 else 0)
      rw [List.countP_cons, ← hrest, ← hone, ← List.sum_map_add]
      refine congrArg List.sum (List.map_congr_left fun a _ => ?_)
      by_cases hba : (b == a) = true
      · rw [List.filterMap_cons_some (b := e) (by simp [hba]), List.countP_cons, if_pos hba]
      · rw [List.filterMap_cons_none (by simp [hba]), if_neg hba, Nat.add_zero]

omit [BEq α] [LawfulBEq α] in
/-- An entry either takes a step or is a stray. -/
theorem countP_along_add_strays (p : Nat → Bool) (step : Path → Option (α × Path))
    (es : List Entry) :
    ((es.filterMap (along step)).countP fun x => p x.2.position) +
      (strays step es).countP (fun e => p e.position) = es.countP fun e => p e.position := by
  unfold strays
  induction es with
  | nil => rfl
  | cons e es ih =>
      rw [List.countP_cons, ← ih]
      cases hstep : step e.path with
      | none =>
          rw [List.filterMap_cons_none (by rw [along, hstep, Option.map_none]),
            List.filter_cons_of_pos (by rw [hstep, Option.isNone_none]), List.countP_cons]
          omega
      | some x =>
          rw [List.filterMap_cons_some (b := (x.1, { e with path := x.2 }))
              (by rw [along, hstep, Option.map_some]),
            List.filter_cons_of_neg (by simp [hstep]), List.countP_cons]
          dsimp only
          omega

/-- **The groups and the strays hold every entry once**, whatever is asked of its position. -/
theorem countP_groups (step : Path → Option (α × Path)) (always : List α) (es : List Entry)
    (hlt : StrictOrder lt) (p : Nat → Bool) :
    ((groups lt step always es).map fun g => g.2.countP fun e => p e.position).sum +
      (strays step es).countP (fun e => p e.position) = es.countP fun e => p e.position := by
  rw [← countP_along_add_strays p step es]
  congr 1
  unfold groups
  rw [List.map_map]
  refine sum_countP_keyed (fun e : Entry => p e.position) (nodup_sortOnce hlt _) _ fun x hx => ?_
  rw [mem_sortOnce, List.mem_append]
  exact Or.inr (List.mem_map_of_mem hx)

end Entry

end PowerOfAttorney
