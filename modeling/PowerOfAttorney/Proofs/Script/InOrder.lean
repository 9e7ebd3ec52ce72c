import Mathlib.Data.List.Pairwise
import PowerOfAttorney.Proofs.Script.Layout
import PowerOfAttorney.Proofs.Text.ByteOrder

/-!
# `PowerOfAttorney.Proofs.Script.InOrder` — entries are read in the order of their labels

A script that reads changes entry by entry sorts them first. So whatever is taken below the entries of a list
is taken in the order of the indexes, or of the bytes of the names, and not in the order of the changes.

## Contents
- **Order.** `Label.Precedes`, and `Place.InOrder` for places below a list.
- **Groups.** `Reading.pairwise_gather`: groups in order are read in order.
- **Scripts.** `Script.pairwise_log_each` and `Script.pairwise_log_eachKey`, for updates of one list.
-/

namespace PowerOfAttorney

/-! ## Order -/

/-- Indexes are in the order of numbers, names in the order of their bytes. -/
def Label.Precedes : Label → Label → Prop
  | .index i, .index j => i < j
  | .name k, .name l => Bytes.ofString k < Bytes.ofString l
  | _, _ => False

/-- Two places are below one entry of the list at `top`, or the first is below an entry that precedes. -/
def Place.InOrder (top p q : Place) : Prop :=
  ∃ l m, top ++ [l] <+: p ∧ top ++ [m] <+: q ∧ (l = m ∨ l.Precedes m)

/-! ## Groups -/

namespace Reading

variable {σ α : Type} (label : α → Label) {top : Place} {inner : α → Reading σ → Reading σ}
  {log : α → Reading σ → List (Hit σ)}

variable (hlog : ∀ a r, ∀ h ∈ log a r, top ++ [label a] <+: h.place)

include hlog

/-- What is taken is below the label of a group. -/
theorem exists_group_of_mem_gather {groups : List (α × List Entry)} {r : Reading σ} {h : Hit σ}
    (hh : h ∈ r.gather inner log groups) : ∃ a ∈ groups.map Prod.fst, top ++ [label a] <+: h.place := by
  induction groups generalizing r with
  | nil => exact absurd hh List.not_mem_nil
  | cons g groups ih =>
      obtain ⟨a, es⟩ := g
      rcases List.mem_append.mp hh with hfirst | hrest
      · exact ⟨a, List.mem_cons_self, hlog a _ h hfirst⟩
      · obtain ⟨b, hb, hbelow⟩ := ih hrest
        exact ⟨b, List.mem_cons_of_mem a hb, hbelow⟩

/-- **Groups in order are read in order.** -/
theorem pairwise_gather {groups : List (α × List Entry)}
    (hgroups : (groups.map Prod.fst).Pairwise fun a b => (label a).Precedes (label b)) (r : Reading σ) :
    ((r.gather inner log groups).map Hit.place).Pairwise (Place.InOrder top) := by
  induction groups generalizing r with
  | nil => exact List.Pairwise.nil
  | cons g groups ih =>
      obtain ⟨a, es⟩ := g
      obtain ⟨hfirst, hrest⟩ := List.pairwise_cons.mp hgroups
      rw [gather, List.map_append, List.pairwise_append]
      refine ⟨?_, ih hrest _, ?_⟩
      · -- Whatever is taken for one group is below one label.
        rw [List.pairwise_map]
        refine List.pairwise_of_forall_mem_list ?_
        intro h hh h' hh'
        exact ⟨label a, label a, hlog a _ h hh, hlog a _ h' hh', Or.inl rfl⟩
      · intro p hp q hq
        obtain ⟨h, hh, rfl⟩ := List.mem_map.mp hp
        obtain ⟨h', hh', rfl⟩ := List.mem_map.mp hq
        obtain ⟨b, hb, hbelow⟩ := exists_group_of_mem_gather label hlog hh'
        exact ⟨label a, label b, hlog a _ h hh, hbelow, Or.inr (hfirst b hb)⟩

end Reading

/-- The steps of groups are in the order by which they are sorted. -/
theorem Entry.pairwise_groups {α : Type} [BEq α] [LawfulBEq α] {lt : α → α → Bool} (hlt : StrictOrder lt)
    {step : Path → Option (α × Path)} {always : List α} {es : List Entry} :
    ((groups lt step always es).map Prod.fst).Pairwise fun a b => lt a b = true := by
  unfold groups
  rw [List.map_map]
  simpa [Function.comp_def] using pairwise_sortOnce hlt _

/-! ## Scripts -/

namespace Script

open Reading

variable {σ : Type} {next : Script σ} {draft : σ} {changes : List Change}

theorem pairwise_hits_each {always : List Nat} {inner : Nat → Script σ} {root : String} {top : Place}
    {r : Reading σ} :
    (((Script.each always inner next).hits root top r).map Hit.place).Pairwise (Place.InOrder top) := by
  -- After all entries no changes are left to be taken.
  rw [hits, hits_of_rest_nil next (rest_scatter _ _ _ _ _), List.append_nil]
  refine pairwise_gather Label.index (fun i r h hh => Fits.prefix_of_mem_hits hh) ?_ _
  exact (Entry.pairwise_groups strictOrder_nat).imp fun hlt => of_decide_eq_true hlt

theorem pairwise_hits_eachKey {inner : String → Script σ} {root : String} {top : Place} {r : Reading σ} :
    (((Script.eachKey inner next).hits root top r).map Hit.place).Pairwise (Place.InOrder top) := by
  rw [hits, hits_of_rest_nil next (rest_scatter _ _ _ _ _), List.append_nil]
  refine pairwise_gather Label.name (fun k r h hh => Fits.prefix_of_mem_hits hh) ?_ _
  refine (Entry.pairwise_groups strictOrder_string).imp ?_
  intro k l hlt
  exact Bytes.ofString_lt_iff.mpr (of_decide_eq_true hlt)

/-- An update of one list takes what the script on the list takes. -/
theorem log_under (key : String) (needed : Bool) (inner : Script σ) (draft : σ) (changes : List Change) :
    (Script.under key needed inner (.consumed .done)).log draft changes =
      inner.hits ("" ++ key) ([] ++ Place.ofKey key)
        (onto ⟨draft, Entry.ofChanges changes, []⟩ (inside ⟨draft, Entry.ofChanges changes, []⟩ key)) :=
  List.append_nil _

/-- **What an update takes of a list by index is in the order of the indexes.** -/
theorem pairwise_log_each {key : String} {needed : Bool} {always : List Nat} {inner : Nat → Script σ} :
    (((Script.under key needed (.each always inner next) (.consumed .done)).log draft changes).map
      Hit.place).Pairwise (Place.InOrder (.ofKey key)) := by
  rw [log_under]
  exact pairwise_hits_each

/-- **What an update takes of a list by name is in the order of the bytes of the names.** -/
theorem pairwise_log_eachKey {key : String} {needed : Bool} {inner : String → Script σ} :
    (((Script.under key needed (.eachKey inner next) (.consumed .done)).log draft changes).map
      Hit.place).Pairwise (Place.InOrder (.ofKey key)) := by
  rw [log_under]
  exact pairwise_hits_eachKey

end Script

end PowerOfAttorney
