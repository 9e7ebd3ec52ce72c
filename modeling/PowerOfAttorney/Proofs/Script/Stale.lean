import PowerOfAttorney.Proofs.Script.Hits

/-!
# `PowerOfAttorney.Proofs.Script.Stale` — which changes are refused for what they claim

A change claims what its field holds. The log of a run says what the field did hold when it took the change,
so it tells which claims were wrong. Those and no others are reported as stale: no other step of a script
looks at what a change claims.

## Contents
- **Hits.** `Hit.IsStale`, and `staleAt` for the changes at a position of an update.
- **Steps.** What one field, one inner script and one group of changes report.
- **Runs.** `Script.stale_mem_run_iff`, by induction over the script.
-/

namespace PowerOfAttorney

variable {σ : Type}

/-! ## Hits -/

/-- The change claims another value than the field holds when the change comes. -/
def Hit.IsStale (h : Hit σ) : Prop :=
  h.slot.type.agrees h.held h.entry.old = false

/-- Some field has taken the change at a position and holds another value than the change claims. -/
def staleAt (i : Nat) (hs : List (Hit σ)) : Prop :=
  ∃ h ∈ hs, h.entry.position = i ∧ h.IsStale

theorem not_staleAt_nil (i : Nat) : ¬ staleAt i ([] : List (Hit σ)) := by
  rintro ⟨h, hh, _⟩
  exact absurd hh List.not_mem_nil

theorem staleAt_append {i : Nat} {hs hs' : List (Hit σ)} :
    staleAt i (hs ++ hs') ↔ staleAt i hs ∨ staleAt i hs' := by
  unfold staleAt
  simp only [List.mem_append, or_and_right, exists_or]

/-! ## Steps -/

namespace Reading

variable {i : Nat} {r : Reading σ}

/-- Faults of another kind do not count. -/
theorem stale_mem_blame_iff {faults : List Fault} (h : .stale i ∉ faults) :
    .stale i ∈ (r.blame faults).faults ↔ .stale i ∈ r.faults := by
  unfold blame
  rw [List.mem_append, or_iff_left h]

theorem stale_mem_refuse_iff (cause : Nat → Fault) (h : ∀ n, cause n ≠ .stale i) :
    .stale i ∈ (r.refuse cause).faults ↔ .stale i ∈ r.faults := by
  refine stale_mem_blame_iff fun hmem => ?_
  obtain ⟨e, _, he⟩ := List.mem_map.mp hmem
  exact h _ he

/-- A reading of some of the changes starts without faults. -/
theorem not_stale_mem_onto (es : List Entry) : .stale i ∉ (r.onto es).faults :=
  List.not_mem_nil

/-- What an inner reading reports is added to what has been reported. -/
theorem stale_mem_after_iff {sub : Reading σ} {rest : List Entry} :
    .stale i ∈ (r.after sub rest).faults ↔ .stale i ∈ r.faults ∨ .stale i ∈ sub.faults :=
  List.mem_append

/-- A change is reported as stale by the field that takes it if it claims another value. -/
theorem stale_mem_fill_iff {h : Hit σ} (hbefore : h.before = r.draft) :
    .stale i ∈ (r.fill h.slot h.check h.entry).faults ↔
      .stale i ∈ r.faults ∨ h.entry.position = i ∧ h.IsStale := by
  unfold fill Hit.IsStale Hit.held
  rw [hbefore]
  cases hold : h.slot.type.agrees (h.slot.get r.draft) h.entry.old with
  | false =>
      rw [if_neg Bool.false_ne_true]
      show .stale i ∈ r.faults ++ [.stale h.entry.position] ↔ _
      rw [List.mem_append, List.mem_singleton, Fault.stale.injEq, eq_comm, and_iff_left rfl]
  | true =>
      rw [if_pos rfl, or_iff_left fun hstale => absurd hstale.2.symm Bool.false_ne_true]
      cases h.slot.type.decode h.entry.new with
      | error why => exact stale_mem_blame_iff (by simp)
      | ok v => exact stale_mem_blame_iff (r := { r with draft := h.slot.set v r.draft }) (by simp)

theorem stale_mem_field_iff (root : String) (top : Place) (key : String) (slot : Slot σ) (rule : Rule) :
    .stale i ∈ (r.field root key slot rule).faults ↔
      .stale i ∈ r.faults ∨ staleAt i (r.hit? root top key slot rule).toList := by
  unfold hit?
  cases hfind : r.rest.find? fun e => e.path == Path.ofString key with
  | none =>
      rw [field_of_find?_none hfind, Option.map_none, Option.toList_none,
        or_iff_left (not_staleAt_nil i)]
      exact stale_mem_blame_iff (by split <;> simp)
  | some e =>
      have hfill := stale_mem_fill_iff (i := i)
        (r := { r with rest := r.rest.eraseP fun e => e.path == Path.ofString key })
        (h := ⟨top ++ .ofKey key, slot, rule.check, e, r.draft, (r.field root key slot rule).draft⟩) rfl
      dsimp only at hfill
      rw [← field_of_find?_some hfind] at hfill
      rw [hfill, Option.map_some, Option.toList_some]
      unfold staleAt
      simp only [List.mem_singleton, exists_eq_left]

/-- Below a key the inner script reports what is stale there. -/
theorem stale_mem_descend_iff {key : String} {inner : Reading σ → Reading σ} {hs : List (Hit σ)}
    (hinner : .stale i ∈ (inner (r.onto (r.inside key))).faults ↔
      .stale i ∈ (r.onto (r.inside key)).faults ∨ staleAt i hs)
    (hnil : r.inside key = [] → hs = []) (root : String) (needed : Bool) :
    .stale i ∈ (r.descend root key needed inner).faults ↔ .stale i ∈ r.faults ∨ staleAt i hs := by
  by_cases hin : r.inside key = []
  · rw [descend_of_inside_nil hin, hnil hin, or_iff_left (not_staleAt_nil i)]
    exact stale_mem_blame_iff (by split <;> simp)
  · rw [descend_of_inside_ne_nil hin, stale_mem_after_iff, hinner,
      or_iff_right (not_stale_mem_onto _)]

/-- Group by group it is reported what is stale in the group. -/
theorem stale_mem_readGroups_iff {α : Type} {inner : α → Reading σ → Reading σ}
    {log : α → Reading σ → List (Hit σ)}
    (hinner : ∀ a r, .stale i ∈ (inner a r).faults ↔ .stale i ∈ r.faults ∨ staleAt i (log a r))
    (groups : List (α × List Entry)) (r : Reading σ) :
    .stale i ∈ (r.readGroups inner groups).faults ↔
      .stale i ∈ r.faults ∨ staleAt i (r.gather inner log groups) := by
  induction groups generalizing r with
  | nil => rw [readGroups, gather, or_iff_left (not_staleAt_nil i)]
  | cons g groups ih =>
      obtain ⟨a, es⟩ := g
      rw [readGroups, gather, ih, staleAt_append, stale_mem_after_iff, hinner,
        or_iff_right (not_stale_mem_onto es), or_assoc]

theorem stale_mem_scatter_iff {α : Type} [BEq α] {inner : α → Reading σ → Reading σ}
    {log : α → Reading σ → List (Hit σ)}
    (hinner : ∀ a r, .stale i ∈ (inner a r).faults ↔ .stale i ∈ r.faults ∨ staleAt i (log a r))
    (lt : α → α → Bool) (step : Path → Option (α × Path)) (always : List α) :
    .stale i ∈ (r.scatter lt step always inner).faults ↔ .stale i ∈ r.faults ∨
      staleAt i ((r.swept step).gather inner log (Entry.groups lt step always r.rest)) := by
  -- A change of no group is refused for its key.
  have hswept : .stale i ∈ (r.swept step).faults ↔ .stale i ∈ r.faults :=
    stale_mem_blame_iff (by simp)
  rw [scatter_eq_readGroups, stale_mem_readGroups_iff hinner, hswept]

end Reading

/-! ## Runs -/

namespace Script

open Reading

/-- **A change is reported as stale exactly if the field that takes it holds another value than it
    claims.** -/
theorem stale_mem_run_iff (s : Script σ) (root : String) (top : Place) (r : Reading σ) (i : Nat) :
    .stale i ∈ (s.run root r).faults ↔ .stale i ∈ r.faults ∨ staleAt i (s.hits root top r) := by
  induction s generalizing root top r with
  | done => exact (or_iff_left (not_staleAt_nil i)).symm
  | field key slot rule next ih =>
      rw [hits, run, ih root top, staleAt_append, stale_mem_field_iff root top, or_assoc]
  | under key needed inner next ihInner ih =>
      have hnil : r.inside key = [] →
          inner.hits (root ++ key) (top ++ .ofKey key) (r.onto (r.inside key)) = [] :=
        fun hin => hits_of_rest_nil inner (r := r.onto (r.inside key)) hin
      rw [hits, run, ih root top, staleAt_append, stale_mem_descend_iff (ihInner _ _ _) hnil, or_assoc]
  | each always inner next ihInner ih =>
      rw [hits, run_each, ih root top, staleAt_append,
        stale_mem_scatter_iff fun i r => ihInner i (entryRoot root i) (top ++ [.index i]) r, or_assoc]
  | eachKey inner next ihInner ih =>
      rw [hits, run_eachKey, ih root top, staleAt_append,
        stale_mem_scatter_iff fun k r => ihInner k (keyRoot root k) (top ++ [.name k]) r, or_assoc]
  | outOfRange next ih => rw [hits, run, ih root top, stale_mem_refuse_iff .outOfRange (by simp)]
  | consumed next ih => rw [hits, run, ih root top, stale_mem_refuse_iff .unexpected (by simp)]
  | alter f next ih => exact ih root top _
  | look next ih => exact ih _ root top r

/-- The same of all changes of an update. -/
theorem stale_mem_read_iff (s : Script σ) (draft : σ) (changes : List Change) (i : Nat) :
    .stale i ∈ (s.read draft changes).2 ↔ staleAt i (s.log draft changes) := by
  have hrun := stale_mem_run_iff s "" [] ⟨draft, Entry.ofChanges changes, []⟩ i
  rwa [or_iff_right List.not_mem_nil] at hrun

end Script

end PowerOfAttorney
