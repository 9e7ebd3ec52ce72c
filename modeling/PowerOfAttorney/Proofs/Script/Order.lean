import PowerOfAttorney.Proofs.Script.Layout
import PowerOfAttorney.Proofs.Script.Yields

/-!
# `PowerOfAttorney.Proofs.Script.Order` — the order of changes does not matter

A field takes the first change of its key, and what is below an index or a key is read in the order of the
changes. Where nothing is wrong with them, neither matters: a second change of the same key would be left
over in the end, so that the first is the only one, and groups come in the order of their indexes or keys.

## Contents
- **Alike.** `Entry.Alike`: the same changes in any order; steps that take keys apart respect it.
- **Groups.** `groups_alike`: the same groups in the same order, with the same changes in any order.
- **Plain keys.** `Script.IsPlain`: no field is named by something that could be an index.
- **Only one.** `length_filter_named_le`: without faults, a field has one change of its key at most.
- **Runs.** `run_of_alike`, by induction over the script, and `read_of_perm` for whole updates.
-/

namespace PowerOfAttorney

variable {σ : Type}

namespace Entry

/-! ## Alike -/

/-- What a change says, wherever it stands. -/
def content (e : Entry) : Path × Json × Json :=
  (e.path, e.old, e.new)

/-- Two lists hold the same changes, in any order. -/
def Alike (es es' : List Entry) : Prop :=
  (es.map content).Perm (es'.map content)

/-- The entries whose paths go on as `f` says, with the paths as they go on. -/
def onward (f : Path → Option Path) (es : List Entry) : List Entry :=
  es.filterMap fun e => (f e.path).map ({ e with path := · })

variable {es es' : List Entry}

theorem Alike.filter (h : Alike es es') (p : Path → Bool) :
    Alike (es.filter fun e => p e.path) (es'.filter fun e => p e.path) := by
  have hmap (es : List Entry) : (es.filter fun e => p e.path).map content =
      (es.map content).filter fun c => p c.1 := by
    rw [List.filter_map]
    rfl
  unfold Alike
  rw [hmap, hmap]
  exact List.Perm.filter _ h

theorem Alike.onward (h : Alike es es') (f : Path → Option Path) :
    Alike (Entry.onward f es) (Entry.onward f es') := by
  have hmap (es : List Entry) : (Entry.onward f es).map content =
      (es.map content).filterMap fun c => (f c.1).map fun path => (path, c.2) := by
    unfold Entry.onward
    rw [List.map_filterMap, List.filterMap_map]
    refine List.filterMap_congr fun e _ => ?_
    show ((f e.path).map _).map content = (f e.path).map _
    rw [Option.map_map]
    rfl
  unfold Alike
  rw [hmap, hmap]
  exact List.Perm.filterMap _ h

/-- One list is empty with the other. -/
theorem Alike.eq_nil (h : Alike es es') (hes : es = []) : es' = [] := by
  subst hes
  exact List.map_eq_nil_iff.mp h.nil_eq.symm

theorem Alike.symm (h : Alike es es') : Alike es' es :=
  List.Perm.symm h

/-- The positions of entries that go on are among those of the entries. -/
theorem map_position_onward_sublist (f : Path → Option Path) (es : List Entry) :
    ((onward f es).map (·.position)).Sublist (es.map (·.position)) := by
  induction es with
  | nil => exact List.Sublist.slnil
  | cons e es ih =>
      unfold onward
      cases hf : f e.path with
      | none =>
          rw [List.filterMap_cons_none (by rw [hf, Option.map_none])]
          exact ih.cons e.position
      | some path =>
          rw [List.filterMap_cons_some (b := { e with path := path }) (by rw [hf, Option.map_some])]
          exact ih.cons_cons e.position

/-! ## Groups -/

section

variable {α : Type} [BEq α] [LawfulBEq α] {lt : α → α → Bool} {step : Path → Option (α × Path)}

/-- How a path goes on after one step. -/
def after? (step : Path → Option (α × Path)) (a : α) (path : Path) : Option Path :=
  (step path).bind fun x => if x.1 == a then some x.2 else none

/-- What is sorted is given by its elements. -/
theorem sortOnce_congr (hlt : StrictOrder lt) {xs ys : List α} (h : ∀ a, a ∈ xs ↔ a ∈ ys) :
    sortOnce lt xs = sortOnce lt ys := by
  have hperm : (sortOnce lt xs).Perm (sortOnce lt ys) :=
    (List.perm_ext_iff_of_nodup (nodup_sortOnce hlt xs) (nodup_sortOnce hlt ys)).mpr fun a => by
      rw [mem_sortOnce, mem_sortOnce, h a]
  refine hperm.eq_of_pairwise (fun a b _ _ hab hba => ?_) (pairwise_sortOnce hlt xs)
    (pairwise_sortOnce hlt ys)
  have haa := hlt.trans a b a hab hba
  rw [hlt.irrefl] at haa
  exact absurd haa Bool.false_ne_true

omit [LawfulBEq α] in
/-- A group holds the entries that take its step. -/
theorem groups_eq (always : List α) (es : List Entry) :
    groups lt step always es =
      (sortOnce lt (always ++ es.filterMap fun e => (step e.path).map Prod.fst)).map fun a =>
        (a, onward (after? step a) es) := by
  have hkeys : (es.filterMap (along step)).map Prod.fst =
      es.filterMap fun e => (step e.path).map Prod.fst := by
    rw [List.map_filterMap]
    refine List.filterMap_congr fun e _ => ?_
    show (Option.map _ (step e.path)).map Prod.fst = _
    rw [Option.map_map]
    rfl
  have hgroup (a : α) : (es.filterMap (along step)).filterMap
      (fun x => if x.1 == a then some x.2 else none) = onward (after? step a) es := by
    unfold onward
    rw [List.filterMap_filterMap]
    refine List.filterMap_congr fun e _ => ?_
    show (Option.map _ (step e.path)).bind _ = ((step e.path).bind _).map _
    cases step e.path with
    | none => rfl
    | some x =>
        show (if x.1 == a then _ else _) = Option.map _ (if x.1 == a then _ else _)
        split <;> rfl
  unfold groups
  dsimp only
  rw [hkeys]
  exact List.map_congr_left fun a _ => congrArg (Prod.mk a) (hgroup a)

/-- **The same changes in any order fall into the same groups in the same order.** -/
theorem groups_alike (hlt : StrictOrder lt) (step : Path → Option (α × Path)) (always : List α)
    (h : Alike es es') :
    ∃ keys : List α, groups lt step always es = keys.map (fun a => (a, onward (after? step a) es)) ∧
      groups lt step always es' = keys.map fun a => (a, onward (after? step a) es') := by
  refine ⟨_, groups_eq always es, ?_⟩
  rw [groups_eq]
  have hkeys (es : List Entry) : (es.filterMap fun e => (step e.path).map Prod.fst) =
      (es.map content).filterMap fun c => (step c.1).map Prod.fst := by
    rw [List.filterMap_map]
    rfl
  have hsame : ∀ a, a ∈ always ++ es'.filterMap (fun e => (step e.path).map Prod.fst) ↔
      a ∈ always ++ es.filterMap fun e => (step e.path).map Prod.fst := by
    intro a
    rw [List.mem_append, List.mem_append, hkeys, hkeys]
    exact or_congr_right (List.Perm.filterMap _ h).mem_iff.symm
  rw [sortOnce_congr hlt hsame]

end

end Entry

/-! ## Plain keys -/

/-- No segment of a path could be an index. -/
def Path.isPlain (path : Path) : Bool :=
  path.body.all fun segment => (index? segment).isNone

/-- Segments that could not be indexes spell the names that they are. -/
theorem Place.eq_map_name {b : Place} {segments : List String}
    (h : List.Forall₂ Label.IsSpelled b segments)
    (hplain : segments.all fun segment => (Path.index? segment).isNone) :
    b = segments.map .name := by
  induction h with
  | nil => rfl
  | @cons l segment _ _ hl _ ih =>
      obtain ⟨hsegment, hrest⟩ := Bool.and_eq_true_iff.mp (List.all_cons ▸ hplain)
      rw [List.map_cons, ← ih hrest]
      cases l with
      | name s => rw [show s = segment from hl]
      | index i =>
          rw [show Path.index? segment = some i from hl] at hsegment
          exact absurd hsegment Bool.false_ne_true

/-- A plain key spells one place only. -/
theorem Place.eq_ofKey {key : String} (hkey : (Path.ofString key).isPlain) {b : Place}
    (h : b.IsSpelled (Path.ofString key)) : b = .ofKey key :=
  eq_map_name h hkey

/-- Every field of a script has a plain key. -/
def Script.IsPlain : Script σ → Prop
  | .done => True
  | .field key _ _ next => (Path.ofString key).isPlain ∧ next.IsPlain
  | .under _ _ inner next => inner.IsPlain ∧ next.IsPlain
  | .each _ inner next => (∀ i, (inner i).IsPlain) ∧ next.IsPlain
  | .eachKey inner next => (∀ k, (inner k).IsPlain) ∧ next.IsPlain
  | .outOfRange next | .consumed next | .alter _ next => next.IsPlain
  | .look next => ∀ s, (next s).IsPlain

/-! ## Only one -/

/-- Taking the first of a kind off a list leaves the others of the kind. -/
theorem filter_eraseP {α : Type} (p : α → Bool) (xs : List α) :
    (xs.eraseP p).filter p = (xs.filter p).tail := by
  induction xs with
  | nil => rfl
  | cons x xs ih =>
      cases hx : p x with
      | true => rw [List.eraseP_cons_of_pos hx, List.filter_cons_of_pos hx, List.tail_cons]
      | false =>
          rw [List.eraseP_cons_of_neg (by simp [hx]), List.filter_cons_of_neg (by simp [hx]),
            List.filter_cons_of_neg (by simp [hx]), ih]

/-- If there is one only, it leaves those of other kinds. -/
theorem eraseP_eq_filter {α : Type} {p : α → Bool} {xs : List α} (h : (xs.filter p).length ≤ 1) :
    xs.eraseP p = xs.filter fun x => !p x := by
  induction xs with
  | nil => rfl
  | cons x xs ih =>
      cases hx : p x with
      | true =>
          rw [List.filter_cons_of_pos hx, List.length_cons] at h
          have hnone := List.length_eq_zero_iff.mp (Nat.le_zero.mp (Nat.le_of_succ_le_succ h))
          rw [List.eraseP_cons_of_pos hx, List.filter_cons_of_neg (by simp [hx])]
          refine (List.filter_eq_self.mpr fun y hy => ?_).symm
          simpa using List.filter_eq_nil_iff.mp hnone y hy
      | false =>
          rw [List.filter_cons_of_neg (by simp [hx])] at h
          rw [List.eraseP_cons_of_neg (by simp [hx]), List.filter_cons_of_pos (by simp [hx]), ih h]

namespace Script

open Reading

/-- Where nothing is left or blamed in the end, every change has been accepted somewhere. -/
theorem exists_hit_of_mem_rest {s : Script σ} (hends : s.Ends) {root : String} (top : Place)
    {r : Reading σ} (hnone : (s.run root r).faults = []) {e : Entry} (he : e ∈ r.rest) :
    ∃ g ∈ s.hits root top r, g.entry.position = e.position := by
  have hnothing : (s.run root r).tally e.position = 0 := by
    rw [tally_of_rest_nil (rest_run_of_ends hends root r), hnone, List.countP_nil]
  have hleft : 0 < r.tally e.position :=
    Nat.add_pos_left (List.countP_pos_iff.mpr ⟨e, he, beq_self_eq_true e.position⟩) _
  -- What a run does not leave and does not blame, it accepts.
  have haccepted : 0 < acceptedAt e.position (s.hits root top r) := by
    have htally := tally_run hends root top r e.position
    omega
  obtain ⟨g, hg, hposition⟩ := List.countP_pos_iff.mp haccepted
  exact ⟨g, hg, by simpa using (Bool.and_eq_true_iff.mp hposition).1⟩

/-- **A field without faults has one change of its key at most.** Another one would be left when the field
    has been read; it could not be accepted later, because its key spells no place but that of the field,
    so it would be blamed. -/
theorem length_filter_named_le {key : String} {slot : Slot σ} {rule : Rule} {next : Script σ}
    (hkey : (Path.ofString key).isPlain) (hends : next.Ends) {root : String} {top : Place} {r : Reading σ}
    (hpositions : (r.rest.map (·.position)).Nodup)
    (hplaces : (((Script.field key slot rule next).hits root top r).map Hit.place).Nodup)
    (h : ((Script.field key slot rule next).run root r).faults = []) :
    (r.rest.filter fun e => e.path == Path.ofString key).length ≤ 1 := by
  cases hfilter : r.rest.filter fun e => e.path == Path.ofString key with
  | nil => exact Nat.zero_le 1
  | cons e es =>
      cases es with
      | nil => exact Nat.le_refl 1
      | cons e' es =>
          exfalso
          let r' := r.field root key slot rule
          have hfind : (r.rest.find? fun e => e.path == Path.ofString key) = some e := by
            rw [← List.head?_filter, hfilter, List.head?_cons]
          have hmem : e' ∈ r'.rest ∧ e'.path = Path.ofString key := by
            have htail : e' ∈ r'.rest.filter fun e => e.path == Path.ofString key := by
              rw [rest_field, filter_eraseP, hfilter]
              exact List.mem_cons_self
            exact ⟨List.mem_of_mem_filter htail, by simpa using List.of_mem_filter htail⟩
          obtain ⟨g, hg, hposition⟩ :=
            exists_hit_of_mem_rest hends top (show (next.run root r').faults = [] from h) hmem.1
          obtain ⟨e'', he'', hfrom, _, _, b, hplace, hb⟩ := origin_of_mem_hits hg
          have hsub {x : Entry} (hx : x ∈ r'.rest) : x ∈ r.rest := by
            rw [rest_field] at hx
            exact List.mem_of_mem_eraseP hx
          have hsame : e'' = e' :=
            List.inj_on_of_nodup_map hpositions (hsub he'') (hsub hmem.1) (hfrom.symm.trans hposition)
          rw [hsame, hmem.2] at hb
          rw [Place.eq_ofKey hkey hb] at hplace
          -- But the place has been taken by the field.
          rw [hits, hit?, hfind, Option.map_some, Option.toList_some, List.cons_append, List.map_cons,
            List.nodup_cons] at hplaces
          exact hplaces.1 (List.mem_map.mpr ⟨g, hg, hplace⟩)

end Script

/-! ## Runs -/

namespace Reading

variable {r r' : Reading σ}

/-- Two readings have come to the same draft, the second one without faults. -/
def Agrees (r r' : Reading σ) : Prop :=
  r'.faults = [] ∧ r'.draft = r.draft

/-- What is wrong with a change has nothing to do with its position. -/
theorem Agrees.fill (h : Agrees r r') {slot : Slot σ} {check : Option Check} {e e' : Entry}
    (he : e'.content = e.content) (hnone : (r.fill slot check e).faults = []) :
    Agrees (r.fill slot check e) (r'.fill slot check e') := by
  obtain ⟨_, hrest⟩ := Prod.mk.inj he
  obtain ⟨hold, hnew⟩ := Prod.mk.inj hrest
  unfold Reading.fill at hnone ⊢
  rw [hold, hnew, h.2]
  split at hnone
  · rename_i hagrees
    rw [if_pos hagrees, if_pos hagrees]
    cases hdecode : slot.type.decode e.new with
    | error why =>
        rw [hdecode] at hnone
        exact absurd (List.append_eq_nil_iff.mp hnone).2 nofun
    | ok v =>
        rw [hdecode] at hnone
        have hpasses := List.map_eq_nil_iff.mp (List.append_eq_nil_iff.mp hnone).2
        refine ⟨List.append_eq_nil_iff.mpr ⟨h.1, List.map_eq_nil_iff.mpr hpasses⟩, rfl⟩
  · exact absurd (List.append_eq_nil_iff.mp hnone).2 nofun

/-- A field without faults, whose key has one change at most. -/
theorem Agrees.field (h : Agrees r r') (halike : Entry.Alike r.rest r'.rest) {root key : String}
    {slot : Slot σ} {rule : Rule}
    (hone : (r.rest.filter fun e => e.path == Path.ofString key).length ≤ 1)
    (hnone : (r.field root key slot rule).faults = []) :
    Agrees (r.field root key slot rule) (r'.field root key slot rule) := by
  have hnamed := halike.filter fun path => path == Path.ofString key
  cases hfilter : r.rest.filter fun e => e.path == Path.ofString key with
  | nil =>
      have hfind : (r.rest.find? fun e => e.path == Path.ofString key) = none := by
        rw [← List.head?_filter, hfilter, List.head?_nil]
      have hfind' : (r'.rest.find? fun e => e.path == Path.ofString key) = none := by
        rw [← List.head?_filter, hnamed.eq_nil hfilter, List.head?_nil]
      rw [field_of_find?_none hfind] at hnone ⊢
      rw [field_of_find?_none hfind']
      exact ⟨List.append_eq_nil_iff.mpr ⟨h.1, (List.append_eq_nil_iff.mp hnone).2⟩, h.2⟩
  | cons e es =>
      rw [hfilter, List.length_cons] at hone
      obtain rfl := List.length_eq_zero_iff.mp (Nat.le_zero.mp (Nat.le_of_succ_le_succ hone))
      -- The only change of the key in one list is the only one in the other.
      obtain ⟨e', hfilter', hcontent⟩ : ∃ e',
          (r'.rest.filter fun e => e.path == Path.ofString key) = [e'] ∧ e'.content = e.content := by
        rw [hfilter] at hnamed
        have hsingle := List.singleton_perm.mp hnamed
        obtain ⟨e', hfilter', hcontent⟩ := List.map_eq_singleton_iff.mp hsingle.symm
        exact ⟨e', hfilter', hcontent⟩
      have hfind : (r.rest.find? fun e => e.path == Path.ofString key) = some e := by
        rw [← List.head?_filter, hfilter, List.head?_cons]
      have hfind' : (r'.rest.find? fun e => e.path == Path.ofString key) = some e' := by
        rw [← List.head?_filter, hfilter', List.head?_cons]
      rw [field_of_find?_some hfind] at hnone ⊢
      rw [field_of_find?_some hfind']
      refine Agrees.fill ?_ hcontent hnone
      exact h

/-- If nothing is left of one reading, nothing is left of the other. -/
theorem Agrees.refuse (h : Agrees r r') (halike : Entry.Alike r.rest r'.rest) {cause : Nat → Fault}
    (hnone : (r.refuse cause).faults = []) : Agrees (r.refuse cause) (r'.refuse cause) := by
  have hrest := List.map_eq_nil_iff.mp (List.append_eq_nil_iff.mp hnone).2
  exact ⟨List.append_eq_nil_iff.mpr ⟨h.1, List.map_eq_nil_iff.mpr (halike.eq_nil hrest)⟩, h.2⟩

/-- Groups with the same changes, one after the other. -/
theorem Agrees.readGroups {α : Type} {inner : α → Reading σ → Reading σ}
    {log : α → Reading σ → List (Hit σ)} {keys : List α} {g g' : α → List Entry}
    (hinner : ∀ a ∈ keys, ∀ r r' : Reading σ, r.rest = g a → r'.rest = g' a → Agrees r r' →
      ((log a r).map Hit.place).Nodup → (inner a r).faults = [] → Agrees (inner a r) (inner a r'))
    (h : Agrees r r')
    (hplaces : ((r.gather inner log (keys.map fun a => (a, g a))).map Hit.place).Nodup)
    (hnone : (r.readGroups inner (keys.map fun a => (a, g a))).faults = []) :
    Agrees (r.readGroups inner (keys.map fun a => (a, g a)))
      (r'.readGroups inner (keys.map fun a => (a, g' a))) := by
  induction keys generalizing r r' with
  | nil => exact h
  | cons a keys ih =>
      rw [List.map_cons, gather, List.map_append] at hplaces
      have hafter := List.prefix_nil.mp (hnone ▸ faults_prefix_readGroups inner
        (keys.map fun a => (a, g a)) (r.after (inner a (r.onto (g a))) []))
      have hgroup := hinner a List.mem_cons_self (r.onto (g a)) (r'.onto (g' a)) rfl rfl ⟨rfl, h.2⟩
        hplaces.of_append_left (List.append_eq_nil_iff.mp hafter).2
      refine ih (fun b hb => hinner b (List.mem_cons_of_mem _ hb)) ⟨?_, hgroup.2⟩
        hplaces.of_append_right hnone
      exact List.append_eq_nil_iff.mpr ⟨h.1, hgroup.1⟩

/-- Groups of the same changes in any order. -/
theorem Agrees.scatter {α : Type} [BEq α] [LawfulBEq α] {lt : α → α → Bool} (hlt : StrictOrder lt)
    {step : Path → Option (α × Path)} {always : List α} {inner : α → Reading σ → Reading σ}
    {log : α → Reading σ → List (Hit σ)}
    (hinner : ∀ a (r r' : Reading σ), Agrees r r' → Entry.Alike r.rest r'.rest →
      (r.rest.map (·.position)).Nodup → ((log a r).map Hit.place).Nodup → (inner a r).faults = [] →
      Agrees (inner a r) (inner a r'))
    (h : Agrees r r') (halike : Entry.Alike r.rest r'.rest)
    (hpositions : (r.rest.map (·.position)).Nodup)
    (hplaces : (((r.swept step).gather inner log (Entry.groups lt step always r.rest)).map
      Hit.place).Nodup) (hnone : (r.scatter lt step always inner).faults = []) :
    Agrees (r.scatter lt step always inner) (r'.scatter lt step always inner) := by
  rw [scatter_eq_readGroups] at hnone ⊢
  rw [scatter_eq_readGroups]
  obtain ⟨keys, hkeys, hkeys'⟩ := Entry.groups_alike hlt step always halike
  rw [hkeys] at hplaces hnone ⊢
  rw [hkeys']
  have hswept := List.prefix_nil.mp (hnone ▸ faults_prefix_readGroups inner _ (r.swept step))
  have hstrays := List.map_eq_nil_iff.mp (List.append_eq_nil_iff.mp hswept).2
  refine Agrees.readGroups (fun a _ x x' hx hx' hagrees => ?_) ⟨?_, h.2⟩ hplaces hnone
  · refine hinner a x x' hagrees ?_ ?_
    · rw [hx, hx']
      exact halike.onward _
    · rw [hx]
      exact hpositions.sublist (Entry.map_position_onward_sublist _ _)
  · refine List.append_eq_nil_iff.mpr ⟨h.1, List.map_eq_nil_iff.mpr ?_⟩
    exact (halike.filter fun path => (step path).isNone).eq_nil hstrays

/-- All changes are dealt out to groups, so none is left on either side. -/
theorem alike_scatter {α : Type} [BEq α] {lt : α → α → Bool} {step : Path → Option (α × Path)}
    {always : List α} {inner inner' : α → Reading σ → Reading σ} :
    Entry.Alike (r.scatter lt step always inner).rest (r'.scatter lt step always inner').rest := by
  rw [rest_scatter, rest_scatter]
  exact List.Perm.refl _

theorem nodup_scatter {α : Type} [BEq α] {lt : α → α → Bool} {step : Path → Option (α × Path)}
    {always : List α} {inner : α → Reading σ → Reading σ} :
    ((r.scatter lt step always inner).rest.map (·.position)).Nodup := by
  rw [rest_scatter]
  exact List.nodup_nil

/-- What is below a key is read from the same changes. -/
theorem Agrees.descend (h : Agrees r r') (halike : Entry.Alike r.rest r'.rest) {root key : String}
    {needed : Bool} {inner : Reading σ → Reading σ}
    (hinner : Agrees (r.onto (r.inside key)) (r'.onto (r'.inside key)) →
      Entry.Alike (r.inside key) (r'.inside key) → (inner (r.onto (r.inside key))).faults = [] →
      Agrees (inner (r.onto (r.inside key))) (inner (r'.onto (r'.inside key))))
    (hnone : (r.descend root key needed inner).faults = []) :
    Agrees (r.descend root key needed inner) (r'.descend root key needed inner) := by
  have hinside : Entry.Alike (r.inside key) (r'.inside key) := halike.onward _
  by_cases hin : r.inside key = []
  · rw [descend_of_inside_nil hin] at hnone ⊢
    rw [descend_of_inside_nil (hinside.eq_nil hin)]
    exact ⟨List.append_eq_nil_iff.mpr ⟨h.1, (List.append_eq_nil_iff.mp hnone).2⟩, h.2⟩
  · have hin' : r'.inside key ≠ [] := fun hnil => hin (hinside.symm.eq_nil hnil)
    obtain ⟨hread, _⟩ := draft_descend_of_inside_ne_nil hin hnone
    obtain ⟨hfaults, hdraft⟩ := hinner ⟨rfl, h.2⟩ hinside hread
    rw [descend_of_inside_ne_nil hin, descend_of_inside_ne_nil hin']
    exact ⟨List.append_eq_nil_iff.mpr ⟨h.1, hfaults⟩, hdraft⟩

/-- A field that takes the only change of its key leaves the others. -/
theorem alike_field (halike : Entry.Alike r.rest r'.rest) {root key : String} {slot : Slot σ}
    {rule : Rule} (hone : (r.rest.filter fun e => e.path == Path.ofString key).length ≤ 1) :
    Entry.Alike (r.field root key slot rule).rest (r'.field root key slot rule).rest := by
  have hnamed := halike.filter fun path => path == Path.ofString key
  have hone' : (r'.rest.filter fun e => e.path == Path.ofString key).length ≤ 1 := by
    rwa [← List.length_map (f := Entry.content), ← hnamed.length_eq, List.length_map]
  rw [rest_field, rest_field, eraseP_eq_filter hone, eraseP_eq_filter hone']
  exact halike.filter fun path => !(path == Path.ofString key)

/-- The same changes are left beside a key. -/
theorem alike_descend (halike : Entry.Alike r.rest r'.rest) {root key : String} {needed : Bool}
    {inner : Reading σ → Reading σ} :
    Entry.Alike (r.descend root key needed inner).rest (r'.descend root key needed inner).rest := by
  rw [rest_descend, rest_descend]
  exact halike.filter fun path => (Path.below? (Path.ofString key) path).isNone

end Reading

namespace Script

open Reading

/-- **Without faults the order of the changes does not matter.** -/
theorem run_of_alike {s : Script σ} (hends : s.Ends) (hplain : s.IsPlain) {root : String} {top : Place}
    {r r' : Reading σ} (hagrees : Agrees r r') (halike : Entry.Alike r.rest r'.rest)
    (hpositions : (r.rest.map (·.position)).Nodup)
    (hplaces : ((s.hits root top r).map Hit.place).Nodup) (hnone : (s.run root r).faults = []) :
    Agrees (s.run root r) (s.run root r') := by
  -- By induction on the script. The first reading has positions and places once, and no faults, which
  -- passes to each part of it; of the second one it is only known that it has the same changes.
  induction s generalizing root top r r' with
  | done => exact hagrees
  | field key slot rule next ih =>
      have hnext : next.Ends := hends
      have hone := length_filter_named_le hplain.1 hnext hpositions hplaces hnone
      rw [hits, List.map_append] at hplaces
      refine ih hends hplain.2 (hagrees.field halike hone (faults_of_run hnone))
        (alike_field halike hone) ?_ hplaces.of_append_right hnone
      rw [rest_field]
      exact hpositions.sublist (List.eraseP_sublist.map _)
  | under key needed inner next ihInner ih =>
      rw [hits, List.map_append] at hplaces
      have hpositionsInside := hpositions.sublist
        (Entry.map_position_onward_sublist (Path.below? (Path.ofString key)) r.rest)
      have hdescend := hagrees.descend halike
        (fun hagrees halike hnone => ihInner hends.1 hplain.1 hagrees halike hpositionsInside
          hplaces.of_append_left hnone) (faults_of_run hnone)
      refine ih hends.2 hplain.2 hdescend (alike_descend halike) ?_ hplaces.of_append_right hnone
      rw [rest_descend]
      exact hpositions.sublist (List.filter_sublist.map _)
  | each always inner next ihInner ih =>
      rw [hits, List.map_append] at hplaces
      rw [run_each] at hnone ⊢
      rw [run_each]
      have hgroups := faults_of_run hnone
      have hstep := Agrees.scatter strictOrder_nat
        (fun i _ _ hagrees halike hpositions hplaces
            (hnone : (run (entryRoot root i) (inner i) _).faults = []) =>
          ihInner i (hends.1 i) (hplain.1 i) hagrees halike hpositions hplaces hnone)
        hagrees halike hpositions hplaces.of_append_left hgroups
      exact ih hends.2 hplain.2 hstep alike_scatter nodup_scatter hplaces.of_append_right hnone
  | eachKey inner next ihInner ih =>
      rw [hits, List.map_append] at hplaces
      rw [run_eachKey] at hnone ⊢
      rw [run_eachKey]
      have hgroups := faults_of_run hnone
      have hstep := Agrees.scatter strictOrder_string
        (fun k _ _ hagrees halike hpositions hplaces
            (hnone : (run (keyRoot root k) (inner k) _).faults = []) =>
          ihInner k (hends.1 k) (hplain.1 k) hagrees halike hpositions hplaces hnone)
        hagrees halike hpositions hplaces.of_append_left hgroups
      exact ih hends.2 hplain.2 hstep alike_scatter nodup_scatter hplaces.of_append_right hnone
  | outOfRange next ih =>
      have hrefused := hagrees.refuse halike (faults_of_run (s := next) hnone)
      rcases hends with rfl | hends
      · exact hrefused
      · exact ih hends hplain hrefused (List.Perm.refl _) List.nodup_nil hplaces hnone
  | consumed next ih =>
      have hrefused := hagrees.refuse halike (faults_of_run (s := next) hnone)
      rcases hends with rfl | hends
      · exact hrefused
      · exact ih hends hplain hrefused (List.Perm.refl _) List.nodup_nil hplaces hnone
  | alter f next ih =>
      have haltered : Agrees { r with draft := f r.draft } { r' with draft := f r'.draft } :=
        ⟨hagrees.1, congrArg f hagrees.2⟩
      exact ih hends hplain haltered halike hpositions hplaces hnone
  | look next ih =>
      have hnext := ih r.draft (hends _) (hplain _) hagrees halike hpositions hplaces hnone
      show Agrees _ (run root (next r'.draft) r')
      rwa [hagrees.2]

/-- **A whole update without faults may be read in any order.** -/
theorem read_of_perm {s : Script σ} (hends : s.Ends) (hplain : s.IsPlain) {L : Layout σ}
    (hfits : s.Fits L True (fun _ => True) (fun _ => True) []) {changes changes' : List Change}
    (hperm : changes.Perm changes') (hnone : (s.read L.start changes).2 = []) :
    s.read L.start changes' = s.read L.start changes := by
  have hcontent (cs : List Change) : (Entry.ofChanges cs).map Entry.content =
      cs.map fun c => (Path.ofString c.key, c.old, c.new) :=
    calc (Entry.ofChanges cs).map Entry.content
      _ = (cs.zipIdx.map Prod.fst).map fun c => (Path.ofString c.key, c.old, c.new) := by
        rw [Entry.ofChanges, List.map_map, List.map_map]
        rfl
      _ = _ := by rw [List.zipIdx_map_fst]
  have halike : Entry.Alike (Entry.ofChanges changes) (Entry.ofChanges changes') := by
    unfold Entry.Alike
    rw [hcontent, hcontent]
    exact hperm.map _
  have hpositions : ((Entry.ofChanges changes).map (·.position)).Nodup :=
    Entry.position_ofChanges changes ▸ List.nodup_range
  have hrun : Agrees (s.run "" ⟨L.start, Entry.ofChanges changes, []⟩)
      (s.run "" ⟨L.start, Entry.ofChanges changes', []⟩) :=
    run_of_alike hends hplain ⟨rfl, rfl⟩ halike hpositions (hfits.sound_log changes).patch.nodup hnone
  exact Prod.ext hrun.2 (hrun.1.trans hnone.symm)

end Script

end PowerOfAttorney
