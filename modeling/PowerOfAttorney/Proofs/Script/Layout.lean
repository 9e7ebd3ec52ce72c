import Mathlib.Data.List.Nodup
import PowerOfAttorney.Proofs.Script.Outcome

/-!
# `PowerOfAttorney.Proofs.Script.Layout` — what a script may do to what a draft shows

Slots of a draft are functions. That they belong to different fields, that each shows at first what is
on record, and that writing one leaves the others alone, has to be said of each script. A `Layout` says
what a draft shows at each place; `Script.Fits` says that each step of a script respects it. What follows
for a run is a `Patch`: every field is taken at most once, holds what was shown when it is taken, and
every other place shows what it did.

## Contents
- **Layouts.** `Held`, `Layout`, and `Layout.Reads` for one slot at one place.
- **Patches.** `Layout.Patch`, with `Patch.refl` and `Patch.append`; for one field `Reads.patch`,
  `Reads.known` and `Reads.taken`.
- **Scripts.** `Script.Fits` goes down a script with what is known of the draft and the places that are
  still free; `Fits.mono` weakens what is free.
- **Runs.** `Sound`, with `sound_descend` and `sound_scatter` for parts of a run; `Fits.sound`, by
  induction over the script.
-/

namespace PowerOfAttorney

variable {σ : Type}

/-! ## Layouts -/

/-- What a field holds. -/
structure Held where
  type : FieldType
  value : type.Value

/-- What the drafts of a script show. -/
structure Layout (σ : Type) where
  /-- What a draft shows at a place. -/
  view : σ → Place → Option Held
  /-- The draft before anything is read. -/
  start : σ
  /-- The field at a place is among those that may be changed, under a check. Which fields these are
      may depend on the draft in the end. -/
  owns : σ → Place → Option Check → Prop

namespace Layout

/-- What is shown before anything is read. -/
def base (L : Layout σ) : Place → Option Held :=
  L.view L.start

/-- A slot is the field at a place, as long as `P` is known of the draft. What is known of the draft
    is known of it in the end if the field belongs to no inner script (`outer`). -/
structure Reads (L : Layout σ) (outer : Prop) (P : σ → Prop) (p : Place) (slot : Slot σ)
    (check : Option Check) : Prop where
  get : ∀ s, P s → ∃ x, L.view s p = some x ∧ (L.base p = some x → x = ⟨slot.type, slot.get s⟩)
  keep : ∀ s v, P s → P (slot.set v s)
  set : ∀ s v, P s → L.view (slot.set v s) p = some ⟨slot.type, v⟩
  frame : ∀ s v q, P s → q ≠ p → L.view (slot.set v s) q = L.view s q
  owns : ∀ s, (outer → P s) → L.owns s p check

/-- What is shown at the free places is what was shown before anything was read. -/
def Untouched (L : Layout σ) (free : Place → Prop) (s : σ) : Prop :=
  ∀ q x, free q → L.view s q = some x → L.base q = some x

/-! ## Patches -/

/-- What a run does to what the draft shows: fields are taken at different places, each shows what it is
    set to, and nothing else shows anything else. -/
structure Patch (L : Layout σ) (a : σ) (hs : List (Hit σ)) (b : σ) : Prop where
  nodup : (hs.map Hit.place).Nodup
  kept : ∀ q, q ∉ hs.map Hit.place → L.view b q = L.view a q
  taken : ∀ h ∈ hs, ∀ v, h.slot.type.agrees h.held h.entry.old = true →
    h.slot.type.decode h.entry.new = .ok v → L.view b h.place = some ⟨h.slot.type, v⟩

namespace Patch

variable {L : Layout σ}

theorem refl (L : Layout σ) (a : σ) : L.Patch a [] a where
  nodup := List.nodup_nil
  kept _ _ := rfl
  taken _ hh := absurd hh List.not_mem_nil

/-- Only what is shown counts. -/
theorem of_view_eq {a a' b : σ} {hs : List (Hit σ)} (hview : L.view a' = L.view a)
    (h : L.Patch a' hs b) : L.Patch a hs b where
  nodup := h.nodup
  kept := hview ▸ h.kept
  taken := h.taken

/-- Patches at different places, one after the other. -/
theorem append {a b c : σ} {hs hs' : List (Hit σ)} (h : L.Patch a hs b) (h' : L.Patch b hs' c)
    (hapart : ∀ g ∈ hs, ∀ g' ∈ hs', g.place ≠ g'.place) : L.Patch a (hs ++ hs') c where
  nodup := by
    rw [List.map_append]
    refine List.Nodup.append h.nodup h'.nodup fun p hp hp' => ?_
    obtain ⟨g, hg, rfl⟩ := List.mem_map.mp hp
    obtain ⟨g', hg', heq⟩ := List.mem_map.mp hp'
    exact hapart g hg g' hg' heq.symm
  kept q hq := by
    rw [List.map_append, List.mem_append, not_or] at hq
    rw [h'.kept q hq.2, h.kept q hq.1]
  taken g hg v hold hnew := by
    rcases List.mem_append.mp hg with hg | hg
    · rw [h'.kept g.place ?_]
      · exact h.taken g hg v hold hnew
      · intro hmem
        obtain ⟨g', hg', heq⟩ := List.mem_map.mp hmem
        exact hapart g hg g' hg' heq.symm
    · exact h'.taken g hg v hold hnew

end Patch

variable {L : Layout σ} {outer : Prop} {P : σ → Prop}

/-- A field leaves the draft as it is or sets its slot, if it takes a change. -/
theorem draft_field (r : Reading σ) (root key : String) (slot : Slot σ) (rule : Rule) :
    (r.field root key slot rule).draft = r.draft ∨
      ∃ v, (r.field root key slot rule).draft = slot.set v r.draft := by
  unfold Reading.field
  dsimp only
  split
  · exact Or.inl rfl
  · unfold Reading.fill Reading.blame
    split
    · split
      · exact Or.inl rfl
      · rename_i v _
        exact Or.inr ⟨v, rfl⟩
    · exact Or.inl rfl

/-- One field is a patch. -/
theorem Reads.patch {top : Place} {key : String} {slot : Slot σ} {rule : Rule}
    (h : L.Reads outer P (top ++ .ofKey key) slot rule.check) {r : Reading σ} (hP : P r.draft)
    (root : String) :
    L.Patch r.draft (r.hit? root top key slot rule).toList (r.field root key slot rule).draft := by
  unfold Reading.hit?
  cases hfind : r.rest.find? fun e => e.path == Path.ofString key with
  | none =>
      rw [Reading.field_of_find?_none hfind]
      exact Patch.refl L r.draft
  | some e =>
      rw [Option.map_some, Option.toList_some]
      refine ⟨List.nodup_singleton _, fun q hq => ?_, fun g hg v hold hnew => ?_⟩
      · rw [List.map_singleton, List.mem_singleton] at hq
        rcases draft_field r root key slot rule with hsame | ⟨v, hset⟩
        · rw [hsame]
        · rw [hset]
          exact h.frame r.draft v q hP hq
      · rw [List.mem_singleton] at hg
        subst hg
        have hdraft : (r.field root key slot rule).draft = slot.set v r.draft := by
          have hheld : slot.type.agrees (slot.get r.draft) e.old = true := hold
          have hdecode : slot.type.decode e.new = .ok v := hnew
          rw [Reading.field_of_find?_some hfind, Reading.fill, if_pos hheld, hdecode]
          rfl
        rw [hdraft]
        exact h.set r.draft v hP

/-- What is known of the draft is known of it after the field. -/
theorem Reads.known {top : Place} {key : String} {slot : Slot σ} {rule : Rule}
    (h : L.Reads outer P (top ++ .ofKey key) slot rule.check) {r : Reading σ} (hP : P r.draft)
    (root : String) : P (r.field root key slot rule).draft := by
  rcases draft_field r root key slot rule with hsame | ⟨v, hset⟩
  · rw [hsame]
    exact hP
  · rw [hset]
    exact h.keep r.draft v hP

/-- What is taken stands at the place of the field. If the place shows what it showed at first, then that is
    what the slot holds. -/
theorem Reads.taken {free : Place → Prop} {top : Place} {key : String} {slot : Slot σ} {rule : Rule}
    (h : L.Reads outer P (top ++ .ofKey key) slot rule.check) {r : Reading σ} (hP : P r.draft)
    (hun : L.Untouched free r.draft) (hfree : free (top ++ .ofKey key)) (root : String) :
    ∀ g ∈ (r.hit? root top key slot rule).toList, g.place = top ++ .ofKey key ∧ g.check = rule.check ∧
      L.base g.place = some ⟨g.slot.type, g.held⟩ := by
  intro g hg
  rw [Option.mem_toList, Reading.hit?, Option.map_eq_some_iff] at hg
  obtain ⟨e, _, rfl⟩ := hg
  obtain ⟨x, hview, hget⟩ := h.get r.draft hP
  have hbase := hun _ x hfree hview
  exact ⟨rfl, rfl, hbase.trans (congrArg some (hget hbase))⟩

end Layout

/-! ## Scripts -/

/-- Every step of a script respects a layout. `outer` says that the script is no inner one, `P` is what
    is known of the draft when the script begins, and the places that are `free` have not been read. -/
def Script.Fits (L : Layout σ) (outer : Prop) (P : σ → Prop) (free : Place → Prop) (top : Place) :
    Script σ → Prop
  | .done => True
  | .field key slot rule next =>
    L.Reads outer P (top ++ .ofKey key) slot rule.check ∧ free (top ++ .ofKey key) ∧
      Fits L outer P (fun q => free q ∧ q ≠ top ++ .ofKey key) top next
  | .under key _ inner next =>
    Fits L False P free (top ++ .ofKey key) inner ∧
      Fits L outer P (fun q => free q ∧ ¬ (top ++ .ofKey key) <+: q) top next
  | .each _ inner next =>
    (∀ i, Fits L False P (fun q => free q ∧ (top ++ [.index i]) <+: q) (top ++ [.index i]) (inner i)) ∧
      Fits L outer P (fun _ => False) top next
  | .eachKey inner next =>
    (∀ k, Fits L False P (fun q => free q ∧ (top ++ [.name k]) <+: q) (top ++ [.name k]) (inner k)) ∧
      Fits L outer P (fun _ => False) top next
  | .outOfRange next | .consumed next => Fits L outer P free top next
  | .alter f next =>
    ∃ Q : σ → Prop, (∀ s, Q s → P s) ∧
      (∀ s, P s → L.Untouched free s → Q (f s) ∧ L.view (f s) = L.view s) ∧
      Fits L outer Q free top next
  | .look next =>
    ∀ s, P s → ∃ Q : σ → Prop, Q s ∧ (∀ s, Q s → P s) ∧ Fits L outer Q free top (next s)

namespace Script.Fits

variable {L : Layout σ} {outer : Prop} {P : σ → Prop} {free : Place → Prop}

/-- More places may be free. -/
theorem mono {free' : Place → Prop} {top : Place} {s : Script σ} (h : s.Fits L outer P free top)
    (hfree : ∀ q, free q → free' q) : s.Fits L outer P free' top := by
  induction s generalizing outer P free free' top with
  | done => trivial
  | field key slot rule next ih =>
      obtain ⟨hreads, hp, hnext⟩ := h
      exact ⟨hreads, hfree _ hp, ih hnext fun q hq => ⟨hfree q hq.1, hq.2⟩⟩
  | under key needed inner next ihInner ih =>
      obtain ⟨hinner, hnext⟩ := h
      exact ⟨ihInner hinner hfree, ih hnext fun q hq => ⟨hfree q hq.1, hq.2⟩⟩
  | each always inner next ihInner ih =>
      exact ⟨fun i => ihInner i (h.1 i) fun q hq => ⟨hfree q hq.1, hq.2⟩, h.2⟩
  | eachKey inner next ihInner ih =>
      exact ⟨fun k => ihInner k (h.1 k) fun q hq => ⟨hfree q hq.1, hq.2⟩, h.2⟩
  | outOfRange next ih => exact ih h hfree
  | consumed next ih => exact ih h hfree
  | alter f next ih =>
      obtain ⟨Q, hQP, hf, hnext⟩ := h
      exact ⟨Q, hQP, fun s hs hun => hf s hs fun q x hq => hun q x (hfree q hq), ih hnext hfree⟩
  | look next ih =>
      intro s hP
      obtain ⟨Q, hQ, hQP, hnext⟩ := h s hP
      exact ⟨Q, hQ, hQP, ih s hnext hfree⟩

end Script.Fits

/-! ## Runs -/

/-- What is claimed of a run: it keeps what is known of the draft, it is a patch, and every field that
    is taken was free, holds what was shown before anything was read, and may be changed. -/
structure Layout.Sound (L : Layout σ) (outer : Prop) (P : σ → Prop) (free : Place → Prop) (a : σ)
    (hs : List (Hit σ)) (b : σ) : Prop where
  known : P b
  patch : L.Patch a hs b
  free : ∀ h ∈ hs, free h.place
  held : ∀ h ∈ hs, L.base h.place = some ⟨h.slot.type, h.held⟩
  owns : ∀ h ∈ hs, ∀ s, (outer → s = b) → L.owns s h.place h.check

namespace Layout

variable {L : Layout σ} {outer : Prop} {P : σ → Prop} {free : Place → Prop}

theorem Sound.refl {a : σ} (hP : P a) : L.Sound outer P free a [] a :=
  ⟨hP, Patch.refl L a, fun _ hh => absurd hh List.not_mem_nil,
    fun _ hh => absurd hh List.not_mem_nil, fun _ hh => absurd hh List.not_mem_nil⟩

/-- An inner part of a run, and what follows it. What is known of the fields of an inner part does not
    depend on how the run ends. -/
theorem Sound.append {free' : Place → Prop} {a b c : σ} {hs hs' : List (Hit σ)}
    (h : L.Sound False P free a hs b) (h' : L.Sound outer P free' b hs' c)
    (hfree : ∀ q, free' q → free q)
    (hapart : ∀ g ∈ hs, ∀ g' ∈ hs', g.place ≠ g'.place) :
    L.Sound outer P free a (hs ++ hs') c where
  known := h'.known
  patch := h.patch.append h'.patch hapart
  free g hg := by
    rcases List.mem_append.mp hg with hg | hg
    · exact h.free g hg
    · exact hfree _ (h'.free g hg)
  held g hg := by
    rcases List.mem_append.mp hg with hg | hg
    · exact h.held g hg
    · exact h'.held g hg
  owns g hg s hs := by
    rcases List.mem_append.mp hg with hg | hg
    · exact h.owns g hg s False.elim
    · exact h'.owns g hg s hs

/-- More places may be free. -/
theorem Sound.mono {free' : Place → Prop} {a b : σ} {hs : List (Hit σ)}
    (h : L.Sound outer P free a hs b) (hfree : ∀ q, free q → free' q) :
    L.Sound outer P free' a hs b :=
  ⟨h.known, h.patch, fun g hg => hfree _ (h.free g hg), h.held, h.owns⟩

/-- A run leaves untouched what it does not reach. -/
theorem Sound.untouched {free' : Place → Prop} {a b : σ} {hs : List (Hit σ)}
    (h : L.Sound outer P free a hs b) (hun : L.Untouched free' a)
    (hapart : ∀ g ∈ hs, ¬ free' g.place) : L.Untouched free' b := by
  intro q x hq hview
  rw [h.patch.kept q] at hview
  · exact hun q x hq hview
  · intro hmem
    obtain ⟨g, hg, rfl⟩ := List.mem_map.mp hmem
    exact hapart g hg hq

/-- A place is below one label only. -/
theorem label_eq_of_below {top q : Place} {l l' : Label} (h : (top ++ [l]) <+: q)
    (h' : (top ++ [l']) <+: q) : l = l' := by
  have hsame := (List.prefix_of_prefix_length_le h h' (by simp)).eq_of_length (by simp)
  exact (List.cons.inj (List.append_cancel_left hsame)).1

/-- Groups below different labels, one after the other. -/
theorem sound_gather {α : Type} (label : α → Label) (hlabel : ∀ a b, label a = label b → a = b)
    (top : Place) {inner : α → Reading σ → Reading σ} {log : α → Reading σ → List (Hit σ)}
    (hinner : ∀ a (r : Reading σ), P r.draft →
      L.Untouched (fun q => free q ∧ (top ++ [label a]) <+: q) r.draft →
      L.Sound False P (fun q => free q ∧ (top ++ [label a]) <+: q) r.draft (log a r) (inner a r).draft)
    (groups : List (α × List Entry)) (hgroups : (groups.map Prod.fst).Nodup) {r : Reading σ}
    (hP : P r.draft)
    (hun : ∀ g ∈ groups, L.Untouched (fun q => free q ∧ (top ++ [label g.1]) <+: q) r.draft) :
    L.Sound False P (fun q => free q ∧ ∃ g ∈ groups, (top ++ [label g.1]) <+: q) r.draft
      (r.gather inner log groups) (r.readGroups inner groups).draft := by
  induction groups generalizing r with
  | nil => exact Sound.refl hP
  | cons g groups ih =>
      obtain ⟨a, es⟩ := g
      rw [List.map_cons, List.nodup_cons] at hgroups
      -- What is taken below one label is below no other, so the groups that follow find their places
      -- untouched.
      have hother : ∀ g ∈ groups, ∀ q, (top ++ [label a]) <+: q → ¬ (top ++ [label g.1]) <+: q := by
        intro g hg q ha hb
        have hsame : g.1 = a := hlabel _ _ (label_eq_of_below hb ha)
        exact hgroups.1 (List.mem_map.mpr ⟨g, hg, hsame⟩)
      have hgroup := hinner a (r.onto es) hP (hun (a, es) List.mem_cons_self)
      have hnext := ih hgroups.2 (r := r.after (inner a (r.onto es)) []) hgroup.known
        fun g hg => hgroup.untouched (hun g (List.mem_cons_of_mem _ hg))
          fun h hh hfree => hother g hg h.place (hgroup.free h hh).2 hfree.2
      refine (hgroup.mono fun q hq => ⟨hq.1, (a, es), List.mem_cons_self, hq.2⟩).append hnext ?_ ?_
      · rintro q ⟨hfree, g, hg, hbelow⟩
        exact ⟨hfree, g, List.mem_cons_of_mem _ hg, hbelow⟩
      · intro h hh h' hh' heq
        obtain ⟨_, g, hg, hbelow⟩ := hnext.free h' hh'
        exact hother g hg h.place (hgroup.free h hh).2 (heq ▸ hbelow)

/-- Reading by index or key, where each entry is below a label of its own. -/
theorem sound_scatter {α : Type} [BEq α] [LawfulBEq α] {lt : α → α → Bool} (hlt : StrictOrder lt)
    (label : α → Label) (hlabel : ∀ a b, label a = label b → a = b) (top : Place)
    {inner : α → Reading σ → Reading σ} {log : α → Reading σ → List (Hit σ)}
    (hinner : ∀ a (r : Reading σ), P r.draft →
      L.Untouched (fun q => free q ∧ (top ++ [label a]) <+: q) r.draft →
      L.Sound False P (fun q => free q ∧ (top ++ [label a]) <+: q) r.draft (log a r) (inner a r).draft)
    (step : Path → Option (α × Path)) (always : List α) {r : Reading σ} (hP : P r.draft)
    (hun : L.Untouched free r.draft) :
    L.Sound False P free r.draft ((r.swept step).gather inner log (Entry.groups lt step always r.rest))
      (r.scatter lt step always inner).draft := by
  rw [Reading.scatter_eq_readGroups]
  have hgroups := sound_gather label hlabel top hinner (Entry.groups lt step always r.rest)
    (Entry.nodup_groups hlt) (r := r.swept step) hP fun _ _ q x hq => hun q x hq.1
  exact hgroups.mono fun _ hq => hq.1

/-- What is below a key, if there is anything. -/
theorem sound_descend {r : Reading σ} {key : String} {inner : Reading σ → Reading σ} {hs : List (Hit σ)}
    (hinner : L.Sound False P free r.draft hs (inner (r.onto (r.inside key))).draft)
    (hnil : r.inside key = [] → hs = []) (hP : P r.draft) (root : String) (needed : Bool) :
    L.Sound False P free r.draft hs (r.descend root key needed inner).draft := by
  by_cases hin : r.inside key = []
  · rw [Reading.descend_of_inside_nil hin, hnil hin]
    exact Sound.refl hP
  · rw [Reading.descend_of_inside_ne_nil hin]
    exact hinner

end Layout

namespace Script.Fits

open Layout Reading

variable {L : Layout σ} {outer : Prop} {P : σ → Prop} {free : Place → Prop}

/-- The places of a run are below where it runs. -/
theorem prefix_of_mem_hits {s : Script σ} {root : String} {top : Place} {r : Reading σ} {h : Hit σ}
    (hh : h ∈ s.hits root top r) : top <+: h.place := by
  obtain ⟨_, _, _, _, _, b, hplace, _⟩ := origin_of_mem_hits hh
  exact ⟨b, hplace.symm⟩

/-- **A script that respects a layout patches what the draft shows.** -/
theorem sound {s : Script σ} {top : Place} (h : s.Fits L outer P free top) (root : String)
    {r : Reading σ} (hP : P r.draft) (hun : L.Untouched free r.draft) :
    L.Sound outer P free r.draft (s.hits root top r) (s.run root r).draft := by
  -- By induction over the script. What an inner script takes lies below its key or label, where
  -- nothing else is taken.
  induction s generalizing outer P free root top r with
  | done => exact Sound.refl hP
  | field key slot rule next ih =>
      obtain ⟨hreads, hp, hnext⟩ := h
      have htaken := hreads.taken hP hun hp root
      have hpatch := hreads.patch hP root
      -- What follows finds its places as they were, because the field has set none of them.
      have hrun := ih hnext root (hreads.known hP root) fun q x hq hview => by
        rw [hpatch.kept q] at hview
        · exact hun q x hq.1 hview
        · intro hmem
          obtain ⟨g, hg, rfl⟩ := List.mem_map.mp hmem
          exact hq.2 (htaken g hg).1
      refine ⟨hrun.known, hpatch.append hrun.patch ?_, ?_, ?_, ?_⟩
      · intro g hg g' hg' heq
        exact (hrun.free g' hg').2 (heq ▸ (htaken g hg).1)
      · intro g hg
        rcases List.mem_append.mp hg with hg | hg
        · exact (htaken g hg).1 ▸ hp
        · exact (hrun.free g hg).1
      · intro g hg
        rcases List.mem_append.mp hg with hg | hg
        · exact (htaken g hg).2.2
        · exact hrun.held g hg
      · intro g hg s hs
        rcases List.mem_append.mp hg with hg | hg
        · rw [(htaken g hg).1, (htaken g hg).2.1]
          exact hreads.owns s fun ho => hs ho ▸ hrun.known
        · exact hrun.owns g hg s hs
  | under key needed inner next ihInner ih =>
      obtain ⟨hinner, hnext⟩ := h
      have hin := ihInner hinner (root ++ key) (r := r.onto (r.inside key)) hP hun
      have hnil : r.inside key = [] →
          inner.hits (root ++ key) (top ++ .ofKey key) (r.onto (r.inside key)) = [] :=
        fun hnil => hits_of_rest_nil inner (r := r.onto (r.inside key)) hnil
      have hstep := sound_descend hin hnil hP root needed
      have hrun := ih hnext root hstep.known (hstep.untouched (fun q x hq => hun q x hq.1)
        fun g hg hq => hq.2 (prefix_of_mem_hits hg))
      refine hstep.append hrun (fun _ hq => hq.1) fun g hg g' hg' heq => ?_
      exact (hrun.free g' hg').2 (heq ▸ prefix_of_mem_hits hg)
  | each always inner next ihInner ih =>
      have hstep := sound_scatter strictOrder_nat Label.index (fun _ _ => Label.index.inj) top
        (fun i r hP hun => ihInner i (h.1 i) (entryRoot root i) hP hun) Path.indexStep? always hP hun
      have hrun := ih h.2 root hstep.known fun _ _ => False.elim
      refine hstep.append hrun (fun _ => False.elim) fun g _ g' hg' => ?_
      exact (hrun.free g' hg').elim
  | eachKey inner next ihInner ih =>
      have hstep := sound_scatter strictOrder_string Label.name (fun _ _ => Label.name.inj) top
        (fun k r hP hun => ihInner k (h.1 k) (keyRoot root k) hP hun) Path.keyStep? [] hP hun
      have hrun := ih h.2 root hstep.known fun _ _ => False.elim
      refine hstep.append hrun (fun _ => False.elim) fun g _ g' hg' => ?_
      exact (hrun.free g' hg').elim
  | outOfRange next ih => exact ih h root (r := r.refuse .outOfRange) hP hun
  | consumed next ih => exact ih h root (r := r.refuse .unexpected) hP hun
  | alter f next ih =>
      obtain ⟨Q, hQP, hf, hnext⟩ := h
      obtain ⟨hQ, hview⟩ := hf r.draft hP hun
      -- The draft has become another, but it shows the same.
      have hrun := ih hnext root (r := { r with draft := f r.draft }) hQ
        fun q x hq hx => hun q x hq (hview ▸ hx)
      exact ⟨hQP _ hrun.known, hrun.patch.of_view_eq hview, hrun.free, hrun.held, hrun.owns⟩
  | look next ih =>
      obtain ⟨Q, hQ, hQP, hnext⟩ := h r.draft hP
      have hrun := ih r.draft hnext root hQ hun
      exact ⟨hQP _ hrun.known, hrun.patch, hrun.free, hrun.held, hrun.owns⟩

/-- A whole update, read from the draft to begin with. -/
theorem sound_log {s : Script σ} (h : s.Fits L True (fun _ => True) (fun _ => True) [])
    (changes : List Change) :
    L.Sound True (fun _ => True) (fun _ => True) L.start (s.log L.start changes)
      (s.read L.start changes).1 :=
  h.sound "" (r := ⟨L.start, Entry.ofChanges changes, []⟩) trivial fun _ _ _ hview => hview

end Script.Fits

end PowerOfAttorney
