import PowerOfAttorney.Proofs.Script.Grouping
import PowerOfAttorney.Proofs.Script.Hits

/-!
# `PowerOfAttorney.Proofs.Script.Yields` — what a reading without faults ends in

A layout tells what a draft shows; this is about the draft itself. `Script.Yields` is the weakest
precondition of a script, taken over its steps: from which drafts every run that finds no fault ends in
a draft of a kind. A field that is set has passed its check, and a field that is needed is set.

## Contents
- **Preconditions.** `Slot.Passes`, `Script.Yields`, and `Yields.mono`.
- **Faults.** `faults_prefix_run`: a run never takes a fault back, so a run without faults has only steps
  without faults.
- **Runs.** What a step without faults has done; `Yields.run`, by induction over the script, and `Yields.read`
  for whole updates.
- **Parts.** `Yields.within`, for a script on a part of a draft.
- **Invariants.** `Script.Leads`, from what is known before to what is known after, and `Script.Keeps`, for
  what a script keeps, with one lemma for each kind of step.
- **One entry of many.** `ChosenFrom` and `keeps_choose`.
-/

namespace PowerOfAttorney

variable {σ τ : Type}

/-! ## Preconditions -/

/-- A value passes a check, if there is one. -/
def Slot.Passes (slot : Slot σ) (check : Option Check) (v : slot.type.Value) : Prop :=
  ∀ c, check = some c → c.fault? (slot.type.view v) = none

/-- Every run from a draft that finds no fault ends in a draft of which `Q` holds. Entries are read in
    turn, each once; `I` says what is known of the draft after those in `seen`. -/
def Script.Yields : Script σ → (σ → Prop) → σ → Prop
  | .done, Q, x => Q x
  | .field _ slot rule next, Q, x =>
    (∀ v, slot.Passes rule.check v → next.Yields Q (slot.set v x)) ∧
      (rule.needed = false → next.Yields Q x)
  | .under _ needed inner next, Q, x =>
    inner.Yields (next.Yields Q) x ∧ (needed = false → next.Yields Q x)
  | .each always inner next, Q, x =>
    ∃ I : List Nat → σ → Prop, I [] x ∧
      (∀ seen i y, i ∉ seen → I seen y → (inner i).Yields (I (i :: seen)) y) ∧
      ∀ seen y, always ⊆ seen → I seen y → next.Yields Q y
  | .eachKey inner next, Q, x =>
    ∃ I : List String → σ → Prop, I [] x ∧
      (∀ seen k y, k ∉ seen → I seen y → (inner k).Yields (I (k :: seen)) y) ∧
      ∀ seen y, I seen y → next.Yields Q y
  | .outOfRange next, Q, x | .consumed next, Q, x => next.Yields Q x
  | .alter f next, Q, x => next.Yields Q (f x)
  | .look next, Q, x => (next x).Yields Q x

/-- Less may be asked for. -/
theorem Script.Yields.mono {s : Script σ} {Q Q' : σ → Prop} {x : σ} (h : s.Yields Q x)
    (hQ : ∀ y, Q y → Q' y) : s.Yields Q' x := by
  induction s generalizing Q Q' x with
  | done => exact hQ x h
  | field key slot rule next ih => exact ⟨fun v hv => ih (h.1 v hv) hQ, fun hn => ih (h.2 hn) hQ⟩
  | under key needed inner next ihInner ih =>
      exact ⟨ihInner h.1 fun y hy => ih hy hQ, fun hn => ih (h.2 hn) hQ⟩
  | each always inner next ihInner ih =>
      obtain ⟨I, hstart, hstep, hend⟩ := h
      exact ⟨I, hstart, hstep, fun seen y halways hy => ih (hend seen y halways hy) hQ⟩
  | eachKey inner next ihInner ih =>
      obtain ⟨I, hstart, hstep, hend⟩ := h
      exact ⟨I, hstart, hstep, fun seen y hy => ih (hend seen y hy) hQ⟩
  | outOfRange next ih => exact ih h hQ
  | consumed next ih => exact ih h hQ
  | alter f next ih => exact ih h hQ
  | look next ih => exact ih x h hQ

/-! ## Faults -/

namespace Reading

theorem faults_prefix_field (r : Reading σ) (root key : String) (slot : Slot σ) (rule : Rule) :
    r.faults <+: (r.field root key slot rule).faults := by
  unfold field
  dsimp only
  split
  · exact List.prefix_append _ _
  · unfold fill blame
    split
    · split <;> exact List.prefix_append _ _
    · exact List.prefix_append _ _

theorem faults_prefix_descend (r : Reading σ) (root key : String) (needed : Bool)
    (inner : Reading σ → Reading σ) : r.faults <+: (r.descend root key needed inner).faults := by
  unfold descend
  dsimp only
  split <;> exact List.prefix_append _ _

theorem faults_prefix_readGroups {α : Type} (inner : α → Reading σ → Reading σ)
    (groups : List (α × List Entry)) (r : Reading σ) :
    r.faults <+: (r.readGroups inner groups).faults := by
  induction groups generalizing r with
  | nil => exact List.prefix_rfl
  | cons g groups ih =>
      exact (List.prefix_append r.faults _).trans (ih (r.after (inner g.1 (r.onto g.2)) []))

theorem faults_prefix_scatter {α : Type} [BEq α] (r : Reading σ) (lt : α → α → Bool)
    (step : Path → Option (α × Path)) (always : List α) (inner : α → Reading σ → Reading σ) :
    r.faults <+: (r.scatter lt step always inner).faults := by
  rw [scatter_eq_readGroups]
  exact (List.prefix_append r.faults _).trans (faults_prefix_readGroups inner _ (r.swept step))

end Reading

namespace Script

open Reading

/-- **A run never takes a fault back.** -/
theorem faults_prefix_run (s : Script σ) (root : String) (r : Reading σ) :
    r.faults <+: (s.run root r).faults := by
  induction s generalizing root r with
  | done => exact List.prefix_rfl
  | field key slot rule next ih => exact (faults_prefix_field r root key slot rule).trans (ih root _)
  | under key needed inner next _ ih =>
      exact (faults_prefix_descend r root key needed _).trans (ih root _)
  | each always inner next _ ih => exact (faults_prefix_scatter r _ _ always _).trans (ih root _)
  | eachKey inner next _ ih => exact (faults_prefix_scatter r _ _ [] _).trans (ih root _)
  | outOfRange next ih => exact (List.prefix_append _ _).trans (ih root (r.refuse .outOfRange))
  | consumed next ih => exact (List.prefix_append _ _).trans (ih root (r.refuse .unexpected))
  | alter f next ih => exact ih root { r with draft := f r.draft }
  | look next ih => exact ih r.draft root r

/-- Where nothing is wrong in the end, nothing was wrong before. -/
theorem faults_of_run {s : Script σ} {root : String} {r : Reading σ}
    (h : (s.run root r).faults = []) : r.faults = [] :=
  List.prefix_nil.mp (h ▸ s.faults_prefix_run root r)

end Script

/-! ## Runs -/

namespace Reading

/-- A field that takes a change without faults is set to a value that passes. -/
theorem draft_field_of_find? {r : Reading σ} {root key : String} {slot : Slot σ} {rule : Rule} {e : Entry}
    (hfind : (r.rest.find? fun e => e.path == Path.ofString key) = some e)
    (h : (r.field root key slot rule).faults = []) :
    ∃ v, slot.Passes rule.check v ∧ (r.field root key slot rule).draft = slot.set v r.draft := by
  rw [field_of_find?_some hfind] at h ⊢
  unfold fill at h ⊢
  split at h
  · rename_i hold
    rw [if_pos hold]
    cases hnew : slot.type.decode e.new with
    | error why =>
        rw [hnew] at h
        exact absurd (List.append_eq_nil_iff.mp h).2 nofun
    | ok v =>
        rw [hnew] at h
        refine ⟨v, fun c hc => ?_, rfl⟩
        have hnone := (List.append_eq_nil_iff.mp h).2
        rw [hc, Option.bind_some, List.map_eq_nil_iff, Option.toList_eq_nil_iff] at hnone
        exact hnone
  · exact absurd (List.append_eq_nil_iff.mp h).2 nofun

/-- A field without faults that no change names is left as it is, and none has to name it. -/
theorem draft_field_of_find?_none {r : Reading σ} {root key : String} {slot : Slot σ} {rule : Rule}
    (hfind : (r.rest.find? fun e => e.path == Path.ofString key) = none)
    (h : (r.field root key slot rule).faults = []) :
    rule.needed = false ∧ (r.field root key slot rule).draft = r.draft := by
  rw [field_of_find?_none hfind] at h ⊢
  refine ⟨?_, rfl⟩
  cases hneeded : rule.needed with
  | false => rfl
  | true =>
      rw [hneeded] at h
      exact absurd (List.append_eq_nil_iff.mp h).2 nofun

/-- Without changes below a key the draft is left as it is, and none has to be there. -/
theorem draft_descend_of_inside_nil {r : Reading σ} {root key : String} {needed : Bool}
    {inner : Reading σ → Reading σ} (hin : r.inside key = [])
    (h : (r.descend root key needed inner).faults = []) :
    needed = false ∧ (r.descend root key needed inner).draft = r.draft := by
  rw [descend_of_inside_nil hin] at h ⊢
  refine ⟨?_, rfl⟩
  cases hneeded : needed with
  | false => rfl
  | true =>
      rw [hneeded] at h
      exact absurd (List.append_eq_nil_iff.mp h).2 nofun

/-- Changes below a key are read without faults. -/
theorem draft_descend_of_inside_ne_nil {r : Reading σ} {root key : String} {needed : Bool}
    {inner : Reading σ → Reading σ} (hin : r.inside key ≠ [])
    (h : (r.descend root key needed inner).faults = []) :
    (inner (r.onto (r.inside key))).faults = [] ∧
      (r.descend root key needed inner).draft = (inner (r.onto (r.inside key))).draft := by
  rw [descend_of_inside_ne_nil hin] at h ⊢
  exact ⟨(List.append_eq_nil_iff.mp h).2, rfl⟩

/-- Where changes below a key are demanded, there are some. -/
theorem inside_ne_nil_of_needed {r : Reading σ} {root key : String} {inner : Reading σ → Reading σ}
    (h : (r.descend root key true inner).faults = []) : r.inside key ≠ [] := by
  intro hin
  obtain ⟨hneeded, _⟩ := draft_descend_of_inside_nil hin h
  exact Bool.noConfusion hneeded

/-- Groups that are read one after the other, each once, keep an invariant over those seen. -/
theorem readGroups_invariant {α : Type} {inner : α → Reading σ → Reading σ} {I : List α → σ → Prop}
    (hstep : ∀ seen a r, a ∉ seen → I seen r.draft → (inner a r).faults = [] →
      I (a :: seen) (inner a r).draft)
    (groups : List (α × List Entry)) (hgroups : (groups.map Prod.fst).Nodup) (seen : List α)
    (hseen : ∀ a ∈ seen, a ∉ groups.map Prod.fst) {r : Reading σ} (hI : I seen r.draft)
    (h : (r.readGroups inner groups).faults = []) :
    ∃ seen', groups.map Prod.fst ⊆ seen' ∧ I seen' (r.readGroups inner groups).draft := by
  -- By induction over the groups; those that are left are not among those seen.
  suffices hall : ∃ seen', seen ⊆ seen' ∧ groups.map Prod.fst ⊆ seen' ∧
      I seen' (r.readGroups inner groups).draft by
    obtain ⟨seen', _, hkeys, hend⟩ := hall
    exact ⟨seen', hkeys, hend⟩
  induction groups generalizing seen r with
  | nil => exact ⟨seen, List.Subset.refl _, List.nil_subset _, hI⟩
  | cons g groups ih =>
      obtain ⟨a, es⟩ := g
      rw [List.map_cons, List.nodup_cons] at hgroups
      have hafter := List.prefix_nil.mp (h ▸ faults_prefix_readGroups inner groups
        (r.after (inner a (r.onto es)) []))
      have hone := hstep seen a (r.onto es) (fun ha => hseen a ha List.mem_cons_self) hI
        (List.append_eq_nil_iff.mp hafter).2
      have hseen' : ∀ b ∈ a :: seen, b ∉ groups.map Prod.fst := by
        intro b hb
        rcases List.mem_cons.mp hb with rfl | hb
        · exact hgroups.1
        · exact fun hmem => hseen b hb (List.mem_cons_of_mem _ hmem)
      obtain ⟨seen', hsub, hkeys, hend⟩ := ih hgroups.2 (a :: seen) hseen'
        (r := r.after (inner a (r.onto es)) []) hone h
      exact ⟨seen', fun b hb => hsub (List.mem_cons_of_mem _ hb),
        List.cons_subset.mpr ⟨hsub List.mem_cons_self, hkeys⟩, hend⟩

/-- Reading by index or key keeps an invariant over the entries seen, which are those named and those
    that are always read. -/
theorem scatter_invariant {α : Type} [BEq α] [LawfulBEq α] {lt : α → α → Bool} (hlt : StrictOrder lt)
    {step : Path → Option (α × Path)} {always : List α} {inner : α → Reading σ → Reading σ}
    {I : List α → σ → Prop} (hstep : ∀ seen a r, a ∉ seen → I seen r.draft →
      (inner a r).faults = [] → I (a :: seen) (inner a r).draft)
    {r : Reading σ} (hI : I [] r.draft) (h : (r.scatter lt step always inner).faults = []) :
    ∃ seen, always ⊆ seen ∧ I seen (r.scatter lt step always inner).draft := by
  rw [scatter_eq_readGroups] at h ⊢
  obtain ⟨seen, hkeys, hend⟩ := readGroups_invariant hstep _ (Entry.nodup_groups hlt) []
    (fun _ ha => absurd ha List.not_mem_nil) (r := r.swept step) hI h
  refine ⟨seen, fun a ha => hkeys ?_, hend⟩
  unfold Entry.groups
  rw [List.map_map]
  exact List.mem_map.mpr ⟨a, Entry.mem_sortOnce.mpr (List.mem_append_left _ ha), rfl⟩

end Reading

namespace Script

open Reading

/-- **A run without faults ends as the precondition says.** -/
theorem Yields.run {s : Script σ} {Q : σ → Prop} {root : String} {r : Reading σ}
    (h : s.Yields Q r.draft) (hnone : (s.run root r).faults = []) : Q (s.run root r).draft := by
  -- By induction over the script. Faults are never taken back, so each step has none.
  induction s generalizing Q root r with
  | done => exact h
  | field key slot rule next ih =>
      refine ih ?_ hnone
      have hfield : (r.field root key slot rule).faults = [] := faults_of_run hnone
      cases hfind : r.rest.find? fun e => e.path == Path.ofString key with
      | none =>
          obtain ⟨hneeded, hsame⟩ := draft_field_of_find?_none hfind hfield
          rw [hsame]
          exact h.2 hneeded
      | some e =>
          obtain ⟨v, hpasses, hset⟩ := draft_field_of_find? hfind hfield
          rw [hset]
          exact h.1 v hpasses
  | under key needed inner next ihInner ih =>
      refine ih ?_ hnone
      have hdescend : (r.descend root key needed fun r => inner.run (root ++ key) r).faults = [] :=
        faults_of_run hnone
      by_cases hin : r.inside key = []
      · obtain ⟨hneeded, hsame⟩ := draft_descend_of_inside_nil hin hdescend
        rw [hsame]
        exact h.2 hneeded
      · obtain ⟨hread, hsame⟩ := draft_descend_of_inside_ne_nil hin hdescend
        rw [hsame]
        exact ihInner (r := r.onto (r.inside key)) h.1 hread
  | each always inner next ihInner ih =>
      obtain ⟨I, hstart, hinner, hend⟩ := h
      refine ih ?_ hnone
      obtain ⟨seen, halways, hI⟩ := scatter_invariant strictOrder_nat
        (fun seen i r hi hI hr => ihInner i (hinner seen i r.draft hi hI) hr) hstart
        (faults_of_run hnone)
      exact hend seen _ halways hI
  | eachKey inner next ihInner ih =>
      obtain ⟨I, hstart, hinner, hend⟩ := h
      refine ih ?_ hnone
      obtain ⟨seen, _, hI⟩ := scatter_invariant strictOrder_string
        (fun seen k r hk hI hr => ihInner k (hinner seen k r.draft hk hI) hr) hstart
        (faults_of_run hnone)
      exact hend seen _ hI
  | outOfRange next ih => exact ih (r := r.refuse .outOfRange) h hnone
  | consumed next ih => exact ih (r := r.refuse .unexpected) h hnone
  | alter f next ih => exact ih (r := { r with draft := f r.draft }) h hnone
  | look next ih => exact ih r.draft h hnone

/-- A whole update, read from a draft to begin with. -/
theorem Yields.read {s : Script σ} {Q : σ → Prop} {draft : σ} {changes : List Change}
    (h : s.Yields Q draft) (hnone : (s.read draft changes).2 = []) :
    Q (s.read draft changes).1 :=
  Yields.run (r := ⟨draft, Entry.ofChanges changes, []⟩) h hnone

end Script

/-! ## Parts -/

/-- In a draft a part can be set and read back, and nothing but the last value set counts. -/
structure Focus.LawfulAt (part : Focus σ τ) (x : σ) : Prop where
  get_set : ∀ w, part.get (part.set w x) = w
  set_set : ∀ w w', part.set w' (part.set w x) = part.set w' x
  set_get : part.set (part.get x) x = x

namespace Script

/-- **A script on a part yields of the whole what it yields of the part**, with the rest as it was. -/
theorem Yields.within {part : Focus σ τ} {x : σ} (hpart : part.LawfulAt x) {s : Script τ}
    {after : Script σ} {Q : σ → Prop}
    (h : s.Yields (fun w => after.Yields Q (part.set w x)) (part.get x)) :
    (s.within part after).Yields Q x := by
  -- By induction over the script, from any value of the part.
  suffices hall : ∀ w, s.Yields (fun w => after.Yields Q (part.set w x)) w →
      (s.within part after).Yields Q (part.set w x) by
    have hself := hall (part.get x) h
    rwa [hpart.set_get] at hself
  clear h
  intro w hw
  induction s generalizing after Q w with
  | done => exact hw
  | field key slot rule next ih =>
      refine ⟨fun v hv => ?_, fun hn => ih w (hw.2 hn)⟩
      have hset : (slot.within part).set v (part.set w x) = part.set (slot.set v w) x := by
        show part.set (slot.set v (part.get (part.set w x))) (part.set w x) = _
        rw [hpart.get_set, hpart.set_set]
      rw [hset]
      exact ih _ (hw.1 v hv)
  | under key needed inner next ihInner ih =>
      exact ⟨ihInner w (hw.1.mono fun w' hw' => ih w' hw'), fun hn => ih w (hw.2 hn)⟩
  | each always inner next ihInner ih =>
      obtain ⟨I, hstart, hstep, hend⟩ := hw
      refine ⟨fun seen y => ∃ w, I seen w ∧ y = part.set w x, ⟨w, hstart, rfl⟩, ?_, ?_⟩
      · rintro seen i _ hi ⟨w, hI, rfl⟩
        exact ihInner i w ((hstep seen i w hi hI).mono fun w' hw' => ⟨w', hw', rfl⟩)
      · rintro seen _ halways ⟨w, hI, rfl⟩
        exact ih w (hend seen w halways hI)
  | eachKey inner next ihInner ih =>
      obtain ⟨I, hstart, hstep, hend⟩ := hw
      refine ⟨fun seen y => ∃ w, I seen w ∧ y = part.set w x, ⟨w, hstart, rfl⟩, ?_, ?_⟩
      · rintro seen k _ hk ⟨w, hI, rfl⟩
        exact ihInner k w ((hstep seen k w hk hI).mono fun w' hw' => ⟨w', hw', rfl⟩)
      · rintro seen _ ⟨w, hI, rfl⟩
        exact ih w (hend seen w hI)
  | outOfRange next ih => exact ih w hw
  | consumed next ih => exact ih w hw
  | alter f next ih =>
      show Yields _ Q (part.set (f (part.get (part.set w x))) (part.set w x))
      rw [hpart.get_set, hpart.set_set]
      exact ih (f w) hw
  | look next ih =>
      show Yields (Script.within part (next (part.get (part.set w x))) after) Q _
      rw [hpart.get_set]
      exact ih w w hw

/-! ## Invariants -/

/-- A script leads from what is known of the draft to what is known of it in the end. -/
def Leads (P Q : σ → Prop) (s : Script σ) : Prop :=
  ∀ x, P x → s.Yields Q x

/-- A script keeps what is known of the draft. -/
def Keeps (P : σ → Prop) (s : Script σ) : Prop :=
  ∀ x, P x → s.Yields P x

theorem keeps_done {P : σ → Prop} : Script.done.Keeps P :=
  fun _ hx => hx

theorem leads_field {P Q : σ → Prop} {key : String} {slot : Slot σ} {rule : Rule} {next : Script σ}
    (hset : ∀ x v, P x → slot.Passes rule.check v → P (slot.set v x)) (hnext : next.Leads P Q) :
    (Script.field key slot rule next).Leads P Q :=
  fun x hx => ⟨fun v hv => hnext _ (hset x v hx hv), fun _ => hnext x hx⟩

theorem keeps_field {P : σ → Prop} {key : String} {slot : Slot σ} {rule : Rule} {next : Script σ}
    (hset : ∀ x v, P x → slot.Passes rule.check v → P (slot.set v x)) (hnext : next.Keeps P) :
    (Script.field key slot rule next).Keeps P :=
  leads_field hset hnext

theorem leads_under {P Q : σ → Prop} {key : String} {needed : Bool} {inner next : Script σ}
    (hinner : inner.Keeps P) (hnext : next.Leads P Q) : (Script.under key needed inner next).Leads P Q :=
  fun x hx => ⟨(hinner x hx).mono hnext, fun _ => hnext x hx⟩

theorem keeps_under {P : σ → Prop} {key : String} {needed : Bool} {inner next : Script σ}
    (hinner : inner.Keeps P) (hnext : next.Keeps P) : (Script.under key needed inner next).Keeps P :=
  leads_under hinner hnext

theorem leads_each {P Q : σ → Prop} {always : List Nat} {inner : Nat → Script σ} {next : Script σ}
    (hinner : ∀ i, (inner i).Keeps P) (hnext : next.Leads P Q) :
    (Script.each always inner next).Leads P Q :=
  fun _ hx => ⟨fun _ => P, hx, fun _ i y _ hy => hinner i y hy, fun _ y _ hy => hnext y hy⟩

theorem keeps_each {P : σ → Prop} {always : List Nat} {inner : Nat → Script σ} {next : Script σ}
    (hinner : ∀ i, (inner i).Keeps P) (hnext : next.Keeps P) :
    (Script.each always inner next).Keeps P :=
  leads_each hinner hnext

theorem leads_eachKey {P Q : σ → Prop} {inner : String → Script σ} {next : Script σ}
    (hinner : ∀ k, (inner k).Keeps P) (hnext : next.Leads P Q) :
    (Script.eachKey inner next).Leads P Q :=
  fun _ hx => ⟨fun _ => P, hx, fun _ k y _ hy => hinner k y hy, fun _ y hy => hnext y hy⟩

theorem keeps_eachKey {P : σ → Prop} {inner : String → Script σ} {next : Script σ}
    (hinner : ∀ k, (inner k).Keeps P) (hnext : next.Keeps P) :
    (Script.eachKey inner next).Keeps P :=
  leads_eachKey hinner hnext

/-- A script on a part leads on from where it leads the part. -/
theorem leads_within {part : Focus σ τ} {P Q R : σ → Prop} {P' Q' : τ → Prop} {s : Script τ}
    {after : Script σ} (hs : s.Leads P' Q') (hpart : ∀ x, P x → part.LawfulAt x)
    (hget : ∀ x, P x → P' (part.get x)) (hset : ∀ x w, P x → Q' w → R (part.set w x))
    (hafter : after.Leads R Q) : (s.within part after).Leads P Q :=
  fun x hx => Yields.within (hpart x hx)
    ((hs _ (hget x hx)).mono fun w hw => hafter _ (hset x w hx hw))

/-- A script on a part keeps what it keeps of the part. -/
theorem keeps_within {part : Focus σ τ} {P : σ → Prop} {Q : τ → Prop} {s : Script τ} {after : Script σ}
    (hs : s.Keeps Q) (hpart : ∀ x, P x → part.LawfulAt x) (hget : ∀ x, P x → Q (part.get x))
    (hset : ∀ x w, P x → Q w → P (part.set w x)) (hafter : after.Keeps P) :
    (s.within part after).Keeps P :=
  leads_within hs hpart hget hset hafter

/-- What does not depend on a part is still known after every script on the part. -/
theorem leads_aside {part : Focus σ τ} {P Q : σ → Prop} {s : Script τ} {after : Script σ}
    (hset : ∀ x w, P x → P (part.set w x)) (hafter : after.Leads P Q) :
    (s.within part after).Leads P Q := by
  induction s generalizing Q after with
  | done => exact hafter
  | field key slot rule next ih => exact leads_field (fun x v hx _ => hset x _ hx) (ih hafter)
  | under key needed inner next ihInner ih => exact leads_under (ihInner keeps_done) (ih hafter)
  | each always inner next ihInner ih => exact leads_each (fun i => ihInner i keeps_done) (ih hafter)
  | eachKey inner next ihInner ih => exact leads_eachKey (fun k => ihInner k keeps_done) (ih hafter)
  | outOfRange next ih => exact ih hafter
  | consumed next ih => exact ih hafter
  | alter f next ih => exact fun x hx => ih hafter _ (hset x _ hx)
  | look next ih => exact fun x hx => ih (part.get x) hafter x hx

/-- What does not depend on a part is kept by every script on the part. -/
theorem keeps_aside {part : Focus σ τ} {P : σ → Prop} {s : Script τ} {after : Script σ}
    (hset : ∀ x w, P x → P (part.set w x)) (hafter : after.Keeps P) :
    (s.within part after).Keeps P :=
  leads_aside hset hafter

/-- Every script keeps what is known of every draft. -/
theorem keeps_trivial (s : Script σ) : s.Keeps fun _ => True := by
  induction s with
  | done => exact keeps_done
  | field key slot rule next ih => exact keeps_field (fun _ _ _ _ => trivial) ih
  | under key needed inner next ihInner ih => exact keeps_under ihInner ih
  | each always inner next ihInner ih => exact keeps_each ihInner ih
  | eachKey inner next ihInner ih => exact keeps_eachKey ihInner ih
  | outOfRange next ih => exact ih
  | consumed next ih => exact ih
  | alter f next ih => exact fun x _ => ih (f x) trivial
  | look next ih => exact fun x _ => ih x x trivial

end Script

/-! ## One entry of many -/

/-- What is read of an entry, if one has been chosen, is read of an entry of the list, to which it
    relates by `R`. -/
def ChosenFrom {α β : Type} (xs : List α) (R : α → β → Prop) (s : Option (Nat × β)) : Prop :=
  ∀ i b, s = some (i, b) → ∃ a, xs[i]? = some a ∧ R a b

theorem chosenFrom_none {α β : Type} (xs : List α) (R : α → β → Prop) : ChosenFrom xs R none :=
  fun _ _ h => absurd h nofun

/-- The script on one entry keeps how what is read relates to the entry. -/
theorem Script.keeps_choose {α β : Type} {xs : List α} {R : α → β → Prop} {i : Nat} {a : α} {seed : β}
    {inner : Script β} (ha : xs[i]? = some a) (hseed : R a seed) (hinner : inner.Keeps (R a)) :
    (Script.choose i seed inner).Keeps (ChosenFrom xs R) := by
  intro s hs
  show (if (s.all fun x => x.1 == i) = true then _ else _ : Script _).Yields _ s
  split
  · rename_i hall
    -- The entry at `i` is chosen now, if it was not before.
    obtain ⟨b, hb, hsome⟩ : ∃ b, R a b ∧ s.or (some (i, seed)) = some (i, b) := by
      cases s with
      | none => exact ⟨seed, hseed, rfl⟩
      | some x =>
          obtain ⟨j, b⟩ := x
          have hj : j = i := by simpa using hall
          subst hj
          obtain ⟨a', ha', hb⟩ := hs j b rfl
          rw [ha, Option.some.injEq] at ha'
          exact ⟨b, ha' ▸ hb, rfl⟩
    show Script.Yields _ _ (s.or (some (i, seed)))
    rw [hsome]
    refine Yields.within ⟨fun _ => rfl, fun _ _ => rfl, rfl⟩ ((hinner b hb).mono fun w hw => ?_)
    rintro _ _ ⟨⟩
    exact ⟨a, ha, hw⟩
  · exact hs

end PowerOfAttorney
