import PowerOfAttorney.Proofs.Script.Order
import PowerOfAttorney.Proofs.Script.Within

/-!
# `PowerOfAttorney.Proofs.Script.Traces` — how the draft goes with the fields that have been taken

`Script.Yields` says what is known of a draft in the end. Some facts relate the draft to the changes: that
all that has been taken of a list concerns the entry that is chosen, or that a part is there exactly if
something below it has been taken. Here the weakest precondition carries along the places of the fields that
have been taken so far.

An inner script runs because a change is there to be read, and without faults it reads it. So when it is
done some place has been added, and an inner script that reads nothing has not been run at all.

## Contents
- **Preconditions.** `Script.Traces` and `Traces.mono`.
- **Runs.** `Traces.run`, by induction over the script, and `Traces.read` for whole updates.
- **Invariants.** `Script.Tracks`, and `Script.Settles` for inner scripts, with one lemma for each step.
- **Parts.** `tracks_below` and `tracks_avoiding`, for scripts on parts that an invariant does not look at.
- **One entry of many.** `settles_choose`.
-/

namespace PowerOfAttorney

variable {σ τ : Type}

/-! ## Preconditions -/

/-- Every run from a draft that finds no fault, begun when the places `ps` have been taken, ends in a draft
    of which `Q` holds together with all places that have been taken by then. -/
def Script.Traces : Script σ → Place → (List Place → σ → Prop) → List Place → σ → Prop
  | .done, _, Q, ps, x => Q ps x
  | .field key slot rule next, top, Q, ps, x =>
    (∀ v, slot.Passes rule.check v →
      next.Traces top Q (ps ++ [top ++ .ofKey key]) (slot.set v x)) ∧
    (rule.needed = false → next.Traces top Q ps x)
  | .under key needed inner next, top, Q, ps, x =>
    inner.Traces (top ++ .ofKey key) (fun ps' y => ps' ≠ ps → next.Traces top Q ps' y) ps x ∧
      (needed = false → next.Traces top Q ps x)
  | .each always inner next, top, Q, ps, x =>
    ∃ I : List Place → σ → Prop, I ps x ∧
      (∀ i ps y, I ps y → (inner i).Traces (top ++ [.index i])
        (fun ps' y' => (i ∉ always → ps' ≠ ps) → I ps' y') ps y) ∧
      ∀ ps y, I ps y → next.Traces top Q ps y
  | .eachKey inner next, top, Q, ps, x =>
    ∃ I : List Place → σ → Prop, I ps x ∧
      (∀ k ps y, I ps y → (inner k).Traces (top ++ [.name k]) (fun ps' y' => ps' ≠ ps → I ps' y') ps y) ∧
      ∀ ps y, I ps y → next.Traces top Q ps y
  | .outOfRange next, top, Q, ps, x | .consumed next, top, Q, ps, x => next.Traces top Q ps x
  | .alter f next, top, Q, ps, x => next.Traces top Q ps (f x)
  | .look next, top, Q, ps, x => (next x).Traces top Q ps x

/-- Less may be asked for. -/
theorem Script.Traces.mono {s : Script σ} {top : Place} {Q Q' : List Place → σ → Prop}
    {ps : List Place} {x : σ} (h : s.Traces top Q ps x) (hQ : ∀ ps y, Q ps y → Q' ps y) :
    s.Traces top Q' ps x := by
  induction s generalizing top Q Q' ps x with
  | done => exact hQ ps x h
  | field key slot rule next ih =>
      obtain ⟨hset, hskip⟩ := h
      exact ⟨fun v hv => ih (hset v hv) hQ, fun hneeded => ih (hskip hneeded) hQ⟩
  | under key needed inner next ihInner ih =>
      obtain ⟨hinner, hskip⟩ := h
      refine ⟨ihInner hinner ?_, fun hneeded => ih (hskip hneeded) hQ⟩
      intro ps' y hnext hne
      exact ih (hnext hne) hQ
  | each always inner next ihInner ih =>
      obtain ⟨I, hstart, hstep, hend⟩ := h
      exact ⟨I, hstart, hstep, fun ps y hy => ih (hend ps y hy) hQ⟩
  | eachKey inner next ihInner ih =>
      obtain ⟨I, hstart, hstep, hend⟩ := h
      exact ⟨I, hstart, hstep, fun ps y hy => ih (hend ps y hy) hQ⟩
  | outOfRange next ih => exact ih h hQ
  | consumed next ih => exact ih h hQ
  | alter f next ih => exact ih h hQ
  | look next ih => exact ih x h hQ

/-! ## Runs -/

namespace Reading

/-- What is known after a field: it has been taken and set, or no change names it and none has to. -/
theorem traces_field (root : String) {r : Reading σ} {key : String} {top : Place} {slot : Slot σ}
    {rule : Rule} {Q : List Place → σ → Prop} {next : Script σ} {ps : List Place}
    (h : (Script.field key slot rule next).Traces top Q ps r.draft)
    (hnone : (r.field root key slot rule).faults = []) :
    next.Traces top Q (ps ++ (r.hit? root top key slot rule).toList.map Hit.place)
      (r.field root key slot rule).draft := by
  obtain ⟨hset, hskip⟩ := h
  cases hfind : r.rest.find? fun e => e.path == Path.ofString key with
  | none =>
      obtain ⟨hneeded, hsame⟩ := draft_field_of_find?_none hfind hnone
      have hhit : r.hit? root top key slot rule = none := by rw [hit?, hfind, Option.map_none]
      rw [hhit, hsame, Option.toList_none, List.map_nil, List.append_nil]
      exact hskip hneeded
  | some e =>
      obtain ⟨v, hpasses, hdraft⟩ := draft_field_of_find? hfind hnone
      have hhit : (r.hit? root top key slot rule).toList.map Hit.place = [top ++ .ofKey key] := by
        rw [hit?, hfind]
        rfl
      rw [hhit, hdraft]
      exact hset v hpasses

/-- Groups that are read one after the other keep what each of them keeps. Those that are not demanded are
    there because of their changes. -/
theorem gather_traced {α : Type} (always : List α) (log : α → Reading σ → List (Hit σ))
    {inner : α → Reading σ → Reading σ} {I : List Place → σ → Prop}
    (hstep : ∀ a ps (r : Reading σ), I ps r.draft → (a ∉ always → r.rest ≠ []) →
      (inner a r).faults = [] → I (ps ++ (log a r).map Hit.place) (inner a r).draft)
    {groups : List (α × List Entry)} (hgroups : ∀ g ∈ groups, g.1 ∉ always → g.2 ≠ [])
    {r : Reading σ} {ps : List Place} (hI : I ps r.draft)
    (hnone : (r.readGroups inner groups).faults = []) :
    I (ps ++ (r.gather inner log groups).map Hit.place) (r.readGroups inner groups).draft := by
  induction groups generalizing r ps with
  | nil => simpa [gather, readGroups] using hI
  | cons g groups ih =>
      obtain ⟨a, es⟩ := g
      have hafter : (r.after (inner a (r.onto es)) []).faults = [] :=
        List.prefix_nil.mp (hnone ▸ faults_prefix_readGroups inner groups _)
      have hgroup := hstep a ps (r.onto es) hI (hgroups (a, es) List.mem_cons_self)
        (List.append_eq_nil_iff.mp hafter).2
      have hrest := ih (fun g hg => hgroups g (List.mem_cons_of_mem _ hg))
        (r := r.after (inner a (r.onto es)) []) hgroup hnone
      rw [gather, List.map_append, ← List.append_assoc]
      exact hrest

/-- Reading by index or key keeps what reading each entry keeps. -/
theorem scatter_traced {α : Type} [BEq α] [LawfulBEq α] {lt : α → α → Bool} {step : Path → Option (α × Path)}
    {always : List α} (log : α → Reading σ → List (Hit σ)) {inner : α → Reading σ → Reading σ}
    {I : List Place → σ → Prop}
    (hstep : ∀ a ps (r : Reading σ), I ps r.draft → (a ∉ always → r.rest ≠ []) →
      (inner a r).faults = [] → I (ps ++ (log a r).map Hit.place) (inner a r).draft)
    {r : Reading σ} {ps : List Place} (hI : I ps r.draft)
    (hnone : (r.scatter lt step always inner).faults = []) :
    I (ps ++ ((r.swept step).gather inner log (Entry.groups lt step always r.rest)).map Hit.place)
      (r.scatter lt step always inner).draft := by
  rw [scatter_eq_readGroups] at hnone ⊢
  exact gather_traced always log hstep (fun _ hg => Entry.ne_nil_of_mem_groups hg)
    (r := r.swept step) hI hnone

end Reading

namespace Script

open Reading

/-- An inner script that is run on changes without faults has taken some place. -/
theorem append_places_ne {s : Script σ} (hends : s.Ends) {root : String} (top : Place) {r : Reading σ}
    (hrest : r.rest ≠ []) (hnone : (s.run root r).faults = []) (ps : List Place) :
    ps ++ (s.hits root top r).map Hit.place ≠ ps := by
  obtain ⟨e, he⟩ := List.exists_mem_of_ne_nil r.rest hrest
  obtain ⟨g, hg, _⟩ := exists_hit_of_mem_rest hends top hnone he
  intro hsame
  have hnil := List.map_eq_nil_iff.mp (List.append_right_eq_self.mp hsame)
  rw [hnil] at hg
  exact absurd hg List.not_mem_nil

/-- **A run without faults ends as the precondition says**, with the places that it has taken. -/
theorem Traces.run {s : Script σ} (hends : s.Ends) {root : String} {top : Place}
    {Q : List Place → σ → Prop} {ps : List Place} {r : Reading σ} (h : s.Traces top Q ps r.draft)
    (hnone : (s.run root r).faults = []) :
    Q (ps ++ (s.hits root top r).map Hit.place) (s.run root r).draft := by
  -- By induction over the script. Faults are never taken back, so each step has none.
  induction s generalizing root top Q ps r with
  | done => exact absurd hends (by simp [Ends])
  | field key slot rule next ih =>
      have hstep := traces_field root h (faults_of_run hnone)
      have hrun := ih hends hstep hnone
      rw [List.append_assoc, ← List.map_append] at hrun
      exact hrun
  | under key needed inner next ihInner ih =>
      obtain ⟨hinner, hskip⟩ := h
      have hdescend : (r.descend root key needed fun r => inner.run (root ++ key) r).faults = [] :=
        faults_of_run hnone
      have hstep : next.Traces top Q
          (ps ++ (inner.hits (root ++ key) (top ++ .ofKey key) (r.onto (r.inside key))).map Hit.place)
          (r.descend root key needed fun r => inner.run (root ++ key) r).draft := by
        by_cases hin : r.inside key = []
        · obtain ⟨hneeded, hsame⟩ := draft_descend_of_inside_nil hin hdescend
          rw [hsame, hits_of_rest_nil inner (r := r.onto (r.inside key)) hin, List.map_nil, List.append_nil]
          exact hskip hneeded
        · obtain ⟨hread, hsame⟩ := draft_descend_of_inside_ne_nil hin hdescend
          have hrun := ihInner hends.1 (r := r.onto (r.inside key)) hinner hread
          rw [hsame]
          exact hrun (append_places_ne hends.1 _ hin hread ps)
      have hrun := ih hends.2 hstep hnone
      rw [List.append_assoc, ← List.map_append] at hrun
      exact hrun
  | each always inner next ihInner ih =>
      obtain ⟨I, hstart, hinner, hend⟩ := h
      have hgroups := scatter_traced (fun i r => hits (entryRoot root i) (top ++ [.index i]) (inner i) r)
        (fun i ps r hI hrest hread => ihInner i (hends.1 i) (hinner i ps r.draft hI) hread
          fun hi => append_places_ne (hends.1 i) _ (hrest hi) hread ps)
        hstart (faults_of_run hnone)
      have hrun := ih hends.2 (hend _ _ hgroups) hnone
      rw [List.append_assoc, ← List.map_append] at hrun
      exact hrun
  | eachKey inner next ihInner ih =>
      obtain ⟨I, hstart, hinner, hend⟩ := h
      have hgroups := scatter_traced (fun k r => hits (keyRoot root k) (top ++ [.name k]) (inner k) r)
        (fun k ps r hI hrest hread => ihInner k (hends.1 k) (hinner k ps r.draft hI) hread
          (append_places_ne (hends.1 k) _ (hrest List.not_mem_nil) hread ps))
        hstart (faults_of_run hnone)
      have hrun := ih hends.2 (hend _ _ hgroups) hnone
      rw [List.append_assoc, ← List.map_append] at hrun
      exact hrun
  | outOfRange next ih =>
      rcases hends with rfl | hends
      · simp only [hits, List.map_nil, List.append_nil]
        exact h
      · exact ih hends (r := r.refuse .outOfRange) h hnone
  | consumed next ih =>
      rcases hends with rfl | hends
      · simp only [hits, List.map_nil, List.append_nil]
        exact h
      · exact ih hends (r := r.refuse .unexpected) h hnone
  | alter f next ih => exact ih hends (r := { r with draft := f r.draft }) h hnone
  | look next ih => exact ih r.draft (hends r.draft) h hnone

/-- A whole update, read from a draft to begin with. -/
theorem Traces.read {s : Script σ} (hends : s.Ends) {Q : List Place → σ → Prop} {draft : σ}
    {changes : List Change} (h : s.Traces [] Q [] draft) (hnone : (s.read draft changes).2 = []) :
    Q ((s.log draft changes).map Hit.place) (s.read draft changes).1 :=
  Traces.run hends (r := ⟨draft, Entry.ofChanges changes, []⟩) h hnone

/-! ## Invariants -/

/-- A script keeps what is known of the places that have been taken and the draft. -/
def Tracks (J : List Place → σ → Prop) (top : Place) (s : Script σ) : Prop :=
  ∀ ps x, J ps x → s.Traces top J ps x

/-- What is known is known again when an inner script is done, which has then taken some place. -/
def Settles (J : List Place → σ → Prop) (top : Place) (s : Script σ) : Prop :=
  ∀ ps x, J ps x → s.Traces top (fun ps' y => ps' ≠ ps → J ps' y) ps x

variable {J : List Place → σ → Prop} {top : Place}

theorem Tracks.settles {s : Script σ} (h : s.Tracks J top) : s.Settles J top := by
  intro ps x hx
  exact (h ps x hx).mono fun _ _ hy _ => hy

theorem tracks_done : Script.done.Tracks J top :=
  fun _ _ hx => hx

theorem tracks_field {key : String} {slot : Slot σ} {rule : Rule} {next : Script σ}
    (hset : ∀ ps x v, J ps x → J (ps ++ [top ++ .ofKey key]) (slot.set v x))
    (hnext : next.Tracks J top) : (Script.field key slot rule next).Tracks J top := by
  intro ps x hx
  constructor
  · intro v _
    exact hnext _ _ (hset ps x v hx)
  · intro _
    exact hnext ps x hx

theorem tracks_under {key : String} {needed : Bool} {inner next : Script σ}
    (hinner : inner.Settles J (top ++ .ofKey key)) (hnext : next.Tracks J top) :
    (Script.under key needed inner next).Tracks J top := by
  intro ps x hx
  constructor
  · refine (hinner ps x hx).mono ?_
    intro ps' y hy hne
    exact hnext ps' y (hy hne)
  · intro _
    exact hnext ps x hx

theorem tracks_each {inner : Nat → Script σ} {next : Script σ}
    (hinner : ∀ i, (inner i).Settles J (top ++ [.index i])) (hnext : next.Tracks J top) :
    (Script.each [] inner next).Tracks J top := by
  intro ps x hx
  refine ⟨J, hx, ?_, hnext⟩
  intro i ps y hy
  exact (hinner i ps y hy).mono fun _ _ hsettled hne => hsettled (hne List.not_mem_nil)

theorem tracks_eachKey {inner : String → Script σ} {next : Script σ}
    (hinner : ∀ k, (inner k).Settles J (top ++ [.name k])) (hnext : next.Tracks J top) :
    (Script.eachKey inner next).Tracks J top := by
  intro ps x hx
  exact ⟨J, hx, fun k => hinner k, hnext⟩

theorem tracks_consumed {next : Script σ} (hnext : next.Tracks J top) :
    (Script.consumed next).Tracks J top :=
  hnext

/-- An inner script that refuses all changes is not run without faults. -/
theorem settles_outOfRange : (Script.outOfRange .done).Settles J top := by
  intro ps x _ hne
  exact absurd rfl hne

/-! ## Parts -/

/-- A script on a part of a part. -/
theorem within_within {ρ : Type} (s : Script ρ) (inside : Focus τ ρ) (part : Focus σ τ)
    (after : Script σ) : (s.within inside .done).within part after =
      s.within ⟨fun x => inside.get (part.get x), fun w x => part.set (inside.set w (part.get x)) x⟩
        after := by
  induction s generalizing after with
  | done => rfl
  | field key slot rule next ih =>
      show Script.field key _ rule _ = Script.field key _ rule _
      rw [ih]
      rfl
  | under key needed inner next ihInner ih =>
      show Script.under key needed _ _ = Script.under key needed _ _
      rw [ihInner, ih]
  | each always inner next ihInner ih =>
      show Script.each always (fun i => _) _ = Script.each always (fun i => _) _
      rw [ih, funext fun i => ihInner i .done]
  | eachKey inner next ihInner ih =>
      show Script.eachKey (fun k => _) _ = Script.eachKey (fun k => _) _
      rw [ih, funext fun k => ihInner k .done]
  | outOfRange next ih => exact congrArg Script.outOfRange (ih after)
  | consumed next ih => exact congrArg Script.consumed (ih after)
  | alter f next ih => exact congrArg (Script.alter _) (ih after)
  | look next ih => exact congrArg Script.look (funext fun x => ih (inside.get (part.get x)) after)

/-- What looks neither at a part nor at the places below one is kept by every script on the part that
    stands there. -/
theorem tracks_below {part : Focus σ τ} (hset : ∀ ps x w, J ps x → J ps (part.set w x))
    (hplace : ∀ ps x b, J ps x → J (ps ++ [top ++ b]) x) (s : Script τ) {after : Script σ}
    (hafter : after.Tracks J top) : (s.within part after).Tracks J top := by
  induction s generalizing top after with
  | done => exact hafter
  | field key slot rule next ih =>
      exact tracks_field (fun ps x v hx => hplace ps _ _ (hset ps x _ hx)) (ih hplace hafter)
  | under key needed inner next ihInner ih =>
      refine tracks_under (ihInner ?_ tracks_done).settles (ih hplace hafter)
      intro ps x b hx
      rw [List.append_assoc]
      exact hplace ps x _ hx
  | each always inner next ihInner ih =>
      intro ps x hx
      refine ⟨J, hx, ?_, ih hplace hafter⟩
      intro i ps y hy
      refine (ihInner i ?_ tracks_done ps y hy).mono fun _ _ hz _ => hz
      intro ps x b hx
      rw [List.append_assoc]
      exact hplace ps x _ hx
  | eachKey inner next ihInner ih =>
      refine tracks_eachKey (fun k => (ihInner k ?_ tracks_done).settles) (ih hplace hafter)
      intro ps x b hx
      rw [List.append_assoc]
      exact hplace ps x _ hx
  | outOfRange next ih => exact ih hplace hafter
  | consumed next ih => exact ih hplace hafter
  | alter f next ih =>
      intro ps x hx
      exact ih hplace hafter ps _ (hset ps x _ hx)
  | look next ih =>
      intro ps x hx
      exact ih (part.get x) hplace hafter ps x hx

/-- The same at the places that the script reads, if these are not among some others. -/
theorem tracks_avoiding {part : Focus σ τ} (hset : ∀ ps x w, J ps x → J ps (part.set w x))
    {rest : Place → Prop} (hplace : ∀ ps x q, ¬ rest q → J ps x → J (ps ++ [q]) x) {s : Script τ}
    (havoids : s.Avoids rest top) {after : Script σ} (hafter : after.Tracks J top) :
    (s.within part after).Tracks J top := by
  induction s generalizing after with
  | done => exact hafter
  | field key slot rule next ih =>
      exact tracks_field (fun ps x v hx => hplace ps _ _ havoids.1 (hset ps x _ hx))
        (ih havoids.2 hafter)
  | under key needed inner next _ ih =>
      refine tracks_under (tracks_below hset ?_ inner tracks_done).settles (ih havoids.2 hafter)
      intro ps x b hx
      exact hplace ps x _ (fun hrest => havoids.1 _ hrest (List.prefix_append _ _)) hx
  | each always inner next ihInner ih =>
      intro ps x hx
      refine ⟨J, hx, ?_, ih havoids.2 hafter⟩
      intro i ps y hy
      refine (tracks_below hset ?_ (inner i) tracks_done ps y hy).mono fun _ _ hz _ => hz
      intro ps x b hx
      exact hplace ps x _ (havoids.1 _) hx
  | eachKey inner next ihInner ih =>
      refine tracks_eachKey (fun k => (tracks_below hset ?_ (inner k) tracks_done).settles)
        (ih havoids.2 hafter)
      intro ps x b hx
      exact hplace ps x _ (havoids.1 _) hx
  | outOfRange next ih => exact ih havoids hafter
  | consumed next ih => exact ih havoids hafter
  | alter f next ih =>
      intro ps x hx
      exact ih havoids hafter ps _ (hset ps x _ hx)
  | look next ih =>
      intro ps x hx
      exact ih (part.get x) (havoids (part.get x)) hafter ps x hx

/-! ## One entry of many -/

/-- The script on one entry settles what is known if the entry may be chosen where no other is, and
    then anything below it may be taken. -/
theorem settles_choose {part : Focus σ (Option (Nat × τ))} {i : Nat} {seed : τ} {inner : Script τ}
    (hget : ∀ x w, part.get (part.set w x) = w)
    (hset : ∀ ps x w, J ps x → (part.get x).all (fun e => e.1 == i) = true →
      J ps (part.set (some (i, w)) x))
    (hplace : ∀ ps x w b, J ps x → part.get x = some (i, w) → J (ps ++ [top ++ b]) x) :
    ((Script.choose i seed inner).within part .done).Settles J top := by
  intro ps x hx
  show (Script.within part (if (part.get x).all (fun e => e.1 == i) then _ else _) .done).Traces top _ ps x
  by_cases hall : (part.get x).all (fun e => e.1 == i) = true
  · rw [if_pos hall]
    -- The entry is chosen now, if it was not before, and stays so while it is read.
    let K : List Place → σ → Prop := fun ps x => J ps x ∧ ∃ w, part.get x = some (i, w)
    have hstart : K ps (part.set ((part.get x).or (some (i, seed))) x) := by
      obtain ⟨w, hw⟩ : ∃ w, (part.get x).or (some (i, seed)) = some (i, w) := by
        cases hp : part.get x with
        | none => exact ⟨seed, rfl⟩
        | some e =>
            have he : e.1 = i := by simpa [hp] using hall
            exact ⟨e.2, by rw [← he]; rfl⟩
      rw [hw]
      exact ⟨hset ps x w hx hall, w, hget x _⟩
    have hinner : (inner.within ⟨fun x => ((part.get x).map Prod.snd).getD seed,
        fun w x => part.set (some (i, w)) x⟩ (.done : Script σ)).Tracks K top := by
      refine tracks_below ?_ ?_ inner tracks_done
      · rintro ps x w ⟨hJ, w', hw'⟩
        refine ⟨hset ps x w hJ ?_, w, hget x _⟩
        simp [hw']
      · rintro ps x b ⟨hJ, w, hw⟩
        exact ⟨hplace ps x w b hJ hw, w, hw⟩
    show Traces (Script.within part (inner.within (.chosen i seed) .done) .done) _ _ _ _
    rw [within_within]
    exact (hinner _ _ hstart).mono fun _ _ hK _ => hK.1
  · rw [if_neg hall]
    intro hne
    exact absurd rfl hne

end Script

end PowerOfAttorney
