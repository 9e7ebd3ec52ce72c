import PowerOfAttorney.Proofs.Script.Layout

/-!
# `PowerOfAttorney.Proofs.Script.Within` — layouts of parts and of wholes

Most scripts are put together from scripts on parts of a draft. What is shown of a part is shown of the
whole, below the place where the part stands; so a script that respects a layout of the part, lifted to
the whole, respects a layout of the whole.

## Contents
- **Embedding.** `Layout.Embeds`: how the layout of a part stands in that of the whole.
- **Lifting.** `Fits.within`, by induction over the script on the part, and `Fits.within_done` where
  nothing follows it.
- **Steps of records.** `fits_field`, `fits_under` and `fits_part`: a field, an inner script and a part
  of a draft of which nothing needs to be known.
- **Below a key.** `Layout.below` and `fits_below`, for a draft all of whose fields are below one key.
- **One entry of many.** `Layout.oneOf` and `fits_choose`, for a script that keeps to one entry.
-/

namespace PowerOfAttorney

variable {σ τ : Type}

/-! ## Embedding -/

/-- The layout `L` of a part stands below `top` in the layout `M` of the whole, as long as `P` is known
    of the whole and `Q` of the part. Where `L` shows a field, `M` shows the same, and what `L` does not
    show stays when the part is set. -/
structure Layout.Embeds (M : Layout σ) (L : Layout τ) (part : Focus σ τ) (P : σ → Prop) (Q : τ → Prop)
    (top : Place) : Prop where
  known : ∀ s, P s → Q (part.get s)
  keep : ∀ s w, P s → Q w → P (part.set w s)
  get_set : ∀ s w, P s → Q w → part.get (part.set w s) = w
  view : ∀ s b x, P s → L.view (part.get s) b = some x → M.view s (top ++ b) = some x
  base : ∀ s b x, P s → L.view (part.get s) b = some x → M.base (top ++ b) = some x →
    L.base b = some x
  frame : ∀ s w q, P s → Q w → (∀ b, q = top ++ b → L.view w b = L.view (part.get s) b) →
    M.view (part.set w s) q = M.view s q
  owns : ∀ s b check, L.owns (part.get s) b check → M.owns s (top ++ b) check

namespace Layout

variable {M : Layout σ} {L : Layout τ} {part : Focus σ τ} {P : σ → Prop} {Q : τ → Prop} {top : Place}
  {outer : Prop}

/-- Something more may be known of the part. -/
theorem Embeds.restrict (h : M.Embeds L part P Q top) {Q' : τ → Prop} (hQ : ∀ w, Q' w → Q w) :
    M.Embeds L part (fun s => P s ∧ Q' (part.get s)) Q' top where
  known _ hs := hs.2
  keep s w hs hw := ⟨h.keep s w hs.1 (hQ w hw), (h.get_set s w hs.1 (hQ w hw)).symm ▸ hw⟩
  get_set s w hs hw := h.get_set s w hs.1 (hQ w hw)
  view s b x hs := h.view s b x hs.1
  base s b x hs := h.base s b x hs.1
  frame s w q hs hw := h.frame s w q hs.1 (hQ w hw)
  owns := h.owns

/-- What is known of the part adds nothing to what is known of the whole. -/
theorem Embeds.known_eq (h : M.Embeds L part P Q top) : (fun s => P s ∧ Q (part.get s)) = P := by
  funext s
  exact propext ⟨And.left, fun hs => ⟨hs, h.known s hs⟩⟩

/-- What is known of a part in the end covers what was known of it before. -/
theorem known_and {Q' R : τ → Prop} (hR : ∀ w, R w → Q' w) :
    (fun s => (P s ∧ Q' (part.get s)) ∧ R (part.get s)) = fun s => P s ∧ R (part.get s) := by
  funext s
  exact propext ⟨fun hs => ⟨hs.1.1, hs.2⟩, fun hs => ⟨⟨hs.1, hR _ hs.2⟩, hs.2⟩⟩

/-- A field of the part is a field of the whole. -/
theorem Reads.within {b : Place} {slot : Slot τ} {check : Option Check}
    (h : L.Reads outer Q b slot check) (hE : M.Embeds L part P Q top) :
    M.Reads outer P (top ++ b) (slot.within part) check := by
  refine ⟨fun s hs => ?_, fun s v hs => ?_, fun s v hs => ?_, fun s v q hs hq => ?_, fun s hs => ?_⟩
  · obtain ⟨x, hview, hget⟩ := h.get (part.get s) (hE.known s hs)
    exact ⟨x, hE.view s b x hs hview, fun hbase => hget (hE.base s b x hs hview hbase)⟩
  · exact hE.keep s _ hs (h.keep _ v (hE.known s hs))
  · have hw := h.keep (part.get s) v (hE.known s hs)
    refine hE.view (part.set (slot.set v (part.get s)) s) b _ (hE.keep s _ hs hw) ?_
    rw [hE.get_set s _ hs hw]
    exact h.set (part.get s) v (hE.known s hs)
  · refine hE.frame s _ q hs (h.keep _ v (hE.known s hs)) fun b' hb' => ?_
    refine h.frame (part.get s) v b' (hE.known s hs) fun heq => hq ?_
    rw [hb', heq]
  · exact hE.owns s b check (h.owns (part.get s) fun ho => hE.known s (hs ho))

end Layout

/-! ## Lifting -/

/-- No step of a script reads a place of `rest`, which is what may follow it. Nothing is left to follow
    where all changes are read by index or key. -/
def Script.Avoids (rest : Place → Prop) (top : Place) : Script τ → Prop
  | .done => True
  | .field key _ _ next => ¬ rest (top ++ .ofKey key) ∧ Avoids rest top next
  | .under key _ _ next => (∀ q, rest q → ¬ (top ++ .ofKey key) <+: q) ∧ Avoids rest top next
  | .each _ _ next | .eachKey _ next => (∀ q, ¬ rest q) ∧ Avoids rest top next
  | .outOfRange next | .consumed next | .alter _ next => Avoids rest top next
  | .look next => ∀ s, Avoids rest top (next s)

theorem Script.avoids_nothing (s : Script τ) (top : Place) : s.Avoids (fun _ => False) top := by
  induction s with
  | done => trivial
  | field key slot rule next ih => exact ⟨id, ih⟩
  | under key needed inner next _ ih => exact ⟨fun _ => False.elim, ih⟩
  | each always inner next _ ih => exact ⟨fun _ => id, ih⟩
  | eachKey inner next _ ih => exact ⟨fun _ => id, ih⟩
  | outOfRange next ih => exact ih
  | consumed next ih => exact ih
  | alter f next ih => exact ih
  | look next ih => exact ih

namespace Script.Fits

open Layout

variable {M : Layout σ} {L : Layout τ} {part : Focus σ τ} {P : σ → Prop} {Q : τ → Prop} {top : Place}
  {outer : Prop}

/-- **A script on a part, lifted to the whole, respects the layout of the whole**, and so does what
    follows it, if it reads other places. -/
theorem within {s : Script τ} {after : Script σ} {free rest : Place → Prop} {inside : Place → Prop}
    {t : Place} (h : s.Fits L outer Q inside t) (hE : M.Embeds L part P Q top)
    (hinside : ∀ b, inside b → free (top ++ b)) (hrest : ∀ q, rest q → free q)
    (havoids : s.Avoids rest (top ++ t))
    (hafter : ∀ Q' : τ → Prop, (∀ w, Q' w → Q w) →
      after.Fits M outer (fun s => P s ∧ Q' (part.get s)) rest (top ++ t)) :
    (s.within part after).Fits M outer P free (top ++ t) := by
  -- By induction over the script. What is known of the part grows on the way, so what follows the script is
  -- asked for under anything that may be known of the part in the end.
  induction s generalizing σ outer P Q after free rest inside t with
  | done =>
      have hend := hafter Q fun _ hw => hw
      rw [hE.known_eq] at hend
      exact hend.mono hrest
  | field key slot rule next ih =>
      obtain ⟨hreads, hp, hnext⟩ := h
      refine ⟨?_, ?_, ih hnext hE ?_ ?_ havoids.2 hafter⟩
      · rw [List.append_assoc]
        exact hreads.within hE
      · rw [List.append_assoc]
        exact hinside _ hp
      · -- The place that the field has read is free no longer, in the part and in the whole.
        intro b hb
        refine ⟨hinside b hb.1, fun heq => hb.2 ?_⟩
        rw [List.append_assoc] at heq
        exact List.append_cancel_left heq
      · exact fun q hq => ⟨hrest q hq, fun heq => havoids.1 (heq ▸ hq)⟩
  | under key needed inner next ihInner ih =>
      obtain ⟨hinner, hnext⟩ := h
      refine ⟨?_, ih hnext hE ?_ ?_ havoids.2 hafter⟩
      · rw [List.append_assoc]
        exact ihInner hinner hE hinside (fun _ => False.elim) (inner.avoids_nothing _)
          fun _ _ => trivial
      · intro b hb
        refine ⟨hinside b hb.1, fun hprefix => hb.2 ?_⟩
        rw [List.append_assoc] at hprefix
        exact (List.prefix_append_right_inj top).mp hprefix
      · exact fun q hq => ⟨hrest q hq, havoids.1 q hq⟩
  | each always inner next ihInner ih =>
      -- The entries read all that is left, so no place is left for what follows.
      refine ⟨fun i => ?_, ih h.2 hE (fun _ => False.elim) havoids.1 havoids.2 hafter⟩
      rw [List.append_assoc]
      refine ihInner i (h.1 i) hE (fun b hb => ⟨hinside b hb.1, ?_⟩) (fun _ => False.elim)
        ((inner i).avoids_nothing _) fun _ _ => trivial
      exact (List.prefix_append_right_inj top).mpr hb.2
  | eachKey inner next ihInner ih =>
      refine ⟨fun k => ?_, ih h.2 hE (fun _ => False.elim) havoids.1 havoids.2 hafter⟩
      rw [List.append_assoc]
      refine ihInner k (h.1 k) hE (fun b hb => ⟨hinside b hb.1, ?_⟩) (fun _ => False.elim)
        ((inner k).avoids_nothing _) fun _ _ => trivial
      exact (List.prefix_append_right_inj top).mpr hb.2
  | outOfRange next ih => exact ih h hE hinside hrest havoids hafter
  | consumed next ih => exact ih h hE hinside hrest havoids hafter
  | alter f next ih =>
      obtain ⟨Q', hQ, hf, hnext⟩ := h
      refine ⟨fun s => P s ∧ Q' (part.get s), fun _ hs => hs.1, fun s hs hun => ?_,
        ih hnext (hE.restrict hQ) hinside hrest havoids fun R hR => ?_⟩
      · -- What the part has not read yet shows in the whole what it showed at first, so it does in the part.
        obtain ⟨hw, hview⟩ := hf (part.get s) (hE.known s hs) fun b x hb hx =>
          hE.base s b x hs hx (hun _ x (hinside b hb) (hE.view s b x hs hx))
        refine ⟨⟨hE.keep s _ hs (hQ _ hw), ?_⟩, ?_⟩
        · rw [hE.get_set s _ hs (hQ _ hw)]
          exact hw
        · funext q
          exact hE.frame s _ q hs (hQ _ hw) fun b _ => by rw [hview]
      · rw [known_and hR]
        exact hafter R fun w hw => hQ w (hR w hw)
  | look next ih =>
      intro s hs
      obtain ⟨Q', hw, hQ, hnext⟩ := h (part.get s) (hE.known s hs)
      refine ⟨fun s => P s ∧ Q' (part.get s), ⟨hs, hw⟩, fun _ hs => hs.1,
        ih _ hnext (hE.restrict hQ) hinside hrest (havoids _) fun R hR => ?_⟩
      rw [known_and hR]
      exact hafter R fun w hw => hQ w (hR w hw)

/-- A script on a part that nothing follows. -/
theorem within_done {s : Script τ} {free : Place → Prop} {inside : Place → Prop}
    (h : s.Fits L outer Q inside []) (hE : M.Embeds L part P Q top)
    (hinside : ∀ b, inside b → free (top ++ b)) :
    (s.within part .done).Fits M outer P free top := by
  have hfits : (s.within part .done).Fits M outer P free (top ++ []) :=
    h.within hE hinside (fun _ => False.elim) (s.avoids_nothing _) fun _ _ => trivial
  rw [List.append_nil] at hfits
  exact hfits

/-! ## Steps of records -/

/-- A field of a draft, by its name: the slot shows what the layout shows, writing it leaves other
    places alone, and no earlier step reads it. -/
theorem fits_field_known {P : σ → Prop} {free : Place → Prop} {key : String}
    {slot : Slot σ} {rule : Rule} {next : Script σ} (name : String)
    (hname : Place.ofKey key = [.name name])
    (hget : ∀ s, M.view s (top ++ [.name name]) = some ⟨slot.type, slot.get s⟩)
    (hset : ∀ s v, slot.get (slot.set v s) = v)
    (hframe : ∀ s v q, q ≠ top ++ [.name name] → M.view (slot.set v s) q = M.view s q)
    (hkeep : ∀ s v, P s → P (slot.set v s))
    (howns : ∀ s, (outer → P s) → M.owns s (top ++ [.name name]) rule.check)
    (hfree : free (top ++ [.name name]))
    (hnext : next.Fits M outer P (fun q => free q ∧ q ≠ top ++ [.name name]) top) :
    (Script.field key slot rule next).Fits M outer P free top := by
  unfold Fits
  rw [hname]
  refine ⟨⟨fun s _ => ⟨_, hget s, fun _ => rfl⟩, hkeep, fun s v _ => ?_,
    fun s v q _ => hframe s v q, howns⟩, hfree, hnext⟩
  rw [hget, hset]

/-- A field of a draft of which nothing needs to be known. -/
theorem fits_field {free : Place → Prop} {key : String} {slot : Slot σ} {rule : Rule}
    {next : Script σ} (name : String) (hname : Place.ofKey key = [.name name])
    (hget : ∀ s, M.view s (top ++ [.name name]) = some ⟨slot.type, slot.get s⟩)
    (hset : ∀ s v, slot.get (slot.set v s) = v)
    (hframe : ∀ s v q, q ≠ top ++ [.name name] → M.view (slot.set v s) q = M.view s q)
    (howns : ∀ s, M.owns s (top ++ [.name name]) rule.check)
    (hfree : free (top ++ [.name name]))
    (hnext : next.Fits M outer (fun _ => True) (fun q => free q ∧ q ≠ top ++ [.name name]) top) :
    (Script.field key slot rule next).Fits M outer (fun _ => True) free top :=
  fits_field_known name hname hget hset hframe (fun _ _ _ => trivial) (fun s _ => howns s) hfree hnext

/-- What follows knows the draft as it has been looked at, as far as `g` tells. -/
theorem fits_look {γ : Type} (g : σ → γ) {P : σ → Prop} {free : Place → Prop} {next : σ → Script σ}
    (h : ∀ s, P s → (next s).Fits M outer (fun s' => P s' ∧ g s' = g s) free top) :
    (Script.look next).Fits M outer P free top :=
  fun s hs => ⟨_, ⟨hs, rfl⟩, fun _ hs' => hs'.1, h s hs⟩

/-- The fields below a name. -/
theorem fits_under {P : σ → Prop} {free : Place → Prop} {key : String} {needed : Bool}
    {inner next : Script σ} (name : String) (hname : Place.ofKey key = [.name name])
    (hinner : inner.Fits M False P free (top ++ [.name name]))
    (hnext : next.Fits M outer P (fun q => free q ∧ ¬ (top ++ [.name name]) <+: q) top) :
    (Script.under key needed inner next).Fits M outer P free top := by
  unfold Fits
  rw [hname]
  exact ⟨hinner, hnext⟩

/-- A part of a draft, below a name. -/
theorem fits_part {free : Place → Prop} {key : String} {needed : Bool}
    {inner : Script τ} {next : Script σ} (name : String) (hname : Place.ofKey key = [.name name])
    (hinner : inner.Fits L False Q (fun _ => True) [])
    (hE : M.Embeds L part (fun _ => True) Q (top ++ [.name name]))
    (hfree : ∀ b, free (top ++ [.name name] ++ b))
    (hnext : next.Fits M outer (fun _ => True)
      (fun q => free q ∧ ¬ (top ++ [.name name]) <+: q) top) :
    (Script.under key needed (inner.within part .done) next).Fits M outer (fun _ => True) free top :=
  fits_under name hname (hinner.within_done hE fun b _ => hfree b) hnext

end Script.Fits

/-! ## Below a key -/

/-- A draft is a part of itself. -/
theorem Script.within_self (s : Script σ) : s.within ⟨id, fun v _ => v⟩ .done = s := by
  induction s with
  | done => rfl
  | field key slot rule next ih =>
      show Script.field key slot rule _ = _
      rw [ih]
  | under key needed inner next ihInner ih =>
      show Script.under key needed _ _ = _
      rw [ihInner, ih]
  | each always inner next ihInner ih =>
      show Script.each always (fun i => _) _ = _
      rw [ih, funext ihInner]
  | eachKey inner next ihInner ih =>
      show Script.eachKey (fun k => _) _ = _
      rw [ih, funext ihInner]
  | outOfRange next ih =>
      show Script.outOfRange _ = _
      rw [ih]
  | consumed next ih =>
      show Script.consumed _ = _
      rw [ih]
  | alter f next ih =>
      show Script.alter f _ = _
      rw [ih]
  | look next ih =>
      exact congrArg Script.look (funext ih)

/-- A layout all of whose places are below another place. -/
def Layout.below (L : Layout σ) (top : Place) : Layout σ where
  view s q := if top <+: q then L.view s (q.drop top.length) else none
  start := L.start
  owns s q check := ∃ b, q = top ++ b ∧ L.owns s b check

theorem Layout.view_below (L : Layout σ) (top : Place) (s : σ) (b : Place) :
    (L.below top).view s (top ++ b) = L.view s b := by
  unfold below
  dsimp only
  rw [if_pos (List.prefix_append top b), List.drop_left]

theorem Layout.embeds_below (L : Layout σ) (top : Place) :
    (L.below top).Embeds L ⟨id, fun v _ => v⟩ (fun _ => True) (fun _ => True) top where
  known _ _ := trivial
  keep _ _ _ _ := trivial
  get_set _ _ _ _ := rfl
  view s b x _ hview := (L.view_below top s b).trans hview
  base s b x _ _ hbase := (L.view_below top L.start b).symm.trans hbase
  frame s w q _ _ hsame := by
    -- Elsewhere the layout shows nothing, before and after.
    by_cases hq : top <+: q
    · obtain ⟨b, rfl⟩ := hq
      show (L.below top).view w (top ++ b) = _
      rw [view_below, view_below]
      exact hsame b rfl
    · unfold below
      dsimp only
      rw [if_neg hq, if_neg hq]
  owns s b check howns := ⟨b, rfl, howns⟩

/-- A script that reads what is below a key, and nothing else. -/
theorem Script.Fits.fits_below {L : Layout σ} {outer : Prop} {key : String} {needed : Bool}
    {inner : Script σ} {top : Place} (htop : Place.ofKey key = top)
    (hinner : inner.Fits L False (fun _ => True) (fun _ => True) []) :
    (Script.under key needed inner (.consumed .done)).Fits (L.below top) outer (fun _ => True)
      (fun _ => True) [] := by
  unfold Fits
  rw [htop, List.nil_append, ← inner.within_self]
  exact ⟨hinner.within_done (L.embeds_below top) fun _ _ => trivial, trivial⟩

/-! ## One entry of many -/

/-- What a draft shows that keeps to one of several entries. `target?` gives the index of the entry that
    a place is about, the layout of the entry, and the place within it. -/
def Layout.oneOf (target? : Place → Option (Nat × Layout τ × Place)) : Layout (Option (Nat × τ)) where
  view s q := (target? q).bind fun e =>
    e.2.1.view
      (match s with
      | some (j, a) => if j = e.1 then a else e.2.1.start
      | none => e.2.1.start)
      e.2.2
  start := none
  owns _ q check := ∃ e, target? q = some e ∧ ∃ a, e.2.1.owns a e.2.2 check

section Choose

variable {target? : Place → Option (Nat × Layout τ × Place)} {L : Layout τ} {i : Nat} {top : Place}

/-- Choosing an entry shows nothing new. -/
theorem Layout.view_oneOf_start (hindex : ∀ q L' b, target? q = some (i, L', b) → q = top ++ b ∧ L' = L) :
    (Layout.oneOf target?).view (some (i, L.start)) = (Layout.oneOf target?).view none := by
  funext q
  unfold oneOf
  dsimp only
  cases hq : target? q with
  | none => rfl
  | some e =>
      obtain ⟨j, L', b⟩ := e
      show L'.view (if i = j then L.start else L'.start) b = L'.view L'.start b
      split
      · rename_i hij
        subst hij
        rw [(hindex q L' b hq).2]
      · rfl

/-- The chosen entry is a part of the draft. -/
theorem Layout.embeds_chosen (hentry : ∀ b, target? (top ++ b) = some (i, L, b))
    (hindex : ∀ q L' b, target? q = some (i, L', b) → q = top ++ b ∧ L' = L) :
    (Layout.oneOf target?).Embeds L (.chosen i L.start) (fun s => ∃ a, s = some (i, a)) (fun _ => True)
      top where
  known _ _ := trivial
  keep _ w _ _ := ⟨w, rfl⟩
  get_set _ _ _ _ := rfl
  view s b x hs hview := by
    obtain ⟨a, rfl⟩ := hs
    unfold oneOf
    dsimp only
    rw [hentry b]
    show L.view (if i = i then a else L.start) b = _
    rw [if_pos rfl]
    exact hview
  base s b x _ _ hbase := by
    unfold base oneOf at hbase
    dsimp only at hbase
    rw [hentry b] at hbase
    exact hbase
  frame s w q hs _ hsame := by
    obtain ⟨a, rfl⟩ := hs
    unfold oneOf
    dsimp only
    cases hq : target? q with
    | none => rfl
    | some e =>
        obtain ⟨j, L', b⟩ := e
        show L'.view (if i = j then w else L'.start) b = L'.view (if i = j then a else L'.start) b
        split
        · -- The place is about the chosen entry, so it lies below `top`.
          rename_i hij
          subst hij
          obtain ⟨hplace, rfl⟩ := hindex q L' b hq
          exact hsame b hplace
        · rfl
  owns _ b _ howns := ⟨_, hentry b, _, howns⟩

/-- The script on one entry, unless another has been chosen before. -/
theorem Script.Fits.fits_choose {inner : Script τ} {free : Place → Prop}
    (hinner : inner.Fits L False (fun _ => True) (fun _ => True) [])
    (hentry : ∀ b, target? (top ++ b) = some (i, L, b))
    (hindex : ∀ q L' b, target? q = some (i, L', b) → q = top ++ b ∧ L' = L)
    (hfree : ∀ b, free (top ++ b)) :
    (Script.choose i L.start inner).Fits (Layout.oneOf target?) False (fun _ => True) free top := by
  intro s _
  dsimp only
  by_cases hall : s.all (fun x => x.1 == i) = true
  · refine ⟨fun s => s.all (fun x => x.1 == i) = true, hall, fun _ _ => trivial, ?_⟩
    rw [if_pos hall]
    refine ⟨fun s => ∃ a, s = some (i, a), ?_, fun s hs _ => ?_,
      hinner.within_done (Layout.embeds_chosen hentry hindex) fun b _ => hfree b⟩
    · rintro _ ⟨a, rfl⟩
      exact beq_self_eq_true i
    · -- Choosing is all that has been done: it shows nothing that was not shown.
      cases s with
      | none => exact ⟨⟨_, rfl⟩, Layout.view_oneOf_start hindex⟩
      | some x =>
          obtain ⟨j, a⟩ := x
          have hj : j = i := by simpa using hs
          subst hj
          exact ⟨⟨a, rfl⟩, rfl⟩
  · refine ⟨fun _ => True, trivial, fun _ _ => trivial, ?_⟩
    rw [if_neg hall]
    trivial

end Choose

end PowerOfAttorney
