import PowerOfAttorney.Command.Signing
import PowerOfAttorney.Proofs.Operation.Signatures

/-!
# `PowerOfAttorney.Proofs.Operation.Signers` — signing leaves a signature, correcting leaves it its place

An operation by which a party signs asks for a date, so that the party has signed when it has been carried
out; and since changes have to be sent at all, one party is chosen to sign. A correction can move a date,
but the signatories of a trust corporation stay where they are, and nothing moves that the check of an
online document has looked at.

## Contents
- **One party.** `exists_chosen_of_read`: a script that has to read one entry of a list chooses one.
- **Signing.** What is read when the certificate provider, an attorney or a trust corporation signs.
- **Correcting.** `keepsSignatories_of_read`, signatory by signatory, and `datesKept_of_movedDate?`.
-/

namespace PowerOfAttorney

open Reading Script

/-! ## One party -/

namespace Entry

variable {α : Type} [BEq α] [LawfulBEq α] {lt : α → α → Bool} {step : Path → Option (α × Path)}
  {es : List Entry}

/-- If every entry takes a step, there are groups where there are entries. -/
theorem groups_ne_nil (hes : es ≠ []) (hstrays : strays step es = []) : groups lt step [] es ≠ [] := by
  obtain ⟨e, he⟩ := List.exists_mem_of_ne_nil es hes
  have hstep : step e.path ≠ none := fun hnone =>
    List.filter_eq_nil_iff.mp hstrays e he (Option.isNone_iff_eq_none.mpr hnone)
  obtain ⟨x, hx⟩ := Option.ne_none_iff_exists'.mp hstep
  have htaken : (x.1, { e with path := x.2 }) ∈ es.filterMap (along step) :=
    List.mem_filterMap.mpr ⟨e, he, by rw [along, hx, Option.map_some]⟩
  exact List.ne_nil_of_mem
    (List.mem_map_of_mem (mem_sortOnce.mpr (List.mem_map_of_mem htaken)))

end Entry

section

variable {τ : Type} {Q : τ → Prop}

/-- If the first group that is read chooses an entry, and later ones leave the choice as it is, an entry
    is chosen in the end. -/
theorem Reading.exists_chosen_of_readGroups
    {inner : Nat → Reading (Option (Nat × τ)) → Reading (Option (Nat × τ))}
    (hfirst : ∀ i r, r.draft = none → r.rest ≠ [] → (inner i r).faults = [] →
      ∃ b, (inner i r).draft = some (i, b) ∧ Q b)
    (hlater : ∀ i j b r, i ≠ j → r.draft = some (i, b) → (inner j r).draft = some (i, b))
    {groups : List (Nat × List Entry)} (hne : groups ≠ []) (hfull : ∀ g ∈ groups, g.2 ≠ [])
    (hnodup : (groups.map Prod.fst).Nodup) {r : Reading (Option (Nat × τ))} (hr : r.draft = none)
    (h : (r.readGroups inner groups).faults = []) :
    ∃ i b, (r.readGroups inner groups).draft = some (i, b) ∧ Q b := by
  cases groups with
  | nil => exact absurd rfl hne
  | cons g groups =>
      obtain ⟨i, es⟩ := g
      rw [List.map_cons, List.nodup_cons] at hnodup
      have hafter := List.prefix_nil.mp (h ▸ faults_prefix_readGroups inner groups
        (r.after (inner i (r.onto es)) []))
      have hchosen := hfirst i (r.onto es) hr (hfull (i, es) List.mem_cons_self)
        (List.append_eq_nil_iff.mp hafter).2
      -- No later group is about the same entry.
      obtain ⟨seen, _, _, b, hb, hQ⟩ := readGroups_invariant
        (I := fun seen s => i ∈ seen ∧ ∃ b, s = some (i, b) ∧ Q b)
        (fun seen j r' hj hI _ => by
          obtain ⟨hi, b, hb, hQ⟩ := hI
          exact ⟨List.mem_cons_of_mem _ hi, b, hlater i j b r' (fun heq => hj (heq ▸ hi)) hb, hQ⟩)
        groups hnodup.2 [i] (fun a ha => List.mem_singleton.mp ha ▸ hnodup.1)
        (r := r.after (inner i (r.onto es)) []) ⟨List.mem_singleton_self i, hchosen⟩ h
      exact ⟨i, b, hb, hQ⟩

namespace Script

variable {seed : τ} {inner : Script τ}

/-- The script on the entry at `i` of a list, of which one may be chosen. -/
def oneEntry (count : Nat) (seed : τ) (inner : Script τ) (i : Nat) : Script (Option (Nat × τ)) :=
  if i < count then .choose i seed inner else .outOfRange .done

/-- Where none is chosen yet, an entry that a change names is chosen. -/
theorem exists_chosen_of_oneEntry {count i : Nat} (hinner : inner.Yields Q seed) {root : String}
    {r : Reading (Option (Nat × τ))} (hr : r.draft = none) (hne : r.rest ≠ [])
    (h : ((oneEntry count seed inner i).run root r).faults = []) :
    ∃ b, ((oneEntry count seed inner i).run root r).draft = some (i, b) ∧ Q b := by
  unfold oneEntry at h ⊢
  split at h
  · rename_i hi
    rw [if_pos hi]
    refine Yields.run (Q := fun s => ∃ b, s = some (i, b) ∧ Q b) ?_ h
    rw [hr]
    have hlawful : (Focus.chosen i seed).LawfulAt (some (i, seed)) :=
      ⟨fun _ => rfl, fun _ _ => rfl, rfl⟩
    exact Yields.within hlawful (hinner.mono fun b hb => ⟨b, rfl, hb⟩)
  · exact absurd (List.map_eq_nil_iff.mp (List.append_eq_nil_iff.mp h).2) hne

/-- Where another is chosen, it stays chosen. -/
theorem draft_oneEntry_of_ne {count i j : Nat} {b : τ} (hij : i ≠ j) {root : String}
    {r : Reading (Option (Nat × τ))} (hr : r.draft = some (i, b)) :
    ((oneEntry count seed inner j).run root r).draft = some (i, b) := by
  have hother : (r.draft.all fun x => x.1 == j) = false := by
    rw [hr]
    exact beq_eq_false_iff_ne.mpr hij
  unfold oneEntry
  split
  · show (Script.run root (if (r.draft.all fun x => x.1 == j) = true then _ else _) r).draft = _
    rw [hother, if_neg Bool.false_ne_true]
    exact hr
  · exact hr

/-- **A script that has to read one entry of a list, and no other, chooses one.** -/
theorem exists_chosen_of_read {key : String} {count : Nat} (hinner : inner.Yields Q seed)
    {changes : List Change} {s : Script (Option (Nat × τ))}
    (hs : s = .under key true (.each [] (oneEntry count seed inner) <| .consumed .done)
      (.consumed .done)) (h : (s.read none changes).2 = []) :
    ∃ i b, (s.read none changes).1 = some (i, b) ∧ Q b := by
  subst hs
  let r : Reading (Option (Nat × τ)) := ⟨none, Entry.ofChanges changes, []⟩
  -- Something is below the key, and everything there names an index.
  have hdescend : (r.descend "" key true _).faults = [] := faults_of_run h
  show ∃ i b, (r.descend "" key true _).draft = some (i, b) ∧ Q b
  have hin := inside_ne_nil_of_needed hdescend
  obtain ⟨hread, hsame⟩ := draft_descend_of_inside_ne_nil hin hdescend
  rw [hsame]
  have hscatter := @faults_of_run _ (.consumed .done) ("" ++ key) _ hread
  rw [scatter_eq_readGroups] at hscatter
  have hstrays := List.map_eq_nil_iff.mp (List.prefix_nil.mp (hscatter ▸
    faults_prefix_readGroups _ _ ((r.onto (r.inside key)).swept Path.indexStep?)))
  have hlater : ∀ i j b (r : Reading (Option (Nat × τ))), i ≠ j → r.draft = some (i, b) →
      ((oneEntry count seed inner j).run (entryRoot ("" ++ key) j) r).draft = some (i, b) :=
    fun _ _ _ _ hij hr => draft_oneEntry_of_ne hij hr
  have hchosen := exists_chosen_of_readGroups (fun _ _ => exists_chosen_of_oneEntry hinner) hlater
    (Entry.groups_ne_nil hin hstrays) (fun g hg => Entry.ne_nil_of_mem_groups hg List.not_mem_nil)
    (Entry.nodup_groups strictOrder_nat) rfl hscatter
  show ∃ i b, (Reading.scatter _ _ _ _ _).draft = some (i, b) ∧ Q b
  rw [scatter_eq_readGroups]
  exact hchosen

end Script

end

/-! ## Signing -/

/-- A date that is needed and must not be empty is set, whatever follows. -/
theorem Script.yields_date {σ : Type} {key : String} {get : σ → Option Instant}
    {set : Option Instant → σ → σ} {next : Script σ} {Q : σ → Prop} {x : σ}
    (h : ∀ v, v.isSome → next.Yields Q (set v x)) :
    (Script.field key (.time get set) (.checking .needs .notEmpty) next).Yields Q x :=
  ⟨fun v hv => h v (Slot.isSome_of_passes_notEmpty hv), nofun⟩

/-- A certificate provider who signs gives a date. -/
theorem CertificateProviderSign.isSome_of_read {changes : List Change} {s : CertificateProviderSign}
    (h : script.read {} changes = (s, [])) : s.signedAt.isSome := by
  obtain ⟨rfl, hnone⟩ := Prod.mk.inj h
  have hscript : script.Yields (fun s => s.signedAt.isSome) {} := by
    refine ⟨⟨(keeps_trivial _ _ trivial).mono
      fun _ _ => ?_, fun _ => ?_⟩, nofun⟩
    all_goals exact yields_date fun _ hv => ⟨fun _ _ => hv, nofun⟩
  exact hscript.read hnone

/-- So does an attorney, who also chooses a language. -/
theorem AttorneySign.yields_fields :
    fields.Yields (fun s => s.signedAt.isSome ∧ s.contactLanguage.isSome) {} := by
  refine ⟨fun _ _ => ?_, fun _ => ?_⟩
  all_goals
    exact yields_date fun _ ht => ⟨fun _ hv => ⟨ht, Check.isSome_of_chosen (hv .chosen rfl)⟩, nofun⟩

/-- The attorney is one of those at an index. -/
theorem AttorneySign.exists_of_read {d : Document} {changes : List Change}
    (h : ((script d).read none changes).2 = []) :
    ∃ i s, ((script d).read none changes).1 = some (i, s) ∧ s.signedAt.isSome := by
  obtain ⟨i, s, hs, hsigned, _⟩ := exists_chosen_of_read yields_fields rfl h
  exact ⟨i, s, hs, hsigned⟩

/-- A signatory of whom everything has to be known has signed. -/
theorem Signatory.yields_fields (s : Signatory) :
    (fields (.checking .needs .notEmpty)).Yields (fun s => s.isSigned) s :=
  ⟨fun _ _ => ⟨fun _ _ => ⟨fun _ _ => yields_date fun _ hv => hv, nofun⟩, nofun⟩, nofun⟩

namespace TrustCorporationSign

/-- The first signatory has signed, and so has the second, if anything is known of one. -/
def IsComplete (s : TrustCorporationSign) : Prop :=
  s.first.isSigned ∧ (s.second = {} ∨ s.second.isSigned)

/-- Everyone signs of whom something is known, and someone does. -/
theorem IsComplete.signatories {s : TrustCorporationSign} (h : s.IsComplete) :
    s.signatories ≠ [] ∧ ∀ x ∈ s.signatories, x.isSigned := by
  have hknown : s.first.isUnknown = false := by
    rw [Signatory.isUnknown, beq_eq_false_iff_ne]
    intro heq
    have hsigned := h.1
    rw [heq] at hsigned
    exact Bool.false_ne_true hsigned
  refine ⟨List.ne_nil_of_mem (a := s.first) ?_, fun x hx => ?_⟩
  · exact List.mem_filter.mpr ⟨List.mem_cons_self, by rw [hknown, Bool.not_false]⟩
  · obtain ⟨hmem, hx⟩ := List.mem_filter.mp hx
    rcases List.mem_cons.mp hmem with rfl | hmem
    · exact h.1
    · obtain rfl := List.mem_singleton.mp hmem
      refine h.2.resolve_left fun heq => ?_
      rw [heq] at hx
      exact Bool.false_ne_true hx

/-- What is known of a signatory who is read is known of the first one, and of the second if anything is;
    and a language has been chosen. -/
theorem yields_fields {P : Signatory → Prop}
    (hP : ∀ s, (Signatory.fields (.checking .needs .notEmpty)).Yields P s) :
    fields.Yields (fun s => (P s.first ∧ (s.second = {} ∨ P s.second)) ∧ s.contactLanguage.isSome) {} := by
  have hsignatories (s : TrustCorporationSign) (hs : s.second = {}) :
      (Script.each [0] signatory <| .consumed .done).Yields
        (fun s => P s.first ∧ (s.second = {} ∨ P s.second)) s := by
    refine ⟨fun seen s => (0 ∈ seen → P s.first) ∧ (s.second = {} ∨ P s.second),
      ⟨nofun, Or.inl hs⟩, fun seen i s hi hI => ?_, fun seen s halways hI =>
        ⟨hI.1 (halways List.mem_cons_self), hI.2⟩⟩
    match i with
    | 0 =>
        exact Yields.within ⟨fun _ => rfl, fun _ _ => rfl, rfl⟩
          ((hP _).mono fun w hw => ⟨fun _ => hw, hI.2⟩)
    | 1 =>
        refine Yields.within ⟨fun _ => rfl, fun _ _ => rfl, rfl⟩
          ((hP _).mono fun w hw => ⟨fun h => hI.1 ?_, Or.inr hw⟩)
        exact (List.mem_cons.mp h).resolve_left nofun
    | i + 2 => exact ⟨fun h => hI.1 ((List.mem_cons.mp h).resolve_left nofun), hI.2⟩
  have hrest (s : TrustCorporationSign) (hs : s.second = {}) :=
    (hsignatories s hs).mono fun s hs =>
      (⟨fun v hv => ⟨hs, Check.isSome_of_chosen (hv .chosen rfl)⟩, nofun⟩ :
        (Script.field "/contactLanguagePreference"
          (.maybeWord .language (·.contactLanguage) fun v s => { s with contactLanguage := v })
          (.checking .needs .chosen) (.consumed .done)).Yields
            (fun s => (P s.first ∧ (s.second = {} ∨ P s.second)) ∧ s.contactLanguage.isSome) s)
  exact ⟨fun _ _ => ⟨hrest _ rfl, nofun⟩, fun _ => ⟨hrest _ rfl, nofun⟩⟩

/-- **A trust corporation that signs has signatories, and all of them have signed.** -/
theorem exists_of_read {d : Document} {changes : List Change}
    (h : ((script d).read none changes).2 = []) :
    ∃ i s, ((script d).read none changes).1 = some (i, s) ∧ s.signatories ≠ [] ∧
      ∀ x ∈ s.signatories, x.isSigned := by
  obtain ⟨i, s, hs, hcomplete, _⟩ :=
    exists_chosen_of_read (yields_fields Signatory.yields_fields) rfl h
  exact ⟨i, s, hs, IsComplete.signatories hcomplete⟩

end TrustCorporationSign

/-! ## Correcting -/

/-- A list stays in relation to another if one of its entries is replaced by one in relation. -/
theorem forall₂_set_right {α β : Type} {R : α → β → Prop} {xs : List α} {ys : List β} {i : Nat} {y : β}
    (h : List.Forall₂ R xs ys) (hy : ∀ x, xs[i]? = some x → R x y) :
    List.Forall₂ R xs (ys.set i y) := by
  induction h generalizing i with
  | nil => exact .nil
  | cons hxy hrest ih =>
      cases i with
      | zero => exact .cons (hy _ rfl) hrest
      | succ i => exact .cons hxy (ih hy)

namespace TrustCorporationCorrection

/-- The signatories in a draft are those on record; who has signed has signed. -/
def KeepsSignatories (t : TrustCorporation) (c : TrustCorporationCorrection) : Prop :=
  List.Forall₂ (fun s s' => s.isSigned → s'.isSigned) t.signatories c.signatories

theorem keeps_signatory_forall₂ (ss : List Signatory) (i : Nat) :
    (signatory i).Keeps fun xs =>
      List.Forall₂ (fun s s' : Signatory => s.isSigned → s'.isSigned) ss xs := by
  intro xs hxs
  show (if i < xs.length then _ else _ : Script _).Yields _ xs
  split
  · rename_i hi
    have hself : (xs[i]?).getD {} = xs[i] := by
      rw [List.getElem?_eq_getElem hi, Option.getD_some]
    have hi' : i < ss.length := hxs.length_eq ▸ hi
    refine Yields.within ⟨fun w => ?_, fun _ _ => List.set_set _, ?_⟩
      ((Signatory.keeps_fields ss[i].isSigned _ ?_).mono fun w hw => ?_)
    · show ((xs.set i w)[i]?).getD {} = w
      rw [List.getElem?_set_self hi, Option.getD_some]
    · show xs.set i ((xs[i]?).getD {}) = xs
      rw [hself, List.set_getElem_self]
    · show _ → ((xs[i]?).getD {}).isSigned
      rw [hself]
      exact hxs.get hi' hi
    · refine forall₂_set_right hxs fun s hs => ?_
      rw [List.getElem?_eq_getElem hi', Option.some.injEq] at hs
      exact hs ▸ hw
  · exact hxs

theorem keeps_keepsSignatories (t : TrustCorporation) : fields.Keeps (KeepsSignatories t) :=
  keeps_field (fun _ _ hc _ => hc) <|
  keeps_field (fun _ _ hc _ => hc) <|
  keeps_field (fun _ _ hc _ => hc) <|
  keeps_field (fun _ _ hc _ => hc) <|
  keeps_under (keeps_aside (fun _ _ hc => hc) keeps_done) <|
  keeps_under
    (keeps_within (keeps_each (keeps_signatory_forall₂ t.signatories) keeps_done)
      (fun _ _ => ⟨fun _ => rfl, fun _ _ => rfl, rfl⟩) (fun _ hc => hc) (fun _ _ _ hw => hw)
      keeps_done)
    keeps_done

end TrustCorporationCorrection

namespace Correction

/-- **A correction that is read without faults leaves the signatories of a trust corporation in their
    places.** -/
theorem keepsSignatories_of_read {d : Document} {changes : List Change} {c : Correction}
    (h : (script d).read (of d) changes = (c, [])) :
    ChosenFrom d.trustCorporations TrustCorporationCorrection.KeepsSignatories
      c.trustCorporation := by
  obtain ⟨rfl, hnone⟩ := Prod.mk.inj h
  have hkeeps : (script d).Keeps fun c =>
      ChosenFrom d.trustCorporations TrustCorporationCorrection.KeepsSignatories
        c.trustCorporation := by
    refine keeps_under (keeps_aside (fun _ _ hc => hc) keeps_done) <|
      keeps_field (fun _ _ hc _ => hc) <|
      keeps_field (fun _ _ hc _ => hc) <|
      keeps_field (fun _ _ hc _ => hc) <|
      keeps_under (keeps_aside (fun _ _ hc => hc) keeps_done) <|
      keeps_under (keeps_within (keeps_each (fun i => ?_) keeps_done)
        (fun _ _ => ⟨fun _ => rfl, fun _ _ => rfl, rfl⟩) (fun _ hc => hc) (fun _ _ _ hw => hw)
        keeps_done) <|
      keeps_under (keeps_aside (fun _ _ hc => hc) keeps_done) <|
      keeps_under (keeps_named fun _ _ hc => hc) <|
      keeps_under (keeps_named fun _ _ hc => hc) <|
      keeps_aside (fun _ _ hc => hc) keeps_done
    cases ht : d.trustCorporations[i]? with
    | none => exact keeps_done
    | some t =>
        exact keeps_choose ht (List.forall₂_same.mpr fun _ _ => id)
          (TrustCorporationCorrection.keeps_keepsSignatories t)
  exact (hkeeps _ (chosenFrom_none _ _)).read hnone

/-- The dates of signing in a correction are those on record. -/
structure DatesKept (d : Document) (c : Correction) : Prop where
  donor : c.signedAt = d.signedAt
  certificateProvider : c.certificateProvider.signedAt = d.certificateProvider.signedAt
  attorney : ∀ i b a, c.attorney = some (i, b) → d.attorneys[i]? = some a → b.signedAt = a.signedAt
  trustCorporation : ∀ i b t, c.trustCorporation = some (i, b) → d.trustCorporations[i]? = some t →
    ∀ (n : Nat) (s s' : Signatory), t.signatories[n]? = some s → b.signatories[n]? = some s' →
      s'.signedAt = s.signedAt

/-- Without a signatory whose date is moved, dates are the same place by place. -/
theorem signedAt_of_movedSignatory? {stored corrected : List Signatory}
    (h : movedSignatory? stored corrected = none) {n : Nat} {s s' : Signatory}
    (hs : stored[n]? = some s) (hs' : corrected[n]? = some s') : s'.signedAt = s.signedAt := by
  have hmem : (s', n) ∈ corrected.zipIdx := List.mem_zipIdx_iff_getElem?.mpr hs'
  have hnone := List.findSome?_eq_none_iff.mp h (s', n) hmem
  by_contra hne
  dsimp only at hnone
  rw [hs, Option.bind_some, if_pos (Ne.symm hne)] at hnone
  exact absurd hnone nofun

/-- **If the check of an online document finds no date moved, the dates are those on record.** -/
theorem datesKept_of_movedDate? {d : Document} {c : Correction} (h : c.movedDate? d = none) :
    c.DatesKept d := by
  unfold movedDate? at h
  dsimp only at h
  split at h
  · exact absurd h nofun
  rename_i hdonor
  obtain ⟨hattorney, h⟩ := Option.or_eq_none_iff.mp h
  obtain ⟨hsignatory, h⟩ := Option.or_eq_none_iff.mp h
  refine ⟨Decidable.not_not.mp hdonor, ?_, fun i b a hb ha => ?_, fun i b t hb ht n s s' hs hs' => ?_⟩
  · by_contra hne
    rw [if_pos hne] at h
    exact absurd h nofun
  · rw [hb] at hattorney
    by_contra hne
    simp [ha, Ne.symm hne] at hattorney
  · rw [hb] at hsignatory
    have hnone : movedSignatory? t.signatories b.signatories = none := by
      simp only [Option.bind_eq_bind, Option.bind_some, ht, Option.map_some, Option.getD_some,
        Option.bind_eq_none_iff, reduceCtorEq, imp_false] at hsignatory
      exact Option.eq_none_iff_forall_ne_some.mpr hsignatory
    exact signedAt_of_movedSignatory? hnone hs hs'

end Correction

end PowerOfAttorney
