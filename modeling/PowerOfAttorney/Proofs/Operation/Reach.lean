import PowerOfAttorney.Proofs.Document.Emptied
import PowerOfAttorney.Proofs.Operation.Corrections
import PowerOfAttorney.Proofs.Operation.Ends
import PowerOfAttorney.Proofs.Operation.Signers
import PowerOfAttorney.Proofs.Script.Traces

/-!
# `PowerOfAttorney.Proofs.Operation.Reach` — how far a correction reaches

A correction carries one attorney and one trust corporation, or none, and the parts of the document that it
makes. Which these are is settled by the changes: the entry is the one that all places below its list are
below, and a part is made exactly if some place below it has been taken. What has no field of its own, such
as a uid, a correction does not reach at all.

## Contents
- **Places.** What is below a name.
- **Entries and parts.** `Picks` and `Makes`, each with what a further place does to it.
- **Before registration.** `Correction.Follows`, which holds of what is read without faults, and
  `Correction.emptied_onto`: the rest of the document is as it was.
- **After registration.** `RegisteredCorrection.Follows` and `RegisteredCorrection.emptied_onto`.
-/

namespace PowerOfAttorney

open Script

/-! ## Places -/

/-- What is not below a name stays so further down. -/
theorem Place.not_below_append {name : String} {top : Place} (hne : top ≠ [])
    (h : ¬ [.name name] <+: top) (b : Place) : ¬ [.name name] <+: top ++ b := by
  cases top with
  | nil => exact absurd rfl hne
  | cons l top => simpa using h

/-- What is below a name is below no other. -/
theorem Place.not_below_other {name other : String} (hne : other ≠ name) {q : Place}
    (h : [.name name] <+: q) : ¬ [.name other] <+: q := by
  obtain ⟨b, rfl⟩ := h
  simpa using hne

/-- A place below an entry of a list, as the reading gets there. -/
theorem Place.below_entry {key name : String} (h : Place.ofKey key = [.name name]) (l : Label)
    (b : Place) : [] ++ Place.ofKey key ++ [l] ++ b = .name name :: l :: b := by
  rw [h]
  rfl

/-! ## Entries and parts -/

section

variable {β : Type} {at? : Label → Option Nat} {name : String} {ps qs : List Place}
  {chosen : Option (Nat × β)}

/-- The entry of a list that is chosen has a label, and all places below the list that have been taken are
    below this label. If there are any, an entry is chosen. -/
structure Picks (at? : Label → Option Nat) (name : String) (ps : List Place)
    (chosen : Option (Nat × β)) : Prop where
  labelled : ∀ e ∈ chosen, ∃ l, at? l = some e.1
  below : ∀ l b, .name name :: l :: b ∈ ps → ∃ e ∈ chosen, at? l = some e.1

theorem picks_none : Picks at? name [] (none : Option (Nat × β)) where
  labelled _ he := absurd he nofun
  below _ _ hmem := absurd hmem List.not_mem_nil

/-- Other places have nothing to do with the list. -/
theorem Picks.append (h : Picks at? name ps chosen) (hqs : ∀ q ∈ qs, ¬ [.name name] <+: q) :
    Picks at? name (ps ++ qs) chosen where
  labelled := h.labelled
  below l b hmem := by
    rcases List.mem_append.mp hmem with hps | hother
    · exact h.below l b hps
    · exact absurd (List.prefix_append [.name name] (l :: b)) (hqs _ hother)

/-- The entry that is chosen may be set, and one may be chosen where none is. -/
theorem Picks.set (h : Picks at? name ps chosen) {l : Label} {i : Nat} (hl : at? l = some i)
    (hall : chosen.all (fun e => e.1 == i) = true) (w : β) : Picks at? name ps (some (i, w)) where
  labelled := by
    rintro _ ⟨⟩
    exact ⟨l, hl⟩
  below l' b hmem := by
    obtain ⟨e, he, hl'⟩ := h.below l' b hmem
    have hi : e.1 = i := by
      rw [he] at hall
      simpa using hall
    exact ⟨(i, w), rfl, hl'.trans (congrArg some hi)⟩

/-- Anything below the entry that is chosen may be taken. -/
theorem Picks.append_below (h : Picks at? name ps chosen) {l : Label} {i : Nat} {w : β}
    (hl : at? l = some i) (hchosen : chosen = some (i, w)) (b : Place) :
    Picks at? name (ps ++ [.name name :: l :: b]) chosen where
  labelled := h.labelled
  below l' b' hmem := by
    rcases List.mem_append.mp hmem with hps | hlast
    · exact h.below l' b' hps
    · obtain ⟨_, hrest⟩ := List.cons.inj (List.mem_singleton.mp hlast)
      obtain ⟨rfl, _⟩ := List.cons.inj hrest
      exact ⟨(i, w), hchosen, hl⟩

end

section

variable {α : Type} {name : String} {ps qs : List Place} {part : Option α}

/-- A part is made exactly if some place below its name has been taken. -/
def Makes (name : String) (ps : List Place) (part : Option α) : Prop :=
  part.isSome ↔ ∃ q ∈ ps, [.name name] <+: q

theorem makes_none : Makes name [] (none : Option α) := by
  simp [Makes]

theorem Makes.append (h : Makes name ps part) (hqs : ∀ q ∈ qs, ¬ [.name name] <+: q) :
    Makes name (ps ++ qs) part := by
  constructor
  · intro hsome
    obtain ⟨q, hq, hbelow⟩ := h.mp hsome
    exact ⟨q, List.mem_append_left qs hq, hbelow⟩
  · rintro ⟨q, hq, hbelow⟩
    rcases List.mem_append.mp hq with hps | hother
    · exact h.mpr ⟨q, hps, hbelow⟩
    · exact absurd hbelow (hqs q hother)

theorem makes_some {w : α} (hne : qs ≠ []) (hqs : ∀ q ∈ qs, [.name name] <+: q) :
    Makes name (ps ++ qs) (some w) := by
  obtain ⟨q, hq⟩ := List.exists_mem_of_ne_nil qs hne
  have hmade : ∃ q ∈ ps ++ qs, [.name name] <+: q := ⟨q, List.mem_append_right ps hq, hqs q hq⟩
  exact iff_of_true rfl hmade

end

/-! ## Before registration -/

/-- No field of an authorised signatory is its uid. -/
theorem AuthorisedSignatory.keeps_uid (uid : String) : fields.Keeps fun s => s.uid = uid :=
  keeps_field (fun _ _ hs _ => hs) <|
  keeps_field (fun _ _ hs _ => hs) keeps_done

/-- Nor is one of an independent witness. -/
theorem IndependentWitness.keeps_uid (uid : String) : fields.Keeps fun w => w.uid = uid :=
  keeps_field (fun _ _ hw _ => hw) <|
  keeps_field (fun _ _ hw _ => hw) <|
  keeps_field (fun _ _ hw _ => hw) <|
  keeps_under (keeps_aside (fun _ _ hw => hw) keeps_done) keeps_done

namespace Correction

/-- The script on a part that is made settles what is known once the part has been made and some places
    below it taken. -/
theorem settles_named {α : Type} {J : List Place → Correction → Prop} {top : Place}
    {part : Focus Correction (Option α)} {seed : α} {fields : Script α}
    (hset : ∀ c w w', part.set w' (part.set w c) = part.set w' c)
    (hmade : ∀ ps c qs w, J ps c → qs ≠ [] → (∀ q ∈ qs, top <+: q) →
      J (ps ++ qs) (part.set (some w) c)) :
    (named part seed fields).Settles J top := by
  intro ps c hc
  -- All that is done from here on is to set the part and to take places below it.
  let K : List Place → Correction → Prop := fun ps' c' =>
    ∃ qs w, ps' = ps ++ qs ∧ (∀ q ∈ qs, top <+: q) ∧ c' = part.set (some w) c
  have hfields : (fields.within ⟨fun c => (part.get c).getD seed, fun v c => part.set (some v) c⟩
      (.done : Script Correction)).Tracks K top := by
    refine tracks_below ?_ ?_ fields tracks_done
    · rintro ps' _ w ⟨qs, w', hps, hqs, rfl⟩
      exact ⟨qs, w, hps, hqs, hset c (some w') (some w)⟩
    · rintro _ c' b ⟨qs, w, rfl, hqs, hc'⟩
      refine ⟨qs ++ [top ++ b], w, List.append_assoc ps qs _, ?_, hc'⟩
      intro q hq
      rcases List.mem_append.mp hq with hq | hq
      · exact hqs q hq
      · rw [List.mem_singleton.mp hq]
        exact List.prefix_append top b
  have hstart : K ps (part.set (some seed) c) := ⟨[], seed, by simp, by simp, rfl⟩
  refine (hfields ps _ hstart).mono ?_
  rintro _ _ ⟨qs, w, rfl, hqs, rfl⟩ hne
  refine hmade ps c qs w hc ?_ hqs
  rintro rfl
  exact hne (List.append_nil ps)

/-- The names of what a correction may carry or leave out. -/
def parts : List String :=
  ["attorneys", "trustCorporations", "authorisedSignatory", "independentWitness"]

/-- A correction carries the entries and the parts that the places concern. -/
structure Follows (ps : List Place) (c : Correction) : Prop where
  attorney : Picks Label.index? "attorneys" ps c.attorney
  trustCorporation : Picks Label.index? "trustCorporations" ps c.trustCorporation
  authorisedSignatory : Makes "authorisedSignatory" ps c.authorisedSignatory
  independentWitness : Makes "independentWitness" ps c.independentWitness

/-- Nothing else matters to it. -/
theorem Follows.append {ps qs : List Place} {c c' : Correction} (h : Follows ps c)
    (hqs : ∀ q ∈ qs, ∀ name ∈ parts, ¬ [.name name] <+: q)
    (hsame : c'.attorney = c.attorney ∧ c'.trustCorporation = c.trustCorporation ∧
      c'.authorisedSignatory = c.authorisedSignatory ∧ c'.independentWitness = c.independentWitness) :
    Follows (ps ++ qs) c' := by
  obtain ⟨hattorney, htrustCorporation, hauthorised, hwitness⟩ := hsame
  constructor
  · rw [hattorney]
    exact h.attorney.append fun q hq => hqs q hq _ (by simp [parts])
  · rw [htrustCorporation]
    exact h.trustCorporation.append fun q hq => hqs q hq _ (by simp [parts])
  · rw [hauthorised]
    exact h.authorisedSignatory.append fun q hq => hqs q hq _ (by simp [parts])
  · rw [hwitness]
    exact h.independentWitness.append fun q hq => hqs q hq _ (by simp [parts])

theorem Follows.append_one {ps : List Place} {q : Place} {c : Correction} (h : Follows ps c)
    (hq : ∀ name ∈ parts, ¬ [.name name] <+: q) : Follows (ps ++ [q]) c := by
  refine h.append ?_ ⟨rfl, rfl, rfl, rfl⟩
  intro q' hq'
  rw [List.mem_singleton.mp hq']
  exact hq

theorem Follows.of_same {ps : List Place} {c c' : Correction} (h : Follows ps c)
    (hsame : c'.attorney = c.attorney ∧ c'.trustCorporation = c.trustCorporation ∧
      c'.authorisedSignatory = c.authorisedSignatory ∧ c'.independentWitness = c.independentWitness) :
    Follows ps c' := by
  have hsame : Follows (ps ++ []) c' := h.append (fun _ hq => absurd hq List.not_mem_nil) hsame
  rwa [List.append_nil] at hsame

/-- A field of its own, or a part that is always there. -/
theorem other_below {top : Place} (hne : top ≠ []) (h : ∀ name ∈ parts, ¬ [.name name] <+: top)
    (b : Place) : ∀ name ∈ parts, ¬ [.name name] <+: top ++ b :=
  fun name hname => Place.not_below_append hne (h name hname) b

/-- **The reading of a correction goes with its places.** -/
theorem tracks_follows (d : Document) : (script d).Tracks Follows [] := by
  have hdecisions : ∀ p ∈ Decisions.places, ¬ ∃ name ∈ parts, [.name name] <+: p := by decide
  refine tracks_under
      (tracks_below (fun _ _ _ hc => hc.of_same ⟨rfl, rfl, rfl, rfl⟩)
        (fun _ _ b hc => hc.append_one (other_below (by decide) (by decide) b)) _ tracks_done).settles <|
    tracks_field (fun _ _ _ hc => (hc.append_one (by decide)).of_same ⟨rfl, rfl, rfl, rfl⟩) <|
    tracks_field (fun _ _ _ hc => (hc.append_one (by decide)).of_same ⟨rfl, rfl, rfl, rfl⟩) <|
    tracks_field (fun _ _ _ hc => (hc.append_one (by decide)).of_same ⟨rfl, rfl, rfl, rfl⟩) <|
    tracks_under (tracks_each (fun i => ?_) (tracks_consumed tracks_done)).settles <|
    tracks_under (tracks_each (fun i => ?_) (tracks_consumed tracks_done)).settles <|
    tracks_under
      (tracks_below (fun _ _ _ hc => hc.of_same ⟨rfl, rfl, rfl, rfl⟩)
        (fun _ _ b hc => hc.append_one (other_below (by decide) (by decide) b)) _ tracks_done).settles <|
    tracks_under (settles_named (fun _ _ _ => rfl) ?_) <|
    tracks_under (settles_named (fun _ _ _ => rfl) ?_) <|
    tracks_avoiding (fun _ _ _ hc => hc.of_same ⟨rfl, rfl, rfl, rfl⟩)
      (fun _ _ q hq hc => hc.append_one fun name hname hbelow => hq ⟨name, hname, hbelow⟩)
      (Decisions.avoids d hdecisions) (tracks_consumed tracks_done)
  -- The attorneys.
  · dsimp only
    cases ha : d.attorneys[i]? with
    | none => exact settles_outOfRange
    | some a =>
        refine settles_choose (fun _ _ => rfl) ?_ ?_
        · intro ps c w hc hall
          exact ⟨hc.attorney.set (l := .index i) rfl hall w, hc.trustCorporation,
            hc.authorisedSignatory, hc.independentWitness⟩
        · intro ps c w b hc hchosen
          rw [Place.below_entry (show Place.ofKey "/attorneys" = [.name "attorneys"] by decide)]
          exact ⟨hc.attorney.append_below rfl hchosen b, hc.trustCorporation.append (by simp),
            hc.authorisedSignatory.append (by simp), hc.independentWitness.append (by simp)⟩
  -- The trust corporations.
  · dsimp only
    cases ht : d.trustCorporations[i]? with
    | none => exact settles_outOfRange
    | some t =>
        refine settles_choose (fun _ _ => rfl) ?_ ?_
        · intro ps c w hc hall
          exact ⟨hc.attorney, hc.trustCorporation.set (l := .index i) rfl hall w,
            hc.authorisedSignatory, hc.independentWitness⟩
        · intro ps c w b hc hchosen
          rw [Place.below_entry
            (show Place.ofKey "/trustCorporations" = [.name "trustCorporations"] by decide)]
          exact ⟨hc.attorney.append (by simp), hc.trustCorporation.append_below rfl hchosen b,
            hc.authorisedSignatory.append (by simp), hc.independentWitness.append (by simp)⟩
  -- The parts that may be absent.
  · intro ps c qs w hc hne hqs
    rw [show [] ++ Place.ofKey "/authorisedSignatory" = [.name "authorisedSignatory"] by decide] at hqs
    have hother : ∀ name, name ≠ "authorisedSignatory" → ∀ q ∈ qs, ¬ [.name name] <+: q :=
      fun name hname q hq => Place.not_below_other hname (hqs q hq)
    exact ⟨hc.attorney.append (hother _ (by decide)), hc.trustCorporation.append (hother _ (by decide)),
      makes_some hne hqs, hc.independentWitness.append (hother _ (by decide))⟩
  · intro ps c qs w hc hne hqs
    rw [show [] ++ Place.ofKey "/independentWitness" = [.name "independentWitness"] by decide] at hqs
    have hother : ∀ name, name ≠ "independentWitness" → ∀ q ∈ qs, ¬ [.name name] <+: q :=
      fun name hname q hq => Place.not_below_other hname (hqs q hq)
    exact ⟨hc.attorney.append (hother _ (by decide)), hc.trustCorporation.append (hother _ (by decide)),
      hc.authorisedSignatory.append (hother _ (by decide)), makes_some hne hqs⟩

/-- **A correction that is read without faults carries what its places concern.** -/
theorem follows_of_read {d : Document} {changes : List Change} {c : Correction}
    (h : (script d).read (of d) changes = (c, [])) :
    Follows (((script d).log (of d) changes).map Hit.place) c := by
  obtain ⟨rfl, hnone⟩ := Prod.mk.inj h
  have hstart : Follows [] (of d) := ⟨picks_none, picks_none, makes_none, makes_none⟩
  exact (tracks_follows d [] (of d) hstart).read (ends d) hnone

/-- The parts that are made are made from those on record. -/
def KeepsUids (d : Document) (c : Correction) : Prop :=
  (∀ s ∈ c.authorisedSignatory, s.uid = (d.authorisedSignatory.getD {}).uid) ∧
    ∀ w ∈ c.independentWitness, w.uid = (d.independentWitness.getD {}).uid

/-- What is kept of a part that is made is what its seed has and its fields keep. -/
theorem keeps_named_of {α : Type} {P : Correction → Prop} {Q : α → Prop}
    {part : Focus Correction (Option α)} {seed : α} {fields : Script α}
    (hfields : fields.Keeps Q) (hpart : ∀ c, part.LawfulAt c) (hseed : Q seed)
    (hset : ∀ c w, P c → Q w → P (part.set (some w) c)) : (named part seed fields).Keeps P := by
  intro c hc
  -- Once it has been made the part is there, and then it can be set and read back.
  have hkeeps : (fields.within ⟨fun c => (part.get c).getD seed, fun v c => part.set (some v) c⟩
      (.done : Script Correction)).Keeps fun c => P c ∧ ∃ w, part.get c = some w ∧ Q w := by
    refine keeps_within hfields ?_ ?_ ?_ keeps_done
    · rintro c ⟨_, w, hw, _⟩
      refine ⟨?_, ?_, ?_⟩
      · intro v
        show (part.get (part.set (some v) c)).getD seed = v
        rw [(hpart c).get_set, Option.getD_some]
      · intro v v'
        exact (hpart c).set_set (some v) (some v')
      · show part.set (some ((part.get c).getD seed)) c = c
        rw [hw, Option.getD_some, ← hw]
        exact (hpart c).set_get
    · rintro c ⟨_, w, hw, hQ⟩
      show Q ((part.get c).getD seed)
      rwa [hw]
    · rintro c w ⟨hP, _⟩ hQ
      exact ⟨hset c w hP hQ, w, (hpart c).get_set _, hQ⟩
  refine (hkeeps (part.set (some seed) c) ⟨hset c seed hc hseed, seed, ?_, hseed⟩).mono ?_
  · exact (hpart c).get_set _
  · exact fun _ h => h.1

theorem keeps_keepsUids (d : Document) : (script d).Keeps (KeepsUids d) := by
  refine keeps_under (keeps_aside (fun _ _ hc => hc) keeps_done) <|
    keeps_field (fun _ _ hc _ => hc) <|
    keeps_field (fun _ _ hc _ => hc) <|
    keeps_field (fun _ _ hc _ => hc) <|
    keeps_under (keeps_aside (fun _ _ hc => hc) keeps_done) <|
    keeps_under (keeps_aside (fun _ _ hc => hc) keeps_done) <|
    keeps_under (keeps_aside (fun _ _ hc => hc) keeps_done) <|
    keeps_under
      (keeps_named_of (AuthorisedSignatory.keeps_uid (d.authorisedSignatory.getD {}).uid)
        (fun _ => ⟨fun _ => rfl, fun _ _ => rfl, rfl⟩) rfl ?_) <|
    keeps_under
      (keeps_named_of (IndependentWitness.keeps_uid (d.independentWitness.getD {}).uid)
        (fun _ => ⟨fun _ => rfl, fun _ _ => rfl, rfl⟩) rfl ?_) <|
    keeps_aside (fun _ _ hc => hc) keeps_done
  · rintro c w ⟨_, hwitness⟩ hw
    refine ⟨?_, hwitness⟩
    rintro _ ⟨⟩
    exact hw
  · rintro c w ⟨hauthorised, _⟩ hw
    refine ⟨hauthorised, ?_⟩
    rintro _ ⟨⟩
    exact hw

theorem keepsUids_of_read {d : Document} {changes : List Change} {c : Correction}
    (h : (script d).read (of d) changes = (c, [])) : KeepsUids d c := by
  obtain ⟨rfl, hnone⟩ := Prod.mk.inj h
  have hstart : KeepsUids d (of d) := ⟨fun _ hs => absurd hs nofun, fun _ hw => absurd hw nofun⟩
  exact (keeps_keepsUids d (of d) hstart).read hnone

/-- **A correction does not reach what has no field.** -/
theorem emptied_onto {d : Document} {changes : List Change} {c : Correction}
    (h : (script d).read (of d) changes = (c, [])) : (c.onto d).emptied = d.emptied := by
  obtain ⟨hauthorised, hwitness⟩ := keepsUids_of_read h
  have hattorneys : (amendAt AttorneyCorrection.amend c.attorney d.attorneys).map Attorney.emptied =
      d.attorneys.map Attorney.emptied := map_amendAt fun _ _ _ _ _ => rfl
  have htrustCorporations :
      (amendAt TrustCorporationCorrection.amend c.trustCorporation d.trustCorporations).map
        TrustCorporation.emptied = d.trustCorporations.map TrustCorporation.emptied := by
    refine map_amendAt ?_
    intro i b t hb ht
    obtain ⟨t', ht', hkeeps⟩ := keepsSignatories_of_read h i b hb
    obtain rfl : t = t' := Option.some.inj (ht.symm.trans ht')
    have hlength : b.signatories.length = t.signatories.length := hkeeps.length_eq.symm
    simp [TrustCorporation.emptied, TrustCorporationCorrection.amend, hlength]
  have hauthorised' : ((c.authorisedSignatory.or d.authorisedSignatory).getD {}).emptied =
      (d.authorisedSignatory.getD {}).emptied := by
    cases hs : c.authorisedSignatory with
    | none => rfl
    | some s => simp [AuthorisedSignatory.emptied, hauthorised s hs]
  have hwitness' : ((c.independentWitness.or d.independentWitness).getD {}).emptied =
      (d.independentWitness.getD {}).emptied := by
    cases hw : c.independentWitness with
    | none => rfl
    | some w => simp [IndependentWitness.emptied, hwitness w hw]
  simp only [Document.emptied, onto, hattorneys, htrustCorporations, hauthorised', hwitness']
  rfl

end Correction

/-! ## After registration -/

namespace RegisteredCorrection

/-- A correction carries the attorney whom the places concern. -/
def Follows (d : Document) (ps : List Place) (c : RegisteredCorrection) : Prop :=
  Picks d.attorneyAt? "attorneys" ps c.attorney

theorem Follows.append_one {d : Document} {ps : List Place} {q : Place} {c : RegisteredCorrection}
    (h : Follows d ps c) (hq : ¬ [.name "attorneys"] <+: q) : Follows d (ps ++ [q]) c := by
  refine h.append ?_
  intro q' hq'
  rwa [List.mem_singleton.mp hq']

/-- **The reading of a correction after registration goes with its places.** -/
theorem tracks_follows (d : Document) : (script d).Tracks (Follows d) [] := by
  have hdecisions : ∀ p ∈ Decisions.places, ¬ [.name "attorneys"] <+: p := by decide
  refine tracks_under
      (tracks_below (fun _ _ _ hc => hc)
        (fun _ _ b hc => hc.append_one (Place.not_below_append (by decide) (by decide) b))
        _ tracks_done).settles <|
    tracks_under
      (tracks_below (fun _ _ _ hc => hc)
        (fun _ _ b hc => hc.append_one (Place.not_below_append (by decide) (by decide) b))
        _ tracks_done).settles <|
    tracks_under (tracks_eachKey (fun uid => ?_) (tracks_consumed tracks_done)).settles <|
    tracks_avoiding (fun _ _ _ hc => hc) (fun _ _ _ hq hc => hc.append_one hq)
      (Decisions.avoids d hdecisions) <|
    tracks_field (fun _ _ _ hc => hc.append_one (by decide)) (tracks_consumed tracks_done)
  dsimp only
  cases hi : d.attorneyIndex? uid with
  | none => exact settles_outOfRange
  | some i =>
      dsimp only
      cases ha : d.attorneys[i]? with
      | none => exact settles_outOfRange
      | some a =>
          refine settles_choose (fun _ _ => rfl) ?_ ?_
          · intro ps c w hc hall
            exact Picks.set hc (l := .name uid) hi hall w
          · intro ps c w b hc hchosen
            rw [Place.below_entry (show Place.ofKey "/attorneys" = [.name "attorneys"] by decide)]
            exact Picks.append_below hc (l := .name uid) hi hchosen b

/-- **A correction that is read without faults after registration carries the attorney whom its places
    concern.** -/
theorem follows_of_read {d : Document} {changes : List Change} {c : RegisteredCorrection}
    (h : (script d).read (of d) changes = (c, [])) :
    Follows d (((script d).log (of d) changes).map Hit.place) c := by
  obtain ⟨rfl, hnone⟩ := Prod.mk.inj h
  exact (tracks_follows d [] (of d) picks_none).read (ends d) hnone

/-- **It does not reach what has no field.** -/
theorem emptied_onto (c : RegisteredCorrection) (d : Document) : (c.onto d).emptied = d.emptied := by
  have hattorneys : (amendAt AttorneyCorrection.amend c.attorney d.attorneys).map Attorney.emptied =
      d.attorneys.map Attorney.emptied := map_amendAt fun _ _ _ _ _ => rfl
  simp only [Document.emptied, onto, hattorneys]
  rfl

end RegisteredCorrection

end PowerOfAttorney
