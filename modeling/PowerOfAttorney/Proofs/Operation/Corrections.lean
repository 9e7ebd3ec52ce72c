import PowerOfAttorney.Proofs.Operation.Decisions
import PowerOfAttorney.Proofs.Operation.Entries

/-!
# `PowerOfAttorney.Proofs.Operation.Corrections` — corrections respect the fields of the document

A correction shows the document as it would be corrected, before wording that no mode calls for is
dropped. At first that is the document itself.

## Contents
- **Before registration.** `Correction.onto`, `Correction.layout` and `Correction.fits`.
- **After registration.** `RegisteredCorrection.onto` and so on; attorneys are named by uid.
-/

namespace PowerOfAttorney

open Script.Fits

/-! ## Before registration -/

namespace Correction

/-- The document as corrected, with all wording and without new notes. -/
def onto (c : Correction) (d : Document) : Document :=
  { d with
    donor := c.donor.amend d.donor
    attorneys := amendAt AttorneyCorrection.amend c.attorney d.attorneys
    trustCorporations :=
      amendAt TrustCorporationCorrection.amend c.trustCorporation d.trustCorporations
    certificateProvider := c.certificateProvider.amend d.certificateProvider
    authorisedSignatory := c.authorisedSignatory.or d.authorisedSignatory
    independentWitness := c.independentWitness.or d.independentWitness
    signedAt := c.signedAt
    witnessedByCertificateProviderAt := c.witnessedByCertificateProviderAt
    witnessedByIndependentWitnessAt := c.witnessedByIndependentWitnessAt
    decisions := c.decisions }

/-- What a correction does beyond its fields: wording that no mode calls for is dropped, and notes are
    added. -/
theorem amend_eq (c : Correction) (now : Instant) (d : Document) :
    c.amend now d =
      { c.onto d with decisions := c.decisions.settled, notes := d.notes ++ c.notes now d } := rfl

/-- A correction shows the document as corrected. -/
def layout (d : Document) : Layout Correction where
  view c := (c.onto d).holds
  start := .of d
  owns c p check := checks d c.decisions p = some check

/-- The attorneys, one of whom may be corrected. -/
def attorneysLayout (d : Document) : Layout (Option (Nat × AttorneyCorrection)) :=
  .entries Attorney.holds AttorneyCorrection.amend .of AttorneyCorrection.unregisteredChecks
    Label.index? d.attorneys

theorem attorneys_fits (d : Document) :
    (Script.each [] (fun i =>
        match d.attorneys[i]? with
        | none => .outOfRange .done
        | some a => .choose i (.of a) AttorneyCorrection.unregistered) <|
      .consumed .done).Fits (attorneysLayout d) False (fun _ => True) (fun _ => True) [] := by
  refine ⟨fun i => ?_, trivial⟩
  dsimp only
  cases ha : d.attorneys[i]? with
  | none => exact trivial
  | some a =>
      exact fits_choose_entry Label.isInjective_index? (l := .index i) rfl ha
        (AttorneyCorrection.unregistered_fits a)

/-- The trust corporations, one of which may be corrected. -/
def trustCorporationsLayout (d : Document) : Layout (Option (Nat × TrustCorporationCorrection)) :=
  .entries TrustCorporation.holds TrustCorporationCorrection.amend .of TrustCorporationCorrection.checks
    Label.index? d.trustCorporations

theorem trustCorporations_fits (d : Document) :
    (Script.each [] (fun i =>
        match d.trustCorporations[i]? with
        | none => .outOfRange .done
        | some t => .choose i (.of t) TrustCorporationCorrection.fields) <|
      .consumed .done).Fits (trustCorporationsLayout d) False (fun _ => True) (fun _ => True) [] := by
  refine ⟨fun i => ?_, trivial⟩
  dsimp only
  cases ht : d.trustCorporations[i]? with
  | none => exact trivial
  | some t =>
      exact fits_choose_entry Label.isInjective_index? (l := .index i) rfl ht
        (TrustCorporationCorrection.fits t)

/-- A part that stands for an absent one shows what the absent one would. -/
theorem named_fits {α : Type} {holds : α → Place → Option Held} {checks : Checks}
    {part : Focus Correction (Option α)} {seed : α} {fields : Script α} {d : Document} {top : Place}
    {free : Place → Prop}
    (hfields : fields.Fits (.record holds seed checks) False (fun _ => True) (fun _ => True) [])
    (hget : ∀ c w, part.get (part.set w c) = w)
    (hstart : part.get (of d) = none)
    (hview : ∀ c b, (layout d).view c (top ++ b) = holds ((part.get c).getD seed) b)
    (hshown : ∀ a b, (holds a b).isSome = (holds seed b).isSome)
    (hframe : ∀ c w q, (∀ b, q ≠ top ++ b) → (layout d).view (part.set w c) q = (layout d).view c q)
    (howns : ∀ c b check, checks b = some check → (layout d).owns c (top ++ b) check)
    (hfree : ∀ b, free (top ++ b)) :
    (named part seed fields).Fits (layout d) False (fun _ => True) free top := by
  have hbase : ∀ b, (layout d).base (top ++ b) = holds seed b := by
    intro b
    show (layout d).view (of d) (top ++ b) = _
    rw [hview, hstart]
    rfl
  refine ⟨fun _ => True, fun _ _ => trivial, fun c _ hun => ⟨trivial, funext fun q => ?_⟩,
    hfields.within_done (Layout.Embeds.of_part ?_ ?_ ?_ ?_ howns) fun b _ => hfree b⟩
  · by_cases hq : ∃ b, q = top ++ b
    · obtain ⟨b, rfl⟩ := hq
      rw [hview, hview, hget, Option.getD_some]
      -- What is shown below `top` has not been touched, so it is what the seed holds.
      cases hx : holds ((part.get c).getD seed) b with
      | none =>
          have hsome := hshown ((part.get c).getD seed) b
          rw [hx] at hsome
          exact Option.isNone_iff_eq_none.mp (by simpa using hsome.symm)
      | some x =>
          rw [← hbase b]
          exact hun (top ++ b) x (hfree b) ((hview c b).trans hx)
    · exact hframe c (some seed) q fun b hb => hq ⟨b, hb⟩
  · intro c w
    show (part.get (part.set (some w) c)).getD seed = w
    rw [hget]
    rfl
  · show (part.get (of d)).getD seed = seed
    rw [hstart]
    rfl
  · exact hview
  · exact fun c w q hq => hframe c (some w) q hq

/-- The decisions stand among the fields of the document itself. -/
theorem holds_eq_decisions (d : Document) {p : Place} (hp : p ∈ Decisions.places) :
    d.holds p = d.decisions.holds p := by
  simp only [Decisions.places, List.mem_cons, List.not_mem_nil, or_false] at hp
  rcases hp with rfl | rfl | rfl | rfl | rfl | rfl | rfl | rfl <;> rfl

theorem checks_eq_decisions (d : Document) (s : Decisions) {p : Place} (hp : p ∈ Decisions.places) :
    checks d s p = Decisions.checks d s p := by
  simp only [Decisions.places, List.mem_cons, List.not_mem_nil, or_false] at hp
  rcases hp with rfl | rfl | rfl | rfl | rfl | rfl | rfl | rfl <;> rfl

/-- The decisions are a part of the draft that stands at the top. -/
theorem embeds_decisions (d : Document) :
    (layout d).Embeds (Decisions.layout d)
      ⟨(·.decisions), fun v c => { c with decisions := v }⟩ (fun _ => True) (fun _ => True) [] where
  known _ _ := trivial
  keep _ _ _ _ := trivial
  get_set _ _ _ _ := rfl
  view c b x _ hview :=
    (holds_eq_decisions (c.onto d) (Decisions.mem_places_of_holds hview)).trans hview
  base c b x _ hview hbase :=
    (holds_eq_decisions d (Decisions.mem_places_of_holds hview)).symm.trans hbase
  frame c w q _ _ hsame := by
    have hw : w.holds q = c.decisions.holds q := hsame q rfl
    show Document.holds _ q = Document.holds _ q
    unfold Document.holds
    split <;> first | rfl | exact hw
  owns c b check howns := by
    show checks d c.decisions b = some check
    rw [checks_eq_decisions d _ (Decisions.mem_places_of_checks howns)]
    exact howns

theorem fits (d : Document) :
    (script d).Fits (layout d) True (fun _ => True) (fun _ => True) [] := by
  have hattorneys : ∀ s b check, (attorneysLayout d).owns s b check →
      ∀ t, checks d t (.name "attorneys" :: b) = some check := by
    intro s b check h t
    obtain ⟨l, b', i, rfl, hl, hcheck⟩ := Layout.owns_entries h
    cases l with
    | name _ => exact absurd hl (by simp [Label.index?])
    | index _ => exact hcheck
  have htrustCorporations : ∀ s b check, (trustCorporationsLayout d).owns s b check →
      ∀ t, checks d t (.name "trustCorporations" :: b) = some check := by
    intro s b check h t
    obtain ⟨l, b', i, rfl, hl, hcheck⟩ := Layout.owns_entries h
    cases l with
    | name _ => exact absurd hl (by simp [Label.index?])
    | index _ => exact hcheck
  have hplaces : ∀ p ∈ Decisions.places, ¬ [.name "donor"] <+: p ∧ p ≠ [.name "signedAt"] ∧
      p ≠ [.name "witnessedByCertificateProviderAt"] ∧ p ≠ [.name "witnessedByIndependentWitnessAt"] ∧
      ¬ [.name "attorneys"] <+: p ∧ ¬ [.name "trustCorporations"] <+: p ∧
      ¬ [.name "certificateProvider"] <+: p ∧ ¬ [.name "authorisedSignatory"] <+: p ∧
      ¬ [.name "independentWitness"] <+: p := by decide
  refine fits_part "donor" (by decide) (DonorCorrection.fits d.donor)
      (.of_part (fun _ _ => rfl) rfl (fun _ _ => rfl) ?_ fun _ _ _ h => h) (by simp) <|
    fits_field "signedAt" (by decide) (fun _ => rfl) (fun _ _ => rfl) ?_ (fun _ => rfl) (by simp) <|
    fits_field "witnessedByCertificateProviderAt" (by decide) (fun _ => rfl) (fun _ _ => rfl) ?_
      (fun _ => rfl) (by simp) <|
    fits_field "witnessedByIndependentWitnessAt" (by decide) (fun _ => rfl) (fun _ _ => rfl) ?_
      (fun _ => rfl) (by simp) <|
    fits_part "attorneys" (by decide) (attorneys_fits d)
      (.of_part (fun _ _ => rfl) rfl (fun c b => Entries.holds_amendAt (fun _ => rfl) c.attorney b) ?_
        fun _ _ _ h => hattorneys _ _ _ h _) (by simp) <|
    fits_part "trustCorporations" (by decide) (trustCorporations_fits d)
      (.of_part (fun _ _ => rfl) rfl
        (fun c b => Entries.holds_amendAt (fun _ => rfl) c.trustCorporation b) ?_
        fun _ _ _ h => htrustCorporations _ _ _ h _) (by simp) <|
    fits_part "certificateProvider" (by decide)
      (CertificateProviderCorrection.unregistered_fits d.certificateProvider)
      (.of_part (fun _ _ => rfl) rfl (fun _ _ => rfl) ?_ fun _ _ _ h => h) (by simp) <|
    fits_under "authorisedSignatory" (by decide)
      (named_fits (AuthorisedSignatory.fits _) (fun _ _ => rfl) rfl
        (fun c b => congrArg (fun x : AuthorisedSignatory => x.holds b) Option.getD_or)
        (fun a b => a.isSome_holds _ b) ?_ (fun _ _ _ h => h) (by simp)) <|
    fits_under "independentWitness" (by decide)
      (named_fits (IndependentWitness.fits _) (fun _ _ => rfl) rfl
        (fun c b => congrArg (fun x : IndependentWitness => x.holds b) Option.getD_or)
        (fun a b => a.isSome_holds _ b) ?_ (fun _ _ _ h => h) (by simp)) <|
    (Decisions.fits d).within (embeds_decisions d)
      (fun p hp => by simpa [and_assoc] using hplaces p hp) (fun _ => False.elim)
      (Script.avoids_nothing _ _) fun _ _ => trivial
  all_goals
    intro s v q hq
    show Document.holds _ q = Document.holds _ q
    unfold Document.holds
    split <;> first | rfl | exact absurd rfl hq | exact absurd rfl (hq _)

end Correction

/-! ## After registration -/

namespace RegisteredCorrection

/-- The document as corrected, with all wording and without new notes. -/
def onto (c : RegisteredCorrection) (d : Document) : Document :=
  { d with
    donor := c.donor.amend d.donor
    attorneys := amendAt AttorneyCorrection.amend c.attorney d.attorneys
    certificateProvider := c.certificateProvider.amend d.certificateProvider
    decisions := c.decisions
    restrictions := c.restrictions }

/-- What a correction does beyond its fields: wording that no mode calls for is dropped, and notes are
    added. -/
theorem amend_eq (c : RegisteredCorrection) (now : Instant) (d : Document) :
    c.amend now d =
      { c.onto d with decisions := c.decisions.settled, notes := d.notes ++ c.notes now d } := rfl

/-- A correction shows the document as corrected, its attorneys named by uid. -/
def layout (d : Document) : Layout RegisteredCorrection where
  view c q := (d.locate? q).bind (c.onto d).holds
  start := .of d
  owns c q check := ∃ p, d.locate? q = some p ∧ checks d c.decisions p = some check

/-- The attorneys, one of whom may be corrected. -/
def attorneysLayout (d : Document) : Layout (Option (Nat × AttorneyCorrection)) :=
  .entries Attorney.holds AttorneyCorrection.amend .of AttorneyCorrection.registeredChecks
    d.attorneyAt? d.attorneys

theorem attorneys_fits (d : Document) :
    (Script.eachKey (fun uid =>
        match d.attorneyIndex? uid with
        | none => .outOfRange .done
        | some i =>
          match d.attorneys[i]? with
          | none => .outOfRange .done
          | some a => .choose i (.of a) AttorneyCorrection.registered) <|
      .consumed .done).Fits (attorneysLayout d) False (fun _ => True) (fun _ => True) [] := by
  refine ⟨fun uid => ?_, trivial⟩
  dsimp only
  cases hi : d.attorneyIndex? uid with
  | none => exact trivial
  | some i =>
      dsimp only
      cases ha : d.attorneys[i]? with
      | none => exact trivial
      | some a =>
          exact fits_choose_entry d.isInjective_attorneyAt? (l := .name uid) hi ha
            (AttorneyCorrection.registered_fits a)

/-- What the layout shows of the attorneys is what it shows of the one that is chosen. -/
theorem view_attorneys (d : Document) (c : RegisteredCorrection) (b : Place) :
    (layout d).view c (.name "attorneys" :: b) = (attorneysLayout d).view c.attorney b := by
  cases b with
  | nil => rfl
  | cons l b =>
      unfold attorneysLayout
      rw [Layout.view_entries fun _ => rfl]
      cases l with
      | index _ => rfl
      | name uid =>
          show ((d.attorneyIndex? uid).map _).bind _ = (d.attorneyIndex? uid).bind _
          cases d.attorneyIndex? uid with
          | none => rfl
          | some i => rfl

/-- Two drafts show the same at a place if their documents hold the same at the place that is meant. -/
theorem view_congr {d : Document} {c c' : RegisteredCorrection} {q : Place}
    (h : ∀ p, d.locate? q = some p → (c.onto d).holds p = (c'.onto d).holds p) :
    (layout d).view c q = (layout d).view c' q := by
  show (d.locate? q).bind _ = (d.locate? q).bind _
  cases hq : d.locate? q with
  | none => rfl
  | some p => exact h p hq

/-- The decisions are not named by uid. -/
theorem locate?_decisions (d : Document) {p : Place} (hp : p ∈ Decisions.places) :
    d.locate? p = some p := by
  simp only [Decisions.places, List.mem_cons, List.not_mem_nil, or_false] at hp
  rcases hp with rfl | rfl | rfl | rfl | rfl | rfl | rfl | rfl <;> rfl

theorem checks_eq_decisions (d : Document) (s : Decisions) {p : Place} (hp : p ∈ Decisions.places) :
    checks d s p = Decisions.checks d s p := by
  simp only [Decisions.places, List.mem_cons, List.not_mem_nil, or_false] at hp
  rcases hp with rfl | rfl | rfl | rfl | rfl | rfl | rfl | rfl <;> rfl

/-- The decisions are a part of the draft that stands at the top. -/
theorem embeds_decisions (d : Document) :
    (layout d).Embeds (Decisions.layout d)
      ⟨(·.decisions), fun v c => { c with decisions := v }⟩ (fun _ => True) (fun _ => True) [] where
  known _ _ := trivial
  keep _ _ _ _ := trivial
  get_set _ _ _ _ := rfl
  view c b x _ hview := by
    have hb := Decisions.mem_places_of_holds hview
    show (d.locate? b).bind _ = some x
    rw [locate?_decisions d hb, Option.bind_some, Correction.holds_eq_decisions _ hb]
    exact hview
  base c b x _ hview hbase := by
    have hb := Decisions.mem_places_of_holds hview
    have hshown : (d.locate? b).bind d.holds = some x := hbase
    rw [locate?_decisions d hb, Option.bind_some, Correction.holds_eq_decisions d hb] at hshown
    exact hshown
  frame c w q _ _ hsame := by
    refine view_congr fun p hp => ?_
    rcases Document.eq_of_locate? hp with rfl | ⟨_, _, _, _, _, rfl⟩
    · have hw : w.holds q = c.decisions.holds q := hsame q rfl
      unfold Document.holds
      split <;> first | rfl | exact hw
    · rfl
  owns c b check howns := by
    have hb := Decisions.mem_places_of_checks howns
    refine ⟨b, locate?_decisions d hb, ?_⟩
    rw [checks_eq_decisions d _ hb]
    exact howns

theorem fits (d : Document) :
    (script d).Fits (layout d) True (fun _ => True) (fun _ => True) [] := by
  have hattorneys : ∀ s b check, (attorneysLayout d).owns s b check →
      ∀ c, (layout d).owns c (.name "attorneys" :: b) check := by
    intro s b check h c
    obtain ⟨l, b', i, rfl, hl, hcheck⟩ := Layout.owns_entries h
    cases l with
    | index _ => exact absurd hl (by simp [Document.attorneyAt?])
    | name uid =>
        refine ⟨.name "attorneys" :: .index i :: b', ?_, hcheck⟩
        show (d.attorneyIndex? uid).map _ = _
        rw [show d.attorneyIndex? uid = some i from hl]
        rfl
  -- A place that is not below a name, and does not mean one that is.
  have hbelow : ∀ {name : String} {q p : Place}, (∀ b, q ≠ [] ++ [.name name] ++ b) →
      d.locate? q = some p → ∀ b, p ≠ .name name :: b := by
    rintro name q _ hq hp b rfl
    obtain ⟨b', rfl⟩ := Document.below_of_locate? hp
    exact hq b' rfl
  have hrest : ∀ p ∈ Decisions.places, ¬ p = [.name "restrictionsAndConditions"] := by decide
  have hplaces : ∀ p ∈ Decisions.places, ¬ [.name "donor"] <+: p ∧
      ¬ [.name "certificateProvider"] <+: p ∧ ¬ [.name "attorneys"] <+: p := by decide
  refine fits_part "donor" (by decide) (DonorCorrection.fits d.donor)
      (.of_part (fun _ _ => rfl) rfl (fun _ _ => rfl) (fun c w q hq => view_congr fun p hp => ?_)
        fun _ b _ h => ⟨.name "donor" :: b, rfl, h⟩) (by simp) <|
    fits_part "certificateProvider" (by decide)
      (CertificateProviderCorrection.registered_fits d.certificateProvider)
      (.of_part (fun _ _ => rfl) rfl (fun _ _ => rfl) (fun c w q hq => view_congr fun p hp => ?_)
        fun _ b _ h => ⟨.name "certificateProvider" :: b, rfl, h⟩) (by simp) <|
    fits_part "attorneys" (by decide) (attorneys_fits d)
      (.of_part (fun _ _ => rfl) rfl (view_attorneys d) (fun c w q hq => view_congr fun p hp => ?_)
        fun _ _ _ h => hattorneys _ _ _ h _) (by simp) <|
    (Decisions.fits d).within (embeds_decisions d)
      (fun p hp => ⟨⟨⟨trivial, (hplaces p hp).1⟩, (hplaces p hp).2.1⟩, (hplaces p hp).2.2⟩)
      (fun q hq => by subst hq; simp) (Decisions.avoids d hrest) fun Q' _ =>
    fits_field_known "restrictionsAndConditions" (by decide) (fun _ => rfl) (fun _ _ => rfl)
      (fun c v q hq => view_congr fun p hp => ?_) (fun _ _ hs => hs)
      (fun _ _ => ⟨[.name "restrictionsAndConditions"], rfl, rfl⟩) rfl trivial
  case refine_4 =>
    have hne : p ≠ [.name "restrictionsAndConditions"] := by
      rintro rfl
      rcases Document.eq_of_locate? hp with rfl | ⟨_, _, _, _, _, heq⟩
      · exact hq rfl
      · exact absurd heq (by simp)
    unfold Document.holds
    split <;> first | rfl | exact absurd rfl hne
  all_goals
    have hne := hbelow hq hp
    unfold Document.holds
    split <;> first | rfl | exact absurd rfl (hne _)

end RegisteredCorrection

end PowerOfAttorney
