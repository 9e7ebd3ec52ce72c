import PowerOfAttorney.Proofs.Operation.Fields
import PowerOfAttorney.Proofs.Script.Within

/-!
# `PowerOfAttorney.Proofs.Operation.Parts` — the scripts on parts of a document respect their fields

Each script on a part of a document, lined up with what the part holds and with the checks of its
fields. A correction of a person shows what the person would hold if it were carried out, so it begins
by showing what is on record.

## Contents
- **Records.** `Layout.record`, for drafts all of whose fields may be changed on their own, and
  `Embeds.of_part` for a record in a record.
- **Parts.** `Address.fits`, `DonorCorrection.fits` and so on.
-/

namespace PowerOfAttorney

open Script.Fits

variable {σ τ : Type}

/-! ## Records -/

namespace Layout

/-- Drafts that show what they hold, and fields that may always be changed. -/
def record (holds : σ → Place → Option Held) (start : σ) (checks : Checks) : Layout σ where
  view := holds
  start := start
  owns _ p check := checks p = some check

/-- A part of a draft that is shown below `top`, and nowhere else. -/
theorem Embeds.of_part {M : Layout σ} {L : Layout τ} {part : Focus σ τ} {top : Place}
    (hget : ∀ s w, part.get (part.set w s) = w)
    (hstart : part.get M.start = L.start)
    (hview : ∀ s b, M.view s (top ++ b) = L.view (part.get s) b)
    (hframe : ∀ s w q, (∀ b, q ≠ top ++ b) → M.view (part.set w s) q = M.view s q)
    (howns : ∀ s b check, L.owns (part.get s) b check → M.owns s (top ++ b) check) :
    M.Embeds L part (fun _ => True) (fun _ => True) top where
  known _ _ := trivial
  keep _ _ _ _ := trivial
  get_set s w _ _ := hget s w
  view s b x _ hx := (hview s b).trans hx
  base s b x _ _ hbase := by
    have hstarts : M.view M.start (top ++ b) = some x := hbase
    rw [hview, hstart] at hstarts
    exact hstarts
  frame s w q _ _ hsame := by
    by_cases hq : ∃ b, q = top ++ b
    · obtain ⟨b, rfl⟩ := hq
      rw [hview, hview, hget]
      exact hsame b rfl
    · exact hframe s w q fun b hb => hq ⟨b, hb⟩
  owns := howns

end Layout

/-! ## Parts -/

theorem Address.fits (a : Address) (line1 town country : Rule) {outer : Prop} :
    (Address.fields line1 town country).Fits
      (.record Address.holds a (Address.checks line1.check town.check country.check))
      outer (fun _ => True) (fun _ => True) [] := by
  refine fits_field "line1" (by decide) (fun _ => rfl) (fun _ _ => rfl) ?_ (fun _ => rfl) trivial <|
    fits_field "line2" (by decide) (fun _ => rfl) (fun _ _ => rfl) ?_ (fun _ => rfl) (by simp) <|
    fits_field "line3" (by decide) (fun _ => rfl) (fun _ _ => rfl) ?_ (fun _ => rfl) (by simp) <|
    fits_field "town" (by decide) (fun _ => rfl) (fun _ _ => rfl) ?_ (fun _ => rfl) (by simp) <|
    fits_field "postcode" (by decide) (fun _ => rfl) (fun _ _ => rfl) ?_ (fun _ => rfl) (by simp) <|
    fits_field "country" (by decide) (fun _ => rfl) (fun _ _ => rfl) ?_ (fun _ => rfl) (by simp)
    trivial
  all_goals
    intro s v q hq
    show Address.holds _ q = Address.holds s q
    unfold Address.holds
    split <;> first | rfl | exact absurd rfl hq

namespace DonorCorrection

/-- A correction of a donor shows the donor as corrected. -/
def layout (d : Donor) : Layout DonorCorrection :=
  .record (fun c => (c.amend d).holds) (.of d) checks

theorem fits (d : Donor) : fields.Fits (layout d) False (fun _ => True) (fun _ => True) [] := by
  refine fits_field "firstNames" (by decide) (fun _ => rfl) (fun _ _ => rfl) ?_ (fun _ => rfl) trivial <|
    fits_field "lastName" (by decide) (fun _ => rfl) (fun _ _ => rfl) ?_ (fun _ => rfl) (by simp) <|
    fits_field "otherNamesKnownBy" (by decide) (fun _ => rfl) (fun _ _ => rfl) ?_ (fun _ => rfl)
      (by simp) <|
    fits_field "dateOfBirth" (by decide) (fun _ => rfl) (fun _ _ => rfl) ?_ (fun _ => rfl) (by simp) <|
    fits_part "address" (by decide) (Address.fits d.address .allows .allows (.checking .allows .country))
      (.of_part (fun _ _ => rfl) rfl (fun _ _ => rfl) ?_ fun _ _ _ h => h) (by simp) <|
    fits_field "email" (by decide) (fun _ => rfl) (fun _ _ => rfl) ?_ (fun _ => rfl) (by simp)
    trivial
  all_goals
    intro s v q hq
    show Donor.holds _ q = Donor.holds _ q
    unfold Donor.holds
    split <;> first | rfl | exact absurd rfl hq | exact absurd rfl (hq _)

end DonorCorrection

namespace AttorneyCorrection

/-- A correction of an attorney shows the attorney as corrected. -/
def layout (a : Attorney) (checks : Checks) : Layout AttorneyCorrection :=
  .record (fun c => (c.amend a).holds) (.of a) checks

/-- The common fields, and what follows them, if that reads none of them. -/
theorem fits (a : Attorney) {allowed : Checks} {after : Script AttorneyCorrection}
    (hallowed : ∀ p check, checks p = some check → allowed p = some check)
    (hafter : after.Fits (layout a allowed) False (fun _ => True)
      (fun q => q = [.name "signedAt"] ∨ q = [.name "cannotMakeJointDecisions"]) []) :
    (fields after).Fits (layout a allowed) False (fun _ => True) (fun _ => True) [] := by
  refine fits_field "firstNames" (by decide) (fun _ => rfl) (fun _ _ => rfl) ?_
      (fun _ => hallowed _ _ rfl) trivial <|
    fits_field "lastName" (by decide) (fun _ => rfl) (fun _ _ => rfl) ?_
      (fun _ => hallowed _ _ rfl) (by simp) <|
    fits_field "dateOfBirth" (by decide) (fun _ => rfl) (fun _ _ => rfl) ?_
      (fun _ => hallowed _ _ rfl) (by simp) <|
    fits_field "email" (by decide) (fun _ => rfl) (fun _ _ => rfl) ?_
      (fun _ => hallowed _ _ rfl) (by simp) <|
    fits_field "mobile" (by decide) (fun _ => rfl) (fun _ _ => rfl) ?_
      (fun _ => hallowed _ _ rfl) (by simp) <|
    fits_part "address" (by decide) (Address.fits a.address .allows .allows (.checking .allows .country))
      (.of_part (fun _ _ => rfl) rfl (fun _ _ => rfl) ?_ fun _ _ _ h => hallowed _ _ h) (by simp) <|
    hafter.mono fun q hq => by rcases hq with rfl | rfl <;> simp
  all_goals
    intro s v q hq
    show Attorney.holds _ q = Attorney.holds _ q
    unfold Attorney.holds
    split <;> first | rfl | exact absurd rfl hq | exact absurd rfl (hq _)

theorem unregistered_fits (a : Attorney) :
    unregistered.Fits (layout a unregisteredChecks) False (fun _ => True) (fun _ => True) [] := by
  refine fits a ?_ <| fits_field "signedAt" (by decide) (fun _ => rfl) (fun _ _ => rfl) ?_
    (fun _ => rfl) (Or.inl rfl) trivial
  · intro p check h
    unfold unregisteredChecks
    split
    · exact absurd h (by simp [checks])
    · exact h
  · intro s v q hq
    show Attorney.holds _ q = Attorney.holds _ q
    unfold Attorney.holds
    split <;> first | rfl | exact absurd rfl hq

theorem registered_fits (a : Attorney) :
    registered.Fits (layout a registeredChecks) False (fun _ => True) (fun _ => True) [] := by
  refine fits a ?_ <| fits_field "cannotMakeJointDecisions" (by decide) (fun _ => rfl)
    (fun _ _ => rfl) ?_ (fun _ => rfl) (Or.inr rfl) trivial
  · intro p check h
    unfold registeredChecks
    split
    · exact absurd h (by simp [checks])
    · exact h
  · intro s v q hq
    show Attorney.holds _ q = Attorney.holds _ q
    unfold Attorney.holds
    split <;> first | rfl | exact absurd rfl hq

end AttorneyCorrection

theorem Signatory.fits (x : Signatory) {rule : Rule} (hrule : rule.check = some .notEmpty)
    {outer : Prop} : (Signatory.fields rule).Fits (.record Signatory.holds x Signatory.checks) outer
      (fun _ => True) (fun _ => True) [] := by
  have howns : ∀ name, Signatory.checks [.name name] = some (some .notEmpty) →
      ∀ s, (Layout.record Signatory.holds x Signatory.checks).owns s [.name name] rule.check := by
    intro name hname s
    rw [hrule]
    exact hname
  refine fits_field "firstNames" (by decide) (fun _ => rfl) (fun _ _ => rfl) ?_ (howns _ rfl)
      trivial <|
    fits_field "lastName" (by decide) (fun _ => rfl) (fun _ _ => rfl) ?_ (howns _ rfl) (by simp) <|
    fits_field "professionalTitle" (by decide) (fun _ => rfl) (fun _ _ => rfl) ?_ (howns _ rfl)
      (by simp) <|
    fits_field "signedAt" (by decide) (fun _ => rfl) (fun _ _ => rfl) ?_ (howns _ rfl) (by simp)
    trivial
  all_goals
    intro s v q hq
    show Signatory.holds _ q = Signatory.holds s q
    unfold Signatory.holds
    split <;> first | rfl | exact absurd rfl hq

namespace TrustCorporationCorrection

/-- The signatories of a trust corporation, by index. -/
def signatoriesLayout (xs : List Signatory) : Layout (List Signatory) :=
  .record (Entries.holds Signatory.holds) xs fun
    | .index _ :: b => Signatory.checks b
    | _ => none

/-- The signatory at an index that is there is a part of the list. -/
theorem embeds_signatory (xs : List Signatory) {i n : Nat} (hi : i < n) :
    (signatoriesLayout xs).Embeds (.record Signatory.holds ((xs[i]?).getD {}) Signatory.checks)
      ⟨fun s => (s[i]?).getD {}, fun v s => s.set i v⟩ (fun s => s.length = n) (fun _ => True)
      [.index i] where
  known _ _ := trivial
  keep s w hs _ := by
    rw [List.length_set]
    exact hs
  get_set s w hs _ := by
    show ((s.set i w)[i]?).getD {} = w
    rw [List.getElem?_set_self (by omega)]
    rfl
  view s b x hs hview := by
    have hget : s[i]? = some s[i] := List.getElem?_eq_getElem (by omega)
    dsimp only at hview
    rw [hget] at hview
    show ((s[i]?).bind fun x => x.holds b) = some x
    rw [hget]
    exact hview
  base s b x _ _ hbase := by
    have hholds : ((xs[i]?).bind fun x => x.holds b) = some x := hbase
    obtain ⟨y, hy, hx⟩ := Option.bind_eq_some_iff.mp hholds
    show ((xs[i]?).getD {}).holds b = some x
    rw [hy]
    exact hx
  frame s w q hs _ hsame := by
    refine Entries.holds_congr fun j b hq => ?_
    by_cases hij : i = j
    · subst hij
      have hw : w.holds b = ((s[i]?).getD {}).holds b := hsame b hq
      rw [List.getElem?_set_self (by omega), Option.bind_some, hw,
        List.getElem?_eq_getElem (by omega)]
      rfl
    · rw [List.getElem?_set_ne hij]
  owns _ _ _ h := h

theorem signatory_fits (xs : List Signatory) (i : Nat) {free : Place → Prop}
    (hfree : ∀ b, free (.index i :: b)) :
    (signatory i).Fits (signatoriesLayout xs) False (fun _ => True) free [.index i] := by
  intro s _
  refine ⟨fun s' => s'.length = s.length, rfl, fun _ _ => trivial, ?_⟩
  dsimp only
  by_cases hi : i < s.length
  · rw [if_pos hi]
    exact (Signatory.fits _ rfl).within_done (embeds_signatory xs hi) fun b _ => hfree b
  · rw [if_neg hi]
    trivial

/-- A correction of a trust corporation shows the corporation as corrected. -/
def layout (t : TrustCorporation) : Layout TrustCorporationCorrection :=
  .record (fun c => (c.amend t).holds) (.of t) checks

theorem fits (t : TrustCorporation) :
    fields.Fits (layout t) False (fun _ => True) (fun _ => True) [] := by
  have howns : ∀ s b check, (signatoriesLayout t.signatories).owns s b check →
      checks (.name "signatories" :: b) = some check := by
    intro s b check h
    unfold signatoriesLayout Layout.record at h
    dsimp only at h
    split at h
    · exact h
    · exact absurd h (by simp)
  refine fits_field "name" (by decide) (fun _ => rfl) (fun _ _ => rfl) ?_ (fun _ => rfl) trivial <|
    fits_field "companyNumber" (by decide) (fun _ => rfl) (fun _ _ => rfl) ?_ (fun _ => rfl)
      (by simp) <|
    fits_field "email" (by decide) (fun _ => rfl) (fun _ _ => rfl) ?_ (fun _ => rfl) (by simp) <|
    fits_field "mobile" (by decide) (fun _ => rfl) (fun _ _ => rfl) ?_ (fun _ => rfl) (by simp) <|
    fits_part "address" (by decide) (Address.fits t.address .allows .allows (.checking .allows .country))
      (.of_part (fun _ _ => rfl) rfl (fun _ _ => rfl) ?_ fun _ _ _ h => h) (by simp) <|
    fits_part "signatories" (by decide)
      (show (Script.each [] signatory (.consumed .done)).Fits (signatoriesLayout t.signatories) False
          (fun _ => True) (fun _ => True) [] from
        ⟨fun i => signatory_fits t.signatories i fun b => ⟨trivial, b, rfl⟩, trivial⟩)
      (.of_part (fun _ _ => rfl) rfl (fun _ _ => rfl) ?_ fun _ _ _ h => howns _ _ _ h) (by simp)
    trivial
  all_goals
    intro s v q hq
    show TrustCorporation.holds _ q = TrustCorporation.holds _ q
    unfold TrustCorporation.holds
    split <;> first | rfl | exact absurd rfl hq | exact absurd rfl (hq _)

end TrustCorporationCorrection

namespace CertificateProviderCorrection

/-- A correction of a certificate provider shows the provider as corrected. -/
def layout (p : CertificateProvider) (checks : Checks) : Layout CertificateProviderCorrection :=
  .record (fun c => (c.amend p).holds) (.of p) checks

/-- The common fields, and what follows them, if that reads none of them. -/
theorem fits (p : CertificateProvider) {allowed : Checks}
    {after : Script CertificateProviderCorrection}
    (hallowed : ∀ p check, checks p = some check → allowed p = some check)
    (hafter : after.Fits (layout p allowed) False (fun _ => True) (fun q => q = [.name "signedAt"]) []) :
    (fields after).Fits (layout p allowed) False (fun _ => True) (fun _ => True) [] := by
  refine fits_field "firstNames" (by decide) (fun _ => rfl) (fun _ _ => rfl) ?_
      (fun _ => hallowed _ _ rfl) trivial <|
    fits_field "lastName" (by decide) (fun _ => rfl) (fun _ _ => rfl) ?_
      (fun _ => hallowed _ _ rfl) (by simp) <|
    fits_part "address" (by decide) (Address.fits p.address .allows .allows (.checking .allows .country))
      (.of_part (fun _ _ => rfl) rfl (fun _ _ => rfl) ?_ fun _ _ _ h => hallowed _ _ h) (by simp) <|
    fits_field "email" (by decide) (fun _ => rfl) (fun _ _ => rfl) ?_
      (fun _ => hallowed _ _ rfl) (by simp) <|
    fits_field "phone" (by decide) (fun _ => rfl) (fun _ _ => rfl) ?_
      (fun _ => hallowed _ _ rfl) (by simp) <|
    hafter.mono fun q hq => by subst hq; simp
  all_goals
    intro s v q hq
    show CertificateProvider.holds _ q = CertificateProvider.holds _ q
    unfold CertificateProvider.holds
    split <;> first | rfl | exact absurd rfl hq | exact absurd rfl (hq _)

theorem unregistered_fits (p : CertificateProvider) :
    unregistered.Fits (layout p unregisteredChecks) False (fun _ => True) (fun _ => True) [] := by
  refine fits p ?_ <| fits_field "signedAt" (by decide) (fun _ => rfl) (fun _ _ => rfl) ?_
    (fun _ => rfl) rfl trivial
  · intro p check h
    unfold unregisteredChecks
    split
    · exact absurd h (by simp [checks])
    · exact h
  · intro s v q hq
    show CertificateProvider.holds _ q = CertificateProvider.holds _ q
    unfold CertificateProvider.holds
    split <;> first | rfl | exact absurd rfl hq

theorem registered_fits (p : CertificateProvider) :
    registered.Fits (layout p checks) False (fun _ => True) (fun _ => True) [] :=
  fits p (fun _ _ h => h) trivial

end CertificateProviderCorrection

theorem AuthorisedSignatory.fits (x : AuthorisedSignatory) :
    AuthorisedSignatory.fields.Fits (.record AuthorisedSignatory.holds x AuthorisedSignatory.checks)
      False (fun _ => True) (fun _ => True) [] := by
  refine fits_field "firstNames" (by decide) (fun _ => rfl) (fun _ _ => rfl) ?_ (fun _ => rfl) trivial <|
    fits_field "lastName" (by decide) (fun _ => rfl) (fun _ _ => rfl) ?_ (fun _ => rfl) (by simp)
    trivial
  all_goals
    intro s v q hq
    show AuthorisedSignatory.holds _ q = AuthorisedSignatory.holds s q
    unfold AuthorisedSignatory.holds
    split <;> first | rfl | exact absurd rfl hq

theorem IndependentWitness.fits (x : IndependentWitness) :
    IndependentWitness.fields.Fits (.record IndependentWitness.holds x IndependentWitness.checks)
      False (fun _ => True) (fun _ => True) [] := by
  refine fits_field "firstNames" (by decide) (fun _ => rfl) (fun _ _ => rfl) ?_ (fun _ => rfl) trivial <|
    fits_field "lastName" (by decide) (fun _ => rfl) (fun _ _ => rfl) ?_ (fun _ => rfl) (by simp) <|
    fits_field "phone" (by decide) (fun _ => rfl) (fun _ _ => rfl) ?_ (fun _ => rfl) (by simp) <|
    fits_part "address" (by decide) (Address.fits x.address .allows .allows (.checking .allows .country))
      (.of_part (fun _ _ => rfl) rfl (fun _ _ => rfl) ?_ fun _ _ _ h => h) (by simp)
    trivial
  all_goals
    intro s v q hq
    show IndependentWitness.holds _ q = IndependentWitness.holds _ q
    unfold IndependentWitness.holds
    split <;> first | rfl | exact absurd rfl hq | exact absurd rfl (hq _)

end PowerOfAttorney
