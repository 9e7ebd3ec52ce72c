import PowerOfAttorney.Proofs.Operation.Entries

/-!
# `PowerOfAttorney.Proofs.Operation.Signing` — signing respects the fields of the party

What a party gives on signing is read into an empty draft, so every field holds nothing at first.

## Contents
- **Indexes.** `Layout.atIndex`, for a party who signs at an index, and `fits_atIndex`.
- **Certificate provider.** `CertificateProviderSign.fits`.
- **Attorney.** `AttorneySign.fits`, on the attorney at an index.
- **Trust corporation.** `TrustCorporationSign.fits`, on the corporation at an index.
-/

namespace PowerOfAttorney

open Script.Fits

/-- A party signs at an index that is there; what is given is read into an empty draft. -/
def Layout.atIndex {τ : Type} (L : Layout τ) (count : Nat) : Layout (Option (Nat × τ)) :=
  .oneOf fun
    | .index i :: b => if i < count then some (i, L, b) else none
    | _ => none

/-- What is shown of a party that signs at an index. -/
theorem Layout.view_atIndex {τ : Type} {L : Layout τ} {count i : Nat} (hi : i < count) (x : τ)
    (b : Place) : (L.atIndex count).view (some (i, x)) (.index i :: b) = L.view x b := by
  unfold atIndex oneOf
  dsimp only
  rw [if_pos hi, Option.bind_some, if_pos rfl]

/-- Before anything is given an empty draft is shown. -/
theorem Layout.base_atIndex {τ : Type} {L : Layout τ} {count i : Nat} (hi : i < count) (b : Place) :
    (L.atIndex count).base (.index i :: b) = L.base b := by
  unfold base atIndex oneOf
  dsimp only
  rw [if_pos hi, Option.bind_some]

/-- The script on a party that signs at an index. -/
theorem fits_atIndex {τ : Type} {L : Layout τ} {count : Nat} {inner : Script τ}
    (hinner : inner.Fits L False (fun _ => True) (fun _ => True) []) :
    (Script.each [] (fun i => if i < count then .choose i L.start inner else .outOfRange .done) <|
      .consumed .done).Fits (L.atIndex count) False (fun _ => True) (fun _ => True) [] := by
  refine ⟨fun i => ?_, trivial⟩
  dsimp only
  by_cases hi : i < count
  · rw [if_pos hi]
    refine fits_choose hinner (fun b => if_pos hi) (fun q L' b hq => ?_) fun b => ⟨trivial, b, rfl⟩
    split at hq
    · rename_i j b'
      by_cases hj : j < count
      · rw [if_pos hj, Option.some.injEq, Prod.mk.injEq, Prod.mk.injEq] at hq
        obtain ⟨rfl, rfl, rfl⟩ := hq
        exact ⟨rfl, rfl⟩
      · rw [if_neg hj] at hq
        exact absurd hq nofun
    · exact absurd hq nofun
  · rw [if_neg hi]
    trivial

/-! ## Certificate provider -/

namespace CertificateProviderSign

def layout : Layout CertificateProviderSign :=
  .record holds {} checks

theorem fits : script.Fits (layout.below [.name "certificateProvider"]) True (fun _ => True)
    (fun _ => True) [] := by
  refine fits_below (by decide) <|
    fits_part "address" (by decide)
      (Address.fits {} (.checking .needs .notEmpty) (.checking .needs .notEmpty)
        (.checking .needs .country))
      (.of_part (fun _ _ => rfl) rfl (fun _ _ => rfl) ?_ fun _ _ _ h => h) (by simp) <|
    fits_field "signedAt" (by decide) (fun _ => rfl) (fun _ _ => rfl) ?_ (fun _ => rfl) (by simp) <|
    fits_field "contactLanguagePreference" (by decide) (fun _ => rfl) (fun _ _ => rfl) ?_
      (fun _ => rfl) (by simp)
    trivial
  all_goals
    intro s v q hq
    show holds _ q = holds s q
    unfold holds
    split <;> first | rfl | exact absurd rfl hq | exact absurd rfl (hq _)

end CertificateProviderSign

/-! ## Attorney -/

namespace AttorneySign

def layout : Layout AttorneySign :=
  .record holds {} checks

theorem fields_fits : fields.Fits layout False (fun _ => True) (fun _ => True) [] := by
  refine fits_field "mobile" (by decide) (fun _ => rfl) (fun _ _ => rfl) ?_ (fun _ => rfl) trivial <|
    fits_field "signedAt" (by decide) (fun _ => rfl) (fun _ _ => rfl) ?_ (fun _ => rfl) (by simp) <|
    fits_field "contactLanguagePreference" (by decide) (fun _ => rfl) (fun _ _ => rfl) ?_
      (fun _ => rfl) (by simp)
    trivial
  all_goals
    intro s v q hq
    show holds _ q = holds s q
    unfold holds
    split <;> first | rfl | exact absurd rfl hq

theorem fits (d : Document) :
    (script d).Fits ((layout.atIndex d.attorneys.length).below [.name "attorneys"]) True
      (fun _ => True) (fun _ => True) [] :=
  fits_below (by decide) (fits_atIndex fields_fits)

end AttorneySign

/-! ## Trust corporation -/

namespace TrustCorporationSign

def layout : Layout TrustCorporationSign :=
  .record holds {} checks

theorem signatory_fits (i : Nat) :
    (signatory i).Fits layout False (fun _ => True)
      (fun q => ((True ∧ q ≠ [.name "mobile"]) ∧ [.name "signatories", .index i] <+: q))
      [.name "signatories", .index i] := by
  have hfree : ∀ (j : Nat) (b : Place),
      (True ∧ Label.name "signatories" :: .index j :: b ≠ [.name "mobile"]) ∧
        [.name "signatories", .index j] <+: Label.name "signatories" :: .index j :: b :=
    fun j b => ⟨by simp, b, rfl⟩
  match i with
  | 0 =>
      refine (Signatory.fits {} rfl).within_done
        (.of_part (fun _ _ => rfl) rfl (fun _ _ => rfl) (fun s w q hq => ?_) fun _ _ _ h => h)
        fun b _ => hfree 0 b
      show holds _ q = holds s q
      unfold holds
      split <;> first | rfl | skip
      refine Entries.holds_congr fun j b hb => ?_
      match j with
      | 0 => exact absurd (congrArg _ hb) (hq b)
      | j + 1 => rfl
  | 1 =>
      refine (Signatory.fits {} rfl).within_done
        (.of_part (fun _ _ => rfl) rfl (fun _ _ => rfl) (fun s w q hq => ?_) fun _ _ _ h => h)
        fun b _ => hfree 1 b
      show holds _ q = holds s q
      unfold holds
      split <;> first | rfl | skip
      refine Entries.holds_congr fun j b hb => ?_
      match j with
      | 0 => rfl
      | 1 => exact absurd (congrArg _ hb) (hq b)
      | j + 2 => rfl
  | _ + 2 => exact trivial

theorem fields_fits : fields.Fits layout False (fun _ => True) (fun _ => True) [] := by
  refine fits_field "mobile" (by decide) (fun _ => rfl) (fun _ _ => rfl) ?_ (fun _ => rfl) trivial <|
    fits_under "signatories" (by decide) ⟨signatory_fits, trivial⟩ <|
    fits_field "contactLanguagePreference" (by decide) (fun _ => rfl) (fun _ _ => rfl) ?_
      (fun _ => rfl) (by simp)
    trivial
  all_goals
    intro s v q hq
    show holds _ q = holds s q
    unfold holds
    split <;> first | rfl | exact absurd rfl hq

theorem fits (d : Document) :
    (script d).Fits ((layout.atIndex d.trustCorporations.length).below [.name "trustCorporations"])
      True (fun _ => True) (fun _ => True) [] :=
  fits_below (by decide) (fits_atIndex fields_fits)

end TrustCorporationSign

end PowerOfAttorney
