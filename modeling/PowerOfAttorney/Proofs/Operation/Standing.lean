import PowerOfAttorney.Proofs.Operation.Entries

/-!
# `PowerOfAttorney.Proofs.Operation.Standing` — moves and particulars respect the fields of the document

The remaining operations: moves of attorneys, exceptions from joint decisions, the status, addresses for
online access, identity checks and restrictions.

## Contents
- **Lists of moves.** `Layout.moves`, for drafts that collect a new value for each of several entries.
- **Attorneys.** `ChangeAttorneys.fits` and `AttorneyDecisions.fits`.
- **Particulars.** `statusScript_fits`, `AttorneyAccess.fits`, `CertificateProviderAccess.fits`,
  `ConfirmIdentity.fits` and `SeverRestrictions.fits`.
-/

namespace PowerOfAttorney

open Script.Fits

/-! ## Lists of moves -/

section

variable {σ α β : Type} (holds : α → Place → Option Held) (set : β → α → α)

/-- A list with the moves carried out, in order. -/
def moved (moves : List (Nat × β)) (xs : List α) : List α :=
  moves.foldl (fun xs m => xs.modify m.1 (set m.2)) xs

theorem moved_append (moves : List (Nat × β)) (i : Nat) (v : β) (xs : List α) :
    moved set (moves ++ [(i, v)]) xs = (moved set moves xs).modify i (set v) := by
  unfold moved
  rw [List.foldl_append]
  rfl

theorem length_moved (moves : List (Nat × β)) (xs : List α) :
    (moved set moves xs).length = xs.length := by
  unfold moved
  induction moves generalizing xs with
  | nil => rfl
  | cons m moves ih => rw [List.foldl_cons, ih, List.length_modify]

/-- A draft of moves shows the entries as moved. -/
def Layout.moves (at? : Label → Option Nat) (moves : σ → List (Nat × β)) (start : σ) (xs : List α)
    (checks : Checks) : Layout σ where
  view s q :=
    match q with
    | l :: b => (at? l).bind fun i => Entries.holds holds (moved set (moves s) xs) (.index i :: b)
    | [] => none
  start := start
  owns _ q check := ∃ l b i, q = l :: b ∧ at? l = some i ∧ checks b = some check

variable {holds set}

/-- The slot of a move, at the entry of a label. -/
theorem Layout.reads_moves {at? : Label → Option Nat} (hat : Label.IsInjective at?)
    {moves : σ → List (Nat × β)} {start : σ} {xs : List α} {checks : Checks} {l : Label} {i : Nat}
    (hl : at? l = some i) {a : α} (ha : xs[i]? = some a) {name : String} {slot : Slot σ}
    {check : Option Check} {value : α → slot.type.Value} {toMove : slot.type.Value → β}
    (hstart : moves start = []) (hget : ∀ s, slot.get s = value a)
    (hset : ∀ s v, moves (slot.set v s) = moves s ++ [(i, toMove v)])
    (hholds : ∀ x, holds x [.name name] = some ⟨slot.type, value x⟩)
    (hvalue : ∀ v x, value (set (toMove v) x) = v)
    (hframe : ∀ v x b, b ≠ [.name name] → holds (set v x) b = holds x b)
    (hcheck : checks [.name name] = some check) :
    (Layout.moves holds set at? moves start xs checks).Reads False (fun _ => True)
      [l, .name name] slot check := by
  have hi : ∀ ms : List (Nat × β), ∃ x, (moved set ms xs)[i]? = some x := by
    intro ms
    obtain ⟨hlt, _⟩ := List.getElem?_eq_some_iff.mp ha
    exact ⟨_, List.getElem?_eq_getElem (by rw [length_moved]; exact hlt)⟩
  have hview : ∀ s b, (Layout.moves holds set at? moves start xs checks).view s (l :: b) =
      ((moved set (moves s) xs)[i]?).bind fun x => holds x b := by
    intro s b
    show (at? l).bind _ = _
    rw [hl, Option.bind_some, Entries.holds_index]
  refine ⟨fun s _ => ?_, fun _ _ _ => trivial, fun s v _ => ?_, fun s v q _ hq => ?_,
    fun s _ => ⟨l, [.name name], i, rfl, hl, hcheck⟩⟩
  · obtain ⟨x, hx⟩ := hi (moves s)
    refine ⟨⟨slot.type, value x⟩, ?_, fun hbase => ?_⟩
    · rw [hview, hx, Option.bind_some, hholds]
    · have hstarts : (Layout.moves holds set at? moves start xs checks).view start [l, .name name] =
          some ⟨slot.type, value x⟩ := hbase
      rw [hview, hstart] at hstarts
      have hsame : some (Held.mk slot.type (value a)) = some ⟨slot.type, value x⟩ := by
        rw [← hholds a, ← hstarts]
        show _ = (xs[i]?).bind _
        rw [ha]
        rfl
      rw [hget]
      exact (Option.some.inj hsame).symm
  · obtain ⟨x, hx⟩ := hi (moves s)
    rw [hview, hset, moved_append, List.getElem?_modify_eq, hx]
    show holds (set (toMove v) x) [.name name] = _
    rw [hholds, hvalue]
  · cases q with
    | nil => rfl
    | cons l' b =>
        show (at? l').bind _ = (at? l').bind _
        cases hl' : at? l' with
        | none => rfl
        | some j =>
            rw [Option.bind_some, Option.bind_some, Entries.holds_index, Entries.holds_index, hset,
              moved_append]
            by_cases hij : i = j
            · subst hij
              have hb : b ≠ [.name name] := by
                rintro rfl
                exact hq (by rw [hat l' l i hl' hl])
              rw [List.getElem?_modify_eq]
              cases (moved set (moves s) xs)[i]? with
              | none => rfl
              | some x => exact hframe _ x b hb
            · rw [List.getElem?_modify_ne _ _ hij]

end

/-! ## Attorneys -/

namespace ChangeAttorneys

/-- The one field of an attorney that a move changes. -/
def entryChecks : Checks
  | [.name "status"] => some (some .chosen)
  | _ => none

def layout (d : Document) : Layout ChangeAttorneys :=
  .moves Attorney.holds (fun v a => { a with status := v }) Label.index? moves ⟨[]⟩ d.attorneys
    entryChecks

theorem fits (d : Document) :
    (script d).Fits ((layout d).below [.name "attorneys"]) True (fun _ => True) (fun _ => True) [] := by
  refine fits_below (by decide) ⟨fun i => ?_, trivial⟩
  dsimp only
  cases ha : d.attorneys[i]? with
  | none => exact trivial
  | some a =>
      unfold Script.Fits
      rw [show Place.ofKey "/status" = [.name "status"] by decide]
      refine ⟨Layout.reads_moves Label.isInjective_index? (l := .index i) rfl ha rfl (fun _ => rfl)
        (fun _ _ => rfl) (fun _ => rfl) (fun _ _ => rfl) (fun v x b hb => ?_) rfl,
        ⟨trivial, ⟨_, rfl⟩⟩, trivial⟩
      show Attorney.holds _ b = Attorney.holds x b
      unfold Attorney.holds
      split <;> first | rfl | exact absurd rfl hb

end ChangeAttorneys

namespace AttorneyDecisions

/-- The one field of an attorney that an exception changes. -/
def entryChecks : Checks
  | [.name "cannotMakeJointDecisions"] => some none
  | _ => none

/-- Attorneys are named by uid. -/
def layout (d : Document) : Layout AttorneyDecisions :=
  .moves Attorney.holds (fun v a => { a with cannotMakeJointDecisions := v }) d.attorneyAt? exceptions
    ⟨[]⟩ d.attorneys entryChecks

theorem fits (d : Document) :
    (script d).Fits ((layout d).below [.name "attorneys"]) True (fun _ => True) (fun _ => True) [] := by
  refine fits_below (by decide) ⟨fun uid => ?_, trivial⟩
  dsimp only
  cases hi : d.attorneyIndex? uid with
  | none => exact trivial
  | some i =>
      obtain ⟨a, ha, _⟩ := Document.uid_of_attorneyIndex? hi
      unfold Script.Fits
      rw [show Place.ofKey "/cannotMakeJointDecisions" = [.name "cannotMakeJointDecisions"] by decide]
      have hshown : d.attorneys[i]?.any (·.cannotMakeJointDecisions) = a.cannotMakeJointDecisions := by
        rw [ha]
        rfl
      refine ⟨Layout.reads_moves d.isInjective_attorneyAt? (l := .name uid) hi ha rfl
        (fun _ => hshown) (fun _ _ => rfl) (fun _ => rfl) (fun _ _ => rfl)
        (fun v x b hb => ?_) rfl, ⟨trivial, ⟨_, rfl⟩⟩, trivial⟩
      show Attorney.holds _ b = Attorney.holds x b
      unfold Attorney.holds
      split <;> first | rfl | exact absurd rfl hb

end AttorneyDecisions

/-! ## Particulars -/

/-- A new status is shown as the status of the document. -/
def statusLayout (d : Document) : Layout Status :=
  .record (fun s => { d with status := s }.holds) d.status (Operation.statusChange.check? d d.decisions)

theorem statusScript_fits (d : Document) :
    statusScript.Fits (statusLayout d) True (fun _ => True) (fun _ => True) [] := by
  refine fits_field "status" (by decide) (fun _ => rfl) (fun _ _ => rfl) ?_ (fun _ => rfl) trivial
    trivial
  intro s v q hq
  show Document.holds _ q = Document.holds _ q
  unfold Document.holds
  split <;> first | rfl | exact absurd rfl hq

namespace AttorneyAccess

/-- The one field of an attorney that online access changes. -/
def entryChecks : Checks
  | [.name "email"] => some (some .notEmpty)
  | _ => none

/-- An address for online access is shown as the address of the attorney, who is named by uid. -/
def layout (d : Document) : Layout (Option (Nat × String)) :=
  .entries Attorney.holds (fun email a => { a with email := email }) (·.email) entryChecks
    d.attorneyAt? d.attorneys

theorem fits (d : Document) :
    (script d).Fits ((layout d).below [.name "attorneys"]) True (fun _ => True) (fun _ => True) [] := by
  refine fits_below (by decide) ⟨fun uid => ?_, trivial⟩
  dsimp only
  cases hi : d.attorneyIndex? uid with
  | none => exact trivial
  | some i =>
      obtain ⟨a, ha, _⟩ := Document.uid_of_attorneyIndex? hi
      dsimp only
      rw [ha]
      refine fits_choose_entry d.isInjective_attorneyAt? (l := .name uid) hi ha <|
        fits_field "email" (by decide) (fun _ => rfl) (fun _ _ => rfl) ?_ (fun _ => rfl) trivial trivial
      intro s v q hq
      show Attorney.holds _ q = Attorney.holds _ q
      unfold Attorney.holds
      split <;> first | rfl | exact absurd rfl hq

end AttorneyAccess

namespace CertificateProviderAccess

/-- An address for online access is shown as the address of the certificate provider. -/
def layout (d : Document) : Layout String :=
  .record
    (fun email =>
      { d with certificateProvider := { d.certificateProvider with email := email } }.holds)
    d.certificateProvider.email (Operation.certificateProviderAccessOnline.check? d d.decisions)

theorem fits (d : Document) :
    script.Fits (layout d) True (fun _ => True) (fun _ => True) [] := by
  unfold script Script.Fits
  rw [show Place.ofKey "/certificateProvider/email" =
    [.name "certificateProvider", .name "email"] by decide]
  refine ⟨⟨fun s _ => ⟨_, rfl, fun _ => rfl⟩, fun _ _ _ => trivial, fun _ _ _ => rfl,
    fun s v q _ hq => ?_, fun _ _ => rfl⟩, trivial, trivial⟩
  show Document.holds _ q = Document.holds _ q
  unfold Document.holds
  split <;> first | rfl | skip
  rename_i b
  show CertificateProvider.holds _ b = CertificateProvider.holds _ b
  unfold CertificateProvider.holds
  split <;> first | rfl | exact absurd rfl hq

end CertificateProviderAccess

namespace ConfirmIdentity

/-- A check is shown as far as it is known. -/
def holds (c : ConfirmIdentity) : Place → Option Held
  | [.name "type"] => some ⟨.maybeWord .identityCheckKind, c.kind⟩
  | [.name "checkedAt"] => some ⟨.time, c.checkedAt⟩
  | [.name "reference"] => some ⟨.text, c.reference⟩
  | _ => none

/-- At first what is on record is shown. -/
theorem holds_onRecord (party : CheckedParty) (d : Document) (p : Place) :
    (onRecord party d).holds p = IdentityCheck.holds (party.check? d) p := by
  unfold onRecord
  cases party.check? d with
  | none => rfl
  | some c =>
      unfold holds IdentityCheck.holds
      rfl

def layout (party : CheckedParty) (d : Document) : Layout ConfirmIdentity :=
  .record holds (onRecord party d) IdentityCheck.checks

theorem fits (party : CheckedParty) (d : Document) {top : Place}
    (htop : Place.ofKey party.path = top) :
    (script party d).Fits ((layout party d).below top) True (fun _ => True) (fun _ => True) [] := by
  -- Whether a field is needed makes no difference to its check.
  have hrule : ∀ b : Bool, ∀ check, ((if b = true then Rule.allows else .needs).checking check).check =
      some check := by
    intro b check
    cases b <;> rfl
  refine fits_below htop <|
    fits_field "type" (by decide) (fun _ => rfl) (fun _ _ => rfl) ?_
      (fun _ => congrArg some (hrule _ _).symm) trivial <|
    fits_field "checkedAt" (by decide) (fun _ => rfl) (fun _ _ => rfl) ?_
      (fun _ => congrArg some (hrule _ _).symm) (by simp) <|
    fits_field "reference" (by decide) (fun _ => rfl) (fun _ _ => rfl) ?_ (fun _ => rfl) (by simp)
    trivial
  all_goals
    intro s v q hq
    show holds _ q = holds s q
    unfold holds
    split <;> first | rfl | exact absurd rfl hq

end ConfirmIdentity

namespace SeverRestrictions

/-- The wording that is left is shown as the restrictions of the document. -/
def layout (d : Document) : Layout String :=
  .record (fun wording => { d with restrictions := wording }.holds) d.restrictions
    (Operation.severRestrictions.check? d d.decisions)

theorem fits (d : Document) :
    script.Fits (layout d) True (fun _ => True) (fun _ => True) [] := by
  refine fits_field "restrictionsAndConditions" (by decide) (fun _ => rfl) (fun _ _ => rfl) ?_
    (fun _ => rfl) trivial trivial
  intro s v q hq
  show Document.holds _ q = Document.holds _ q
  unfold Document.holds
  split <;> first | rfl | exact absurd rfl hq

end SeverRestrictions

end PowerOfAttorney
