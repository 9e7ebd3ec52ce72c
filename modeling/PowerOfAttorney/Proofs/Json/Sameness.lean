import Mathlib.Data.List.Perm.Subperm
import Mathlib.Data.List.Sort
import Mathlib.Tactic.Tauto
import PowerOfAttorney.Change.Redundancy
import PowerOfAttorney.Proofs.Json.Record
import PowerOfAttorney.Proofs.Number.Rounding

/-!
# `PowerOfAttorney.Proofs.Json.Sameness` — when two values leave a field alike

Values are compared up to the spelling of their numbers, at any depth of lists and objects. As far as the
numbers are compared as doubles this is an equivalence. What two values can have in its way is a place
where both have a whole number, not the same one, and yet a third value is the same as either.

## Contents
- **Names.** `Dictionary.names_eq`: names that are as many, and found in another dictionary, are its names.
- **Values.** `Json.rounded` and `Json.Blurs`, through lists and objects; `Json.same_iff` puts them together.
- **Objects.** `Json.same_obj_iff`: members are found by name.
- **Fields.** `Change.sameEffect_laws`, and `Change.not_equivalence_sameEffect` beyond `2 ^ 53`.
-/

namespace PowerOfAttorney

/-! ## Names -/

namespace Dictionary

variable {α : Type}

/-- What is listed under a name is found by it. -/
theorem get?_of_mem (d : Dictionary α) {m : String × α} (hm : m ∈ d.entries) : d.get? m.1 = some m.2 := by
  have hsorted := d.sorted
  unfold get?
  generalize d.entries = entries at hm hsorted
  induction entries with
  | nil => exact absurd hm List.not_mem_nil
  | cons head rest ih =>
    obtain ⟨hhead, hrest⟩ := List.pairwise_cons.mp hsorted
    rw [List.lookup_cons]
    rcases List.mem_cons.mp hm with rfl | hm
    · rw [beq_self_eq_true]
    · rw [beq_eq_false_iff_ne.mpr (String.ne_of_lt (hhead m hm)).symm]
      exact ih hm hrest

theorem mem_of_get? (d : Dictionary α) {name : String} {x : α} (h : d.get? name = some x) :
    (name, x) ∈ d.entries :=
  mem_of_lookup h

/-- Dictionaries have the same names if there are as many and each of the one is found in the other. -/
theorem names_eq {β : Type} (d : Dictionary α) (e : Dictionary β)
    (hlength : d.entries.length = e.entries.length)
    (h : ∀ m ∈ d.entries, ∃ y, e.get? m.1 = some y) :
    d.entries.map (·.1) = e.entries.map (·.1) := by
  have hsorted : ∀ {γ : Type} (d : Dictionary γ), (d.entries.map (·.1)).Pairwise (· < ·) :=
    fun d => List.pairwise_map.mpr d.sorted
  have hsubset : d.entries.map (·.1) ⊆ e.entries.map (·.1) := by
    intro name hname
    obtain ⟨m, hm, rfl⟩ := List.mem_map.mp hname
    obtain ⟨y, hy⟩ := h m hm
    exact List.mem_map.mpr ⟨_, e.mem_of_get? hy, rfl⟩
  have hnodup : (d.entries.map (·.1)).Nodup := (hsorted d).imp String.ne_of_lt
  have hperm : (d.entries.map (·.1)).Perm (e.entries.map (·.1)) := by
    refine (List.subperm_of_subset hnodup hsubset).perm_of_length_le ?_
    rw [List.length_map, List.length_map, hlength]
  exact hperm.eq_of_pairwise (fun a b _ _ hab hba => absurd hab (String.lt_asymm hba)) (hsorted d) (hsorted e)

end Dictionary

/-! ## Values -/

namespace Json

mutual

/-- A value with each number as a double. -/
def rounded : Json → Json
  | .num x => .num (.real x.rounded)
  | .arr items => .arr (roundedItems items)
  | .obj members => .obj (roundedMembers members)
  | j => j

/-- The items of a list, each with its numbers as doubles. -/
def roundedItems : List Json → List Json
  | [] => []
  | x :: xs => rounded x :: roundedItems xs

/-- The members of an object, each with its numbers as doubles. -/
def roundedMembers : List (String × Json) → List (String × Json)
  | [] => []
  | (k, x) :: xs => (k, rounded x) :: roundedMembers xs

end

mutual

/-- At some place of both, two values have different signed whole numbers that round to one double. -/
def Blurs : Json → Json → Prop
  | .num x, .num y => x.Blurs y
  | .arr xs, .arr ys => BlursItems xs ys
  | .obj xs, .obj ys => BlursMembers xs ys
  | _, _ => False

/-- So have two lists, in the items at one index. -/
def BlursItems : List Json → List Json → Prop
  | x :: xs, y :: ys => Blurs x y ∨ BlursItems xs ys
  | _, _ => False

/-- So have two objects, in the members at one index. -/
def BlursMembers : List (String × Json) → List (String × Json) → Prop
  | (_, x) :: xs, (_, y) :: ys => Blurs x y ∨ BlursMembers xs ys
  | _, _ => False

end

mutual

theorem not_blurs_self : ∀ j : Json, ¬ j.Blurs j
  | .null | .bool _ | .str _ => id
  | .num x => x.not_blurs_self
  | .arr xs => not_blursItems_self xs
  | .obj xs => not_blursMembers_self xs

theorem not_blursItems_self : ∀ xs : List Json, ¬ BlursItems xs xs
  | [] => id
  | x :: xs => fun h => h.elim (not_blurs_self x) (not_blursItems_self xs)

theorem not_blursMembers_self : ∀ xs : List (String × Json), ¬ BlursMembers xs xs
  | [] => id
  | (_, x) :: xs => fun h => h.elim (not_blurs_self x) (not_blursMembers_self xs)

end

mutual

theorem Blurs.symm : ∀ {a b : Json}, a.Blurs b → b.Blurs a
  | .num _, .num _, h => Number.Blurs.symm h
  | .arr _, .arr _, h => blursItems_symm h
  | .obj _, .obj _, h => blursMembers_symm h

theorem blursItems_symm : ∀ {xs ys : List Json}, BlursItems xs ys → BlursItems ys xs
  | _ :: _, _ :: _, h => h.imp Blurs.symm blursItems_symm

theorem blursMembers_symm :
    ∀ {xs ys : List (String × Json)}, BlursMembers xs ys → BlursMembers ys xs
  | (_, _) :: _, (_, _) :: _, h => h.imp Blurs.symm blursMembers_symm

end

mutual

/-- **Values are the same if they are as doubles and are not told apart nevertheless.** -/
theorem same_iff : ∀ {a b : Json}, a.same b = true ↔ a.rounded = b.rounded ∧ ¬ a.Blurs b
  | .num x, b => by
      cases b with
      | num y =>
          show x.same y = true ↔ num (.real x.rounded) = num (.real y.rounded) ∧ ¬ x.Blurs y
          rw [Number.same_iff, num.injEq, Number.real.injEq]
      | _ => exact ⟨nofun, fun h => absurd h.1 nofun⟩
  | .arr xs, b => by
      cases b with
      | arr ys =>
          show sameItems xs ys = true ↔
            arr (roundedItems xs) = arr (roundedItems ys) ∧ ¬ BlursItems xs ys
          rw [sameItems_iff, arr.injEq]
      | _ => exact ⟨nofun, fun h => absurd h.1 nofun⟩
  | .obj xs, b => by
      cases b with
      | obj ys =>
          show sameMembers xs ys = true ↔
            obj (roundedMembers xs) = obj (roundedMembers ys) ∧ ¬ BlursMembers xs ys
          rw [sameMembers_iff, obj.injEq]
      | _ => exact ⟨nofun, fun h => absurd h.1 nofun⟩
  | .null, b => by
      cases b with
      | null => exact ⟨fun _ => ⟨rfl, id⟩, fun _ => rfl⟩
      | _ => exact ⟨nofun, fun h => absurd h.1 nofun⟩
  | .bool x, b => by
      cases b with
      | bool y =>
          show (x == y) = true ↔ bool x = bool y ∧ ¬ False
          rw [beq_iff_eq, bool.injEq, and_iff_left not_false]
      | _ => exact ⟨nofun, fun h => absurd h.1 nofun⟩
  | .str s, b => by
      cases b with
      | str t =>
          show (s == t) = true ↔ str s = str t ∧ ¬ False
          rw [beq_iff_eq, str.injEq, and_iff_left not_false]
      | _ => exact ⟨nofun, fun h => absurd h.1 nofun⟩

theorem sameItems_iff : ∀ {xs ys : List Json},
    sameItems xs ys = true ↔ roundedItems xs = roundedItems ys ∧ ¬ BlursItems xs ys
  | [], [] => ⟨fun _ => ⟨rfl, id⟩, fun _ => rfl⟩
  | [], _ :: _ => ⟨nofun, fun h => absurd h.1 nofun⟩
  | _ :: _, [] => ⟨nofun, fun h => absurd h.1 nofun⟩
  | x :: xs, y :: ys => by
      show (same x y && sameItems xs ys) = true ↔
        rounded x :: roundedItems xs = rounded y :: roundedItems ys ∧ ¬ (Blurs x y ∨ BlursItems xs ys)
      rw [Bool.and_eq_true, same_iff, sameItems_iff, List.cons.injEq, not_or, and_and_and_comm]

theorem sameMembers_iff : ∀ {xs ys : List (String × Json)},
    sameMembers xs ys = true ↔ roundedMembers xs = roundedMembers ys ∧ ¬ BlursMembers xs ys
  | [], [] => ⟨fun _ => ⟨rfl, id⟩, fun _ => rfl⟩
  | [], _ :: _ => ⟨nofun, fun h => absurd h.1 nofun⟩
  | _ :: _, [] => ⟨nofun, fun h => absurd h.1 nofun⟩
  | (k, x) :: xs, (l, y) :: ys => by
      show (k == l && same x y && sameMembers xs ys) = true ↔
        (k, rounded x) :: roundedMembers xs = (l, rounded y) :: roundedMembers ys ∧
          ¬ (Blurs x y ∨ BlursMembers xs ys)
      rw [Bool.and_eq_true, Bool.and_eq_true, beq_iff_eq, same_iff, sameMembers_iff, List.cons.injEq,
        Prod.mk.injEq, not_or]
      tauto

end

mutual

/-- Every signed whole number in a value is no more than `2 ^ 53`. -/
def IsExact : Json → Prop
  | .num x => x.IsExact
  | .arr items => IsExactItems items
  | .obj members => IsExactMembers members
  | _ => True

def IsExactItems : List Json → Prop
  | [] => True
  | x :: xs => IsExact x ∧ IsExactItems xs

def IsExactMembers : List (String × Json) → Prop
  | [] => True
  | (_, x) :: xs => IsExact x ∧ IsExactMembers xs

end

mutual

/-- **Whole numbers up to `2 ^ 53` are not in the way.** -/
theorem not_blurs_of_isExact : ∀ {a b : Json}, a.IsExact → b.IsExact → ¬ a.Blurs b
  | .num _, .num _, ha, hb, h => Number.not_blurs_of_isExact ha hb h
  | .arr _, .arr _, ha, hb, h => not_blursItems_of_isExact ha hb h
  | .obj _, .obj _, ha, hb, h => not_blursMembers_of_isExact ha hb h

theorem not_blursItems_of_isExact :
    ∀ {xs ys : List Json}, IsExactItems xs → IsExactItems ys → ¬ BlursItems xs ys
  | _ :: _, _ :: _, hxs, hys, h =>
    h.elim (not_blurs_of_isExact hxs.1 hys.1) (not_blursItems_of_isExact hxs.2 hys.2)

theorem not_blursMembers_of_isExact :
    ∀ {xs ys : List (String × Json)}, IsExactMembers xs → IsExactMembers ys → ¬ BlursMembers xs ys
  | (_, _) :: _, (_, _) :: _, hxs, hys, h =>
    h.elim (not_blurs_of_isExact hxs.1 hys.1) (not_blursMembers_of_isExact hxs.2 hys.2)

end

/-! ## Objects -/

/-- Members are compared in pairs. -/
theorem sameMembers_iff_forall₂ : ∀ {xs ys : List (String × Json)}, sameMembers xs ys = true ↔
    List.Forall₂ (fun m m' => m.1 = m'.1 ∧ m.2.same m'.2 = true) xs ys
  | [], [] => ⟨fun _ => .nil, fun _ => rfl⟩
  | [], _ :: _ => ⟨nofun, nofun⟩
  | _ :: _, [] => ⟨nofun, nofun⟩
  | (k, x) :: xs, (l, y) :: ys => by
      show (k == l && same x y && sameMembers xs ys) = true ↔ _
      rw [Bool.and_eq_true, Bool.and_eq_true, beq_iff_eq, sameMembers_iff_forall₂,
        List.forall₂_cons]

/-- Objects are the same if they have as many members and each of the one is found by its name in the
    other, with the same value. -/
theorem same_obj_iff (d e : Dictionary Json) :
    (obj d.entries).same (obj e.entries) = true ↔
      d.entries.length = e.entries.length ∧
        ∀ m ∈ d.entries, ∃ y, e.get? m.1 = some y ∧ m.2.same y = true := by
  show sameMembers d.entries e.entries = true ↔ _
  rw [sameMembers_iff_forall₂, List.forall₂_iff_get]
  constructor
  · rintro ⟨hlength, hsame⟩
    refine ⟨hlength, fun m hm => ?_⟩
    obtain ⟨i, hi, rfl⟩ := List.getElem_of_mem hm
    obtain ⟨hname, hvalue⟩ := hsame i hi (hlength ▸ hi)
    refine ⟨_, ?_, hvalue⟩
    have hmem := e.get?_of_mem (List.get_mem e.entries ⟨i, hlength ▸ hi⟩)
    rw [← hname] at hmem
    exact hmem
  · rintro ⟨hlength, hfound⟩
    refine ⟨hlength, fun i hi hi' => ?_⟩
    have hnames := d.names_eq e hlength fun m hm => (hfound m hm).imp fun y hy => hy.1
    have hname : (d.entries.get ⟨i, hi⟩).1 = (e.entries.get ⟨i, hi'⟩).1 := by
      have hat := congrArg (·[i]?) hnames
      simpa [hi, hi'] using hat
    obtain ⟨y, hy, hvalue⟩ := hfound _ (List.get_mem d.entries ⟨i, hi⟩)
    rw [hname, e.get?_of_mem (List.get_mem e.entries ⟨i, hi'⟩)] at hy
    obtain rfl := Option.some.inj hy
    exact ⟨hname, hvalue⟩

/-! ## Fields -/

/-- What a value leaves a field at, with its numbers as doubles. -/
def settled (j : Json) : Json :=
  if j.isBlank then .null else j.rounded

theorem isBlank_rounded (j : Json) : j.rounded.isBlank = j.isBlank := by
  cases j <;> rfl

theorem isBlank_settled (j : Json) : j.settled.isBlank = j.isBlank := by
  unfold settled
  by_cases h : j.isBlank = true
  · rw [if_pos h, h]
    rfl
  · rw [if_neg h, isBlank_rounded]

theorem not_blurs_of_isBlank {a b : Json} (h : a.isBlank = true) : ¬ a.Blurs b := by
  cases a with
  | null => exact id
  | str s => exact id
  | bool x => exact absurd h Bool.false_ne_true
  | num x => exact absurd h Bool.false_ne_true
  | arr items => exact absurd h Bool.false_ne_true
  | obj members => exact absurd h Bool.false_ne_true

end Json

namespace Change

open Json

/-- **Values leave a field alike if they do as doubles and are not told apart nevertheless.** -/
theorem sameEffect_iff {a b : Json} : sameEffect a b = true ↔ a.settled = b.settled ∧ ¬ a.Blurs b := by
  unfold sameEffect
  rw [Bool.or_eq_true, Bool.and_eq_true, same_iff]
  by_cases hblank : a.isBlank = b.isBlank
  · by_cases hb : b.isBlank = true
    · have ha : a.isBlank = true := hblank.trans hb
      unfold settled
      rw [if_pos ha, if_pos hb]
      exact ⟨fun _ => ⟨rfl, not_blurs_of_isBlank ha⟩, fun _ => .inl ⟨ha, hb⟩⟩
    · have ha : ¬ a.isBlank = true := hblank ▸ hb
      unfold settled
      rw [if_neg ha, if_neg hb, or_iff_right fun h => hb h.2]
  · constructor
    · rintro (⟨ha, hb⟩ | ⟨hrounded, _⟩)
      · exact absurd (ha.trans hb.symm) hblank
      · rw [← isBlank_rounded, ← isBlank_rounded b, hrounded] at hblank
        exact absurd rfl hblank
    · rintro ⟨hsettled, _⟩
      rw [← isBlank_settled, ← isBlank_settled b, hsettled] at hblank
      exact absurd rfl hblank

theorem sameEffect_self (a : Json) : sameEffect a a = true :=
  sameEffect_iff.mpr ⟨rfl, not_blurs_self a⟩

theorem sameEffect_symm {a b : Json} (h : sameEffect a b = true) : sameEffect b a = true := by
  obtain ⟨hsettled, hblurs⟩ := sameEffect_iff.mp h
  exact sameEffect_iff.mpr ⟨hsettled.symm, fun hba => hblurs hba.symm⟩

/-- **Leaving a field alike is reflexive and symmetric, and transitive but for whole numbers beyond
    `2 ^ 53`.** Of two values that are like a third, only those are told apart that have, at one place, two
    signed whole numbers with one double between them. -/
theorem sameEffect_laws (a b c : Json) :
    sameEffect a a = true ∧ sameEffect a b = sameEffect b a ∧
      (sameEffect a b = true → sameEffect b c = true →
        (sameEffect a c = true ↔ ¬ a.Blurs c) ∧ (a.IsExact → c.IsExact → sameEffect a c = true)) := by
  refine ⟨sameEffect_self a, Bool.eq_iff_iff.mpr ⟨sameEffect_symm, sameEffect_symm⟩, fun hab hbc => ?_⟩
  have hac : a.settled = c.settled := (sameEffect_iff.mp hab).1.trans (sameEffect_iff.mp hbc).1
  refine ⟨sameEffect_iff.trans (and_iff_right hac), fun ha hc => ?_⟩
  exact sameEffect_iff.mpr ⟨hac, not_blurs_of_isExact ha hc⟩

/-- Beyond the signed numbers all comparisons are of doubles, inside of lists and objects as well. -/
theorem sameEffect_laws_unsigned :
    let a : Json := .obj [("n", .arr [.num (.int 9223372036854775808)])]
    let b : Json := .obj [("n", .arr [.num (.real (.ofNat 9223372036854775808))])]
    let c : Json := .obj [("n", .arr [.num (.int 9223372036854775809)])]
    sameEffect a b = true ∧ sameEffect b c = true ∧ a.IsExact ∧ c.IsExact ∧ sameEffect a c = true := by
  intro a b c
  have hab : sameEffect a b = true := by decide +kernel
  have hbc : sameEffect b c = true := by decide +kernel
  -- No number that is not signed is in the way.
  have ha : a.IsExact := ⟨⟨fun h => absurd h (by decide), trivial⟩, trivial⟩
  have hc : c.IsExact := ⟨⟨fun h => absurd h (by decide), trivial⟩, trivial⟩
  exact ⟨hab, hbc, ha, hc, ((sameEffect_laws a b c).2.2 hab hbc).2 ha hc⟩

/-- **Leaving a field alike is no equivalence**: `2 ^ 53` and `2 ^ 53 + 1` are both the same as one double and
    not the same. -/
theorem not_equivalence_sameEffect : ¬ Equivalence fun a b : Json => sameEffect a b = true := by
  intro h
  have hends : sameEffect (.num (.int 9007199254740992)) (.num (.int 9007199254740993)) = true := by
    refine h.trans (y := .num (.real (.ofNat 9007199254740992))) ?_ ?_
    · decide +kernel
    · decide +kernel
  exact absurd hends (by decide +kernel)

end Change

end PowerOfAttorney
