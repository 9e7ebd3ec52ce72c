import Mathlib.Algebra.Group.Nat.Defs
import Mathlib.Algebra.GroupWithZero.Nat
import Mathlib.Tactic.ByContra
import PowerOfAttorney.Number.Basic

/-!
# `PowerOfAttorney.Proofs.Number.Rounding` — numbers that are the same as doubles

Two signed whole numbers are compared exactly and all other pairs of numbers as doubles, so which comparison
is made depends on the pair. To be the same as doubles is an equivalence, and the exact comparison cuts it
finer in one place only: two different whole numbers that round to one double are told apart when they
meet, though each of them is the same as that double. It takes numbers beyond `2 ^ 53` for that.

## Contents
- **Doubles.** `Binary64.canonical`, and `Binary64.same_iff`.
- **Whole numbers.** `Binary64.ofNat_eq` and `Binary64.ofInt_inj`: up to `2 ^ 53` they are doubles.
- **Numbers.** `Number.rounded` and `Number.Blurs`: what is the same up to rounding and still told apart;
  `Number.same_iff` and `Number.not_blurs_of_isExact`.
-/

namespace PowerOfAttorney

/-! ## Doubles -/

namespace Binary64

/-- A double with its sign, unless it is zero. -/
def canonical (x : Binary64) : Binary64 :=
  if x.isZero then zero false else x

/-- Doubles are the same if they are but for the sign of zero. -/
theorem same_iff {x y : Binary64} : x.same y = true ↔ x.canonical = y.canonical := by
  unfold same canonical
  by_cases hx : x.isZero = true
  · by_cases hy : y.isZero = true
    · rw [if_pos hx, if_pos hy, hx, hy]
      exact ⟨fun _ => rfl, fun _ => rfl⟩
    · rw [if_pos hx, if_neg hy, Bool.eq_false_iff.mpr hy, Bool.and_false, Bool.false_or, beq_iff_eq]
      constructor
      · rintro rfl
        exact absurd hx hy
      · rintro rfl
        exact absurd rfl hy
  · rw [if_neg hx, Bool.eq_false_iff.mpr hx, Bool.false_and, Bool.false_or, beq_iff_eq]
    constructor
    · rintro rfl
      rw [if_neg hx]
    · intro h
      by_cases hy : y.isZero = true
      · rw [if_pos hy] at h
        rw [h] at hx
        exact absurd rfl hx
      · rw [if_neg hy] at h
        exact h

end Binary64

/-! ## Whole numbers -/

namespace Binary64

theorem divideToEven_one (n : Nat) : divideToEven n 1 = n := by
  unfold divideToEven
  rw [Nat.div_one, Nat.mod_one]
  rfl

theorem shifted_one (n k : Nat) : shifted n 1 k = (n * 2 ^ k, 1) := by
  unfold shifted
  rw [Int.toNat_natCast, Int.toNat_eq_zero.mpr (by omega)]
  rfl

/-- A whole number below `2 ^ 53` is shifted up to 53 binary digits. -/
theorem shift_bounds {n : Nat} (hpos : n ≠ 0) (h : n < 2 * normal) :
    n.log2 ≤ 52 ∧ normal ≤ n * 2 ^ (52 - n.log2) ∧ n * 2 ^ (52 - n.log2) < 2 * normal := by
  have hlog : n.log2 ≤ 52 := Nat.lt_succ_iff.mp ((Nat.log2_lt hpos).mpr h)
  refine ⟨hlog, ?_, ?_⟩
  · calc normal = 2 ^ n.log2 * 2 ^ (52 - n.log2) := by
          rw [← Nat.pow_add, Nat.add_sub_cancel' hlog]
          rfl
      _ ≤ n * 2 ^ (52 - n.log2) := Nat.mul_le_mul_right _ (Nat.log2_self_le hpos)
  · calc n * 2 ^ (52 - n.log2) < 2 ^ (n.log2 + 1) * 2 ^ (52 - n.log2) :=
          Nat.mul_lt_mul_of_pos_right Nat.lt_log2_self (Nat.pow_pos (by decide))
      _ = 2 * normal := by
          rw [← Nat.pow_add, show n.log2 + 1 + (52 - n.log2) = 53 by omega]
          rfl

theorem exponentOf_one {n : Nat} (hpos : n ≠ 0) (h : n < 2 * normal) :
    exponentOf n 1 = -((52 - n.log2 : Nat) : Int) := by
  obtain ⟨hlog, hlow, _⟩ := shift_bounds hpos h
  have hguess : (n.log2 : Int) - (Nat.log2 1 : Nat) - 52 = -((52 - n.log2 : Nat) : Int) := by
    rw [show Nat.log2 1 = 0 by decide]
    omega
  unfold exponentOf
  rw [hguess]
  dsimp only
  rw [Int.neg_neg, shifted_one]
  dsimp only
  rw [Nat.div_one, if_neg (Nat.not_lt.mpr hlow)]
  omega

/-- **A whole number below `2 ^ 53` is a double**: its significand is the number, shifted. -/
theorem ofNat_eq {n : Nat} (hpos : n ≠ 0) (h : n < 2 * normal) :
    ofNat n = ⟨false, n * 2 ^ (52 - n.log2), -((52 - n.log2 : Nat) : Int)⟩ := by
  obtain ⟨_, _, hhigh⟩ := shift_bounds hpos h
  unfold ofNat nearest?
  rw [if_neg hpos, exponentOf_one hpos h]
  dsimp only
  rw [Int.neg_neg, shifted_one]
  dsimp only
  rw [divideToEven_one, if_neg (Nat.ne_of_lt hhigh)]
  dsimp only
  rw [if_neg (by omega)]
  rfl

/-- The value of a double in units of `2 ^ -52`, without its sign; only for those that have whole units. -/
def units (x : Binary64) : Nat :=
  x.significand * 2 ^ (x.exponent + 52).toNat

theorem units_canonical (x : Binary64) : x.canonical.units = x.units := by
  unfold canonical
  by_cases hx : x.isZero = true
  · have hzero : x.significand = 0 := by simpa [isZero] using hx
    rw [if_pos hx, units, units, hzero, zero, Nat.zero_mul, Nat.zero_mul]
  · rw [if_neg hx]

/-- Up to `2 ^ 53` the nearest double has the value of the number. -/
theorem units_ofNat {n : Nat} (h : n ≤ 2 * normal) : (ofNat n).units = n * 2 ^ 52 := by
  by_cases hzero : n = 0
  · subst hzero
    rfl
  · rcases Nat.lt_or_eq_of_le h with hlt | rfl
    · obtain ⟨hlog, _, _⟩ := shift_bounds hzero hlt
      rw [ofNat_eq hzero hlt, units]
      dsimp only
      rw [show (-((52 - n.log2 : Nat) : Int) + 52).toNat = n.log2 by omega, Nat.mul_assoc, ← Nat.pow_add,
        Nat.sub_add_cancel hlog]
    · decide +kernel

/-- **Different whole numbers up to `2 ^ 53` round to different doubles.** -/
theorem ofInt_inj {m n : Int} (hm : m.natAbs ≤ 2 * normal) (hn : n.natAbs ≤ 2 * normal)
    (h : (ofInt m).canonical = (ofInt n).canonical) : m = n := by
  have hunits : ∀ k : Int, k.natAbs ≤ 2 * normal → (ofInt k).canonical.units = k.natAbs * 2 ^ 52 := by
    intro k hk
    rw [units_canonical]
    exact units_ofNat hk
  have habs : m.natAbs = n.natAbs := by
    refine Nat.eq_of_mul_eq_mul_right (Nat.pow_pos (by decide) : 0 < 2 ^ 52) ?_
    rw [← hunits m hm, ← hunits n hn, h]
  by_cases hzero : m = 0
  · omega
  · have hsigned : ∀ k : Int, k.natAbs ≤ 2 * normal → k ≠ 0 →
        (ofInt k).canonical.negative = decide (k < 0) := by
      intro k hk hne
      have hnot : ¬ (ofInt k).isZero = true := by
        intro hk0
        have hu := hunits k hk
        unfold canonical at hu
        rw [if_pos hk0] at hu
        have hzero : 0 = k.natAbs * 2 ^ 52 := hu
        omega
      unfold canonical
      rw [if_neg hnot]
      rfl
    have hsign : decide (m < 0) = decide (n < 0) := by
      rw [← hsigned m hm hzero, ← hsigned n hn (by omega), h]
    rw [decide_eq_decide] at hsign
    omega

end Binary64

/-! ## Numbers -/

namespace Number

/-- The double that a number is or rounds to, with one zero. -/
def rounded (x : Number) : Binary64 :=
  x.toBinary64.canonical

/-- Two numbers are different signed whole numbers that round to one double. -/
def Blurs : Number → Number → Prop
  | .int m, .int n => IsSigned m ∧ IsSigned n ∧ m ≠ n ∧ (rounded (.int m) = rounded (.int n))
  | _, _ => False

theorem not_blurs_self (x : Number) : ¬ x.Blurs x := by
  cases x with
  | int n => exact fun h => h.2.2.1 rfl
  | real y => exact id

theorem Blurs.symm {x y : Number} (h : x.Blurs y) : y.Blurs x := by
  cases x with
  | real _ => exact h.elim
  | int m =>
      cases y with
      | real _ => exact h.elim
      | int n => exact ⟨h.2.1, h.1, h.2.2.1.symm, h.2.2.2.symm⟩

/-- **Numbers are the same if they round to one double and are not told apart nevertheless.** -/
theorem same_iff {x y : Number} : x.same y = true ↔ x.rounded = y.rounded ∧ ¬ x.Blurs y := by
  have hdoubles : x.toBinary64.same y.toBinary64 = true ↔ x.rounded = y.rounded := Binary64.same_iff
  cases x with
  | real a =>
      exact hdoubles.trans (and_iff_left id).symm
  | int m =>
      cases y with
      | real b => exact hdoubles.trans (and_iff_left id).symm
      | int n =>
          show (if IsSigned m ∧ IsSigned n then m == n else (Binary64.ofInt m).same (.ofInt n)) = true ↔ _
          by_cases hsigned : IsSigned m ∧ IsSigned n
          · rw [if_pos hsigned, beq_iff_eq]
            constructor
            · rintro rfl
              exact ⟨rfl, not_blurs_self _⟩
            · rintro ⟨hrounded, hblurs⟩
              by_contra hne
              exact hblurs ⟨hsigned.1, hsigned.2, hne, hrounded⟩
          · rw [if_neg hsigned]
            refine hdoubles.trans (and_iff_left ?_).symm
            exact fun h => hsigned ⟨h.1, h.2.1⟩

/-- A signed whole number is no more than `2 ^ 53`. -/
def IsExact : Number → Prop
  | .int n => IsSigned n → n.natAbs ≤ 2 * Binary64.normal
  | .real _ => True

theorem not_blurs_of_isExact {x y : Number} (hx : x.IsExact) (hy : y.IsExact) : ¬ x.Blurs y := by
  intro h
  cases x with
  | real _ => exact h
  | int m =>
      cases y with
      | real _ => exact h
      | int n =>
          obtain ⟨hm, hn, hne, hrounded⟩ := h
          exact hne (Binary64.ofInt_inj (hx hm) (hy hn) hrounded)

end Number

end PowerOfAttorney
