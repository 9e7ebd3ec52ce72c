import PowerOfAttorney.Proofs.Cbor.RoundTrip
import PowerOfAttorney.Register.Count

/-!
# `PowerOfAttorney.Proofs.Register.Count` — counts in words are the counts that fit

A step of a computation in words gives the integer that it stands for, or nothing. So a count in words is
the count of nanoseconds, and it can only be missing where that does not fit or a step on the way does
not. The second never happens: the steps stay between the epoch and the count, on whichever side of the
epoch it lies.

## Contents
- **Words.** `Count.mul?_eq_some_iff` and its like, each step in integers; `Count.total?_eq_some_iff` and
  `Count.toInt_split`.
- **Counts.** `Instant.count?_eq_some_iff` and `Instant.ofCount?_eq`.
- **CBOR.** `Instant.writeCount?_eq`, `Instant.readCount?_eq`, and `Instant.count_roundTrip`.
-/

namespace PowerOfAttorney

/-! ## Words -/

namespace Count

/-- An integer that fits is that of some word. -/
theorem exists_word {n : Int} (hlow : -9223372036854775808 ≤ n) (hhigh : n ≤ 9223372036854775807) :
    ∃ a : Int64, a.toInt = n :=
  ⟨Int64.ofInt n, Int64.toInt_ofInt_of_le (by omega) (by omega)⟩

/-- The integer of a word fits. -/
theorem fits (a : Int64) : -9223372036854775808 ≤ a.toInt ∧ a.toInt ≤ 9223372036854775807 := by
  have hlow := a.le_toInt
  have hhigh := a.toInt_lt
  omega

theorem ofInt?_eq_some_iff {n : Int} {a : Int64} : ofInt? n = some a ↔ a.toInt = n := by
  unfold ofInt?
  rw [Option.ite_none_right_eq_some, Option.some.injEq]
  constructor
  · rintro ⟨hfits, rfl⟩
    exact Int64.toInt_ofInt_of_le (by omega) (by omega)
  · rintro rfl
    exact ⟨fits a, Int64.ofInt_toInt a⟩

/-- An operation with a flag for what does not fit: what it yields is the word of the exact result. -/
theorem checked_eq_some_iff {overflows : Bool} {w c : Int64} {n : Int}
    (hfits : -9223372036854775808 ≤ n → n ≤ 9223372036854775807 → overflows = false)
    (hword : overflows = false → w.toInt = n) :
    (if overflows then none else some w) = some c ↔ c.toInt = n := by
  rw [Option.ite_none_left_eq_some, Option.some.injEq, Bool.not_eq_true]
  constructor
  · rintro ⟨hflag, rfl⟩
    exact hword hflag
  · rintro rfl
    have hflag := hfits (fits c).1 (fits c).2
    exact ⟨hflag, Int64.toInt_inj.mp (hword hflag)⟩

theorem mul?_eq_some_iff {a b c : Int64} : mul? a b = some c ↔ c.toInt = a.toInt * b.toInt := by
  refine checked_eq_some_iff (fun hlow hhigh => ?_) fun hflag => ?_
  · unfold BitVec.smulOverflow
    rw [Int64.toInt_toBitVec, Int64.toInt_toBitVec]
    simp
    omega
  · exact BitVec.toInt_mul_of_not_smulOverflow (Bool.eq_false_iff.mp hflag)

theorem add?_eq_some_iff {a b c : Int64} : add? a b = some c ↔ c.toInt = a.toInt + b.toInt := by
  refine checked_eq_some_iff (fun hlow hhigh => ?_) fun hflag => ?_
  · unfold BitVec.saddOverflow
    rw [Int64.toInt_toBitVec, Int64.toInt_toBitVec]
    simp
    omega
  · exact BitVec.toInt_add_of_not_saddOverflow (Bool.eq_false_iff.mp hflag)

theorem toInt_add {a b : Int64} (hlow : -9223372036854775808 ≤ a.toInt + b.toInt)
    (hhigh : a.toInt + b.toInt ≤ 9223372036854775807) : (a + b).toInt = a.toInt + b.toInt := by
  rw [Int64.toInt_add]
  exact Int.bmod_eq_of_le (by omega) (by omega)

theorem toInt_sub {a b : Int64} (hlow : -9223372036854775808 ≤ a.toInt - b.toInt)
    (hhigh : a.toInt - b.toInt ≤ 9223372036854775807) : (a - b).toInt = a.toInt - b.toInt := by
  rw [Int64.toInt_sub]
  exact Int.bmod_eq_of_le (by omega) (by omega)

/-- The nanoseconds of a second, as a word. -/
theorem toInt_second : (1000000000 : Int64).toInt = 1000000000 := by
  decide

/-- The total of seconds and nanoseconds is missed also where only the seconds do not fit. -/
theorem total?_eq_some_iff {seconds nanos n : Int64} :
    total? seconds nanos = some n ↔
      (-9223372036854775808 ≤ seconds.toInt * 1000000000 ∧ seconds.toInt * 1000000000 ≤ 9223372036854775807) ∧
        n.toInt = seconds.toInt * 1000000000 + nanos.toInt := by
  unfold total?
  simp only [Option.bind_eq_bind, Option.bind_eq_some_iff, mul?_eq_some_iff, add?_eq_some_iff, toInt_second]
  constructor
  · rintro ⟨a, ha, hn⟩
    rw [← ha]
    exact ⟨fits a, hn⟩
  · rintro ⟨⟨hlow, hhigh⟩, hn⟩
    obtain ⟨a, ha⟩ := exists_word hlow hhigh
    exact ⟨a, ha, ha ▸ hn⟩

/-- The two parts of a count are the quotient that is rounded down and the remainder that is never
    negative. -/
theorem toInt_split (n : Int64) :
    (split n).1.toInt = n.toInt / 1000000000 ∧ (split n).2.toInt = n.toInt % 1000000000 := by
  have hfits := fits n
  have hdiv : (n / 1000000000).toInt = n.toInt.tdiv 1000000000 := by
    rw [Int64.toInt_div_of_ne_right _ _ (by decide), toInt_second]
  have hmod : (n % 1000000000).toInt = n.toInt.tmod 1000000000 := by
    rw [Int64.toInt_mod, toInt_second]
  have hparts := Int.mul_tdiv_add_tmod n.toInt 1000000000
  have hbelow := Int.lt_tmod_of_pos n.toInt (show (0 : Int) < 1000000000 by decide)
  have habove := Int.tmod_lt_of_pos n.toInt (show (0 : Int) < 1000000000 by decide)
  rw [← hdiv, ← hmod] at hparts
  rw [← hmod] at hbelow habove
  unfold split
  split
  · rename_i hneg
    rw [Int64.lt_iff_toInt_lt, Int64.toInt_zero] at hneg
    have hone := Int64.toInt_one
    have hsecond := toInt_second
    dsimp only
    rw [toInt_sub, toInt_add]
    all_goals omega
  · rename_i hpos
    rw [Int64.lt_iff_toInt_lt, Int64.toInt_zero] at hpos
    dsimp only
    omega

end Count

/-! ## Counts -/

namespace Instant

open PowerOfAttorney.Count

/-- **The count in words is the count of nanoseconds**: no step on the way leaves the words unless the count
    itself does. -/
theorem count?_eq_some_iff {t : Instant} {n : Int64} : t.count? = some n ↔ n.toInt = t.nanoseconds := by
  have hvalid := t.valid
  have hfits := fits n
  have hone := Int64.toInt_one
  have hsecond := toInt_second
  have hnano : (Int64.ofNat t.nano).toInt = t.nano := Int64.toInt_ofNat_of_lt (by omega)
  have hback : (Int64.ofNat t.nano - 1000000000).toInt = t.nano - 1000000000 := by
    rw [toInt_sub, hnano, hsecond]
    all_goals omega
  have hnext : ∀ {a : Int64}, a.toInt < 0 → (a + 1).toInt = a.toInt + 1 := by
    intro a hneg
    have hrange := fits a
    rw [toInt_add, hone]
    all_goals omega
  have hneg : ∀ a : Int64, a < 0 ↔ a.toInt < 0 := by
    intro a
    rw [Int64.lt_iff_toInt_lt, Int64.toInt_zero]
  unfold count? nanoseconds
  simp only [Option.bind_eq_bind, Option.bind_eq_some_iff, ofInt?_eq_some_iff, hneg]
  constructor
  · rintro ⟨a, ha, h⟩
    split at h
    · rename_i hbefore
      rw [total?_eq_some_iff, hnext hbefore, hback] at h
      omega
    · rw [total?_eq_some_iff, hnano] at h
      omega
  · intro hn
    obtain ⟨a, ha⟩ := exists_word (n := t.second) (by omega) (by omega)
    refine ⟨a, ha, ?_⟩
    split
    · -- Counted from the second after, which fits: a leap second that only reaches into the range ends no
      -- minute.
      rename_i hbefore
      rw [total?_eq_some_iff, hnext hbefore, hback]
      omega
    · rw [total?_eq_some_iff, hnano]
      omega

/-- The seconds alone of the earliest count do not fit. -/
example : Count.mul? (-9223372037) 1000000000 = none ∧
    (ofNanoseconds (-9223372036854775808)).count? = some Int64.minValue := by
  decide

/-- Every word counts to an instant. -/
theorem ofCount?_eq (n : Int64) : ofCount? n = some (ofNanoseconds n.toInt) := by
  obtain ⟨hsecond, hnano⟩ := toInt_split n
  unfold ofCount? mk? Int64.toNatClampNeg
  rw [hsecond, hnano, dif_pos (by omega)]
  rfl

end Instant

/-! ## CBOR -/

/-- The whole numbers with a CBOR form are those of the words. -/
theorem Cbor.exists_int?_iff {n : Int} : (∃ bs, int? n = some bs) ↔ ∃ a : Int64, a.toInt = n := by
  unfold int?
  constructor
  · rintro ⟨bs, hbs⟩
    apply Count.exists_word
    all_goals
      by_contra hout
      rw [if_neg (by omega), if_neg (by omega)] at hbs
      exact absurd hbs (Option.some_ne_none bs).symm
  · rintro ⟨a, rfl⟩
    have hfits := Count.fits a
    rcases lt_or_ge a.toInt 0 with hneg | hpos
    · exact ⟨_, by rw [if_neg (by omega), if_pos ⟨hfits.1, hneg⟩]⟩
    · exact ⟨_, if_pos ⟨hpos, hfits.2⟩⟩

/-- A whole number that is read is that of a word. -/
theorem Cbor.exists_word_of_readInt? {bs rest : Bytes} {n : Int} (h : readInt? bs = some (n, rest)) :
    ∃ a : Int64, a.toInt = n := by
  unfold readInt? at h
  split at h
  · obtain ⟨hfits, h⟩ := Option.ite_none_right_eq_some.mp h
    cases h
    exact Count.exists_word (by omega) (by omega)
  · obtain ⟨hfits, h⟩ := Option.ite_none_right_eq_some.mp h
    cases h
    exact Count.exists_word (by omega) (by omega)
  · exact absurd h (Option.some_ne_none _).symm

namespace Instant

theorem writeCount?_eq (t : Instant) : t.writeCount? = t.cbor? := by
  unfold writeCount? cbor?
  cases hcount : t.count? with
  | some n =>
      rw [← count?_eq_some_iff.mp hcount]
      rfl
  | none =>
      symm
      apply Option.eq_none_iff_forall_ne_some.mpr
      intro bs hbs
      obtain ⟨n, hn⟩ := Cbor.exists_int?_iff.mp ⟨bs, hbs⟩
      rw [count?_eq_some_iff.mpr hn] at hcount
      exact Option.some_ne_none n hcount

theorem readCount?_eq (bs : Bytes) : readCount? bs = readCbor? bs := by
  unfold readCount? readCbor?
  cases hread : Cbor.readInt? bs with
  | none => rfl
  | some read =>
      obtain ⟨n, rest⟩ := read
      obtain ⟨a, rfl⟩ := Cbor.exists_word_of_readInt? hread
      show (ofCount? (Int64.ofInt a.toInt)).bind _ = some (ofNanoseconds a.toInt, rest)
      rw [Int64.ofInt_toInt, ofCount?_eq, Option.bind_some]

/-- What is written of an instant is its nanoseconds, so just the instants whose nanoseconds fit are
    written. -/
theorem exists_writeCount?_iff {t : Instant} :
    (∃ bs, t.writeCount? = some bs) ↔
      -9223372036854775808 ≤ t.nanoseconds ∧ t.nanoseconds ≤ 9223372036854775807 := by
  rw [writeCount?_eq]
  unfold cbor?
  rw [Cbor.exists_int?_iff]
  constructor
  · rintro ⟨a, ha⟩
    rw [← ha]
    exact Count.fits a
  · rintro ⟨hlow, hhigh⟩
    exact Count.exists_word hlow hhigh

/-- What is read is the instant of the word that the bytes spell. -/
theorem exists_of_readCount? {bs rest : Bytes} {t : Instant} (h : readCount? bs = some (t, rest)) :
    ∃ n : Int64, Cbor.readInt? bs = some (n.toInt, rest) ∧ t = ofNanoseconds n.toInt := by
  rw [readCount?_eq] at h
  obtain ⟨⟨n, after⟩, hread, heq⟩ := Option.map_eq_some_iff.mp h
  cases heq
  obtain ⟨a, rfl⟩ := Cbor.exists_word_of_readInt? hread
  exact ⟨a, hread, rfl⟩

theorem isLeap_ofNanoseconds (n : Int) : (ofNanoseconds n).isLeap = false := by
  unfold isLeap
  rw [decide_eq_false_iff_not]
  show ¬ 1000000000 ≤ (n % 1000000000).toNat
  omega

theorem writeCount?_ofNanoseconds (n : Int) : (ofNanoseconds n).writeCount? = Cbor.int? n := by
  rw [writeCount?_eq]
  exact congrArg Cbor.int? (nanoseconds_ofNanoseconds n)

/-- **Instants and words of nanoseconds go both ways.** The instant read from a word is outside the leap
    seconds and is written as that word; bytes that are read as an instant are a word, and the instant has
    its count. An instant is written exactly if its nanoseconds fit a word, and then read back, unless it
    is in a leap second. -/
theorem count_roundTrip :
    (∀ n : Int64, ∃ t bs, Cbor.int? n.toInt = some bs ∧
      (∀ rest, readCount? (bs ++ rest) = some (t, rest)) ∧ t.writeCount? = some bs ∧
        t.nanoseconds = n.toInt ∧ t.isLeap = false) ∧
    (∀ bs t rest, readCount? bs = some (t, rest) → ∃ n : Int64,
      Cbor.readInt? bs = some (n.toInt, rest) ∧ t.writeCount? = Cbor.int? n.toInt ∧
        t.nanoseconds = n.toInt ∧ t.isLeap = false) ∧
    ∀ t : Instant,
      ((∃ bs, t.writeCount? = some bs) ↔
        -9223372036854775808 ≤ t.nanoseconds ∧ t.nanoseconds ≤ 9223372036854775807) ∧
      (t.isLeap = false → ∀ bs, t.writeCount? = some bs →
        ∀ rest, readCount? (bs ++ rest) = some (t, rest)) := by
  refine ⟨?_, ?_, ?_⟩
  · intro n
    obtain ⟨bs, hbs⟩ := Cbor.exists_int?_iff.mpr ⟨n, rfl⟩
    refine ⟨ofNanoseconds n.toInt, bs, hbs, ?_, (writeCount?_ofNanoseconds _).trans hbs,
      nanoseconds_ofNanoseconds _, isLeap_ofNanoseconds _⟩
    intro rest
    rw [readCount?_eq]
    unfold readCbor?
    rw [Cbor.readInt?_int? hbs]
    rfl
  · intro bs t rest h
    obtain ⟨n, hread, rfl⟩ := exists_of_readCount? h
    exact ⟨n, hread, writeCount?_ofNanoseconds _, nanoseconds_ofNanoseconds _, isLeap_ofNanoseconds _⟩
  · intro t
    refine ⟨exists_writeCount?_iff, ?_⟩
    intro hleap bs hbs rest
    rw [writeCount?_eq] at hbs
    rw [readCount?_eq]
    exact readCbor?_cbor? hleap hbs rest

end Instant

end PowerOfAttorney
