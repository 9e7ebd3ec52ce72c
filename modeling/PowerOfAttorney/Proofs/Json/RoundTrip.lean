import Mathlib.Algebra.Group.Nat.Defs
import PowerOfAttorney.Json.Codec

/-!
# `PowerOfAttorney.Proofs.Json.RoundTrip` — a JSON text reads as the value it was written from

The text of a value is read to its end, and its tree is that of the value, as long as its numbers are
whole numbers of 64 bits: a double is written with as few digits as name it, which are not always read as
the same double. Documents and the values of their fields hold no numbers at all.

## Contents
- **Numbers.** `Json.isPlain`: there are none; `Json.isWhole`: they are whole numbers.
- **Literals.** `Node.stringChar?_escape` for one character, `Node.string?_quote` for a string,
  `Node.number?_integer` for a whole number that `Node.EndsNumber` comes after.
- **Steps.** `value_list`, `items_next` and so on, one for each turn that a reader takes.
- **Values.** `Node.ReadsBack`, what the three readers do with some fuel, and `readsBack`.
- **Texts.** `Node.read_chars_of_isWhole` and `Codec.decodeText_text_of_isWhole`.
-/

namespace PowerOfAttorney

/-! ## Numbers -/

namespace Json

mutual

/-- No number stands in the value. -/
def isPlain : Json → Bool
  | .num _ => false
  | .arr items => isPlainItems items
  | .obj members => isPlainMembers members
  | _ => true

/-- No number stands in the items of a list. -/
def isPlainItems : List Json → Bool
  | [] => true
  | x :: xs => isPlain x && isPlainItems xs

/-- No number stands in the values of members. -/
def isPlainMembers : List (String × Json) → Bool
  | [] => true
  | (_, x) :: xs => isPlain x && isPlainMembers xs

end

mutual

/-- All numbers in the value are whole numbers of 64 bits, signed or unsigned. -/
def isWhole : Json → Bool
  | .num (.int n) => decide (-9223372036854775808 ≤ n ∧ n ≤ 18446744073709551615)
  | .num (.real _) => false
  | .arr items => isWholeItems items
  | .obj members => isWholeMembers members
  | _ => true

/-- So are those in the items of a list. -/
def isWholeItems : List Json → Bool
  | [] => true
  | x :: xs => isWhole x && isWholeItems xs

/-- So are those in the values of members. -/
def isWholeMembers : List (String × Json) → Bool
  | [] => true
  | (_, x) :: xs => isWhole x && isWholeMembers xs

end

mutual

/-- Without numbers there are none that are not whole. -/
theorem isWhole_of_isPlain : ∀ {j : Json}, j.isPlain = true → j.isWhole = true
  | .null, _ | .bool _, _ | .str _, _ => rfl
  | .arr _, h => isWholeItems_of_isPlain h
  | .obj _, h => isWholeMembers_of_isPlain h

theorem isWholeItems_of_isPlain : ∀ {xs : List Json}, isPlainItems xs = true → isWholeItems xs = true
  | [], _ => rfl
  | x :: xs, h => by
      rw [isPlainItems, Bool.and_eq_true] at h
      rw [isWholeItems, isWhole_of_isPlain h.1, isWholeItems_of_isPlain h.2]
      rfl

theorem isWholeMembers_of_isPlain :
    ∀ {ms : List (String × Json)}, isPlainMembers ms = true → isWholeMembers ms = true
  | [], _ => rfl
  | (_, x) :: ms, h => by
      rw [isPlainMembers, Bool.and_eq_true] at h
      rw [isWholeMembers, isWhole_of_isPlain h.1, isWholeMembers_of_isPlain h.2]
      rfl

end

end Json

/-! ## Numerals -/

namespace Decimal

theorem isDigit_of_mem_digits {n : Nat} {c : Char} (h : c ∈ digits n) : c.isDigit = true :=
  Nat.isDigit_of_mem_toDigits (by decide) (by decide) h

/-- So many digits name no greater number. -/
theorem value_lt {ds : List Char} (h : ∀ c ∈ ds, c.isDigit = true) : value ds < 10 ^ ds.length := by
  induction ds with
  | nil => exact Nat.one_pos
  | cons c ds ih =>
      have hc : c.toNat - '0'.toNat ≤ 9 := by
        have hdigit := h c List.mem_cons_self
        simp only [Char.isDigit, Bool.and_eq_true, decide_eq_true_eq] at hdigit
        have hle : c.toNat ≤ '9'.toNat := hdigit.2
        have hnine : '9'.toNat = 57 := rfl
        have hzero : '0'.toNat = 48 := rfl
        omega
      have hrest := ih fun d hd => h d (List.mem_cons_of_mem _ hd)
      unfold value at hrest ⊢
      rw [Nat.ofDigitChars_cons, Nat.ofDigitChars_eq_ofDigitChars_zero, List.length_cons, Nat.pow_succ]
      have hscaled : 10 ^ ds.length * (10 * 0 + (c.toNat - '0'.toNat)) ≤ 10 ^ ds.length * 9 :=
        Nat.mul_le_mul_left _ (by omega)
      omega

/-- No numeral is shorter than that of the number it names. -/
theorem length_digits_value_le {ds : List Char} (hne : ds ≠ []) (h : ∀ c ∈ ds, c.isDigit = true) :
    (digits (value ds)).length ≤ ds.length :=
  (Nat.length_toDigits_le_iff (by decide) (List.length_pos_iff.mpr hne)).mpr (value_lt h)

/-- No zero is written in front of other digits. -/
theorem eq_nil_of_digits_eq_zero_cons {n : Nat} {ds : List Char} (h : digits n = '0' :: ds) : ds = [] := by
  have hdigits : ∀ c ∈ ds, c.isDigit = true := fun c hc =>
    isDigit_of_mem_digits (h ▸ List.mem_cons_of_mem _ hc)
  have hvalue : value ds = n := by
    rw [← value_digits n, h]
    rfl
  cases ds with
  | nil => rfl
  | cons d ds =>
      have hlength := length_digits_value_le (List.cons_ne_nil d ds) hdigits
      rw [hvalue, h, List.length_cons] at hlength
      omega

end Decimal

/-- A digit is no blank. -/
theorem Node.isSpace_of_isDigit {c : Char} (h : c.isDigit = true) : isSpace c = false := by
  have hne : ∀ d, d.isDigit = false → (c == d) = false := by
    intro d hd
    rw [beq_eq_false_iff_ne]
    rintro rfl
    rw [h] at hd
    exact absurd hd nofun
  unfold isSpace
  rw [hne ' ' rfl, hne '\t' rfl, hne '\n' rfl, hne '\r' rfl]
  rfl

namespace Json

/-- A number begins with a digit or a minus sign. -/
theorem integer_head (n : Int) : ∃ c cs, Decimal.integer n = c :: cs ∧ (c.isDigit = true ∨ c = '-') := by
  unfold Decimal.integer
  split
  · exact ⟨'-', _, rfl, Or.inr rfl⟩
  · cases h : Decimal.digits n.natAbs with
    | nil => exact absurd h Nat.toDigits_ne_nil
    | cons c cs => exact ⟨c, cs, rfl, Or.inl (Decimal.isDigit_of_mem_digits (h ▸ List.mem_cons_self))⟩

/-- A value begins with a character that is no blank and closes no list. -/
theorem chars_head {j : Json} (h : j.isWhole = true) :
    ∃ c cs, j.chars = c :: cs ∧ Node.isSpace c = false ∧ c ≠ ']' := by
  cases j with
  | null => exact ⟨'n', _, rfl, by decide, by decide⟩
  | bool b =>
      cases b with
      | true => exact ⟨'t', _, rfl, by decide, by decide⟩
      | false => exact ⟨'f', _, rfl, by decide, by decide⟩
  | num n =>
      cases n with
      | real x => exact absurd h (by simp [isWhole])
      | int n =>
          obtain ⟨c, cs, hchars, hc⟩ := integer_head n
          refine ⟨c, cs, hchars, ?_, ?_⟩
          · rcases hc with hc | rfl
            · exact Node.isSpace_of_isDigit hc
            · decide
          · rintro rfl
            exact absurd hc (by decide)
  | str s => exact ⟨'"', _, rfl, by decide, by decide⟩
  | arr items => exact ⟨'[', _, rfl, by decide, by decide⟩
  | obj members => exact ⟨'\x7b', _, rfl, by decide, by decide⟩

theorem itemsChars_head {x : Json} (xs : List Json) (h : x.isWhole = true) :
    ∃ c cs, itemsChars (x :: xs) = c :: cs ∧ Node.isSpace c = false ∧ c ≠ ']' := by
  obtain ⟨c, cs, hchars, hc⟩ := chars_head h
  cases xs with
  | nil => exact ⟨c, cs ++ [']'], by rw [itemsChars, hchars]; rfl, hc⟩
  | cons y ys => exact ⟨c, cs ++ ',' :: itemsChars (y :: ys), by simp [itemsChars, hchars], hc⟩

/-- Members begin with a name. -/
theorem membersChars_head (k : String) (x : Json) (xs : List (String × Json)) :
    ∃ cs, membersChars ((k, x) :: xs) = '"' :: cs := by
  cases xs with
  | nil => exact ⟨_, by simp [membersChars, quote]; rfl⟩
  | cons y ys => exact ⟨_, by simp [membersChars, quote]; rfl⟩

end Json

namespace Node

/-! ## Strings -/

/-- The two last digits of a control character name it. -/
theorem digit?_digitChar : ∀ n < 16, Hexadecimal.digit? (Nat.digitChar n) = some n := by
  decide

/-- A control character is read from its four digits. -/
theorem unicodeEscape?_control {c : Char} (h : c.toNat < 0x20) (rest : List Char) :
    unicodeEscape? ('0' :: '0' :: Nat.digitChar (c.toNat / 16) :: Nat.digitChar (c.toNat % 16) :: rest) =
      some (some c, rest) := by
  have hfixed : Hexadecimal.fixed? 4
      ('0' :: '0' :: Nat.digitChar (c.toNat / 16) :: Nat.digitChar (c.toNat % 16) :: rest) =
        some (c.toNat, rest) := by
    have hzero : Hexadecimal.digit? '0' = some 0 := by decide
    have hhigh := digit?_digitChar (c.toNat / 16) (by omega)
    have hlow := digit?_digitChar (c.toNat % 16) (by omega)
    have hvalue : 16 * (16 * (16 * (16 * 0 + 0) + 0) + c.toNat / 16) + c.toNat % 16 = c.toNat := by omega
    unfold Hexadecimal.fixed?
    simp [hzero, hhigh, hlow]
    omega
  unfold unicodeEscape?
  rw [hfixed]
  have hnot : ¬ (0xDC00 ≤ c.toNat ∧ c.toNat ≤ 0xDFFF) := by omega
  have hnot' : ¬ (0xD800 ≤ c.toNat ∧ c.toNat ≤ 0xDBFF) := by omega
  show (if _ then _ else if _ then _ else _) = _
  rw [if_neg hnot, if_neg hnot', Char.ofNat_toNat]

/-- A character is read as it was written. -/
theorem stringChar?_escape (c : Char) (rest : List Char) :
    stringChar? (Json.escape c ++ rest) = some (some c, rest) := by
  unfold Json.escape
  split
  · subst_vars; rfl
  split
  · subst_vars; rfl
  split
  · subst_vars; rfl
  split
  · subst_vars; rfl
  split
  · subst_vars; rfl
  split
  · subst_vars; rfl
  split
  · subst_vars; rfl
  split
  · rename_i hcontrol
    exact unicodeEscape?_control hcontrol rest
  · rename_i hquote hbackslash _ _ _ _ _ hcontrol
    show stringChar? (c :: rest) = _
    unfold stringChar?
    split
    · rename_i heq
      exact absurd (List.cons.inj heq).1 hbackslash
    · rename_i heq
      exact absurd (List.cons.inj heq).1 hbackslash
    · rename_i heq
      obtain ⟨rfl, rfl⟩ := List.cons.inj heq
      rw [if_neg]
      rintro (h | h | h)
      · exact hcontrol h
      · exact hbackslash h
      · exact hquote h
    · rename_i heq
      exact absurd heq nofun

/-- No character is written as a quote. -/
theorem escape_head (c : Char) : ∃ d cs, Json.escape c = d :: cs ∧ d ≠ '"' := by
  unfold Json.escape
  split
  · exact ⟨_, _, rfl, by decide⟩
  rename_i hquote
  split <;> first | exact ⟨_, _, rfl, by decide⟩ | skip
  split <;> first | exact ⟨_, _, rfl, by decide⟩ | skip
  split <;> first | exact ⟨_, _, rfl, by decide⟩ | skip
  split <;> first | exact ⟨_, _, rfl, by decide⟩ | skip
  split <;> first | exact ⟨_, _, rfl, by decide⟩ | skip
  split <;> first | exact ⟨_, _, rfl, by decide⟩ | skip
  split <;> first | exact ⟨_, _, rfl, by decide⟩ | exact ⟨c, [], rfl, hquote⟩

/-- A string is read up to its closing quote. -/
theorem string?_quote (s rest : List Char) {fuel : Nat} (h : s.length < fuel) :
    string? fuel (s.flatMap Json.escape ++ '"' :: rest) = some (some s, rest) := by
  induction s generalizing fuel with
  | nil =>
      obtain ⟨n, rfl⟩ : ∃ n, fuel = n + 1 := ⟨fuel - 1, by simp at h; omega⟩
      rfl
  | cons c s ih =>
      obtain ⟨n, rfl⟩ : ∃ n, fuel = n + 1 := ⟨fuel - 1, by simp at h; omega⟩
      have hrest : string? n _ = _ := ih (by simpa using h)
      have hchar := stringChar?_escape c (s.flatMap Json.escape ++ '"' :: rest)
      obtain ⟨d, cs, hescape, hd⟩ := escape_head c
      rw [List.flatMap_cons, List.append_assoc]
      rw [hescape] at hchar ⊢
      unfold string?
      split
      · rename_i heq
        exact absurd (List.cons.inj heq).1 hd
      · rw [hchar]
        show (string? n _).bind _ = _
        rw [hrest]
        rfl

/-! ## Whole numbers -/

/-- What comes after a number does not go on with it. -/
def EndsNumber (rest : List Char) : Prop :=
  ∀ c ∈ rest.head?, c.isDigit = false ∧ c ≠ '.' ∧ c ≠ 'e' ∧ c ≠ 'E'

theorem endsNumber_nil : EndsNumber [] := nofun

/-- The marks after a value do not go on with a number. -/
theorem endsNumber_cons {c : Char} (h : c = ',' ∨ c = ']' ∨ c = '\x7d') (rest : List Char) :
    EndsNumber (c :: rest) := by
  intro d hd
  obtain rfl := Option.some.inj hd
  rcases h with rfl | rfl | rfl <;> decide

section

variable {rest : List Char}

/-- Digits are taken up to where they end. -/
theorem takeWhile_digits {ds : List Char} (hds : ∀ c ∈ ds, c.isDigit = true) (h : EndsNumber rest) :
    (ds ++ rest).takeWhile Char.isDigit = ds ∧ (ds ++ rest).dropWhile Char.isDigit = rest := by
  rw [List.takeWhile_append_of_pos hds, List.dropWhile_append_of_pos hds]
  cases rest with
  | nil => exact ⟨List.append_nil ds, rfl⟩
  | cons c rest =>
      have hc : ¬ c.isDigit = true := by simp [(h c rfl).1]
      rw [List.takeWhile_cons_of_neg hc, List.dropWhile_cons_of_neg hc]
      exact ⟨List.append_nil ds, rfl⟩

theorem wholeDigits?_digits (n : Nat) (h : EndsNumber rest) :
    wholeDigits? (Decimal.digits n ++ rest) = some (Decimal.digits n, rest) := by
  have hdigits : ∀ c ∈ Decimal.digits n, c.isDigit = true := fun _ => Decimal.isDigit_of_mem_digits
  obtain ⟨htake, hdrop⟩ := takeWhile_digits hdigits h
  have hne : (Decimal.digits n).isEmpty = false := List.isEmpty_eq_false_iff.mpr Nat.toDigits_ne_nil
  unfold wholeDigits?
  split
  · -- A zero in front is all there is.
    rename_i cs heq
    cases hn : Decimal.digits n with
    | nil => exact absurd hn Nat.toDigits_ne_nil
    | cons d ds =>
        rw [hn, List.cons_append] at heq
        obtain ⟨rfl, rfl⟩ := List.cons.inj heq
        obtain rfl := Decimal.eq_nil_of_digits_eq_zero_cons hn
        have hnone : (rest.takeWhile Char.isDigit) = [] := (@takeWhile_digits rest [] nofun h).1
        simp [hnone]
  · simp only [htake, hdrop, hne, Bool.false_eq_true, if_false]

/-- A whole number has neither a fraction nor an exponent. -/
theorem unsigned?_digits (negative : Bool) (n : Nat) (h : EndsNumber rest) :
    unsigned? negative (Decimal.digits n ++ rest) =
      some (⟨negative, Decimal.digits n, none, none⟩, rest) := by
  have hfraction : fractionDigits? rest = some (none, rest) := by
    unfold fractionDigits?
    split
    · exact absurd rfl (h '.' rfl).2.1
    · rfl
  have hexponent : exponentDigits? rest = some (none, rest) := by
    cases rest with
    | nil => rfl
    | cons c rest =>
        obtain ⟨_, _, hsmall, hcapital⟩ := h c rfl
        simp [exponentDigits?, hsmall, hcapital]
  unfold unsigned?
  rw [wholeDigits?_digits n h]
  show (fractionDigits? rest).bind _ = _
  rw [hfraction]
  show (exponentDigits? rest).bind _ = _
  rw [hexponent]
  rfl

/-- **A whole number is read as the literal it was written as.** -/
theorem number?_integer (n : Int) (h : EndsNumber rest) :
    number? (Decimal.integer n ++ rest) =
      some (⟨decide (n < 0), Decimal.digits n.natAbs, none, none⟩, rest) := by
  unfold Decimal.integer
  by_cases hn : n < 0
  · rw [if_pos hn, List.cons_append, number?, unsigned?_digits true _ h]
    simp [hn]
  · rw [if_neg hn]
    unfold number?
    split
    · rename_i cs heq
      cases hdigits : Decimal.digits n.natAbs with
      | nil => exact absurd hdigits Nat.toDigits_ne_nil
      | cons d ds =>
          rw [hdigits, List.cons_append] at heq
          obtain ⟨rfl, _⟩ := List.cons.inj heq
          have hminus := Decimal.isDigit_of_mem_digits (hdigits ▸ List.mem_cons_self)
          exact absurd hminus (by decide)
    · rw [unsigned?_digits false _ h]
      simp [hn]

end

/-- The literal of a whole number of 64 bits is that number. -/
theorem ofLiteral?_digits {n : Int} (hlow : -9223372036854775808 ≤ n) (hhigh : n ≤ 18446744073709551615) :
    Number.ofLiteral? ⟨decide (n < 0), Decimal.digits n.natAbs, none, none⟩ = some (.int n) := by
  unfold Number.ofLiteral? Number.maxUnsigned
  simp only [Decimal.value_digits, Option.isNone_none, true_and]
  by_cases hn : n < 0
  · have hrange : n.natAbs ≤ 18446744073709551615 ∧ 0 < n.natAbs ∧ n.natAbs ≤ 9223372036854775808 := by
      omega
    simp only [hn, decide_true, forall_const, if_pos hrange, if_true, Option.some.injEq,
      Number.int.injEq]
    omega
  · have hrange : n.natAbs ≤ 18446744073709551615 := by omega
    simp only [hn, decide_false, Bool.false_eq_true, false_implies, and_true, if_pos hrange, if_false,
      Option.some.injEq, Number.int.injEq]
    omega

/-! ## Steps -/

/-- What does not begin with a blank has none to skip. -/
theorem skipSpace_cons {c : Char} (h : isSpace c = false) (cs : List Char) :
    skipSpace (c :: cs) = c :: cs :=
  List.dropWhile_cons_of_neg (by simp [h])

/-- A string is read as the text it was written from. -/
theorem string?_chars (s : String) (rest : List Char) :
    string? ((s.toList.flatMap Json.escape ++ '"' :: rest).length + 1)
      (s.toList.flatMap Json.escape ++ '"' :: rest) = some (some s.toList, rest) := by
  refine string?_quote s.toList rest ?_
  have hlength : ∀ cs : List Char, cs.length ≤ (cs.flatMap Json.escape).length := by
    intro cs
    induction cs with
    | nil => exact Nat.le_refl 0
    | cons c cs ih =>
        obtain ⟨d, ds, hescape, _⟩ := escape_head c
        rw [List.flatMap_cons, List.length_append, hescape, List.length_cons, List.length_cons]
        omega
  rw [List.length_append]
  have := hlength s.toList
  omega

/-- A quoted text in front of other characters. -/
theorem quote_append (k : String) (cs : List Char) :
    Json.quote k ++ cs = '"' :: (k.toList.flatMap Json.escape ++ '"' :: cs) := by
  simp [Json.quote]

/-- A quoted text is read as the text. -/
theorem value_quote (s : String) (rest : List Char) {fuel : Nat} (h : 0 < fuel) :
    value fuel (Json.quote s ++ rest) = (.str (some s), some rest) := by
  obtain ⟨n, rfl⟩ : ∃ n, fuel = n + 1 := ⟨fuel - 1, by omega⟩
  rw [quote_append]
  unfold value
  rw [skipSpace_cons (by decide)]
  simp only [string?_chars]
  rw [Option.map_some, String.ofList_toList]

/-- A literal that begins with a digit or a minus sign is read as a number. -/
theorem value_number {c : Char} {cs rest : List Char} {l : Number.Literal}
    (hc : c.isDigit = true ∨ c = '-') (h : number? (c :: cs) = some (l, rest)) {fuel : Nat}
    (hfuel : 0 < fuel) : value fuel (c :: cs) = (.num (Number.ofLiteral? l), some rest) := by
  obtain ⟨n, rfl⟩ : ∃ n, fuel = n + 1 := ⟨fuel - 1, by omega⟩
  have hne : ∀ d, d.isDigit = false → d ≠ '-' → c ≠ d := by
    rintro d hd hminus rfl
    rcases hc with hdigit | hdigit
    · rw [hd] at hdigit
      exact absurd hdigit nofun
    · exact hminus hdigit
  have hspace : isSpace c = false := by
    rcases hc with hc | rfl
    · exact isSpace_of_isDigit hc
    · decide
  unfold value
  rw [skipSpace_cons hspace]
  split
  · rename_i heq
    exact absurd heq nofun
  · rename_i heq
    exact absurd (List.cons.inj heq).1 (hne '"' (by decide) (by decide))
  · rename_i heq
    exact absurd (List.cons.inj heq).1 (hne '[' (by decide) (by decide))
  · rename_i heq
    exact absurd (List.cons.inj heq).1 (hne '\x7b' (by decide) (by decide))
  · rename_i heq
    obtain ⟨rfl, rfl⟩ := List.cons.inj heq
    rw [if_neg (hne 'n' (by decide) (by decide)), if_neg (hne 't' (by decide) (by decide)),
      if_neg (hne 'f' (by decide) (by decide)), h]

/-- **A whole number is read as the number it was written from.** -/
theorem value_integer {n : Int} (hlow : -9223372036854775808 ≤ n) (hhigh : n ≤ 18446744073709551615)
    {rest : List Char} (h : EndsNumber rest) {fuel : Nat} (hfuel : 0 < fuel) :
    value fuel (Decimal.integer n ++ rest) = (.num (some (.int n)), some rest) := by
  obtain ⟨c, cs, hchars, hc⟩ := Json.integer_head n
  have hnumber := number?_integer n h
  rw [hchars, List.cons_append] at hnumber ⊢
  rw [value_number hc hnumber hfuel, ofLiteral?_digits hlow hhigh]

/-- A list whose first item begins after its bracket. -/
theorem value_list (n : Nat) {c : Char} (hspace : isSpace c = false) (hc : c ≠ ']') (cs : List Char) :
    value (n + 1) ('[' :: c :: cs) = (.arr (items n (c :: cs)).1, (items n (c :: cs)).2) := by
  unfold value
  simp only [skipSpace_cons (show isSpace '[' = false by decide), skipSpace_cons hspace]
  split
  · rename_i heq
    exact absurd (List.cons.inj heq).1 hc
  · rfl

/-- An object whose first member begins after its brace. -/
theorem value_object (n : Nat) (cs : List Char) :
    value (n + 1) ('\x7b' :: '"' :: cs) =
      (.obj (members n ('"' :: cs)).1, (members n ('"' :: cs)).2) := rfl

/-- The item before a closing bracket. -/
theorem items_last {n : Nat} {cs rest : List Char} {x : Node}
    (h : value n cs = (x, some (']' :: rest))) : items (n + 1) cs = ([x], some rest) := by
  unfold items
  simp only [h, skipSpace_cons (show isSpace ']' = false by decide)]

/-- An item before a comma. -/
theorem items_next {n : Nat} {cs rest : List Char} {x : Node}
    (h : value n cs = (x, some (',' :: rest))) :
    items (n + 1) cs = (x :: (items n rest).1, (items n rest).2) := by
  rw [items]
  simp only [h, skipSpace_cons (show isSpace ',' = false by decide)]

/-- The member before a closing brace. -/
theorem members_last {n : Nat} {k : String} {cs rest : List Char} {x : Node}
    (h : value n cs = (x, some ('\x7d' :: rest))) :
    members (n + 1) (Json.quote k ++ ':' :: cs) = ([(some k, x)], some rest) := by
  rw [quote_append, members]
  simp only [skipSpace_cons (show isSpace '"' = false by decide), string?_chars, Option.map_some,
    String.ofList_toList, skipSpace_cons (show isSpace ':' = false by decide), h,
    skipSpace_cons (show isSpace '\x7d' = false by decide)]

/-- A member before a comma. -/
theorem members_next {n : Nat} {k : String} {cs rest : List Char} {x : Node}
    (h : value n cs = (x, some (',' :: rest))) :
    members (n + 1) (Json.quote k ++ ':' :: cs) =
      ((some k, x) :: (members n rest).1, (members n rest).2) := by
  rw [quote_append, members]
  simp only [skipSpace_cons (show isSpace '"' = false by decide), string?_chars, Option.map_some,
    String.ofList_toList, skipSpace_cons (show isSpace ':' = false by decide), h,
    skipSpace_cons (show isSpace ',' = false by decide)]

/-! ## Values -/

/-- With so much fuel the readers read what is written, whatever comes after it that does not go on with
    a number. -/
structure ReadsBack (fuel : Nat) : Prop where
  value : ∀ j rest, j.isWhole = true → EndsNumber rest → 2 * j.chars.length ≤ fuel →
    value fuel (j.chars ++ rest) = (ofJson j, some rest)
  items : ∀ x xs rest, Json.isWholeItems (x :: xs) = true →
    2 * (Json.itemsChars (x :: xs)).length + 1 ≤ fuel →
    items fuel (Json.itemsChars (x :: xs) ++ rest) = (itemsOfJson (x :: xs), some rest)
  members : ∀ k x ms rest, Json.isWholeMembers ((k, x) :: ms) = true →
    2 * (Json.membersChars ((k, x) :: ms)).length + 1 ≤ fuel →
    members fuel (Json.membersChars ((k, x) :: ms) ++ rest) = (membersOfJson ((k, x) :: ms), some rest)

namespace ReadsBack

variable {n : Nat}

theorem value_succ (h : ReadsBack n) (j : Json) (rest : List Char) (hj : j.isWhole = true)
    (hrest : EndsNumber rest) (hfuel : 2 * j.chars.length ≤ n + 1) :
    Node.value (n + 1) (j.chars ++ rest) = (ofJson j, some rest) := by
  cases j with
  | null => rfl
  | bool b =>
      cases b with
      | true => rfl
      | false => rfl
  | num m =>
      cases m with
      | real x => exact absurd hj (by simp [Json.isWhole])
      | int m =>
          obtain ⟨hlow, hhigh⟩ := of_decide_eq_true hj
          exact value_integer hlow hhigh hrest (Nat.succ_pos n)
  | str s => exact value_quote s rest (Nat.succ_pos n)
  | arr xs =>
      cases xs with
      | nil => rfl
      | cons x xs =>
          rw [Json.chars] at hfuel ⊢
          rw [List.length_cons] at hfuel
          have hitems := h.items x xs rest hj (by omega)
          rw [Json.isWhole, Json.isWholeItems, Bool.and_eq_true] at hj
          obtain ⟨d, ds, hhead, hspace, hne⟩ := Json.itemsChars_head xs hj.1
          rw [hhead] at hitems ⊢
          rw [List.cons_append, List.cons_append, value_list n hspace hne, ← List.cons_append, hitems]
          rfl
  | obj ms =>
      cases ms with
      | nil => rfl
      | cons m ms =>
          obtain ⟨k, x⟩ := m
          rw [Json.chars] at hfuel ⊢
          rw [List.length_cons] at hfuel
          have hmembers := h.members k x ms rest hj (by omega)
          obtain ⟨ds, hhead⟩ := Json.membersChars_head k x ms
          rw [hhead] at hmembers ⊢
          rw [List.cons_append, List.cons_append, value_object, ← List.cons_append, hmembers]
          rfl

theorem items_succ (h : ReadsBack n) (x : Json) (xs : List Json) (rest : List Char)
    (hxs : Json.isWholeItems (x :: xs) = true)
    (hfuel : 2 * (Json.itemsChars (x :: xs)).length + 1 ≤ n + 1) :
    Node.items (n + 1) (Json.itemsChars (x :: xs) ++ rest) = (itemsOfJson (x :: xs), some rest) := by
  rw [Json.isWholeItems, Bool.and_eq_true] at hxs
  cases xs with
  | nil =>
      have hchars : Json.itemsChars [x] ++ rest = x.chars ++ ']' :: rest := by
        simp [Json.itemsChars]
      have hlength : (Json.itemsChars [x]).length = x.chars.length + 1 := by
        simp [Json.itemsChars]
      rw [hchars, items_last (h.value x (']' :: rest) hxs.1 (endsNumber_cons (by simp) rest) (by omega))]
      rfl
  | cons y ys =>
      have hchars : Json.itemsChars (x :: y :: ys) ++ rest =
          x.chars ++ ',' :: (Json.itemsChars (y :: ys) ++ rest) := by
        simp [Json.itemsChars]
      have hlength : (Json.itemsChars (x :: y :: ys)).length =
          x.chars.length + (Json.itemsChars (y :: ys)).length + 1 := by
        simp [Json.itemsChars]
        omega
      obtain ⟨c, cs, hhead, _⟩ := Json.chars_head hxs.1
      have hpos : 0 < x.chars.length := by
        rw [hhead]
        exact Nat.succ_pos _
      rw [hchars, items_next (h.value x _ hxs.1 (endsNumber_cons (by simp) _) (by omega)),
        h.items y ys rest hxs.2 (by omega)]
      rfl

theorem members_succ (h : ReadsBack n) (k : String) (x : Json) (ms : List (String × Json))
    (rest : List Char) (hms : Json.isWholeMembers ((k, x) :: ms) = true)
    (hfuel : 2 * (Json.membersChars ((k, x) :: ms)).length + 1 ≤ n + 1) :
    Node.members (n + 1) (Json.membersChars ((k, x) :: ms) ++ rest) =
      (membersOfJson ((k, x) :: ms), some rest) := by
  rw [Json.isWholeMembers, Bool.and_eq_true] at hms
  cases ms with
  | nil =>
      have hchars : Json.membersChars [(k, x)] ++ rest =
          Json.quote k ++ ':' :: (x.chars ++ '\x7d' :: rest) := by
        simp [Json.membersChars]
      have hlength : (Json.membersChars [(k, x)]).length =
          (Json.quote k).length + x.chars.length + 2 := by
        simp [Json.membersChars]
        omega
      rw [hchars, members_last (h.value x _ hms.1 (endsNumber_cons (by simp) rest) (by omega))]
      rfl
  | cons m ms =>
      obtain ⟨l, y⟩ := m
      have hchars : Json.membersChars ((k, x) :: (l, y) :: ms) ++ rest =
          Json.quote k ++ ':' :: (x.chars ++ ',' :: (Json.membersChars ((l, y) :: ms) ++ rest)) := by
        simp [Json.membersChars]
      have hlength : (Json.membersChars ((k, x) :: (l, y) :: ms)).length =
          (Json.quote k).length + x.chars.length + (Json.membersChars ((l, y) :: ms)).length + 2 := by
        simp [Json.membersChars]
        omega
      rw [hchars, members_next (h.value x _ hms.1 (endsNumber_cons (by simp) _) (by omega)),
        h.members l y ms rest hms.2 (by omega)]
      rfl

end ReadsBack

/-- **What is written is read back**, by induction on the fuel. -/
theorem readsBack (fuel : Nat) : ReadsBack fuel := by
  induction fuel with
  | zero =>
      refine ⟨fun j rest hj _ hfuel => ?_, fun _ _ _ _ hfuel => absurd hfuel (by omega),
        fun _ _ _ _ _ hfuel => absurd hfuel (by omega)⟩
      obtain ⟨c, cs, hhead, _⟩ := Json.chars_head hj
      rw [hhead, List.length_cons] at hfuel
      omega
  | succ n ih => exact ⟨ih.value_succ, ih.items_succ, ih.members_succ⟩

/-! ## Texts -/

/-- A written text is read to its end. -/
theorem read_chars_of_isWhole {j : Json} (hj : j.isWhole = true) : read j.chars = (ofJson j, some []) := by
  have hvalue := (readsBack (2 * j.chars.length + 2)).value j [] hj endsNumber_nil (by omega)
  rw [List.append_nil] at hvalue
  exact hvalue

theorem read_chars {j : Json} (hj : j.isPlain = true) : read j.chars = (ofJson j, some []) :=
  read_chars_of_isWhole (Json.isWhole_of_isPlain hj)

end Node

/-- Decoding a written text is decoding the value. -/
theorem Codec.decodeText_text_of_isWhole {α : Type} (c : Codec α) {j : Json} (hj : j.isWhole = true) :
    c.decodeText j.text = c.decodeJson j := by
  unfold decodeText Json.text decodeJson
  rw [String.toList_ofList, Node.read_chars_of_isWhole hj]
  show (c.decode maxDepth (.ofJson j)).bind _ = _
  cases c.decode maxDepth (.ofJson j) with
  | error why => rfl
  | ok a => rfl

theorem Codec.decodeText_text {α : Type} (c : Codec α) {j : Json} (hj : j.isPlain = true) :
    c.decodeText j.text = c.decodeJson j :=
  c.decodeText_text_of_isWhole (Json.isWhole_of_isPlain hj)

/-- What a text decodes to was read from its front. -/
theorem Codec.decode_of_decodeText {α : Type} {c : Codec α} {s : String} {a : α}
    (h : c.decodeText s = .ok a) : c.decode maxDepth (Node.read s.toList).1 = .ok a := by
  unfold decodeText at h
  cases hnode : c.decode maxDepth (Node.read s.toList).1 with
  | error why =>
      simp only [hnode] at h
      exact absurd h nofun
  | ok b =>
      simp only [hnode] at h
      change (if _ then _ else _) = _ at h
      split at h
      · exact h
      · exact absurd h nofun

end PowerOfAttorney
