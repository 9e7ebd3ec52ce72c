import PowerOfAttorney.Proofs.Time.Date

/-!
# `PowerOfAttorney.Proofs.Time.Spelling` — the texts of a date

A date has many texts. White space may stand before each of its three numbers; the year may have a sign
and then any number of digits, or else at most four; month and day have one digit or two. This is said
here of texts and dates without the reader, and the reader is held against it. Of all texts of a date one
is written.

## Contents
- **Numerals.** `Decimal.IsNumeral`, with what `Decimal.upTo?` and `Decimal.many?` take off a text.
- **White space.** `Text.FollowsBlanks`.
- **Spellings.** `Date.SpellsYear` and `Date.IsSpelledBy`; `Date.parse?_eq_some_iff`: a text is read as a date
  exactly if it spells it.
- **Writing again.** `Date.rewrite?`, which makes one text of all spellings of a date.
-/

namespace PowerOfAttorney

/-! ## Numerals -/

namespace Decimal

/-- The characters are digits, and they name a number. -/
structure IsNumeral (ds : List Char) (n : Nat) : Prop where
  ne_nil : ds ≠ []
  digits : ∀ c ∈ ds, c.isDigit = true
  value_eq : value ds = n

/-- A numeral ends where this begins, since it does not begin with a digit. -/
def EndsAt (rest : List Char) : Prop :=
  ∀ c ∈ rest.head?, c.isDigit = false

theorem endsAt_nil : EndsAt [] :=
  nofun

theorem endsAt_hyphen (cs : List Char) : EndsAt ('-' :: cs) := by
  intro c hc
  obtain rfl := Option.some.inj hc
  rfl

/-- Where no digit follows, none is taken. -/
theorem EndsAt.takeWhile_take {rest : List Char} (h : EndsAt rest) (k : Nat) :
    (rest.take k).takeWhile Char.isDigit = [] := by
  cases rest with
  | nil => rw [List.take_nil, List.takeWhile_nil]
  | cons c rest =>
      cases k with
      | zero => rw [List.take_zero, List.takeWhile_nil]
      | succ k => rw [List.take_succ_cons, List.takeWhile_cons_of_neg (by simp [h c rfl])]

theorem EndsAt.takeWhile {rest : List Char} (h : EndsAt rest) : rest.takeWhile Char.isDigit = [] := by
  have htake := h.takeWhile_take rest.length
  rwa [List.take_length] at htake

/-- A numeral is taken off a text in which no digit follows it, if it has no more digits than may be taken. -/
theorem IsNumeral.upTo? {ds rest : List Char} {n bound : Nat} (h : IsNumeral ds n)
    (hlength : ds.length ≤ bound) (hrest : EndsAt rest) : upTo? bound (ds ++ rest) = some (n, rest) := by
  have htaken : ((ds ++ rest).take bound).takeWhile Char.isDigit = ds := by
    rw [List.take_append, List.take_of_length_le hlength, List.takeWhile_append_of_pos h.digits,
      hrest.takeWhile_take, List.append_nil]
  unfold Decimal.upTo?
  dsimp only
  rw [htaken, List.drop_left' rfl, h.value_eq, if_neg (by rw [List.isEmpty_iff]; exact h.ne_nil)]

/-- What is taken off a text with a bound is a numeral within the bound. -/
theorem exists_isNumeral_of_upTo? {bound n : Nat} {cs rest : List Char}
    (h : upTo? bound cs = some (n, rest)) :
    ∃ ds, cs = ds ++ rest ∧ IsNumeral ds n ∧ ds.length ≤ bound := by
  obtain ⟨hne, h⟩ := Option.ite_none_left_eq_some.mp h
  obtain ⟨hvalue, hrest⟩ := Prod.mk.inj (Option.some.inj h)
  have hcut : (cs.take bound).takeWhile Char.isDigit <+: cs.take bound := List.takeWhile_prefix _
  obtain ⟨rest', hcs⟩ := hcut.trans (List.take_prefix bound cs)
  refine ⟨_, ?_,
    ⟨fun hnil => hne (List.isEmpty_iff.mpr hnil), List.all_eq_true.mp List.all_takeWhile, hvalue⟩, ?_⟩
  · rw [← hrest]
    exact (List.prefix_iff_eq_append.mp ⟨rest', hcs⟩).symm
  · exact Nat.le_trans hcut.length_le (List.length_take_le bound cs)

/-- A numeral of any length is taken off a text in which no digit follows it. -/
theorem IsNumeral.many? {ds rest : List Char} {n : Nat} (h : IsNumeral ds n) (hrest : EndsAt rest) :
    many? (ds ++ rest) = some (n, rest) := by
  have htaken : (ds ++ rest).takeWhile Char.isDigit = ds := by
    rw [List.takeWhile_append_of_pos h.digits, hrest.takeWhile, List.append_nil]
  have hleft : (ds ++ rest).dropWhile Char.isDigit = rest :=
    List.append_cancel_left (htaken ▸ List.takeWhile_append_dropWhile)
  unfold Decimal.many?
  dsimp only
  rw [htaken, hleft, h.value_eq, if_neg (by rw [List.isEmpty_iff]; exact h.ne_nil)]

/-- What is taken off a text without a bound is a numeral. -/
theorem exists_isNumeral_of_many? {n : Nat} {cs rest : List Char} (h : many? cs = some (n, rest)) :
    ∃ ds, cs = ds ++ rest ∧ IsNumeral ds n := by
  obtain ⟨hne, h⟩ := Option.ite_none_left_eq_some.mp h
  obtain ⟨hvalue, hrest⟩ := Prod.mk.inj (Option.some.inj h)
  refine ⟨_, ?_, fun hnil => hne (List.isEmpty_iff.mpr hnil), List.all_eq_true.mp List.all_takeWhile, hvalue⟩
  rw [← hrest]
  exact List.takeWhile_append_dropWhile.symm

end Decimal

/-! ## White space -/

/-- White space, or none, and then a text that spells something. -/
def Text.FollowsBlanks (spells : List Char → Prop) (cs : List Char) : Prop :=
  ∃ bs xs, cs = bs ++ xs ∧ (∀ c ∈ bs, isBlank c = true) ∧ spells xs

/-- White space is dropped before what does not begin with it. -/
theorem Text.dropBlanks_append {bs xs : List Char} (hbs : ∀ c ∈ bs, isBlank c = true)
    (hxs : ∃ c cs, xs = c :: cs ∧ isBlank c = false) (rest : List Char) :
    dropBlanks (bs ++ xs ++ rest) = xs ++ rest := by
  obtain ⟨c, cs, rfl, hc⟩ := hxs
  unfold dropBlanks
  rw [List.append_assoc, List.dropWhile_append_of_pos hbs]
  exact dropBlanks_cons_of_not_isBlank hc

/-- What is left when white space is dropped came after white space. -/
theorem Text.followsBlanks_of_dropBlanks {cs xs rest : List Char} {spells : List Char → Prop}
    (h : dropBlanks cs = xs ++ rest) (hxs : spells xs) : ∃ ys, cs = ys ++ rest ∧ FollowsBlanks spells ys := by
  refine ⟨cs.takeWhile isBlank ++ xs, ?_, _, xs, rfl, List.all_eq_true.mp List.all_takeWhile, hxs⟩
  rw [List.append_assoc, ← h]
  exact List.takeWhile_append_dropWhile.symm

/-- A numeral begins with no white space. -/
theorem Decimal.IsNumeral.exists_cons {ds : List Char} {n : Nat} (h : IsNumeral ds n) :
    ∃ c cs, ds = c :: cs ∧ c.isDigit = true ∧ Text.isBlank c = false := by
  obtain ⟨c, cs, rfl⟩ := List.exists_cons_of_ne_nil h.ne_nil
  have hdigit := h.digits c List.mem_cons_self
  exact ⟨c, cs, rfl, hdigit, Text.isBlank_of_isDigit hdigit⟩

namespace Date

/-! ## Spellings -/

/-- The characters spell a year: at most four digits, or a sign and any number of them. -/
inductive SpellsYear : List Char → Int → Prop
  | unsigned {ds : List Char} {n : Nat} (h : Decimal.IsNumeral ds n) (hlength : ds.length ≤ 4) :
    SpellsYear ds n
  | positive {ds : List Char} {n : Nat} (h : Decimal.IsNumeral ds n) : SpellsYear ('+' :: ds) n
  | negative {ds : List Char} {n : Nat} (h : Decimal.IsNumeral ds n) : SpellsYear ('-' :: ds) (-n)

/-- The characters spell a month or a day: one digit or two. -/
def SpellsPart (ds : List Char) (n : Nat) : Prop :=
  Decimal.IsNumeral ds n ∧ ds.length ≤ 2

/-- The text spells the date: year, month and day, hyphens between them, and white space before any. -/
def IsSpelledBy (d : Date) (s : String) : Prop :=
  ∃ year month day, s.toList = year ++ '-' :: (month ++ '-' :: day) ∧
    Text.FollowsBlanks (SpellsYear · d.year) year ∧ Text.FollowsBlanks (SpellsPart · d.month) month ∧
    Text.FollowsBlanks (SpellsPart · d.day) day

theorem of?_eq_some_iff {year : Int} {month day : Nat} {d : Date} :
    of? year month day = some d ↔ d.year = year ∧ d.month = month ∧ d.day = day := by
  constructor
  · intro h
    obtain ⟨_, h⟩ := Option.dite_none_right_eq_some.mp h
    obtain rfl := Option.some.inj h
    exact ⟨rfl, rfl, rfl⟩
  · rintro ⟨rfl, rfl, rfl⟩
    exact of?_self d

theorem hyphen?_eq_some_iff {cs rest : List Char} : hyphen? cs = some rest ↔ cs = '-' :: rest := by
  constructor
  · intro h
    unfold hyphen? at h
    split at h
    · rw [Option.some.inj h]
    · exact absurd h nofun
  · rintro rfl
    rfl

theorem SpellsYear.exists_cons {ys : List Char} {y : Int} (h : SpellsYear ys y) :
    ∃ c cs, ys = c :: cs ∧ Text.isBlank c = false := by
  cases h with
  | unsigned h _ =>
      obtain ⟨c, cs, hds, _, hc⟩ := h.exists_cons
      exact ⟨c, cs, hds, hc⟩
  | positive h => exact ⟨_, _, rfl, by decide⟩
  | negative h => exact ⟨_, _, rfl, by decide⟩

/-- A year is read as the year that it spells. -/
theorem SpellsYear.year? {ys rest : List Char} {y : Int} (h : SpellsYear ys y)
    (hrest : Decimal.EndsAt rest) : year? (ys ++ rest) = some (y, rest) := by
  cases h with
  | unsigned h hlength =>
      have hread := h.upTo? hlength hrest
      obtain ⟨c, cs, rfl, hdigit, _⟩ := h.exists_cons
      rw [List.cons_append] at hread ⊢
      rw [year?_of_isDigit hdigit, hread]
      rfl
  | positive h =>
      rw [List.cons_append, Date.year?, h.many? hrest]
      rfl
  | negative h =>
      rw [List.cons_append, Date.year?, h.many? hrest]
      rfl

/-- What is read as a year spells it. -/
theorem exists_spellsYear_of_year? {cs rest : List Char} {y : Int} (h : year? cs = some (y, rest)) :
    ∃ ys, cs = ys ++ rest ∧ SpellsYear ys y := by
  unfold year? at h
  split at h
  all_goals
    obtain ⟨⟨n, rest'⟩, hread, heq⟩ := Option.map_eq_some_iff.mp h
    obtain ⟨rfl, rfl⟩ := Prod.mk.inj heq
  · obtain ⟨ds, rfl, hds⟩ := Decimal.exists_isNumeral_of_many? hread
    exact ⟨_, rfl, .negative hds⟩
  · obtain ⟨ds, rfl, hds⟩ := Decimal.exists_isNumeral_of_many? hread
    exact ⟨_, rfl, .positive hds⟩
  · obtain ⟨ds, rfl, hds, hlength⟩ := Decimal.exists_isNumeral_of_upTo? hread
    exact ⟨_, rfl, .unsigned hds hlength⟩

/-- A year after white space is read as the year that it spells. -/
theorem year?_of_followsBlanks {cs rest : List Char} {y : Int}
    (h : Text.FollowsBlanks (SpellsYear · y) cs) (hrest : Decimal.EndsAt rest) :
    year? (Text.dropBlanks (cs ++ rest)) = some (y, rest) := by
  obtain ⟨bs, ys, rfl, hbs, hys⟩ := h
  rw [Text.dropBlanks_append hbs hys.exists_cons]
  exact hys.year? hrest

theorem exists_followsBlanks_of_year? {cs rest : List Char} {y : Int}
    (h : year? (Text.dropBlanks cs) = some (y, rest)) :
    ∃ ys, cs = ys ++ rest ∧ Text.FollowsBlanks (SpellsYear · y) ys := by
  obtain ⟨ys, hcs, hys⟩ := exists_spellsYear_of_year? h
  exact Text.followsBlanks_of_dropBlanks hcs hys

/-- A month or a day after white space is read as the number that it spells. -/
theorem upTo?_of_followsBlanks {cs rest : List Char} {n : Nat}
    (h : Text.FollowsBlanks (SpellsPart · n) cs) (hrest : Decimal.EndsAt rest) :
    Decimal.upTo? 2 (Text.dropBlanks (cs ++ rest)) = some (n, rest) := by
  obtain ⟨bs, ds, rfl, hbs, hds, hlength⟩ := h
  obtain ⟨c, cs, hcons, _, hc⟩ := hds.exists_cons
  rw [Text.dropBlanks_append hbs ⟨c, cs, hcons, hc⟩]
  exact hds.upTo? hlength hrest

theorem exists_followsBlanks_of_upTo? {cs rest : List Char} {n : Nat}
    (h : Decimal.upTo? 2 (Text.dropBlanks cs) = some (n, rest)) :
    ∃ ys, cs = ys ++ rest ∧ Text.FollowsBlanks (SpellsPart · n) ys := by
  obtain ⟨ds, hcs, hds⟩ := Decimal.exists_isNumeral_of_upTo? h
  exact Text.followsBlanks_of_dropBlanks hcs hds

/-- **A text is read as a date exactly if it spells it.** -/
theorem parse?_eq_some_iff {s : String} {d : Date} : parse? s = some d ↔ d.IsSpelledBy s := by
  unfold parse? ofChars? IsSpelledBy
  constructor
  · intro h
    obtain ⟨⟨y, cs₁⟩, hyear, h⟩ := Option.bind_eq_some_iff.mp h
    obtain ⟨cs₂, hhyphen, h⟩ := Option.bind_eq_some_iff.mp h
    obtain ⟨⟨m, cs₃⟩, hmonth, h⟩ := Option.bind_eq_some_iff.mp h
    obtain ⟨cs₄, hhyphen', h⟩ := Option.bind_eq_some_iff.mp h
    obtain ⟨⟨n, cs₅⟩, hday, h⟩ := Option.bind_eq_some_iff.mp h
    obtain ⟨hend, h⟩ := Option.ite_none_right_eq_some.mp h
    obtain rfl : cs₅ = [] := List.isEmpty_iff.mp hend
    obtain ⟨rfl, rfl, rfl⟩ := of?_eq_some_iff.mp h
    obtain ⟨year, hs, hyear⟩ := exists_followsBlanks_of_year? hyear
    obtain ⟨month, hcs₂, hmonth⟩ := exists_followsBlanks_of_upTo? hmonth
    obtain ⟨day, hcs₄, hday⟩ := exists_followsBlanks_of_upTo? hday
    refine ⟨year, month, day, ?_, hyear, hmonth, hday⟩
    rw [hs, hyphen?_eq_some_iff.mp hhyphen, hcs₂, hyphen?_eq_some_iff.mp hhyphen', hcs₄, List.append_nil]
  · rintro ⟨year, month, day, hs, hyear, hmonth, hday⟩
    rw [hs]
    refine (Instant.bind_of_eq_some (year?_of_followsBlanks hyear (Decimal.endsAt_hyphen _))).trans ?_
    refine (Instant.bind_of_eq_some (hyphen?_cons _)).trans ?_
    refine (Instant.bind_of_eq_some (upTo?_of_followsBlanks hmonth (Decimal.endsAt_hyphen _))).trans ?_
    refine (Instant.bind_of_eq_some (hyphen?_cons _)).trans ?_
    have hlast := upTo?_of_followsBlanks hday Decimal.endsAt_nil
    rw [List.append_nil] at hlast
    exact (Instant.bind_of_eq_some hlast).trans (of?_self d)

/-! ## Writing again -/

/-- The text that is written for the date that a text spells. -/
def rewrite? (s : String) : Option String :=
  (parse? s).map text

/-- Different dates are written differently. -/
theorem text_injective {d e : Date} (h : d.text = e.text) : d = e := by
  have hread := parse?_text d
  rw [h, parse?_text e] at hread
  exact (Option.some.inj hread).symm

/-- All spellings of a date are written as its text, and no others. -/
theorem rewrite?_eq_some_iff {s : String} {d : Date} : rewrite? s = some d.text ↔ d.IsSpelledBy s := by
  rw [← parse?_eq_some_iff]
  unfold rewrite?
  constructor
  · intro h
    obtain ⟨e, hread, htext⟩ := Option.map_eq_some_iff.mp h
    rw [hread, text_injective htext]
  · intro h
    rw [h, Option.map_some]

/-- **Writing again once more changes nothing.** -/
theorem rewrite?_rewrite? (s : String) : (rewrite? s).bind rewrite? = rewrite? s := by
  unfold rewrite?
  cases parse? s with
  | none => rfl
  | some d =>
      rw [Option.map_some, Option.bind_some, parse?_text]
      rfl

/-- Many spellings of one day, and three that spell none. -/
example : ["2024-02-29", "+002024-2-29", "\t2024- 02-\n29"].map rewrite? =
      List.replicate 3 (some "2024-02-29") ∧
    ["12345-01-01", "2023-02-29", "2024-02 -29"].map rewrite? = List.replicate 3 none ∧
    rewrite? "-1-3-1" = some "-0001-03-01" ∧ rewrite? "+12345-6-7" = some "+12345-06-07" := by
  decide

end Date

end PowerOfAttorney
