import PowerOfAttorney.Proofs.Json.RoundTrip
import Mathlib.Data.String.Basic

/-!
# `PowerOfAttorney.Proofs.Json.Length` — a value is written in no more bytes than it was read from

Blanks, repeated members and needless escapes are lost when a text is read, and nothing that is written
instead takes more bytes. Doubles are left out of the account: `1e99` is written with a sign.

## Contents
- **The account.** `Node.weight`, the bytes of the text of a tree without doubles.
- **Writing.** `Json.utf8Len_chars`: the text of a value without doubles is as long as its tree weighs.
- **Values.** `Node.weight_ofJson_le`: the value of a tree weighs no more than the tree.
- **Literals.** `Node.string?_spends` and `Node.number?_spends`.
- **Trees.** `Node.Spends`, what the three readers take off a text, and `spends`.
- **Texts.** `Codec.exists_of_decodeText`: a text is decoded from a tree that weighs no more.
-/

namespace PowerOfAttorney

open String (utf8Len utf8Len_nil utf8Len_cons utf8Len_append)

/-! ## The account -/

namespace Node

/-- The bytes of a number; a double counts for nothing. -/
def numberWeight : Option Number → Nat
  | some (.int n) => (Decimal.integer n).length
  | _ => 0

/-- The bytes of a string in quotes; one that has no text counts for nothing. -/
def stringWeight : Option String → Nat
  | some s => utf8Len (Json.quote s)
  | none => 0

mutual

/-- The bytes of the text of a tree. -/
def weight : Node → Nat
  | .null => 4
  | .bool true => 4
  | .bool false => 5
  | .num n => numberWeight n
  | .str s => stringWeight s
  | .arr xs => 1 + max 1 (itemsWeight xs)
  | .obj ms => 1 + max 1 (membersWeight ms)
  | .broken => 0

/-- The bytes of the items of a list, each with the mark after it. -/
def itemsWeight : List Node → Nat
  | [] => 0
  | x :: xs => weight x + 1 + itemsWeight xs

/-- The bytes of the members of an object, each with its two marks. -/
def membersWeight : List (Option String × Node) → Nat
  | [] => 0
  | (k, x) :: ms => stringWeight k + weight x + 2 + membersWeight ms

end

theorem itemsWeight_ofJson_cons (x : Json) (xs : List Json) :
    itemsWeight (itemsOfJson (x :: xs)) = weight (ofJson x) + 1 + itemsWeight (itemsOfJson xs) := rfl

theorem membersWeight_ofJson_cons (k : String) (x : Json) (ms : List (String × Json)) :
    membersWeight (membersOfJson ((k, x) :: ms)) =
      utf8Len (Json.quote k) + weight (ofJson x) + 2 + membersWeight (membersOfJson ms) := rfl

/-- An item weighs less than its list. -/
theorem weight_lt_of_mem_items {x : Node} {xs : List Node} (h : x ∈ xs) : x.weight < (arr xs).weight := by
  have hsum : x.weight + 1 ≤ itemsWeight xs := by
    induction xs with
    | nil => exact absurd h List.not_mem_nil
    | cons y ys ih =>
        rw [itemsWeight]
        rcases List.mem_cons.mp h with rfl | hys
        · omega
        · have := ih hys
          omega
  rw [weight]
  omega

/-- The value of a member weighs less than its object. -/
theorem weight_lt_of_mem_members {m : Option String × Node} {ms : List (Option String × Node)}
    (h : m ∈ ms) : m.2.weight < (obj ms).weight := by
  have hsum : m.2.weight + 2 ≤ membersWeight ms := by
    induction ms with
    | nil => exact absurd h List.not_mem_nil
    | cons n ns ih =>
        obtain ⟨k, x⟩ := n
        rw [membersWeight]
        rcases List.mem_cons.mp h with rfl | hns
        · dsimp only
          omega
        · have := ih hns
          omega
  rw [weight]
  omega

/-- A list has no more items than it weighs. -/
theorem length_le_weight (xs : List Node) : xs.length ≤ (arr xs).weight := by
  have hsum : xs.length ≤ itemsWeight xs := by
    induction xs with
    | nil => exact Nat.le_refl 0
    | cons x xs ih =>
        rw [List.length_cons, itemsWeight]
        omega
  rw [weight]
  omega

end Node

/-! ## Writing -/

/-- A number takes as many bytes as it has characters. -/
theorem Decimal.utf8Len_integer (n : Int) : utf8Len (integer n) = (integer n).length := by
  have hdigits : ∀ ds : List Char, (∀ c ∈ ds, c.isDigit = true) → utf8Len ds = ds.length := by
    intro ds hds
    induction ds with
    | nil => rfl
    | cons c ds ih =>
        have hc : c.utf8Size = 1 := by
          have hdigit := hds c List.mem_cons_self
          simp only [Char.isDigit, Bool.and_eq_true, decide_eq_true_eq] at hdigit
          exact Char.utf8Size_eq_one_iff.mpr (UInt32.le_trans hdigit.2 (by decide))
        rw [utf8Len_cons, List.length_cons, ih fun d hd => hds d (List.mem_cons_of_mem _ hd), hc]
  have hnatural := hdigits (digits n.natAbs) fun _ => isDigit_of_mem_digits
  unfold integer
  split
  · rw [utf8Len_cons, List.length_cons, hnatural]
    rfl
  · exact hnatural

namespace Json

open Node (weight itemsWeight membersWeight ofJson itemsOfJson membersOfJson)

mutual

/-- **The text of a value without doubles takes the bytes that its tree weighs.** -/
theorem utf8Len_chars : ∀ {j : Json}, j.isWhole = true → utf8Len j.chars = (ofJson j).weight
  | .null, _ => rfl
  | .bool true, _ => rfl
  | .bool false, _ => rfl
  | .num (.int n), _ => Decimal.utf8Len_integer n
  | .num (.real _), h => absurd h nofun
  | .str _, _ => rfl
  | .arr xs, h => by
      rw [chars, utf8Len_cons, utf8Len_itemsChars h, ofJson, weight]
      exact Nat.add_comm _ 1
  | .obj ms, h => by
      rw [chars, utf8Len_cons, utf8Len_membersChars h, ofJson, weight]
      exact Nat.add_comm _ 1

/-- So do the items of a list, with the bracket that closes it. -/
theorem utf8Len_itemsChars :
    ∀ {xs : List Json}, isWholeItems xs = true →
      utf8Len (itemsChars xs) = max 1 (itemsWeight (itemsOfJson xs))
  | [], _ => rfl
  | [x], h => by
      rw [isWholeItems, Bool.and_eq_true] at h
      rw [itemsChars, utf8Len_append, utf8Len_chars h.1, Node.itemsWeight_ofJson_cons]
      have hmark : utf8Len [']'] = 1 := rfl
      have hnone : itemsWeight (itemsOfJson []) = 0 := rfl
      omega
  | x :: y :: ys, h => by
      rw [isWholeItems, Bool.and_eq_true] at h
      rw [itemsChars, utf8Len_append, utf8Len_cons, utf8Len_chars h.1, utf8Len_itemsChars h.2,
        Node.itemsWeight_ofJson_cons x]
      · have hmark : ','.utf8Size = 1 := rfl
        have hrest := Node.itemsWeight_ofJson_cons y ys
        omega
      · exact nofun

/-- So do the members of an object, with the brace that closes it. -/
theorem utf8Len_membersChars :
    ∀ {ms : List (String × Json)}, isWholeMembers ms = true →
      utf8Len (membersChars ms) = max 1 (membersWeight (membersOfJson ms))
  | [], _ => rfl
  | [(k, x)], h => by
      rw [isWholeMembers, Bool.and_eq_true] at h
      rw [membersChars, utf8Len_append, utf8Len_append, utf8Len_cons, utf8Len_chars h.1,
        Node.membersWeight_ofJson_cons]
      have hmark : utf8Len ['\x7d'] = 1 := rfl
      have hcolon : ':'.utf8Size = 1 := rfl
      have hnone : membersWeight (membersOfJson []) = 0 := rfl
      omega
  | (k, x) :: (l, y) :: ms, h => by
      rw [isWholeMembers, Bool.and_eq_true] at h
      rw [membersChars, utf8Len_append, utf8Len_append, utf8Len_cons, utf8Len_cons, utf8Len_chars h.1,
        utf8Len_membersChars h.2, Node.membersWeight_ofJson_cons k x]
      · have hcomma : ','.utf8Size = 1 := rfl
        have hcolon : ':'.utf8Size = 1 := rfl
        have hrest := Node.membersWeight_ofJson_cons l y ms
        omega
      · exact nofun

end

/-- The text of a value without doubles takes the bytes that its tree weighs. -/
theorem utf8ByteSize_text {j : Json} (h : j.isWhole = true) : j.text.utf8ByteSize = (ofJson j).weight := by
  rw [text, String.utf8ByteSize_ofList, utf8Len_chars h]

end Json

/-! ## Values -/

namespace Node

/-- A member that is put among others adds its own bytes at most. -/
theorem membersWeight_insertEntry (k : String) (x : Json) (ms : List (String × Json)) :
    membersWeight (membersOfJson (Dictionary.insertEntry k x ms)) ≤
      stringWeight (some k) + weight (ofJson x) + 2 + membersWeight (membersOfJson ms) := by
  induction ms with
  | nil => exact Nat.le_refl _
  | cons m ms ih =>
      obtain ⟨other, y⟩ := m
      rw [Dictionary.insertEntry]
      split
      · rw [membersOfJson, membersWeight]
      · split
        · simp only [membersOfJson, membersWeight]
          omega
        · simp only [membersOfJson, membersWeight]
          omega

/-- Members weigh no more once those that others of their name come after are gone. -/
theorem membersWeight_ofList (ms : List (String × Json)) :
    membersWeight (membersOfJson (Dictionary.ofList ms).entries) ≤ membersWeight (membersOfJson ms) := by
  -- By induction on the members, from any dictionary to start with.
  have hfold : ∀ (ms : List (String × Json)) (d : Dictionary Json),
      membersWeight (membersOfJson (ms.foldl (fun d m => d.insert m.1 m.2) d).entries) ≤
        membersWeight (membersOfJson d.entries) + membersWeight (membersOfJson ms) := by
    intro ms
    induction ms with
    | nil => exact fun d => Nat.le_add_right _ _
    | cons m ms ih =>
        intro d
        obtain ⟨k, x⟩ := m
        have hrest := ih (d.insert k x)
        have hinsert := membersWeight_insertEntry k x d.entries
        rw [membersOfJson, membersWeight, List.foldl_cons]
        simp only [Dictionary.insert] at hrest ⊢
        omega
  have hempty := hfold ms .empty
  rw [show membersWeight (membersOfJson (Dictionary.empty : Dictionary Json).entries) = 0 from rfl,
    Nat.zero_add] at hempty
  exact hempty

mutual

/-- **The value of a tree weighs no more than the tree.** -/
theorem weight_ofJson_le {depth : Nat} :
    ∀ {node : Node} {j : Json}, toJson? depth node = some j → (ofJson j).weight ≤ node.weight
  | .null, j, h => by
      obtain rfl := Option.some.inj h
      exact Nat.le_refl _
  | .bool b, j, h => by
      obtain rfl := Option.some.inj h
      exact Nat.le_refl _
  | .num n, j, h => by
      obtain ⟨m, rfl, rfl⟩ := Option.map_eq_some_iff.mp h
      exact Nat.le_refl _
  | .str s, j, h => by
      obtain ⟨t, rfl, rfl⟩ := Option.map_eq_some_iff.mp h
      exact Nat.le_refl _
  | .arr xs, j, h => by
      rw [toJson?] at h
      split at h
      · exact absurd h nofun
      · obtain ⟨js, hjs, rfl⟩ := Option.map_eq_some_iff.mp h
        have hitems := itemsWeight_ofJson_le hjs
        rw [ofJson, weight, weight]
        omega
  | .obj xs, j, h => by
      rw [toJson?] at h
      split at h
      · exact absurd h nofun
      · obtain ⟨ms, hms, rfl⟩ := Option.map_eq_some_iff.mp h
        have hmembers := membersWeight_ofJson_le hms
        have hlast := membersWeight_ofList ms
        rw [Json.ofMembers, ofJson, weight, weight]
        omega
  | .broken, j, h => absurd h nofun

/-- So do the values of the items of a list. -/
theorem itemsWeight_ofJson_le {depth : Nat} :
    ∀ {xs : List Node} {js : List Json}, itemsToJson? depth xs = some js →
      itemsWeight (itemsOfJson js) ≤ itemsWeight xs
  | [], js, h => by
      obtain rfl := Option.some.inj h
      exact Nat.le_refl _
  | x :: xs, js, h => by
      obtain ⟨j, hj, hrest⟩ := Option.bind_eq_some_iff.mp h
      obtain ⟨js, hjs, hcons⟩ := Option.bind_eq_some_iff.mp hrest
      obtain rfl := Option.some.inj hcons
      have hhead := weight_ofJson_le hj
      have htail := itemsWeight_ofJson_le hjs
      rw [itemsOfJson, itemsWeight, itemsWeight]
      omega

/-- So do the values of the members of an object, with their names. -/
theorem membersWeight_ofJson_le {depth : Nat} :
    ∀ {xs : List (Option String × Node)} {ms : List (String × Json)}, membersToJson? depth xs = some ms →
      membersWeight (membersOfJson ms) ≤ membersWeight xs
  | [], ms, h => by
      obtain rfl := Option.some.inj h
      exact Nat.le_refl _
  | (k, x) :: xs, ms, h => by
      obtain ⟨name, hk, hname⟩ := Option.bind_eq_some_iff.mp h
      obtain rfl : k = some name := hk
      obtain ⟨j, hj, hrest⟩ := Option.bind_eq_some_iff.mp hname
      obtain ⟨ms, hms, hcons⟩ := Option.bind_eq_some_iff.mp hrest
      obtain rfl := Option.some.inj hcons
      have hhead := weight_ofJson_le hj
      have htail := membersWeight_ofJson_le hms
      rw [membersOfJson, membersWeight, membersWeight]
      omega

end

/-! ## Literals -/

theorem utf8Len_skipSpace_le (cs : List Char) : utf8Len (skipSpace cs) ≤ utf8Len cs :=
  String.utf8Len_le_of_suffix (List.dropWhile_suffix _)

/-- The first character after blanks takes a byte at least. -/
theorem spends_mark {c : Char} {cs rest : List Char} (h : skipSpace cs = c :: rest) :
    1 + utf8Len rest ≤ utf8Len cs := by
  have hskip := utf8Len_skipSpace_le cs
  have hc := c.utf8Size_pos
  rw [h, utf8Len_cons] at hskip
  omega

/-- So many characters take as many bytes at least. -/
theorem length_le_utf8Len (cs : List Char) : cs.length ≤ utf8Len cs := by
  induction cs with
  | nil => exact Nat.le_refl 0
  | cons c cs ih =>
      rw [utf8Len_cons, List.length_cons]
      exact Nat.add_le_add ih c.utf8Size_pos

/-- What is taken off the front of a text takes a byte for each character at least. -/
theorem length_add_utf8Len_drop_le {width : Nat} {cs : List Char} (h : (cs.take width).length = width) :
    width + utf8Len (cs.drop width) ≤ utf8Len cs := by
  have htaken := length_le_utf8Len (cs.take width)
  have hsplit := utf8Len_append (cs.take width) (cs.drop width)
  rw [List.take_append_drop] at hsplit
  omega

theorem length_of_mapM {α β : Type} {f : α → Option β} {xs : List α} {ys : List β}
    (h : xs.mapM f = some ys) : ys.length = xs.length := by
  induction xs generalizing ys with
  | nil =>
      obtain rfl := Option.some.inj h
      rfl
  | cons x xs ih =>
      rw [List.mapM_cons] at h
      obtain ⟨y, _, hrest⟩ := Option.bind_eq_some_iff.mp h
      obtain ⟨zs, hzs, hcons⟩ := Option.bind_eq_some_iff.mp hrest
      obtain rfl := Option.some.inj hcons
      rw [List.length_cons, List.length_cons, ih hzs]

theorem fixed?_spends {width n : Nat} {cs rest : List Char}
    (h : Hexadecimal.fixed? width cs = some (n, rest)) : width + utf8Len rest ≤ utf8Len cs := by
  obtain ⟨ds, hds, hfixed⟩ := Option.bind_eq_some_iff.mp h
  split at hfixed
  · rename_i hlength
    obtain ⟨-, rfl⟩ := Prod.mk.inj (Option.some.inj hfixed)
    exact length_add_utf8Len_drop_le ((length_of_mapM hds).symm.trans hlength)
  · exact absurd hfixed nofun

/-- A character is written with a mark before a letter, as an escape of four digits, or as itself. -/
theorem escape_cases (c : Char) : (c.utf8Size = 1 ∧ utf8Len (Json.escape c) = 2) ∨
    utf8Len (Json.escape c) = 6 ∨ Json.escape c = [c] := by
  have hdigit : ∀ n < 16, (Nat.digitChar n).utf8Size = 1 := by decide
  unfold Json.escape
  -- Seven characters have a letter.
  iterate 7
    split
    · subst_vars
      exact Or.inl (by decide)
  split
  · have hhigh := hdigit (c.toNat / 16) (by omega)
    have hlow := hdigit (c.toNat % 16) (by omega)
    refine Or.inr (Or.inl ?_)
    simp only [utf8Len_cons, utf8Len_nil, hhigh, hlow]
    decide
  · exact Or.inr (Or.inr rfl)

/-- No character is written in more than six bytes. -/
theorem utf8Len_escape_le (c : Char) : utf8Len (Json.escape c) ≤ 6 := by
  have hsize := c.utf8Size_le_four
  rcases escape_cases c with ⟨_, h⟩ | h | h
  · omega
  · omega
  · rw [h, utf8Len_cons, utf8Len_nil]
    omega

/-- No character is longer than what it is written as. -/
theorem utf8Size_le_escape (c : Char) : c.utf8Size ≤ utf8Len (Json.escape c) := by
  have hsize := c.utf8Size_le_four
  rcases escape_cases c with ⟨hone, h⟩ | h | h
  · omega
  · omega
  · rw [h, utf8Len_cons, utf8Len_nil]
    omega

/-- The character of a short escape is written in two bytes at most. -/
theorem utf8Len_escape_shortEscape? {c d : Char} (h : shortEscape? c = some d) :
    utf8Len (Json.escape d) ≤ 2 := by
  unfold shortEscape? at h
  split at h <;> first | (obtain rfl := Option.some.inj h; decide) | exact absurd h nofun

/-- A character that stands for itself is written as itself. -/
theorem escape_eq_self {c : Char} (h : ¬ (c.toNat < 0x20 ∨ c = '\\' ∨ c = '"')) : Json.escape c = [c] := by
  have hne : ∀ d : Char, d.toNat < 0x20 → c ≠ d := by
    rintro d hd rfl
    exact h (.inl hd)
  unfold Json.escape
  rw [if_neg fun hc => h (.inr (.inr hc)), if_neg fun hc => h (.inr (.inl hc)),
    if_neg (hne _ (by decide)), if_neg (hne _ (by decide)), if_neg (hne _ (by decide)),
    if_neg (hne _ (by decide)), if_neg (hne _ (by decide)), if_neg fun hc => h (.inl hc)]

/-- An escape of four digits takes four bytes at least. -/
theorem unicodeEscape?_spends {cs rest : List Char} {o : Option Char}
    (h : unicodeEscape? cs = some (o, rest)) : 4 + utf8Len rest ≤ utf8Len cs := by
  obtain ⟨⟨high, cs'⟩, hhigh, h⟩ := Option.bind_eq_some_iff.mp h
  have hspent := fixed?_spends hhigh
  dsimp only at h
  split at h
  · obtain ⟨-, rfl⟩ := Prod.mk.inj (Option.some.inj h)
    exact hspent
  split at h
  · split at h
    · rename_i tail
      obtain ⟨⟨low, cs''⟩, hlow, h⟩ := Option.bind_eq_some_iff.mp h
      have hsecond := fixed?_spends hlow
      dsimp only at h
      split at h
      · obtain ⟨-, rfl⟩ := Prod.mk.inj (Option.some.inj h)
        rw [utf8Len_cons, utf8Len_cons] at hspent
        omega
      · obtain ⟨-, rfl⟩ := Prod.mk.inj (Option.some.inj h)
        exact hspent
    · obtain ⟨-, rfl⟩ := Prod.mk.inj (Option.some.inj h)
      exact hspent
  · obtain ⟨-, rfl⟩ := Prod.mk.inj (Option.some.inj h)
    exact hspent

/-- A character is written in no more bytes than it was read from. -/
theorem stringChar?_spends {cs rest : List Char} {o : Option Char}
    (h : stringChar? cs = some (o, rest)) :
    utf8Len (o.toList.flatMap Json.escape) + utf8Len rest ≤ utf8Len cs := by
  unfold stringChar? at h
  split at h
  · have hspent := unicodeEscape?_spends h
    have hescape : utf8Len (o.toList.flatMap Json.escape) ≤ 6 := by
      cases o with
      | none => exact Nat.zero_le _
      | some c =>
          rw [Option.toList_some, List.flatMap_singleton]
          exact utf8Len_escape_le c
    have hmarks : '\\'.utf8Size = 1 ∧ 'u'.utf8Size = 1 := by decide
    rw [utf8Len_cons, utf8Len_cons]
    omega
  · obtain ⟨d, hd, heq⟩ := Option.map_eq_some_iff.mp h
    obtain ⟨rfl, rfl⟩ := Prod.mk.inj heq
    have hescape := utf8Len_escape_shortEscape? hd
    rename_i c _ _
    have hmark : '\\'.utf8Size = 1 := by decide
    have hc := c.utf8Size_pos
    rw [Option.toList_some, List.flatMap_singleton, utf8Len_cons, utf8Len_cons]
    omega
  · split at h
    · exact absurd h nofun
    · rename_i hplain
      obtain ⟨rfl, rfl⟩ := Prod.mk.inj (Option.some.inj h)
      rw [Option.toList_some, List.flatMap_singleton, escape_eq_self hplain, utf8Len_cons, utf8Len_cons,
        utf8Len_nil]
      omega
  · exact absurd h nofun

/-- The rest of a string is written in no more bytes than it was read from, with its closing quote. -/
theorem string?_spends {fuel : Nat} {cs rest : List Char} {o : Option (List Char)}
    (h : string? fuel cs = some (o, rest)) :
    utf8Len ((o.getD []).flatMap Json.escape) + 1 + utf8Len rest ≤ utf8Len cs := by
  induction fuel generalizing cs o rest with
  | zero => exact absurd h nofun
  | succ fuel ih =>
      unfold string? at h
      split at h
      · obtain ⟨rfl, rfl⟩ := Prod.mk.inj (Option.some.inj h)
        have hquote : '"'.utf8Size = 1 := by decide
        rw [Option.getD_some, List.flatMap_nil, utf8Len_nil, utf8Len_cons]
        omega
      · obtain ⟨⟨c, cs'⟩, hc, h⟩ := Option.bind_eq_some_iff.mp h
        obtain ⟨⟨s, cs''⟩, hs, h⟩ := Option.bind_eq_some_iff.mp h
        obtain ⟨rfl, rfl⟩ := Prod.mk.inj (Option.some.inj h)
        have hfirst := stringChar?_spends hc
        have hlater := ih hs
        cases c with
        | none =>
            show utf8Len [] + 1 + _ ≤ _
            rw [utf8Len_nil]
            omega
        | some c =>
            cases s with
            | none =>
                show utf8Len [] + 1 + _ ≤ _
                rw [utf8Len_nil]
                omega
            | some s =>
                show utf8Len ((c :: s).flatMap Json.escape) + 1 + _ ≤ _
                rw [Option.toList_some, List.flatMap_singleton] at hfirst
                rw [Option.getD_some] at hlater
                rw [List.flatMap_cons, utf8Len_append]
                omega

/-- Digits that are left out at the front leave the rest. -/
theorem utf8Len_takeWhile_digits (cs : List Char) :
    (cs.takeWhile Char.isDigit).length + utf8Len (cs.dropWhile Char.isDigit) ≤ utf8Len cs := by
  have htaken := length_le_utf8Len (cs.takeWhile Char.isDigit)
  have hsplit := utf8Len_append (cs.takeWhile Char.isDigit) (cs.dropWhile Char.isDigit)
  rw [List.takeWhile_append_dropWhile] at hsplit
  omega

theorem wholeDigits?_spends {cs ds rest : List Char} (h : wholeDigits? cs = some (ds, rest)) :
    (ds ≠ [] ∧ ∀ c ∈ ds, c.isDigit = true) ∧ ds.length + utf8Len rest ≤ utf8Len cs := by
  unfold wholeDigits? at h
  split at h
  · split at h
    · obtain ⟨rfl, rfl⟩ := Prod.mk.inj (Option.some.inj h)
      have hzero : '0'.utf8Size = 1 := by decide
      rw [utf8Len_cons]
      refine ⟨⟨List.cons_ne_nil _ _, List.forall_mem_singleton.mpr rfl⟩, ?_⟩
      rw [List.length_singleton]
      omega
    · exact absurd h nofun
  · dsimp only at h
    split at h
    · exact absurd h nofun
    · rename_i hne
      obtain ⟨rfl, rfl⟩ := Prod.mk.inj (Option.some.inj h)
      refine ⟨⟨fun hnil => hne (by rw [hnil]; rfl), fun c hc => ?_⟩, utf8Len_takeWhile_digits cs⟩
      exact List.all_eq_true.mp (List.all_takeWhile) c hc

theorem fractionDigits?_spends {cs rest : List Char} {o : Option (List Char)}
    (h : fractionDigits? cs = some (o, rest)) : utf8Len rest ≤ utf8Len cs := by
  unfold fractionDigits? at h
  split at h
  · dsimp only at h
    split at h
    · exact absurd h nofun
    · obtain ⟨-, rfl⟩ := Prod.mk.inj (Option.some.inj h)
      exact String.utf8Len_le_of_suffix ((List.dropWhile_suffix _).trans (List.suffix_cons _ _))
  · obtain ⟨-, rfl⟩ := Prod.mk.inj (Option.some.inj h)
    exact Nat.le_refl _

theorem exponentDigits?_spends {cs rest : List Char} {o : Option (Bool × List Char)}
    (h : exponentDigits? cs = some (o, rest)) : utf8Len rest ≤ utf8Len cs := by
  have hsign : ∀ cs, (exponentSign cs).2 <:+ cs := by
    intro cs
    unfold exponentSign
    split
    · exact List.suffix_cons _ _
    · exact List.suffix_cons _ _
    · exact List.suffix_rfl
  unfold exponentDigits? at h
  split at h
  · split at h
    · dsimp only at h
      split at h
      · exact absurd h nofun
      · obtain ⟨-, rfl⟩ := Prod.mk.inj (Option.some.inj h)
        exact String.utf8Len_le_of_suffix
          (((List.dropWhile_suffix _).trans (hsign _)).trans (List.suffix_cons _ _))
    · obtain ⟨-, rfl⟩ := Prod.mk.inj (Option.some.inj h)
      exact Nat.le_refl _
  · obtain ⟨-, rfl⟩ := Prod.mk.inj (Option.some.inj h)
    exact Nat.le_refl _

/-- A literal takes as many bytes as it has digits before the point, at least. -/
theorem unsigned?_spends {negative : Bool} {cs rest : List Char} {l : Number.Literal}
    (h : unsigned? negative cs = some (l, rest)) :
    l.negative = negative ∧ (l.whole ≠ [] ∧ ∀ c ∈ l.whole, c.isDigit = true) ∧
      l.whole.length + utf8Len rest ≤ utf8Len cs := by
  obtain ⟨⟨whole, cs₁⟩, hwhole, h⟩ := Option.bind_eq_some_iff.mp h
  obtain ⟨⟨fraction, cs₂⟩, hfraction, h⟩ := Option.bind_eq_some_iff.mp h
  obtain ⟨⟨exponent, cs₃⟩, hexponent, h⟩ := Option.bind_eq_some_iff.mp h
  obtain ⟨rfl, rfl⟩ := Prod.mk.inj (Option.some.inj h)
  obtain ⟨hdigits, hspent⟩ := wholeDigits?_spends hwhole
  have hspent' := fractionDigits?_spends hfraction
  have hspent'' := exponentDigits?_spends hexponent
  exact ⟨rfl, hdigits, by dsimp only; omega⟩

/-- A whole number is written in no more digits than its literal has before the point. -/
theorem numberWeight_ofLiteral? {l : Number.Literal} (hne : l.whole ≠ [])
    (hdigits : ∀ c ∈ l.whole, c.isDigit = true) :
    numberWeight (Number.ofLiteral? l) ≤ l.whole.length + l.negative.toNat := by
  have hlength := Decimal.length_digits_value_le hne hdigits
  unfold Number.ofLiteral?
  dsimp only
  split
  · rename_i hwhole
    show (Decimal.integer _).length ≤ _
    unfold Decimal.integer
    cases hnegative : l.negative with
    | true =>
        have hpos := (hwhole.2.2.2 hnegative).1
        rw [if_pos (rfl : true = true), if_pos (by omega), Int.natAbs_neg, Int.natAbs_natCast,
          List.length_cons]
        exact Nat.succ_le_succ hlength
    | false =>
        rw [if_neg Bool.false_ne_true, if_neg (by omega), Int.natAbs_natCast]
        exact hlength
  · cases Number.realOf? l with
    | none => exact Nat.zero_le _
    | some x => exact Nat.zero_le _

/-- **A number is written in no more bytes than it was read from.** -/
theorem number?_spends {cs rest : List Char} {l : Number.Literal} (h : number? cs = some (l, rest)) :
    numberWeight (Number.ofLiteral? l) + utf8Len rest ≤ utf8Len cs := by
  unfold number? at h
  split at h
  · obtain ⟨hnegative, hdigits, hspent⟩ := unsigned?_spends h
    have hweight := numberWeight_ofLiteral? hdigits.1 hdigits.2
    have hminus : '-'.utf8Size = 1 := by decide
    rw [hnegative, Bool.toNat_true] at hweight
    rw [utf8Len_cons]
    omega
  · obtain ⟨hnegative, hdigits, hspent⟩ := unsigned?_spends h
    have hweight := numberWeight_ofLiteral? hdigits.1 hdigits.2
    rw [hnegative, Bool.toNat_false] at hweight
    omega

/-- A string is written in no more bytes than it was read from, with the quote before it. -/
theorem stringWeight_spends {fuel : Nat} {cs rest : List Char} {o : Option (List Char)}
    (h : string? fuel cs = some (o, rest)) :
    stringWeight (o.map String.ofList) + utf8Len rest ≤ utf8Len cs + 1 := by
  have hspent := string?_spends h
  have hquote : '"'.utf8Size = 1 := by decide
  cases o with
  | none =>
      rw [Option.map_none, stringWeight]
      omega
  | some s =>
      rw [Option.getD_some] at hspent
      rw [Option.map_some, stringWeight, Json.quote, String.toList_ofList, List.cons_append,
        utf8Len_cons, utf8Len_append, utf8Len_cons, utf8Len_nil]
      omega

/-- What has been read to its end is one thing, with one rest of the text. -/
theorem eq_of_taken {α : Type} {x y : α} {rest rest' : List Char}
    (h : (x, some rest) = (y, some rest')) : x = y ∧ rest = rest' :=
  ⟨(Prod.mk.inj h).1, Option.some.inj (Prod.mk.inj h).2⟩

/-- No text comes after a tree that breaks off. -/
theorem ne_of_broken {α : Type} {x y : α} {rest : List Char} : (x, none) ≠ (y, some rest) := by
  intro h
  cases (Prod.mk.inj h).2

/-- A name of JSON takes the bytes of its letters, which are no fewer than its value weighs. -/
theorem name_spends {word : List Char} {node node' : Node} {cs rest : List Char}
    (hweight : node.weight ≤ utf8Len word) (h : name word node cs = (node', some rest)) :
    node'.weight + utf8Len rest ≤ utf8Len cs := by
  unfold name at h
  split at h
  · rename_i hword
    obtain ⟨rfl, rfl⟩ := eq_of_taken h
    obtain ⟨tail, rfl⟩ := List.isPrefixOf_iff_prefix.mp hword
    rw [List.drop_left, utf8Len_append]
    exact Nat.add_le_add_right hweight _
  · exact absurd h ne_of_broken

/-! ## Trees -/

/-- With so much fuel the readers take at least as many bytes off a text as what they read weighs. -/
structure Spends (fuel : Nat) : Prop where
  value : ∀ {cs rest node}, value fuel cs = (node, some rest) → node.weight + utf8Len rest ≤ utf8Len cs
  items : ∀ {cs rest xs}, items fuel cs = (xs, some rest) →
    max 1 (itemsWeight xs) + utf8Len rest ≤ utf8Len cs
  members : ∀ {cs rest ms}, members fuel cs = (ms, some rest) →
    max 1 (membersWeight ms) + utf8Len rest ≤ utf8Len cs

namespace Spends

variable {n : Nat} {cs rest : List Char}

theorem value_succ (h : Spends n) {node : Node} (hread : Node.value (n + 1) cs = (node, some rest)) :
    node.weight + utf8Len rest ≤ utf8Len cs := by
  unfold Node.value at hread
  split at hread
  · exact absurd hread ne_of_broken
  · -- A string.
    rename_i hcs
    have hquote := spends_mark hcs
    split at hread
    · rename_i o _ hstring
      obtain ⟨rfl, rfl⟩ := eq_of_taken hread
      have hspent := stringWeight_spends hstring
      rw [weight]
      omega
    · exact absurd hread ne_of_broken
  · -- A list.
    rename_i cs' hcs
    have hbracket := spends_mark hcs
    split at hread
    · rename_i hclosed
      have hclose := spends_mark hclosed
      obtain ⟨rfl, rfl⟩ := eq_of_taken hread
      rw [weight, itemsWeight]
      omega
    · have hskip := utf8Len_skipSpace_le cs'
      cases hitems : Node.items n (skipSpace cs') with
      | mk xs after =>
          rw [hitems] at hread
          obtain ⟨rfl, rfl⟩ := Prod.mk.inj hread
          have hspent := h.items hitems
          rw [weight]
          omega
  · -- An object.
    rename_i cs' hcs
    have hbrace := spends_mark hcs
    split at hread
    · rename_i hclosed
      have hclose := spends_mark hclosed
      obtain ⟨rfl, rfl⟩ := eq_of_taken hread
      rw [weight, membersWeight]
      omega
    · have hskip := utf8Len_skipSpace_le cs'
      cases hmembers : Node.members n (skipSpace cs') with
      | mk ms after =>
          rw [hmembers] at hread
          obtain ⟨rfl, rfl⟩ := Prod.mk.inj hread
          have hspent := h.members hmembers
          rw [weight]
          omega
  · -- A name or a number.
    rename_i hcs
    have hskip := utf8Len_skipSpace_le cs
    rw [hcs] at hskip
    split at hread
    · exact (name_spends (by decide) hread).trans hskip
    split at hread
    · exact (name_spends (by decide) hread).trans hskip
    split at hread
    · exact (name_spends (by decide) hread).trans hskip
    split at hread
    · rename_i hnumber
      obtain ⟨rfl, rfl⟩ := eq_of_taken hread
      exact (number?_spends hnumber).trans hskip
    · exact absurd hread ne_of_broken

theorem items_succ (h : Spends n) {xs : List Node} (hread : Node.items (n + 1) cs = (xs, some rest)) :
    max 1 (itemsWeight xs) + utf8Len rest ≤ utf8Len cs := by
  unfold Node.items at hread
  split at hread
  · exact absurd hread ne_of_broken
  · rename_i x _ hvalue
    have hspent := h.value hvalue
    split at hread
    · -- Another item comes after it.
      rename_i tail hcomma
      have hmark := spends_mark hcomma
      cases hitems : Node.items n tail with
      | mk ys after =>
          rw [hitems] at hread
          obtain ⟨rfl, rfl⟩ := Prod.mk.inj hread
          have hlater := h.items hitems
          rw [itemsWeight]
          omega
    · rename_i hclosed
      have hclose := spends_mark hclosed
      obtain ⟨rfl, rfl⟩ := eq_of_taken hread
      rw [itemsWeight, itemsWeight]
      omega
    · exact absurd hread ne_of_broken

theorem members_succ (h : Spends n) {ms : List (Option String × Node)}
    (hread : Node.members (n + 1) cs = (ms, some rest)) :
    max 1 (membersWeight ms) + utf8Len rest ≤ utf8Len cs := by
  unfold Node.members at hread
  split at hread
  · rename_i hcs
    have hquote := spends_mark hcs
    split at hread
    · exact absurd hread ne_of_broken
    · rename_i k _ hstring
      have hname := stringWeight_spends hstring
      dsimp only at hread
      split at hread
      · rename_i hcolon
        have hmark := spends_mark hcolon
        split at hread
        · exact absurd hread ne_of_broken
        · rename_i x _ hvalue
          have hspent := h.value hvalue
          split at hread
          · -- Another member comes after it.
            rename_i tail hcomma
            have hmark' := spends_mark hcomma
            cases hmembers : Node.members n tail with
            | mk ms' after =>
                rw [hmembers] at hread
                dsimp only at hread
                obtain ⟨rfl, rfl⟩ := Prod.mk.inj hread
                have hlater := h.members hmembers
                rw [membersWeight]
                omega
          · rename_i hclosed
            have hclose := spends_mark hclosed
            obtain ⟨rfl, rfl⟩ := eq_of_taken hread
            rw [membersWeight, membersWeight]
            omega
          · exact absurd hread ne_of_broken
      · exact absurd hread ne_of_broken
  · exact absurd hread ne_of_broken

end Spends

/-- **What is read weighs no more than the text it is read from**, by induction on the fuel. -/
theorem spends (fuel : Nat) : Spends fuel := by
  induction fuel with
  | zero =>
      exact ⟨fun h => absurd h ne_of_broken, fun h => absurd h ne_of_broken, fun h => absurd h ne_of_broken⟩
  | succ n ih => exact ⟨ih.value_succ, ih.items_succ, ih.members_succ⟩

end Node

/-! ## Texts -/

/-- **A text is decoded from a tree that weighs no more than the text.** -/
theorem Codec.exists_of_decodeText {α : Type} {c : Codec α} {s : String} {a : α}
    (h : c.decodeText s = .ok a) :
    ∃ node, c.decode maxDepth node = .ok a ∧ node.weight ≤ s.utf8ByteSize := by
  refine ⟨(Node.read s.toList).1, decode_of_decodeText h, ?_⟩
  -- The reader got to the end, or else the text would not have been decoded.
  obtain ⟨tail, htail⟩ : ∃ tail, (Node.read s.toList).2 = some tail := by
    have hnode := decode_of_decodeText h
    unfold decodeText at h
    cases hrest : (Node.read s.toList).2 with
    | some tail => exact ⟨tail, rfl⟩
    | none =>
        simp only [hnode, hrest] at h
        exact absurd h nofun
  have hspent := (Node.spends _).value (Prod.ext rfl htail)
  rw [← String.utf8Len_toList]
  exact Nat.le_of_add_right_le hspent

end PowerOfAttorney
