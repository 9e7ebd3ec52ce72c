import PowerOfAttorney.Json.Record
import PowerOfAttorney.Proofs.Json.RoundTrip

/-!
# `PowerOfAttorney.Proofs.Json.Record` — how records are written and read, part by part

A record is described by parts, so what is to be known of it is known of each part and carried through
the operators that combine them.

## Contents
- **Lists.** `mem_of_lookup`, and `exists_of_mapM` for what is read item by item.
- **Codecs.** `Codec.IsPlain`: no numbers are written.
- **Writing.** `Part.IsOrderly`: members are written in the order of their declaration, none twice, and
  without numbers.
- **Reading.** `Part.build_seq_ok` takes a record that was read apart into its parts.
- **One member.** `Part.decode_ofJson`: reading one member of a written object passes over the others.
- **Read as a whole.** `Part.decode_ok` tells what a record was read from.
-/

namespace PowerOfAttorney

variable {σ α β : Type}

/-! ## Lists -/

/-- What is found under a name is an entry of that name. -/
theorem mem_of_lookup [BEq α] [LawfulBEq α] {entries : List (α × β)} {k : α} {x : β}
    (h : entries.lookup k = some x) : (k, x) ∈ entries := by
  obtain ⟨before, after, rfl, _⟩ := List.lookup_eq_some_iff.mp h
  exact List.mem_append_right _ List.mem_cons_self

/-- As many values are read as there are items: each is read from an item, and from each item one is. -/
theorem exists_of_mapM {ε : Type} {f : α → Except ε β} {xs : List α} {ys : List β}
    (h : xs.mapM f = .ok ys) : ys.length = xs.length ∧ (∀ y ∈ ys, ∃ x ∈ xs, f x = .ok y) ∧
      ∀ x ∈ xs, ∃ y ∈ ys, f x = .ok y := by
  induction xs generalizing ys with
  | nil =>
      obtain rfl := Except.ok.inj h
      exact ⟨rfl, List.forall_mem_nil _, List.forall_mem_nil _⟩
  | cons x xs ih =>
      rw [List.mapM_cons] at h
      cases hx : f x with
      | error why =>
          rw [hx] at h
          exact absurd h nofun
      | ok y =>
          cases hxs : xs.mapM f with
          | error why =>
              rw [hx, hxs] at h
              exact absurd h nofun
          | ok zs =>
              rw [hx, hxs] at h
              obtain rfl := Except.ok.inj h
              obtain ⟨hlength, hfrom, hto⟩ := ih hxs
              refine ⟨congrArg (· + 1) hlength, List.forall_mem_cons.mpr ⟨?_, fun z hz => ?_⟩,
                List.forall_mem_cons.mpr ⟨?_, fun w hw => ?_⟩⟩
              · exact ⟨x, List.mem_cons_self, hx⟩
              · obtain ⟨x', hx', hz⟩ := hfrom z hz
                exact ⟨x', List.mem_cons_of_mem _ hx', hz⟩
              · exact ⟨y, List.mem_cons_self, hx⟩
              · obtain ⟨y', hy', hw⟩ := hto w hw
                exact ⟨y', List.mem_cons_of_mem _ hy', hw⟩

/-! ## Codecs -/

/-- No numbers are written. -/
def Codec.IsPlain (c : Codec α) : Prop :=
  ∀ a, (c.encode a).isPlain = true

namespace Codec

@[simp] theorem isPlain_string : string.IsPlain := fun _ => rfl

@[simp] theorem isPlain_flag : flag.IsPlain := fun _ => rfl

@[simp] theorem isPlain_instant : instant.IsPlain := fun _ => rfl

@[simp] theorem isPlain_date : date.IsPlain := fun _ => rfl

@[simp] theorem isPlain_word {ω : Type} [Word ω] : (word : Codec ω).IsPlain := fun _ => rfl

@[simp] theorem isPlain_option {c : Codec α} (h : c.IsPlain) : (option c).IsPlain := by
  intro a
  cases a with
  | none => rfl
  | some a => exact h a

@[simp] theorem isPlain_list {c : Codec α} (h : c.IsPlain) : (list c).IsPlain := by
  intro xs
  show Json.isPlainItems (xs.map c.encode) = true
  induction xs with
  | nil => rfl
  | cons x xs ih =>
      rw [List.map_cons, Json.isPlainItems, h x, ih]
      rfl

@[simp] theorem isPlain_strings : strings.IsPlain := by
  intro d
  show Json.isPlainMembers (d.entries.map fun e => (e.1, .str e.2)) = true
  induction d.entries with
  | nil => rfl
  | cons e es ih =>
      rw [List.map_cons, Json.isPlainMembers, ih]
      rfl

end Codec

/-! ## Writing -/

namespace Json

theorem isPlainMembers_append (xs ys : List (String × Json)) :
    isPlainMembers (xs ++ ys) = (isPlainMembers xs && isPlainMembers ys) := by
  induction xs with
  | nil => rfl
  | cons x xs ih => rw [List.cons_append, isPlainMembers, isPlainMembers, ih, Bool.and_assoc]

end Json

namespace Part

/-- The names of the members. -/
def names (p : Part σ α) : List String :=
  p.checks.map Prod.fst

theorem names_seq (f : Part σ (α → β)) (x : Part σ α) : (f <*> x).names = f.names ++ x.names :=
  List.map_append

/-- The first member of the left part is the first of the whole. -/
theorem exists_members_seq {f : Part σ (α → β)} {x : Part σ α} {s : σ} {m : String × Json}
    (h : ∃ rest, f.members s = m :: rest) : ∃ rest, (f <*> x).members s = m :: rest := by
  obtain ⟨rest, h⟩ := h
  refine ⟨rest ++ x.members s, ?_⟩
  show f.members s ++ x.members s = _
  rw [h, List.cons_append]

theorem exists_members_map {f : α → β} {x : Part σ α} {s : σ} {m : String × Json}
    (h : ∃ rest, x.members s = m :: rest) : ∃ rest, (f <$> x).members s = m :: rest :=
  h

/-- Members are written in the order of their declaration, each once at most, and without numbers. -/
structure IsOrderly (p : Part σ α) : Prop where
  names : ∀ s, ((p.members s).map Prod.fst).Sublist p.names
  plain : ∀ s, Json.isPlainMembers (p.members s) = true

/-- Nothing is written under the names of others. -/
theorem lookup_eq_none_of_not_mem {p : Part σ α} {s : σ}
    (hnames : ((p.members s).map Prod.fst).Sublist p.names) {name : String} (h : name ∉ p.names) :
    (p.members s).lookup name = none := by
  refine List.lookup_eq_none_iff.mpr fun m hm => ?_
  have hne : name ≠ m.1 := by
    rintro rfl
    exact h (hnames.subset (List.mem_map_of_mem hm))
  simpa using hne

@[simp] theorem isOrderly_seq {f : Part σ (α → β)} {x : Part σ α} (hf : f.IsOrderly) (hx : x.IsOrderly) :
    (f <*> x).IsOrderly where
  names s := by
    show (List.map _ (f.members s ++ x.members s)).Sublist (List.map _ (f.checks ++ x.checks))
    rw [List.map_append, List.map_append]
    exact (hf.names s).append (hx.names s)
  plain s := by
    show Json.isPlainMembers (f.members s ++ x.members s) = true
    rw [Json.isPlainMembers_append, hf.plain s, hx.plain s]
    rfl

@[simp] theorem isOrderly_map {f : α → β} {x : Part σ α} (hx : x.IsOrderly) : (f <$> x).IsOrderly where
  names s := hx.names s
  plain s := hx.plain s

@[simp] theorem isOrderly_required {name : String} {get : σ → α} {c : Codec α} (hc : c.IsPlain) :
    (required name get c).IsOrderly where
  names _ := List.Sublist.refl _
  plain s := by
    show Json.isPlainMembers [(name, c.encode (get s))] = true
    rw [Json.isPlainMembers, hc]
    rfl

@[simp] theorem isOrderly_optional {name : String} {get : σ → α} {c : Codec α} (hc : c.IsPlain)
    {default : α} {omitted : α → Bool} : (optional name get c default omitted).IsOrderly where
  names s := by
    show (List.map Prod.fst (if _ then _ else _)).Sublist [name]
    split
    · exact List.nil_sublist _
    · exact List.Sublist.refl _
  plain s := by
    show Json.isPlainMembers (if _ then _ else _) = true
    split
    · rfl
    · rw [Json.isPlainMembers, hc]
      rfl

@[simp] theorem isOrderly_text {name : String} {get : σ → String} : (text name get).IsOrderly :=
  isOrderly_optional Codec.isPlain_string

@[simp] theorem isOrderly_textShown {name : String} {get : σ → String} :
    (textShown name get).IsOrderly :=
  isOrderly_optional Codec.isPlain_string

@[simp] theorem isOrderly_maybe {name : String} {get : σ → Option α} {c : Codec α} (hc : c.IsPlain) :
    (maybe name get c).IsOrderly :=
  isOrderly_optional (Codec.isPlain_option hc)

@[simp] theorem isOrderly_many {name : String} {get : σ → List α} {c : Codec α} (hc : c.IsPlain) :
    (many name get c).IsOrderly :=
  isOrderly_optional (Codec.isPlain_list hc)

/-- A record of orderly parts is written without numbers. -/
theorem isPlain_codec {p : Part α α} (h : p.IsOrderly) : (codec p).IsPlain :=
  fun a => h.plain a

/-! ## Reading -/

/-- A combined part is read if its parts are. -/
theorem build_seq_ok {f : Part σ (α → β)} {x : Part σ α} {depth : Nat} {lookup : String → Option Node}
    {b : β} : (f <*> x).build depth lookup = .ok b ↔
      ∃ g, f.build depth lookup = .ok g ∧ ∃ a, x.build depth lookup = .ok a ∧ g a = b := by
  show ((f.build depth lookup).bind fun g => (x.build depth lookup).bind fun a => .ok (g a)) = _ ↔ _
  cases f.build depth lookup with
  | error why => exact ⟨nofun, fun ⟨_, h, _⟩ => absurd h nofun⟩
  | ok g =>
      cases x.build depth lookup with
      | error why => exact ⟨nofun, fun ⟨_, _, _, h, _⟩ => absurd h nofun⟩
      | ok a =>
          constructor
          · intro h
            exact ⟨g, rfl, a, rfl, Except.ok.inj h⟩
          · rintro ⟨_, hg, _, ha, rfl⟩
            rw [Except.ok.inj hg, Except.ok.inj ha]
            rfl

theorem build_map_ok {f : α → β} {x : Part σ α} {depth : Nat} {lookup : String → Option Node} {b : β} :
    (f <$> x).build depth lookup = .ok b ↔ ∃ a, x.build depth lookup = .ok a ∧ f a = b := by
  show ((Except.ok f : Except DecodeError (α → β)).bind fun g =>
    (x.build depth lookup).bind fun a => .ok (g a)) = _ ↔ _
  cases x.build depth lookup with
  | error why => exact ⟨nofun, fun ⟨_, h, _⟩ => absurd h nofun⟩
  | ok a =>
      constructor
      · intro h
        exact ⟨a, rfl, Except.ok.inj h⟩
      · rintro ⟨_, ha, rfl⟩
        rw [Except.ok.inj ha]
        rfl

end Part

/-! ## One member -/

namespace Node

mutual

/-- The tree of a value does not break off. -/
theorem intact_ofJson : ∀ j : Json, intact (ofJson j) = true
  | .null | .bool _ | .num _ | .str _ => rfl
  | .arr xs => intactItems_ofJson xs
  | .obj ms => intactMembers_ofJson ms

theorem intactItems_ofJson : ∀ xs : List Json, intactItems (itemsOfJson xs) = true
  | [] => rfl
  | x :: xs => by
      rw [itemsOfJson, intactItems, intact_ofJson x, intactItems_ofJson xs]
      rfl

theorem intactMembers_ofJson : ∀ ms : List (String × Json), intactMembers (membersOfJson ms) = true
  | [] => rfl
  | (k, x) :: ms => by
      rw [membersOfJson, intactMembers, intact_ofJson x, intactMembers_ofJson ms]
      rfl

end

/-- A member is found where it was written. -/
theorem lookup_membersOfJson (ms : List (String × Json)) (name : String) :
    (membersOfJson ms).lookup (some name) = (ms.lookup name).map ofJson := by
  induction ms with
  | nil => rfl
  | cons m ms ih =>
      obtain ⟨k, x⟩ := m
      rw [membersOfJson]
      by_cases h : name = k
      · subst h
        simp
      · have hsome : (some name == some k) = false := by simp [h]
        have hname : (name == k) = false := by simp [h]
        rw [List.lookup_cons, List.lookup_cons, hsome, hname]
        exact ih

end Node

namespace Part

/-- A description of one member passes over the others, as long as its own comes once and passes. -/
theorem checkMembers_ofJson {p : Part σ α} {name : String}
    {check : (depth : Nat) → Node → Except DecodeError Unit} (hp : p.checks = [(name, check)])
    (depth : Nat) (seen : List String) {ms : List (String × Json)} (hnodup : (ms.map Prod.fst).Nodup)
    (hseen : name ∈ seen → name ∉ ms.map Prod.fst)
    (hcheck : ∀ x, (name, x) ∈ ms → check depth (.ofJson x) = .ok ()) :
    p.checkMembers depth seen (Node.membersOfJson ms) = .ok () := by
  induction ms generalizing seen with
  | nil => rfl
  | cons m ms ih =>
      obtain ⟨k, x⟩ := m
      rw [List.map_cons, List.nodup_cons] at hnodup
      rw [Node.membersOfJson, checkMembers, hp]
      by_cases hk : k = name
      · subst hk
        have hnot : k ∉ seen := fun hmem => hseen hmem List.mem_cons_self
        simp only [List.lookup_cons, BEq.rfl]
        rw [if_neg hnot, hcheck x List.mem_cons_self]
        exact ih (k :: seen) hnodup.2 (fun _ => hnodup.1)
          fun y hy => hcheck y (List.mem_cons_of_mem _ hy)
      · have hne : (k == name) = false := by simp [hk]
        simp only [List.lookup_cons, hne, List.lookup_nil]
        rw [Node.intact_ofJson x, if_pos rfl]
        exact ih seen hnodup.2 (fun hmem hms => hseen hmem (List.mem_cons_of_mem _ hms))
          fun y hy => hcheck y (List.mem_cons_of_mem _ hy)

/-- Of a written object, a description of one member reads that one. -/
theorem decode_ofJson {p : Part σ α} {name : String}
    {check : (depth : Nat) → Node → Except DecodeError Unit} (hp : p.checks = [(name, check)])
    (depth : Nat) {ms : List (String × Json)} (hnodup : (ms.map Prod.fst).Nodup)
    (hcheck : ∀ x, (name, x) ∈ ms → check depth (.ofJson x) = .ok ()) :
    p.decode (depth + 1) (.ofJson (.obj ms)) =
      p.build depth fun name => (ms.lookup name).map .ofJson := by
  rw [Node.ofJson, decode, checkMembers_ofJson hp depth [] hnodup (by simp) hcheck]
  simp only [Node.lookup_membersOfJson]
  rfl

/-! ## Read as a whole -/

theorem length_of_checkItems {depth : Nat}
    {checks : List (String × ((depth : Nat) → Node → Except DecodeError Unit))} {items : List Node}
    (h : checkItems depth checks items = .ok ()) : items.length ≤ checks.length := by
  induction checks generalizing items with
  | nil =>
      cases items with
      | nil => exact Nat.le_refl _
      | cons node rest => exact absurd h nofun
  | cons check checks ih =>
      cases items with
      | nil => exact Nat.zero_le _
      | cons node rest =>
          rw [checkItems] at h
          cases hnode : check.2 depth node with
          | error why =>
              rw [hnode] at h
              exact absurd h nofun
          | ok _ =>
              rw [hnode] at h
              exact Nat.succ_le_succ (ih h)

/-- What can be read is an object, or a list no longer than the members. -/
theorem decode_ok {p : Part σ α} {depth : Nat} {node : Node} {a : α}
    (h : p.decode (depth + 1) node = .ok a) :
    (∃ ms, node = .obj ms ∧ p.build depth (fun name => ms.lookup (some name)) = .ok a) ∨
      ∃ items, node = .arr items ∧ items.length ≤ p.checks.length ∧
        p.build depth (fun name => (p.names.zip items).lookup name) = .ok a := by
  cases node with
  | obj ms =>
      rw [decode] at h
      cases hcheck : p.checkMembers depth [] ms with
      | error why =>
          rw [hcheck] at h
          exact absurd h nofun
      | ok _ =>
          rw [hcheck] at h
          exact .inl ⟨ms, rfl, h⟩
  | arr items =>
      rw [decode] at h
      cases hcheck : checkItems depth p.checks items with
      | error why =>
          rw [hcheck] at h
          exact absurd h nofun
      | ok _ =>
          rw [hcheck] at h
          exact .inr ⟨items, rfl, length_of_checkItems hcheck, h⟩
  | _ => exact absurd h nofun

end Part

end PowerOfAttorney
