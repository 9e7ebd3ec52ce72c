import PowerOfAttorney.Proofs.Json.Record
import PowerOfAttorney.Proofs.Time.Date

/-!
# `PowerOfAttorney.Proofs.Json.Fidelity` — what is written of a value is read as that value

Every kind of value is read back from its JSON but one: an instant outside of the years 0 to 9999 is
written as a text that is no instant. So a codec is judged by the instants that its values hold.

## Contents
- **Dictionaries.** `Dictionary.ofList_entries`.
- **Codecs.** `Codec.ReadsBack`, with a lemma for each codec of texts, words, times and lists.
- **Parts.** `Part.ReadsBack`, carried through the operators that combine parts, and
  `Part.readsBack_codec` for the record that is made of them.
- **Texts.** `Codec.ReadsBack.decodeText_encodeText`, and `Codec.rewrite`, which writes what it reads.
-/

namespace PowerOfAttorney

variable {σ α β : Type}

/-! ## Dictionaries -/

namespace Dictionary

/-- A name that comes after all others is put last. -/
theorem insertEntry_of_last {name : String} (value : α) {entries : List (String × α)}
    (h : ∀ e ∈ entries, e.1 < name) : insertEntry name value entries = entries ++ [(name, value)] := by
  induction entries with
  | nil => rfl
  | cons head rest ih =>
      obtain ⟨other, v⟩ := head
      have hlt : other < name := h _ List.mem_cons_self
      have hne : name ≠ other := fun heq => String.lt_irrefl _ (heq ▸ hlt)
      rw [insertEntry, if_neg (fun hgt => String.lt_irrefl _ (String.lt_trans hlt hgt)), if_neg hne,
        ih fun e he => h e (List.mem_cons_of_mem _ he)]
      rfl

/-- **A dictionary is made of its entries again.** -/
theorem ofList_entries (d : Dictionary α) : ofList d.entries = d := by
  -- By induction on the entries that are left, the dictionary holding those before them.
  have hfold : ∀ (rest : List (String × α)) (e : Dictionary α), Sorted (e.entries ++ rest) →
      (rest.foldl (fun d x => d.insert x.1 x.2) e).entries = e.entries ++ rest := by
    intro rest
    induction rest with
    | nil =>
        intro e _
        exact (List.append_nil _).symm
    | cons x rest ih =>
        intro e hsorted
        have hlast : ∀ y ∈ e.entries, y.1 < x.1 := fun y hy =>
          (List.pairwise_append.mp hsorted).2.2 y hy x List.mem_cons_self
        have hentries : (e.insert x.1 x.2).entries = e.entries ++ [x] := insertEntry_of_last x.2 hlast
        rw [List.foldl_cons, ih, hentries, List.append_assoc, List.singleton_append]
        rw [hentries, List.append_assoc, List.singleton_append]
        exact hsorted
  have hentries : (ofList d.entries).entries = d.entries := hfold d.entries empty d.sorted
  cases d with
  | mk entries sorted =>
      dsimp only at hentries
      generalize ofList entries = d' at hentries
      cases d'
      cases hentries
      rfl

theorem eq_empty_of_isEmpty {d : Dictionary α} (h : d.isEmpty = true) : d = empty := by
  obtain ⟨entries, sorted⟩ := d
  obtain rfl : entries = [] := List.isEmpty_iff.mp h
  rfl

end Dictionary

/-! ## Codecs -/

theorem Json.str_ne_null (s : String) : str s ≠ null := nofun

theorem Node.ofJson_str (s : String) : ofJson (.str s) = .str (some s) := rfl

/-- Of what is written of a value, as deep as given, that value is read and no other. It is read if each
    of its instants can be read, and only then. Null is written of no value. -/
structure Codec.ReadsBack (c : Codec α) (depth : Nat) (instants : α → List Instant) : Prop where
  ne_null : ∀ a, c.encode a ≠ .null
  decode : ∀ a b, c.decode depth (.ofJson (c.encode a)) = .ok b ↔
    (∀ t ∈ instants a, t.IsWritable) ∧ b = a

namespace Codec

variable {depth : Nat}

/-- Values without instants are read back if they are. -/
theorem readsBack_of_eq {c : Codec α} (hnull : ∀ a, c.encode a ≠ .null)
    (h : ∀ a, c.decode depth (.ofJson (c.encode a)) = .ok a) : c.ReadsBack depth fun _ => [] := by
  refine ⟨hnull, fun a b => ?_⟩
  rw [h a, Except.ok.injEq]
  exact ⟨fun heq => ⟨List.forall_mem_nil _, heq.symm⟩, fun heq => heq.2.symm⟩

theorem readsBack_string : string.ReadsBack depth fun _ => [] :=
  readsBack_of_eq Json.str_ne_null fun _ => rfl

theorem readsBack_flag : flag.ReadsBack depth fun _ => [] :=
  readsBack_of_eq nofun fun _ => rfl

theorem readsBack_date : date.ReadsBack depth fun _ => [] := by
  refine readsBack_of_eq (fun d => Json.str_ne_null d.text) fun d => ?_
  unfold date
  dsimp only
  rw [Node.ofJson_str]
  dsimp only
  rw [Date.parse?_text]

theorem readsBack_word {ω : Type} [Word ω] : (word : Codec ω).ReadsBack depth fun _ => [] := by
  refine readsBack_of_eq (fun w => Json.str_ne_null (Word.text w)) fun w => ?_
  show wordOf (Word.text w) = _
  unfold wordOf
  rw [Word.ofText?_text]

theorem readsBack_strings : strings.ReadsBack (depth + 1) fun _ => [] := by
  have hmembers : ∀ entries : List (String × String),
      (Node.membersOfJson (entries.map fun e => (e.1, .str e.2))).mapM (stringMember depth) =
        .ok entries := by
    intro entries
    induction entries with
    | nil => rfl
    | cons e es ih =>
        rw [List.map_cons, Node.membersOfJson, List.mapM_cons, ih]
        rfl
  refine readsBack_of_eq nofun fun d => ?_
  show ((Node.membersOfJson (d.entries.map fun e => (e.1, .str e.2))).mapM (stringMember depth)).map
    Dictionary.ofList = _
  rw [hmembers]
  exact congrArg Except.ok d.ofList_entries

/-- Instants are read back if their year is one of four digits. -/
theorem readsBack_instant : instant.ReadsBack depth fun t => [t] := by
  refine ⟨fun t => Json.str_ne_null t.text, fun t t' => ?_⟩
  rw [List.forall_mem_singleton, ← Instant.parse?_text_eq_some_iff]
  unfold instant
  dsimp only
  rw [Node.ofJson_str]
  dsimp only
  generalize t.text = s
  cases Instant.parse? s with
  | none => exact ⟨nofun, nofun⟩
  | some t => simp

/-- Lists are read back item by item. -/
theorem readsBack_list {c : Codec α} {instants : α → List Instant} (h : c.ReadsBack depth instants) :
    (list c).ReadsBack (depth + 1) fun xs => xs.flatMap instants := by
  refine ⟨nofun, fun xs ys => ?_⟩
  show (Node.itemsOfJson (xs.map c.encode)).mapM (c.decode depth) = .ok ys ↔ _
  induction xs generalizing ys with
  | nil =>
      show Except.ok [] = .ok ys ↔ _
      rw [Except.ok.injEq]
      exact ⟨fun heq => ⟨List.forall_mem_nil _, heq.symm⟩, fun heq => heq.2.symm⟩
  | cons x xs ih =>
      rw [List.map_cons, Node.itemsOfJson, List.mapM_cons, List.flatMap_cons, List.forall_mem_append]
      constructor
      · intro hread
        cases hx : c.decode depth (.ofJson (c.encode x)) with
        | error why =>
            rw [hx] at hread
            exact absurd hread nofun
        | ok y =>
            rw [hx] at hread
            cases hxs : (Node.itemsOfJson (xs.map c.encode)).mapM (c.decode depth) with
            | error why =>
                rw [hxs] at hread
                exact absurd hread nofun
            | ok zs =>
                rw [hxs] at hread
                obtain ⟨hwritable, rfl⟩ := (h.decode x y).mp hx
                obtain ⟨hwritable', rfl⟩ := (ih zs).mp hxs
                exact ⟨⟨hwritable, hwritable'⟩, (Except.ok.inj hread).symm⟩
      · rintro ⟨⟨hx, hxs⟩, rfl⟩
        rw [(h.decode x x).mpr ⟨hx, rfl⟩, (ih xs).mpr ⟨hxs, rfl⟩]
        rfl

/-- A value that may be absent is read back if it is there. -/
theorem ReadsBack.option {c : Codec α} {instants : α → List Instant} (hc : c.ReadsBack depth instants)
    {o : Option α} (ho : o.isNone = false) (b : Option α) :
    (Codec.option c).decode depth (.ofJson ((Codec.option c).encode o)) = .ok b ↔
      (∀ t ∈ o.toList.flatMap instants, t.IsWritable) ∧ b = o := by
  cases o with
  | none => exact absurd ho nofun
  | some a =>
      have hnull : Node.ofJson (c.encode a) ≠ .null := by
        have hne := hc.ne_null a
        cases hencode : c.encode a with
        | null => exact absurd hencode hne
        | _ => exact nofun
      have hdecode : (Codec.option c).decode depth (.ofJson (c.encode a)) =
          (c.decode depth (.ofJson (c.encode a))).map some := by
        unfold Codec.option
        dsimp only
        split
        · rename_i heq
          exact absurd heq hnull
        · rfl
      show (Codec.option c).decode depth (.ofJson (c.encode a)) = _ ↔ _
      rw [hdecode, Option.toList_some, List.flatMap_singleton]
      cases hread : c.decode depth (.ofJson (c.encode a)) with
      | error why =>
          refine ⟨nofun, fun ⟨hwritable, _⟩ => ?_⟩
          rw [(hc.decode a a).mpr ⟨hwritable, rfl⟩] at hread
          exact absurd hread nofun
      | ok a' =>
          obtain ⟨hwritable, rfl⟩ := (hc.decode a a').mp hread
          show Except.ok (some a') = .ok b ↔ _
          rw [Except.ok.injEq]
          exact ⟨fun heq => ⟨hwritable, heq.symm⟩, fun heq => heq.2.symm⟩

end Codec

/-! ## Parts -/

/-- Of the members that are written of a record, a part reads the value that they were written of and no
    other. The members pass the checks if their instants can be read. -/
structure Part.ReadsBack (p : Part σ α) (depth : Nat) (value : σ → α) (instants : σ → List Instant) :
    Prop where
  names : ∀ s, ((p.members s).map Prod.fst).Sublist p.names
  check : ∀ s, (∀ t ∈ instants s, t.IsWritable) → ∀ m ∈ p.members s,
    ∃ check, (m.1, check) ∈ p.checks ∧ check depth (.ofJson m.2) = .ok ()
  build : p.names.Nodup → ∀ s lookup,
    (∀ name ∈ p.names, lookup name = ((p.members s).lookup name).map .ofJson) →
    ∀ a, p.build depth lookup = .ok a ↔ (∀ t ∈ instants s, t.IsWritable) ∧ a = value s

namespace Part

variable {depth : Nat}

theorem readsBack_seq {f : Part σ (α → β)} {x : Part σ α} {g : σ → α → β} {value : σ → α}
    {instants instants' : σ → List Instant} (hf : f.ReadsBack depth g instants)
    (hx : x.ReadsBack depth value instants') :
    (f <*> x).ReadsBack depth (fun s => g s (value s)) fun s => instants s ++ instants' s where
  names s := by
    show (List.map _ (f.members s ++ x.members s)).Sublist (List.map _ (f.checks ++ x.checks))
    rw [List.map_append, List.map_append]
    exact (hf.names s).append (hx.names s)
  check s hwritable m hm := by
    rw [List.forall_mem_append] at hwritable
    rcases List.mem_append.mp hm with hm | hm
    · obtain ⟨check, hcheck, hok⟩ := hf.check s hwritable.1 m hm
      exact ⟨check, List.mem_append_left _ hcheck, hok⟩
    · obtain ⟨check, hcheck, hok⟩ := hx.check s hwritable.2 m hm
      exact ⟨check, List.mem_append_right _ hcheck, hok⟩
  build hnodup s lookup hlookup b := by
    rw [names_seq] at hnodup hlookup
    have happend (name : String) : ((f <*> x).members s).lookup name =
        ((f.members s).lookup name).or ((x.members s).lookup name) := List.lookup_append
    obtain ⟨hnodupf, hnodupx, hdisjoint⟩ := List.nodup_append.mp hnodup
    -- The names of the two parts are different, so each part finds what it wrote.
    have hlookupf : ∀ name ∈ f.names, lookup name = ((f.members s).lookup name).map .ofJson := by
      intro name hname
      have hnone := lookup_eq_none_of_not_mem (hx.names s)
        fun hmem => hdisjoint _ hname _ hmem rfl
      rw [hlookup name (List.mem_append_left _ hname), happend, hnone, Option.or_none]
    have hlookupx : ∀ name ∈ x.names, lookup name = ((x.members s).lookup name).map .ofJson := by
      intro name hname
      have hnone := lookup_eq_none_of_not_mem (hf.names s)
        fun hmem => hdisjoint _ hmem _ hname rfl
      rw [hlookup name (List.mem_append_right _ hname), happend, hnone, Option.none_or]
    have hbuildf := hf.build hnodupf s lookup hlookupf
    have hbuildx := hx.build hnodupx s lookup hlookupx
    rw [build_seq_ok, List.forall_mem_append]
    constructor
    · rintro ⟨h, hh, a, ha, rfl⟩
      obtain ⟨hwritable, rfl⟩ := (hbuildf h).mp hh
      obtain ⟨hwritable', rfl⟩ := (hbuildx a).mp ha
      exact ⟨⟨hwritable, hwritable'⟩, rfl⟩
    · rintro ⟨⟨hwritable, hwritable'⟩, rfl⟩
      exact ⟨_, (hbuildf _).mpr ⟨hwritable, rfl⟩, _, (hbuildx _).mpr ⟨hwritable', rfl⟩, rfl⟩

theorem readsBack_map {f : α → β} {x : Part σ α} {value : σ → α} {instants : σ → List Instant}
    (hx : x.ReadsBack depth value instants) :
    (f <$> x).ReadsBack depth (fun s => f (value s)) instants where
  names := hx.names
  check := hx.check
  build hnodup s lookup hlookup b := by
    have hbuild := hx.build hnodup s lookup hlookup
    rw [build_map_ok]
    constructor
    · rintro ⟨a, ha, rfl⟩
      obtain ⟨hwritable, rfl⟩ := (hbuild a).mp ha
      exact ⟨hwritable, rfl⟩
    · rintro ⟨hwritable, rfl⟩
      exact ⟨_, (hbuild _).mpr ⟨hwritable, rfl⟩, rfl⟩

theorem readsBack_required {name : String} {get : σ → α} {c : Codec α} {instants : α → List Instant}
    (hc : c.ReadsBack depth instants) :
    (required name get c).ReadsBack depth get fun s => instants (get s) where
  names _ := List.Sublist.refl _
  check s hwritable m hm := by
    obtain rfl := List.mem_singleton.mp hm
    refine ⟨_, List.mem_singleton.mpr rfl, ?_⟩
    show (c.decode depth (.ofJson (c.encode (get s)))).map _ = _
    rw [(hc.decode _ _).mpr ⟨hwritable, rfl⟩]
    rfl
  build _ s lookup hlookup a := by
    have hfound : lookup name = some (.ofJson (c.encode (get s))) := by
      rw [hlookup name (List.mem_singleton.mpr rfl)]
      show (List.lookup name [(name, _)]).map _ = _
      rw [List.lookup_cons_self]
      rfl
    unfold required
    dsimp only
    rw [hfound]
    exact hc.decode _ _

/-- A member that may be left out is read back if its value is read back where it is written, and is the
    default where it is not. -/
theorem readsBack_optional {name : String} {get : σ → α} {c : Codec α} {default : α}
    {omitted : α → Bool} {instants : α → List Instant}
    (hwritten : ∀ a, omitted a = false → ∀ b, c.decode depth (.ofJson (c.encode a)) = .ok b ↔
      (∀ t ∈ instants a, t.IsWritable) ∧ b = a)
    (homitted : ∀ a, omitted a = true → instants a = [] ∧ a = default) :
    (optional name get c default omitted).ReadsBack depth get fun s => instants (get s) where
  names s := by
    show (List.map Prod.fst (if _ then _ else _)).Sublist [name]
    split
    · exact List.nil_sublist _
    · exact List.Sublist.refl _
  check s hwritable m hm := by
    change m ∈ (if omitted (get s) then [] else [(name, c.encode (get s))]) at hm
    split at hm
    · exact absurd hm List.not_mem_nil
    · rename_i hnot
      obtain rfl := List.mem_singleton.mp hm
      refine ⟨_, List.mem_singleton.mpr rfl, ?_⟩
      show (c.decode depth (.ofJson (c.encode (get s)))).map _ = _
      rw [(hwritten _ (Bool.eq_false_iff.mpr hnot) _).mpr ⟨hwritable, rfl⟩]
      rfl
  build _ s lookup hlookup a := by
    have hfound := hlookup name (List.mem_singleton.mpr rfl)
    change lookup name = (List.lookup name (if omitted (get s) then [] else
      [(name, c.encode (get s))])).map _ at hfound
    unfold optional
    dsimp only
    rw [hfound]
    cases hcase : omitted (get s) with
    | true =>
        obtain ⟨hnone, hdefault⟩ := homitted _ hcase
        show Except.ok default = .ok a ↔ _
        rw [hnone, ← hdefault, Except.ok.injEq]
        exact ⟨fun heq => ⟨List.forall_mem_nil _, heq.symm⟩, fun heq => heq.2.symm⟩
    | false =>
        simp only [Bool.false_eq_true, if_false, List.lookup_cons_self, Option.map_some]
        exact hwritten _ hcase a

/-- A member that is always written. -/
theorem readsBack_shown {name : String} {get : σ → α} {c : Codec α} {default : α}
    {instants : α → List Instant} (hc : c.ReadsBack depth instants) :
    (optional name get c default fun _ => false).ReadsBack depth get fun s => instants (get s) :=
  readsBack_optional (fun a _ => hc.decode a) nofun

theorem readsBack_text {name : String} {get : σ → String} :
    (text name get).ReadsBack depth get fun _ => [] :=
  readsBack_optional (fun a _ => Codec.readsBack_string.decode a)
    fun _ h => ⟨rfl, String.isEmpty_iff.mp h⟩

theorem readsBack_textShown {name : String} {get : σ → String} :
    (textShown name get).ReadsBack depth get fun _ => [] :=
  readsBack_shown Codec.readsBack_string

theorem readsBack_maybe {name : String} {get : σ → Option α} {c : Codec α}
    {instants : α → List Instant} (hc : c.ReadsBack depth instants) :
    (maybe name get c).ReadsBack depth get fun s => (get s).toList.flatMap instants := by
  refine readsBack_optional (fun o ho b => hc.option ho b) fun o ho => ?_
  obtain rfl := Option.isNone_iff_eq_none.mp ho
  exact ⟨rfl, rfl⟩

theorem readsBack_many {name : String} {get : σ → List α} {c : Codec α}
    {instants : α → List Instant} (hc : c.ReadsBack depth instants) :
    (many name get c).ReadsBack (depth + 1) get fun s => (get s).flatMap instants := by
  refine readsBack_optional (fun xs _ => (Codec.readsBack_list hc).decode xs) fun xs hxs => ?_
  obtain rfl := List.isEmpty_iff.mp hxs
  exact ⟨rfl, rfl⟩

/-! ## Records -/

/-- The members that are written pass the checks of their names. -/
theorem checkMembers_eq_ok {p : Part σ α} (hnodup : p.names.Nodup) (seen : List String)
    {ms : List (String × Json)} (hms : (ms.map Prod.fst).Nodup)
    (hseen : ∀ name ∈ ms.map Prod.fst, name ∉ seen)
    (hcheck : ∀ m ∈ ms, ∃ check, (m.1, check) ∈ p.checks ∧ check depth (.ofJson m.2) = .ok ()) :
    p.checkMembers depth seen (Node.membersOfJson ms) = .ok () := by
  induction ms generalizing seen with
  | nil => rfl
  | cons m ms ih =>
      obtain ⟨name, x⟩ := m
      obtain ⟨check, hmem, hok⟩ := hcheck _ List.mem_cons_self
      rw [List.map_cons, List.nodup_cons] at hms
      have hlookup : p.checks.lookup name = some check := by
        obtain ⟨before, after, hchecks⟩ := List.append_of_mem hmem
        unfold names at hnodup
        rw [hchecks, List.map_append, List.map_cons, List.nodup_append] at hnodup
        rw [hchecks, List.lookup_append, List.lookup_eq_none_iff.mpr, Option.none_or, List.lookup_cons_self]
        intro c hc
        have hne := hnodup.2.2 _ (List.mem_map_of_mem hc) _ List.mem_cons_self
        simpa using Ne.symm hne
      rw [Node.membersOfJson, checkMembers, hlookup]
      dsimp only
      rw [if_neg (hseen name List.mem_cons_self), hok]
      refine ih (name :: seen) hms.2 (fun other hother => ?_) fun m hm =>
        hcheck m (List.mem_cons_of_mem _ hm)
      rw [List.mem_cons, not_or]
      refine ⟨?_, hseen other (List.mem_cons_of_mem _ hother)⟩
      rintro rfl
      exact hms.1 hother

/-- **A record is read back if all its parts are**, none of them writing under the name of another. Its
    instants may be listed in any way. -/
theorem readsBack_codec {p : Part α α} {value : α → α} {instants instants' : α → List Instant}
    (hp : p.ReadsBack depth value instants) (hnodup : p.names.Nodup) (hvalue : ∀ a, value a = a)
    (hinstants : ∀ a t, t ∈ instants a ↔ t ∈ instants' a) :
    (codec p).ReadsBack (depth + 1) instants' := by
  refine ⟨nofun, fun a b => ?_⟩
  show p.decode (depth + 1) (.obj (Node.membersOfJson (p.members a))) = .ok b ↔ _
  have hbuild := hp.build hnodup a (fun name => (Node.membersOfJson (p.members a)).lookup (some name))
    (fun name _ => Node.lookup_membersOfJson _ _) b
  rw [hvalue] at hbuild
  simp only [← hinstants]
  rw [← hbuild, decode]
  by_cases hwritable : ∀ t ∈ instants a, t.IsWritable
  · rw [checkMembers_eq_ok hnodup [] ((hp.names a).nodup hnodup) (fun _ _ => List.not_mem_nil)
      (hp.check a hwritable)]
    rfl
  · -- If an instant cannot be read, building the record fails, whatever the checks say.
    have hfails : ¬ ∃ b, p.build depth
        (fun name => (Node.membersOfJson (p.members a)).lookup (some name)) = .ok b := by
      rintro ⟨b, hb⟩
      exact hwritable ((hp.build hnodup a _ (fun name _ => Node.lookup_membersOfJson _ _) b).mp hb).1
    refine ⟨fun h => ?_, fun h => absurd ⟨b, h⟩ hfails⟩
    cases hcheck : p.checkMembers depth [] (Node.membersOfJson (p.members a)) with
    | error why =>
        rw [hcheck] at h
        cases h
    | ok _ =>
        rw [hcheck] at h
        exact h

end Part

namespace Codec

/-! ## Texts -/

/-- **The text of a value reads as the value if its instants can be read, and as nothing otherwise.** -/
theorem ReadsBack.decodeText_encodeText {c : Codec α} {instants : α → List Instant}
    (h : c.ReadsBack maxDepth instants) (hplain : c.IsPlain) {a b : α} :
    c.decodeText (c.encodeText a) = .ok b ↔ (∀ t ∈ instants a, t.IsWritable) ∧ b = a := by
  unfold encodeText
  rw [decodeText_text c (hplain a)]
  exact h.decode a b

/-- Reads a text and writes what was read. -/
def rewrite (c : Codec α) (s : String) : Except DecodeError String :=
  (c.decodeText s).map c.encodeText

/-- Of a text that gives a value, the rewritten text is that of the value. -/
theorem rewrite_eq_ok {c : Codec α} {s : String} {a : α} (h : c.decodeText s = .ok a) :
    c.rewrite s = .ok (c.encodeText a) := by
  unfold rewrite
  rw [h]
  rfl

end Codec

end PowerOfAttorney
