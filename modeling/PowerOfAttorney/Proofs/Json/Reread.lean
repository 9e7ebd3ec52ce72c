import PowerOfAttorney.Proofs.Json.Fidelity

/-!
# `PowerOfAttorney.Proofs.Json.Reread` — a value that was read is read from its own text again

A text and the text of its value differ: blanks are gone, of members with one name one is left, members
stand in the order of their names. So what is written of a value is never the text it came from, but it
nests no deeper, and its value is the same.

## Contents
- **Dictionaries.** `Dictionary.mem_ofList`: a dictionary holds what it is made of.
- **Trees.** `Node.toJson?_ofJson`, by induction on the tree that was read.
- **Texts.** `Codec.json_decodeText_of_toJson?`.
-/

namespace PowerOfAttorney

/-! ## Dictionaries -/

/-- A dictionary has no other entries than the list it is made of. -/
theorem Dictionary.mem_ofList {α : Type} {entries : List (String × α)} {e : String × α}
    (h : e ∈ (ofList entries).entries) : e ∈ entries := by
  -- By induction on the entries, from any dictionary to start with.
  have hfold : ∀ (entries : List (String × α)) (d : Dictionary α),
      e ∈ (entries.foldl (fun d x => d.insert x.1 x.2) d).entries → e ∈ d.entries ∨ e ∈ entries := by
    intro entries
    induction entries with
    | nil => exact fun d hd => Or.inl hd
    | cons x entries ih =>
        intro d hd
        rcases ih (d.insert x.1 x.2) hd with hinsert | hrest
        · rcases mem_insertEntry hinsert with rfl | hold
          · exact Or.inr List.mem_cons_self
          · exact Or.inl hold
        · exact Or.inr (List.mem_cons_of_mem _ hrest)
  rcases hfold entries empty h with hempty | hentries
  · exact absurd hempty List.not_mem_nil
  · exact hentries

/-! ## Trees -/

namespace Node

/-- Members are the value of their trees if each is. -/
theorem membersToJson?_membersOfJson {depth : Nat} {ms : List (String × Json)}
    (h : ∀ m ∈ ms, toJson? depth (ofJson m.2) = some m.2) :
    membersToJson? depth (membersOfJson ms) = some ms := by
  induction ms with
  | nil => rfl
  | cons m ms ih =>
      have hm := h m List.mem_cons_self
      have hms := ih fun m' hm' => h m' (List.mem_cons_of_mem _ hm')
      rw [membersOfJson, membersToJson?, hm, hms]
      rfl

mutual

/-- **The tree of a value that was read has that value**, with as many levels as it was read with. -/
theorem toJson?_ofJson {depth depth' : Nat} (hdepth : depth ≤ depth') :
    ∀ {node : Node} {j : Json}, toJson? depth node = some j → toJson? depth' (ofJson j) = some j
  | .null, j, h => by
      obtain rfl := Option.some.inj h
      rfl
  | .bool b, j, h => by
      obtain rfl := Option.some.inj h
      rfl
  | .num n, j, h => by
      obtain ⟨m, _, rfl⟩ := Option.map_eq_some_iff.mp h
      rfl
  | .str s, j, h => by
      obtain ⟨t, _, rfl⟩ := Option.map_eq_some_iff.mp h
      rfl
  | .arr xs, j, h => by
      rw [toJson?] at h
      split at h
      · exact absurd h nofun
      · obtain ⟨js, hjs, rfl⟩ := Option.map_eq_some_iff.mp h
        have hitems := itemsToJson?_itemsOfJson (Nat.sub_le_sub_right hdepth 1) hjs
        rw [ofJson, toJson?, if_neg (by omega), hitems]
        rfl
  | .obj xs, j, h => by
      rw [toJson?] at h
      split at h
      · exact absurd h nofun
      · obtain ⟨ms, hms, rfl⟩ := Option.map_eq_some_iff.mp h
        have heach := toJson?_of_membersToJson? (Nat.sub_le_sub_right hdepth 1) hms
        have hmembers := membersToJson?_membersOfJson fun m hm => heach m (Dictionary.mem_ofList hm)
        rw [Json.ofMembers, ofJson, toJson?, if_neg (by omega), hmembers, Option.map_some, Json.ofMembers,
          Dictionary.ofList_entries]
  | .broken, j, h => absurd h nofun

/-- So have the trees of the items of a list. -/
theorem itemsToJson?_itemsOfJson {depth depth' : Nat} (hdepth : depth ≤ depth') :
    ∀ {xs : List Node} {js : List Json}, itemsToJson? depth xs = some js →
      itemsToJson? depth' (itemsOfJson js) = some js
  | [], js, h => by
      obtain rfl := Option.some.inj h
      rfl
  | x :: xs, js, h => by
      obtain ⟨j, hj, hrest⟩ := Option.bind_eq_some_iff.mp h
      obtain ⟨js, hjs, hcons⟩ := Option.bind_eq_some_iff.mp hrest
      obtain rfl := Option.some.inj hcons
      rw [itemsOfJson, itemsToJson?, toJson?_ofJson hdepth hj, itemsToJson?_itemsOfJson hdepth hjs]
      rfl

/-- So has the tree of each member of an object. -/
theorem toJson?_of_membersToJson? {depth depth' : Nat} (hdepth : depth ≤ depth') :
    ∀ {xs : List (Option String × Node)} {ms : List (String × Json)},
      membersToJson? depth xs = some ms → ∀ m ∈ ms, toJson? depth' (ofJson m.2) = some m.2
  | [], ms, h => by
      obtain rfl := Option.some.inj h
      exact List.forall_mem_nil _
  | (k, x) :: xs, ms, h => by
      obtain ⟨name, _, hname⟩ := Option.bind_eq_some_iff.mp h
      obtain ⟨j, hj, hrest⟩ := Option.bind_eq_some_iff.mp hname
      obtain ⟨ms, hms, hcons⟩ := Option.bind_eq_some_iff.mp hrest
      obtain rfl := Option.some.inj hcons
      exact List.forall_mem_cons.mpr
        ⟨toJson?_ofJson hdepth hj, toJson?_of_membersToJson? hdepth hms⟩

end

end Node

/-! ## Texts -/

/-- **A value with no other numbers than whole ones is read from its text** if it has been read before. -/
theorem Codec.json_decodeText_of_toJson? {j : Json} (hwhole : j.isWhole = true) {depth : Nat}
    (hdepth : depth ≤ maxDepth) {node : Node} (h : node.toJson? depth = some j) :
    json.decodeText j.text = .ok j := by
  have hj := Node.toJson?_ofJson hdepth h
  rw [decodeText_text_of_isWhole json hwhole]
  unfold decodeJson json
  dsimp only
  rw [hj]

end PowerOfAttorney
