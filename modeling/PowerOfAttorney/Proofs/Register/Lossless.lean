import PowerOfAttorney.Proofs.Json.Length
import PowerOfAttorney.Proofs.Json.Reread
import PowerOfAttorney.Proofs.Register.History

/-!
# `PowerOfAttorney.Proofs.Register.Lossless` — the record of an update that was read loses nothing

A record holds the values of changes as texts, and all texts with heads of 64 bits. An update that was
read from a text has values that nest no deeper than a text may, and none of its texts is longer than the
text it was read from. So its record can always be encoded, and gives the update back.

## Contents
- **Records.** `Part.exists_build_of_decode`: the members of a record weigh less than the record.
- **Updates.** `Update.IsTaken size`, what the text of an update of so many bytes can give.
- **Sizes.** `Update.IsTaken.fits`.
- **The record.** `AuditRecord.lossless`.
-/

namespace PowerOfAttorney

open String (utf8Len)

variable {α β : Type}

/-! ## Records -/

namespace Part

variable {σ : Type} {depth : Nat}

/-- What the members of a record are read from weighs less than the record. -/
theorem exists_build_of_decode {p : Part σ α} {node : Node} {a : α} (h : p.decode depth node = .ok a) :
    ∃ depth' lookup, depth' < depth ∧ p.build depth' lookup = .ok a ∧
      ∀ name child, lookup name = some child → child.weight < node.weight := by
  cases depth with
  | zero => exact absurd h nofun
  | succ depth =>
      rcases decode_ok h with ⟨ms, rfl, hbuild⟩ | ⟨items, rfl, _, hbuild⟩
      · exact ⟨depth, _, Nat.lt_succ_self depth, hbuild, fun _ _ hchild =>
          Node.weight_lt_of_mem_members (mem_of_lookup hchild)⟩
      · exact ⟨depth, _, Nat.lt_succ_self depth, hbuild, fun _ _ hchild =>
          Node.weight_lt_of_mem_items (List.of_mem_zip (mem_of_lookup hchild)).2⟩

/-- A member that has to be there was read. -/
theorem exists_of_build_required {name : String} {get : σ → α} {c : Codec α}
    {lookup : String → Option Node} {a : α} (h : (required name get c).build depth lookup = .ok a) :
    ∃ child, lookup name = some child ∧ c.decode depth child = .ok a := by
  unfold required at h
  dsimp only at h
  cases hchild : lookup name with
  | none =>
      rw [hchild] at h
      exact absurd h nofun
  | some child =>
      rw [hchild] at h
      exact ⟨child, rfl, h⟩

/-- A member that need not be there was read, or else it stands for what it is by default. -/
theorem exists_of_build_optional {name : String} {get : σ → α} {c : Codec α} {default : α}
    {omitted : α → Bool} {lookup : String → Option Node} {a : α}
    (h : (optional name get c default omitted).build depth lookup = .ok a) :
    (∃ child, lookup name = some child ∧ c.decode depth child = .ok a) ∨ a = default := by
  unfold optional at h
  dsimp only at h
  cases hchild : lookup name with
  | none =>
      rw [hchild] at h
      exact Or.inr (Except.ok.inj h).symm
  | some child =>
      rw [hchild] at h
      exact Or.inl ⟨child, rfl, h⟩

end Part

namespace Codec

variable {depth : Nat}

/-- A string is no longer than what it was read from. -/
theorem utf8ByteSize_le_of_decode_string {node : Node} {s : String} (h : string.decode depth node = .ok s) :
    s.utf8ByteSize ≤ node.weight := by
  have hescape : ∀ cs : List Char, utf8Len cs ≤ utf8Len (cs.flatMap Json.escape) := by
    intro cs
    induction cs with
    | nil => exact Nat.le_refl 0
    | cons c cs ih =>
        have hc := Node.utf8Size_le_escape c
        rw [List.flatMap_cons, String.utf8Len_append, String.utf8Len_cons]
        omega
  cases node with
  | str o =>
      cases o with
      | none => simp [string] at h
      | some t =>
          obtain rfl := Except.ok.inj h
          have ht := hescape t.toList
          rw [String.utf8Len_toList] at ht
          rw [Node.weight, Node.stringWeight, Json.quote, String.utf8Len_append, String.utf8Len_cons]
          omega
  | _ => simp [string] at h

/-- The items of a list were read from items that weigh less than the list. -/
theorem exists_of_decode_list {c : Codec α} {node : Node} {as : List α}
    (h : (list c).decode depth node = .ok as) :
    as.length ≤ node.weight ∧
      ∀ a ∈ as, ∃ child depth', depth' < depth ∧ child.weight < node.weight ∧
        c.decode depth' child = .ok a := by
  unfold list at h
  dsimp only at h
  split at h
  · rename_i items
    split at h
    · exact absurd h nofun
    · rename_i hdepth
      obtain ⟨hlength, hmem, _⟩ := exists_of_mapM h
      refine ⟨hlength ▸ Node.length_le_weight items, fun a ha => ?_⟩
      obtain ⟨child, hchild, hdecode⟩ := hmem a ha
      exact ⟨child, depth - 1, by omega, Node.weight_lt_of_mem_items hchild, hdecode⟩
  · exact absurd h nofun

end Codec

/-! ## Updates -/

/-- A JSON value as the text of an update of so many bytes may give it: it is read from a part of the
    text, or it is null because there is none. -/
def Json.IsTaken (j : Json) (size : Nat) : Prop :=
  j = .null ∨ ∃ depth node, depth ≤ Codec.maxDepth ∧ Node.toJson? depth node = some j ∧ node.weight ≤ size

/-- A change as the text of an update of so many bytes may give it. -/
structure Change.IsTaken (c : Change) (size : Nat) : Prop where
  key : c.key.utf8ByteSize ≤ size
  old : c.old.IsTaken size
  new : c.new.IsTaken size

theorem Json.IsTaken.mono {j : Json} {size size' : Nat} (h : j.IsTaken size) (hle : size ≤ size') :
    j.IsTaken size' := by
  rcases h with rfl | ⟨depth, node, hdepth, hj, hnode⟩
  · exact Or.inl rfl
  · exact Or.inr ⟨depth, node, hdepth, hj, Nat.le_trans hnode hle⟩

theorem Change.IsTaken.mono {c : Change} {size size' : Nat} (h : c.IsTaken size) (hle : size ≤ size') :
    c.IsTaken size' where
  key := Nat.le_trans h.key hle
  old := h.old.mono hle
  new := h.new.mono hle

/-- An update as a text of so many bytes may give it. -/
structure Update.IsTaken (u : Update) (size : Nat) : Prop where
  id : u.id.utf8ByteSize ≤ size
  uid : u.uid.utf8ByteSize ≤ size
  author : u.author.utf8ByteSize ≤ size
  type : u.type.utf8ByteSize ≤ size
  count : u.changes.length ≤ size
  changes : ∀ c ∈ u.changes, c.IsTaken size

/-- A value that is read as any JSON may be. -/
theorem Json.isTaken_of_build {σ : Type} {name : String} {get : σ → Json} {omitted : Json → Bool} {j : Json}
    {depth size : Nat} {lookup : String → Option Node} (hdepth : depth ≤ Codec.maxDepth)
    (hlookup : ∀ child, lookup name = some child → child.weight ≤ size)
    (h : (Part.optional name get .json .null omitted).build depth lookup = .ok j) : j.IsTaken size := by
  rcases Part.exists_of_build_optional h with ⟨child, hchild, hdecode⟩ | rfl
  · refine Or.inr ⟨depth, child, hdepth, ?_, hlookup child hchild⟩
    unfold Codec.json at hdecode
    dsimp only at hdecode
    cases hj : child.toJson? depth with
    | none =>
        rw [hj] at hdecode
        exact absurd hdecode nofun
    | some j' =>
        rw [hj] at hdecode
        rw [Except.ok.inj hdecode]
  · exact Or.inl rfl

/-- A change that was read is taken from the text. -/
theorem Change.isTaken_of_decode {c : Change} {depth : Nat} {node : Node} (hdepth : depth ≤ Codec.maxDepth)
    (h : Change.codec.decode depth node = .ok c) : c.IsTaken node.weight := by
  obtain ⟨depth', lookup, hlt, hbuild, hlookup⟩ := Part.exists_build_of_decode h
  obtain ⟨_, hparts, new, hnew, rfl⟩ := Part.build_seq_ok.mp hbuild
  obtain ⟨_, hfirst, old, hold, rfl⟩ := Part.build_seq_ok.mp hparts
  obtain ⟨key, hkey, rfl⟩ := Part.build_map_ok.mp hfirst
  obtain ⟨child, hchild, hstring⟩ := Part.exists_of_build_required hkey
  have hsize : ∀ name child, lookup name = some child → child.weight ≤ node.weight :=
    fun name child hchild => Nat.le_of_lt (hlookup name child hchild)
  exact {
    key := Nat.le_trans (Codec.utf8ByteSize_le_of_decode_string hstring) (hsize _ child hchild)
    old := Json.isTaken_of_build (by omega) (hsize "old") hold
    new := Json.isTaken_of_build (by omega) (hsize "new") hnew }

/-- A text that may be left out is no longer than the record it was read from. -/
theorem Part.utf8ByteSize_le_of_build_text {σ : Type} {name : String} {get : σ → String} {depth size : Nat}
    {lookup : String → Option Node} {s : String}
    (hlookup : ∀ child, lookup name = some child → child.weight ≤ size)
    (h : (text name get).build depth lookup = .ok s) : s.utf8ByteSize ≤ size := by
  rcases exists_of_build_optional h with ⟨child, hchild, hstring⟩ | rfl
  · exact Nat.le_trans (Codec.utf8ByteSize_le_of_decode_string hstring) (hlookup child hchild)
  · exact Nat.zero_le _

/-- **An update that was read is taken from the text.** -/
theorem Update.isTaken_of_decodeText {s : String} {u : Update} (h : Update.codec.decodeText s = .ok u) :
    u.IsTaken s.utf8ByteSize := by
  obtain ⟨node, hdecode, hnode⟩ := Codec.exists_of_decodeText h
  obtain ⟨depth, lookup, hlt, hbuild, hlookup⟩ := Part.exists_build_of_decode hdecode
  -- The parts of the record, from the last to the first.
  obtain ⟨_, hparts₅, changes, hchanges, rfl⟩ := Part.build_seq_ok.mp hbuild
  obtain ⟨_, hparts₄, type, htype, rfl⟩ := Part.build_seq_ok.mp hparts₅
  obtain ⟨_, hparts₃, author, hauthor, rfl⟩ := Part.build_seq_ok.mp hparts₄
  obtain ⟨_, hparts₂, applied, happlied, rfl⟩ := Part.build_seq_ok.mp hparts₃
  obtain ⟨_, hparts₁, uid, huid, rfl⟩ := Part.build_seq_ok.mp hparts₂
  obtain ⟨id, hid, rfl⟩ := Part.build_map_ok.mp hparts₁
  have hsize : ∀ name child, lookup name = some child → child.weight ≤ s.utf8ByteSize :=
    fun name child hchild => Nat.le_trans (Nat.le_of_lt (hlookup name child hchild)) hnode
  obtain ⟨typeNode, htypeNode, htype⟩ := Part.exists_of_build_required htype
  have hlist : changes.length ≤ s.utf8ByteSize ∧ ∀ c ∈ changes, c.IsTaken s.utf8ByteSize := by
    rcases Part.exists_of_build_optional hchanges with ⟨child, hchild, hdecode⟩ | rfl
    · have hweight := hsize _ child hchild
      obtain ⟨hlength, hmem⟩ := Codec.exists_of_decode_list hdecode
      refine ⟨Nat.le_trans hlength hweight, fun c hc => ?_⟩
      obtain ⟨item, depth', hlt', hitem, hdecode⟩ := hmem c hc
      exact (Change.isTaken_of_decode (by omega) hdecode).mono (by omega)
    · exact ⟨Nat.zero_le _, List.forall_mem_nil _⟩
  exact {
    id := Part.utf8ByteSize_le_of_build_text (hsize "id") hid
    uid := Part.utf8ByteSize_le_of_build_text (hsize "uid") huid
    author := Part.utf8ByteSize_le_of_build_text (hsize "author") hauthor
    type := Nat.le_trans (Codec.utf8ByteSize_le_of_decode_string htype) (hsize _ typeNode htypeNode)
    count := hlist.1
    changes := hlist.2 }

/-! ## Sizes -/

namespace Json.IsTaken

variable {j : Json} {size : Nat}

/-- A value with no other numbers than whole ones is read back from its text. -/
theorem decodeText_text (h : j.IsTaken size) (hwhole : j.isWhole = true) :
    Codec.json.decodeText j.text = .ok j := by
  rcases h with rfl | ⟨depth, node, hdepth, hj, _⟩
  · exact Codec.json_decodeText rfl
  · exact Codec.json_decodeText_of_toJson? hwhole hdepth hj

/-- Its text is no longer than the text it comes from, or than `null`. -/
theorem utf8ByteSize_text_le (h : j.IsTaken size) (hwhole : j.isWhole = true) :
    j.text.utf8ByteSize ≤ max 4 size := by
  rcases h with rfl | ⟨depth, node, _, hj, hnode⟩
  · exact Nat.le_max_left 4 size
  · have hvalue := Node.weight_ofJson_le hj
    rw [utf8ByteSize_text hwhole]
    omega

end Json.IsTaken

/-- All lengths in the record of an update that was taken from a text fit 64 bits, if the length of the
    text does. -/
theorem Update.IsTaken.fits {u : Update} {size : Nat} (h : u.IsTaken size)
    (hsize : size < 18446744073709551616)
    (hwhole : ∀ c ∈ u.changes, c.old.isWhole = true ∧ c.new.isWhole = true) :
    (AuditRecord.ofUpdate u).fits = true := by
  have hcount : (AuditRecord.ofUpdate u).changes.length = u.changes.length := List.length_map _
  have htexts : ∀ s ∈ (AuditRecord.ofUpdate u).texts, s.utf8ByteSize < 18446744073709551616 := by
    intro s hs
    rcases List.mem_append.mp hs with hs | hs
    · have hown : s.utf8ByteSize ≤ size := by
        simp only [List.mem_cons, List.not_mem_nil, or_false] at hs
        rcases hs with rfl | rfl | rfl | rfl
        · exact h.id
        · exact h.uid
        · exact h.author
        · exact h.type
      omega
    · obtain ⟨_, hchange, hs⟩ := List.mem_flatMap.mp hs
      obtain ⟨c, hc, rfl⟩ := List.mem_map.mp hchange
      have htaken := h.changes c hc
      have hkey := htaken.key
      have hold := htaken.old.utf8ByteSize_text_le (hwhole c hc).1
      have hnew := htaken.new.utf8ByteSize_text_le (hwhole c hc).2
      simp only [List.mem_cons, List.not_mem_nil, or_false] at hs
      rcases hs with rfl | rfl | rfl <;> omega
  unfold AuditRecord.fits
  rw [Bool.and_eq_true, decide_eq_true_eq, List.all_eq_true, hcount]
  exact ⟨Nat.lt_of_le_of_lt h.count hsize, fun s hs => decide_eq_true (htexts s hs)⟩

/-! ## The record -/

/-- **The record of an update that was read from a text loses nothing**: it has an encoding, and the bytes
    give the record back, which gives the update back. Numbers have to be whole, the time a storable one,
    and the text so short that its length has 64 bits. -/
theorem AuditRecord.lossless {s : String} {u : Update} (hread : Update.codec.decodeText s = .ok u)
    (hsize : (Bytes.ofString s).length < 18446744073709551616)
    (hwhole : ∀ c ∈ u.changes, c.old.isWhole = true ∧ c.new.isWhole = true)
    (htime : ∀ t ∈ u.applied, t.IsStorable) :
    ∃ bytes, (ofUpdate u).encode? = some bytes ∧ decode? bytes = some (ofUpdate u) ∧
      (ofUpdate u).toUpdate = .ok u := by
  have htaken := Update.isTaken_of_decodeText hread
  have hfits := htaken.fits hsize hwhole
  have hencode : (ofUpdate u).encode?.isSome = true := (isSome_encode? htime).trans hfits
  obtain ⟨bytes, hbytes⟩ := Option.isSome_iff_exists.mp hencode
  have hback : ∀ c ∈ u.changes, c.ReadsBack := fun c hc =>
    ⟨(htaken.changes c hc).old.decodeText_text (hwhole c hc).1,
      (htaken.changes c hc).new.decodeText_text (hwhole c hc).2⟩
  exact ⟨bytes, hbytes, decode?_encode? hbytes fun t ht => (htime t ht).1, toUpdate_ofUpdate hback⟩

/-- An update whose values are nested, with the least and the greatest of the whole numbers. -/
def Update.nested : Update :=
  ⟨"", "M-1", some (.ofNanoseconds 1700000000000000000), "", "CORRECTION",
    [⟨"/donor/firstNames", .arr [.num (.int 18446744073709551615), .obj [("a", .arr []), ("b", .null)]],
      .obj [("\n\"", .bool true), ("é", .num (.int (-9223372036854775808)))]⟩]⟩

/-- The text of the nested update is read, recorded and given back. -/
theorem AuditRecord.lossless_nested :
    let s := Update.codec.encodeText .nested
    (Bytes.ofString s).length < 18446744073709551616 ∧
      ∃ bytes, (ofUpdate .nested).encode? = some bytes ∧ decode? bytes = some (ofUpdate .nested) ∧
        (ofUpdate .nested).toUpdate = .ok .nested := by
  have hwhole : (Update.codec.encode .nested).isWhole = true := by decide +kernel
  have hread : Update.codec.decodeText (Update.codec.encodeText .nested) = .ok .nested :=
    (Codec.decodeText_text_of_isWhole Update.codec hwhole).trans rfl
  have hsize : (Bytes.ofString (Update.codec.encodeText .nested)).length < 18446744073709551616 := by
    decide +kernel
  exact ⟨hsize, lossless hread hsize (by decide +kernel) (by decide +kernel)⟩

end PowerOfAttorney
