/-!
# `PowerOfAttorney.Dictionary` — values by name, in the order of the names

A finite map from strings, kept as a list in strictly increasing order of its names, so that two
dictionaries with the same values are the same list. The order is that of code points, which is also
the order of the bytes of UTF-8.

## Contents
- **The type.** `Dictionary`, with the order as part of it.
- **Operations.** `Dictionary.get?`, `Dictionary.insert`, `Dictionary.ofList`,
  `Dictionary.withPrefix`.
- **Look-up.** `get?_insert`: an insertion changes what is found under its own name and nothing else.
-/

namespace PowerOfAttorney

namespace Dictionary

variable {α : Type}

/-- Puts a value into a list in order, in place of one with the same name. -/
def insertEntry (name : String) (value : α) : List (String × α) → List (String × α)
  | [] => [(name, value)]
  | (other, v) :: rest =>
    if name < other then (name, value) :: (other, v) :: rest
    else if name = other then (name, value) :: rest
    else (other, v) :: insertEntry name value rest

/-- Names in strictly increasing order. -/
def Sorted (entries : List (String × α)) : Prop :=
  entries.Pairwise fun a b => a.1 < b.1

instance (entries : List (String × α)) : Decidable (Sorted entries) :=
  inferInstanceAs (Decidable (List.Pairwise _ _))

theorem mem_insertEntry {name : String} {value : α} {entries : List (String × α)}
    {e : String × α} (h : e ∈ insertEntry name value entries) : e = (name, value) ∨ e ∈ entries := by
  induction entries with
  | nil => simpa [insertEntry] using h
  | cons head rest ih =>
    obtain ⟨other, v⟩ := head
    simp only [insertEntry] at h
    split at h
    · simpa using h
    · split at h
      · rcases List.mem_cons.mp h with h | h
        · exact .inl h
        · exact .inr (List.mem_cons_of_mem _ h)
      · rcases List.mem_cons.mp h with h | h
        · exact .inr (h ▸ List.mem_cons_self)
        · rcases ih h with h | h
          · exact .inl h
          · exact .inr (List.mem_cons_of_mem _ h)

theorem sorted_insertEntry (name : String) (value : α) {entries : List (String × α)}
    (h : Sorted entries) : Sorted (insertEntry name value entries) := by
  induction entries with
  | nil => simp [insertEntry, Sorted]
  | cons head rest ih =>
    obtain ⟨other, v⟩ := head
    obtain ⟨hhead, hrest⟩ := List.pairwise_cons.mp h
    simp only [insertEntry]
    split
    · rename_i hlt
      refine List.pairwise_cons.mpr ⟨fun e he => ?_, h⟩
      rcases List.mem_cons.mp he with he | he
      · exact he ▸ hlt
      · exact String.lt_trans hlt (hhead e he)
    · split
      · rename_i heq
        exact List.pairwise_cons.mpr ⟨fun e he => heq ▸ hhead e he, hrest⟩
      · rename_i hlt hne
        have hgt : other < name := by
          rcases Decidable.em (other < name) with h | h
          · exact h
          · exact absurd (String.le_antisymm (String.not_lt.mp h) (String.not_lt.mp hlt)) hne
        refine List.pairwise_cons.mpr ⟨fun e he => ?_, ih hrest⟩
        rcases mem_insertEntry he with he | he
        · exact he ▸ hgt
        · exact hhead e he

/-- What is found in a list after an insertion. -/
theorem lookup_insertEntry (name key : String) (value : α) (entries : List (String × α)) :
    (insertEntry name value entries).lookup key =
      if key = name then some value else entries.lookup key := by
  induction entries with
  | nil => grind [insertEntry]
  | cons head rest ih =>
    obtain ⟨other, v⟩ := head
    grind [insertEntry]

end Dictionary

/-- Values by name. -/
structure Dictionary (α : Type) where
  entries : List (String × α)
  sorted : Dictionary.Sorted entries
deriving DecidableEq

namespace Dictionary

variable {α : Type}

/-- No values. -/
def empty : Dictionary α := ⟨[], .nil⟩

/-- The value of a name. -/
def get? (d : Dictionary α) (name : String) : Option α :=
  d.entries.lookup name

/-- Sets the value of a name. -/
def insert (d : Dictionary α) (name : String) (value : α) : Dictionary α :=
  ⟨insertEntry name value d.entries, sorted_insertEntry name value d.sorted⟩

/-- The values of a list; of several with one name the last counts. -/
def ofList (entries : List (String × α)) : Dictionary α :=
  entries.foldl (fun d (name, value) => d.insert name value) empty

/-- No name has a value. -/
def isEmpty (d : Dictionary α) : Bool :=
  d.entries.isEmpty

/-- The entries whose names begin with a text, in order. -/
def withPrefix (d : Dictionary α) (start : String) : List (String × α) :=
  d.entries.filter fun (name, _) => start.toList.isPrefixOf name.toList

theorem get?_insert (d : Dictionary α) (name key : String) (value : α) :
    (d.insert name value).get? key = if key = name then some value else d.get? key :=
  lookup_insertEntry name key value d.entries

end Dictionary

end PowerOfAttorney
