import PowerOfAttorney.Proofs.Operation.Parts

/-!
# `PowerOfAttorney.Proofs.Operation.Entries` — scripts that keep to one entry of a list

A correction reaches one attorney and one trust corporation. Entries are named by index or, where
attorneys are meant by uid, by the uid of the first attorney who has it; either way an entry has one
name.

## Contents
- **Names of entries.** `Label.index?` and `Document.attorneyAt?`, which are injective.
- **Amended entries.** What a correction of one entry leaves of a list, and `Layout.entries`, what it shows.
- **Scripts.** `fits_choose_entry`, for the script on one entry.
-/

namespace PowerOfAttorney

open Script.Fits

/-! ## Names of entries -/

/-- Attorneys are below this name, whether they are named by index or by uid. -/
theorem Place.ofKey_attorneys : Place.ofKey "/attorneys" = [.name "attorneys"] := by decide

/-- Entries named by index. -/
def Label.index? : Label → Option Nat
  | .index i => some i
  | .name _ => none

/-- Attorneys named by uid. -/
def Document.attorneyAt? (d : Document) : Label → Option Nat
  | .name uid => d.attorneyIndex? uid
  | .index _ => none

/-- A label names at most one index, and an index has at most one label. -/
def Label.IsInjective (at? : Label → Option Nat) : Prop :=
  ∀ l l' i, at? l = some i → at? l' = some i → l = l'

theorem Label.isInjective_index? : Label.IsInjective Label.index? := by
  intro l l' i h h'
  cases l with
  | name _ => exact absurd h (by simp [Label.index?])
  | index j =>
      cases l' with
      | name _ => exact absurd h' (by simp [Label.index?])
      | index j' =>
          rw [Label.index?, Option.some.injEq] at h h'
          rw [h, h']

/-- The attorney at the index of a uid has it. -/
theorem Document.uid_of_attorneyIndex? {d : Document} {uid : String} {i : Nat}
    (h : d.attorneyIndex? uid = some i) : ∃ a, d.attorneys[i]? = some a ∧ a.uid = uid := by
  unfold attorneyIndex? at h
  obtain ⟨hi, huid, _⟩ := List.findIdx?_eq_some_iff_getElem.mp h
  exact ⟨_, List.getElem?_eq_getElem hi, beq_iff_eq.mp huid⟩

/-- The trust corporation at the index of a uid has it. -/
theorem Document.uid_of_trustCorporationIndex? {d : Document} {uid : String} {i : Nat}
    (h : d.trustCorporationIndex? uid = some i) :
    ∃ t, d.trustCorporations[i]? = some t ∧ t.uid = uid := by
  unfold trustCorporationIndex? at h
  obtain ⟨hi, huid, _⟩ := List.findIdx?_eq_some_iff_getElem.mp h
  exact ⟨_, List.getElem?_eq_getElem hi, beq_iff_eq.mp huid⟩

theorem Document.isInjective_attorneyAt? (d : Document) : Label.IsInjective d.attorneyAt? := by
  intro l l' i h h'
  cases l with
  | index _ => exact absurd h (by simp [attorneyAt?])
  | name uid =>
      cases l' with
      | index _ => exact absurd h' (by simp [attorneyAt?])
      | name uid' =>
          obtain ⟨a, ha, rfl⟩ := uid_of_attorneyIndex? h
          obtain ⟨a', ha', rfl⟩ := uid_of_attorneyIndex? h'
          rw [ha, Option.some.injEq] at ha'
          rw [ha']

/-- A place that is meant is the one that is named, but for attorneys, who are named by uid. -/
theorem Document.eq_of_locate? {d : Document} {q p : Place} (h : d.locate? q = some p) :
    q = p ∨ ∃ uid i b, d.attorneyIndex? uid = some i ∧ q = .name "attorneys" :: .name uid :: b ∧
      p = .name "attorneys" :: .index i :: b := by
  unfold locate? at h
  split at h
  · rename_i uid b
    obtain ⟨i, hi, rfl⟩ := Option.map_eq_some_iff.mp h
    exact Or.inr ⟨uid, i, b, hi, rfl, rfl⟩
  · exact absurd h (by simp)
  · exact Or.inl (Option.some.inj h)

/-- A place that is meant and named alike is not below the attorneys. -/
theorem Document.ne_attorneys_of_locate? {d : Document} {p : Place} (h : d.locate? p = some p)
    (b : Place) : p ≠ .name "attorneys" :: b := by
  rintro rfl
  unfold locate? at h
  split at h
  · rename_i heq
    obtain ⟨i, _, hindex⟩ := Option.map_eq_some_iff.mp h
    rw [heq] at hindex
    exact absurd (List.cons.inj (List.cons.inj hindex).2).1 nofun
  · exact absurd h nofun
  · rename_i hother
    exact hother b rfl

/-- What is meant is below a name only if it is named there. -/
theorem Document.below_of_locate? {d : Document} {q b : Place} {name : String}
    (h : d.locate? q = some (.name name :: b)) : ∃ b', q = .name name :: b' := by
  rcases eq_of_locate? h with rfl | ⟨uid, i, b', _, rfl, heq⟩
  · exact ⟨b, rfl⟩
  · rw [List.cons.injEq] at heq
    exact ⟨_, by rw [heq.1]⟩

/-- Different names of places mean different places. -/
theorem Document.locate?_inj {d : Document} {q q' p : Place} (h : d.locate? q = some p)
    (h' : d.locate? q' = some p) : q = q' := by
  have hindex : ∀ i b, d.locate? (.name "attorneys" :: .index i :: b) = none := fun _ _ => rfl
  rcases eq_of_locate? h with rfl | ⟨uid, i, b, hi, rfl, rfl⟩
  · rcases eq_of_locate? h' with rfl | ⟨uid, i, b, hi, rfl, rfl⟩
    · rfl
    · exact absurd h (by rw [hindex]; exact nofun)
  · rcases eq_of_locate? h' with rfl | ⟨uid', i', b', hi', rfl, heq⟩
    · exact absurd h' (by rw [hindex]; exact nofun)
    · simp only [List.cons.injEq, Label.index.injEq, true_and] at heq
      obtain ⟨rfl, rfl⟩ := heq
      have hlabel := d.isInjective_attorneyAt? (.name uid) (.name uid') i hi hi'
      rw [hlabel]

/-! ## Amended entries -/

/-- An entry that is not the one that is amended is as it was. -/
theorem getElem?_amendAt {α β : Type} {amend : β → α → α} {target : Option (Nat × β)} {j : Nat}
    (xs : List α) (h : ∀ b, target ≠ some (j, b)) : (amendAt amend target xs)[j]? = xs[j]? := by
  cases target with
  | none => rfl
  | some e =>
      obtain ⟨i, b⟩ := e
      have hij : i ≠ j := by
        rintro rfl
        exact h b rfl
      exact List.getElem?_modify_ne _ _ hij

/-- What an amendment leaves of an entry, it leaves of the list. -/
theorem map_amendAt {α β γ : Type} {amend : β → α → α} {f : α → γ} {target : Option (Nat × β)}
    {xs : List α} (h : ∀ i b x, target = some (i, b) → xs[i]? = some x → f (amend b x) = f x) :
    (amendAt amend target xs).map f = xs.map f := by
  refine List.ext_getElem? ?_
  intro j
  rw [List.getElem?_map, List.getElem?_map]
  by_cases hj : ∃ b, target = some (j, b)
  · obtain ⟨b, rfl⟩ := hj
    show ((xs.modify j (amend b))[j]?).map f = _
    rw [List.getElem?_modify_eq]
    cases hx : xs[j]? with
    | none => rfl
    | some x => simpa using h j b x rfl hx
  · rw [getElem?_amendAt xs fun b hb => hj ⟨b, hb⟩]

section

variable {α β : Type} (holds : α → Place → Option Held) (amend : β → α → α) (of : α → β)
  (checks : Checks)

/-- A correction of an entry shows the entry as corrected. -/
def Layout.amended (a : α) : Layout β :=
  .record (fun c => holds (amend c a)) (of a) checks

/-- A correction of one entry of a list shows the list with the entry corrected. -/
def Layout.entries (at? : Label → Option Nat) (xs : List α) : Layout (Option (Nat × β)) :=
  .oneOf fun
    | l :: b => (at? l).bind fun i =>
      (xs[i]?).map fun a => (i, .amended holds amend of checks a, b)
    | [] => none

variable {holds amend of checks} {at? : Label → Option Nat} {xs : List α}

/-- What is shown of an entry is what the amended list holds. -/
theorem Layout.view_entries (hof : ∀ a, amend (of a) a = a) (s : Option (Nat × β)) (l : Label)
    (b : Place) :
    (Layout.entries holds amend of checks at? xs).view s (l :: b) =
      (at? l).bind fun i => Entries.holds holds (amendAt amend s xs) (.index i :: b) := by
  unfold entries oneOf
  dsimp only
  cases at? l with
  | none => rfl
  | some i =>
      rw [Option.bind_some, Option.bind_some, Entries.holds_index]
      cases s with
      | none =>
          cases hx : xs[i]? with
          | none => simp [amendAt, hx]
          | some a => simp [amendAt, hx, amended, record, hof]
      | some c =>
          obtain ⟨j, c⟩ := c
          cases hx : xs[i]? with
          | none => simp [amendAt, hx, List.getElem?_modify]
          | some a =>
              by_cases hij : j = i
              · simp [amendAt, hx, hij, amended, record]
              · simp [amendAt, hx, hij, amended, record, hof]

/-- A list holds below its indexes what is shown of its entries. -/
theorem Entries.holds_amendAt (hof : ∀ a, amend (of a) a = a) (s : Option (Nat × β)) (b : Place) :
    Entries.holds holds (amendAt amend s xs) b =
      (Layout.entries holds amend of checks Label.index? xs).view s b := by
  cases b with
  | nil => rfl
  | cons l b =>
      rw [Layout.view_entries hof]
      cases l with
      | name _ => rfl
      | index i => rfl

theorem Layout.owns_entries {s : Option (Nat × β)} {q : Place} {check : Option Check}
    (h : (Layout.entries holds amend of checks at? xs).owns s q check) :
    ∃ l b i, q = l :: b ∧ at? l = some i ∧ checks b = some check := by
  obtain ⟨e, he, _, howns⟩ := h
  cases q with
  | nil => exact absurd he (by simp)
  | cons l b =>
      obtain ⟨i, hi, hmap⟩ := Option.bind_eq_some_iff.mp he
      obtain ⟨a, _, rfl⟩ := Option.map_eq_some_iff.mp hmap
      exact ⟨l, b, i, rfl, hi, howns⟩

/-- The script on the entry of a label. -/
theorem fits_choose_entry (hat : Label.IsInjective at?) {l : Label} {i : Nat} (hl : at? l = some i)
    {a : α} (ha : xs[i]? = some a) {inner : Script β}
    (hinner : inner.Fits (.amended holds amend of checks a) False (fun _ => True) (fun _ => True) []) :
    (Script.choose i (of a) inner).Fits (.entries holds amend of checks at? xs) False (fun _ => True)
      (fun q => True ∧ ([] ++ [l]) <+: q) ([] ++ [l]) := by
  refine fits_choose hinner (fun b => ?_) (fun q L' b hq => ?_) fun b => ⟨trivial, b, rfl⟩
  · show (at? l).bind (fun i => (xs[i]?).map fun a => (i, _, b)) = _
    rw [hl, Option.bind_some, ha]
    rfl
  · cases q with
    | nil => exact absurd hq (by simp)
    | cons l' b' =>
        obtain ⟨i', hi', hmap⟩ := Option.bind_eq_some_iff.mp hq
        obtain ⟨a', ha', heq⟩ := Option.map_eq_some_iff.mp hmap
        obtain ⟨rfl, hrest⟩ := Prod.mk.inj heq
        obtain ⟨rfl, rfl⟩ := Prod.mk.inj hrest
        rw [ha, Option.some.injEq] at ha'
        rw [hat l' l i' hi' hl, ha']
        exact ⟨rfl, rfl⟩

end

end PowerOfAttorney
