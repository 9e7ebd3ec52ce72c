import Mathlib.Data.String.Basic
import PowerOfAttorney.Proofs.Register.Written

/-!
# `PowerOfAttorney.Proofs.Register.Scan` — the updates of a document after one more

The updates of a document are listed in the order of their keys. So an update whose identifier comes
after all others of the document is listed last.

## Contents
- **Order.** `Store.changeKey_lt`: keys of updates are ordered as their identifiers.
- **Scans.** What a scan finds after an entry was put in, outside of what it looks for or at its end.
- **Histories.** `Store.IsLast`, when it holds (`Store.isLast_of_lt`), and `Store.getChanges_write`.
-/

namespace PowerOfAttorney

/-! ## Order -/

namespace Store

/-- Keys of updates are ordered as their identifiers. -/
theorem changeKey_lt {uid id id' : String} (h : id < id') : changeKey uid id < changeKey uid id' := by
  unfold changeKey
  rw [String.lt_iff_toList_lt] at h ⊢
  rw [String.toList_append, String.toList_append]
  exact List.append_left_lt h

theorem isPrefixOf_changeKey (uid id : String) :
    (historyKey uid).toList.isPrefixOf (changeKey uid id).toList = true := by
  unfold changeKey
  rw [String.toList_append, List.isPrefixOf_iff_prefix]
  exact List.prefix_append _ _

/-- A key of an update is made of an identifier. -/
theorem exists_changeKey {uid key : String} (h : (historyKey uid).toList.isPrefixOf key.toList = true) :
    ∃ id, key = changeKey uid id := by
  obtain ⟨rest, hrest⟩ := List.isPrefixOf_iff_prefix.mp h
  refine ⟨String.ofList rest, String.toList_injective ?_⟩
  unfold changeKey
  rw [String.toList_append, String.toList_ofList, hrest]

theorem not_isPrefixOf_documentKey (uid uid' : String) :
    (historyKey uid).toList.isPrefixOf (documentKey uid').toList = false := by
  rw [Bool.eq_false_iff]
  intro h
  obtain ⟨id, hid⟩ := exists_changeKey h
  exact documentKey_ne_changeKey _ _ _ hid

end Store

/-! ## Scans -/

namespace Dictionary

variable {α : Type} (keep : String → Bool) {name : String} {entries : List (String × α)}

/-- An entry that a scan does not look for does not change what it finds. -/
theorem filter_insertEntry_of_not (hname : keep name = false) (value : α) :
    (insertEntry name value entries).filter (fun e => keep e.1) =
      entries.filter fun e => keep e.1 := by
  induction entries with
  | nil => simp [insertEntry, hname]
  | cons head rest ih =>
      obtain ⟨other, v⟩ := head
      rw [insertEntry]
      split
      · simp [hname]
      split
      · rename_i heq
        subst heq
        simp [hname]
      · rw [List.filter_cons, List.filter_cons, ih]

/-- An entry that comes after all that a scan finds is found last. -/
theorem filter_insertEntry_of_last (hsorted : Sorted entries) (hname : keep name = true) (value : α)
    (hlast : ∀ e ∈ entries, keep e.1 = true → e.1 < name) :
    (insertEntry name value entries).filter (fun e => keep e.1) =
      (entries.filter fun e => keep e.1) ++ [(name, value)] := by
  induction entries with
  | nil => simp [insertEntry, hname]
  | cons head rest ih =>
      obtain ⟨other, v⟩ := head
      obtain ⟨hhead, hrest⟩ := List.pairwise_cons.mp hsorted
      rw [insertEntry]
      split
      · rename_i hlt
        -- What comes after the new entry is not found.
        have hnone : ((other, v) :: rest).filter (fun e => keep e.1) = [] := by
          rw [List.filter_eq_nil_iff]
          intro e he hkeep
          have hbefore := hlast e he hkeep
          rcases List.mem_cons.mp he with rfl | he
          · exact String.lt_irrefl _ (String.lt_trans hlt hbefore)
          · exact String.lt_irrefl _ (String.lt_trans hlt (String.lt_trans (hhead e he) hbefore))
        rw [hnone, List.filter_cons_of_pos (by exact hname), hnone]
        rfl
      split
      · rename_i heq
        subst heq
        exact absurd (hlast (name, v) List.mem_cons_self hname) (String.lt_irrefl _)
      · have hrest' := ih hrest fun e he => hlast e (List.mem_cons_of_mem _ he)
        rw [List.filter_cons, List.filter_cons, hrest']
        split
        · rw [List.cons_append]
        · rfl

end Dictionary

/-! ## Histories -/

namespace Store

/-- The identifier comes after those of all updates of a document. -/
def IsLast (s : Store) (uid id : String) : Prop :=
  ∀ e ∈ s.entries.withPrefix (historyKey uid), e.1 < changeKey uid id

/-- It is enough that the identifier is later than those of all updates that are found. -/
theorem isLast_of_lt {s : Store} {uid id : String}
    (h : ∀ id', (s.read? (changeKey uid id')).isSome = true → id' < id) : s.IsLast uid id := by
  intro e he
  obtain ⟨hmem, hkey⟩ := List.mem_filter.mp he
  obtain ⟨id', hid'⟩ := exists_changeKey hkey
  rw [hid']
  refine changeKey_lt (h id' ?_)
  rw [← hid']
  exact List.lookup_isSome_iff.mpr ⟨e, hmem, beq_self_eq_true e.1⟩

/-- Writing a document leaves the histories as they are. -/
theorem withPrefix_put (s : Store) (d : Document) (uid : String) :
    (s.put d).entries.withPrefix (historyKey uid) = s.entries.withPrefix (historyKey uid) :=
  Dictionary.filter_insertEntry_of_not (fun key => (historyKey uid).toList.isPrefixOf key.toList)
    (not_isPrefixOf_documentKey uid d.uid) (documentBytes d)

/-- A record that comes last is put at the end of its history. -/
theorem withPrefix_write {s : Store} {uid id : String} (h : s.IsLast uid id) (record : Bytes) :
    (s.write (changeKey uid id) record).entries.withPrefix (historyKey uid) =
      s.entries.withPrefix (historyKey uid) ++ [(changeKey uid id, record)] :=
  Dictionary.filter_insertEntry_of_last
    (fun key => (historyKey uid).toList.isPrefixOf key.toList) s.entries.sorted
    (isPrefixOf_changeKey uid id) record fun e he hkeep => h e (List.mem_filter.mpr ⟨he, hkeep⟩)

/-- **An update that comes last is listed last.** -/
theorem getChanges_write {s : Store} {d : Document} {id : String} {u : Update} {record : Bytes}
    (h : s.IsLast d.uid id) (hrecord : decodeUpdate record = .ok u) :
    ((s.put d).write (changeKey d.uid id) record).getChanges d.uid =
      (s.getChanges d.uid).map (· ++ [u]) := by
  have hlast : (s.put d).IsLast d.uid id := by
    unfold IsLast
    rw [withPrefix_put]
    exact h
  unfold getChanges
  rw [withPrefix_write hlast, withPrefix_put, List.mapM_append]
  cases (s.entries.withPrefix (historyKey d.uid)).mapM fun e => decodeUpdate e.2 with
  | error why => rfl
  | ok us =>
      simp only [List.mapM_cons, List.mapM_nil, hrecord]
      rfl

end Store

end PowerOfAttorney
