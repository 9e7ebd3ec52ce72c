import PowerOfAttorney.Proofs.Register.Readable
import PowerOfAttorney.Proofs.Register.Scan

/-!
# `PowerOfAttorney.Proofs.Register.Isolation` — what is done to one document and seen at another

All documents and all histories share one space of keys. A document has a key of its own. The history of a
uid is whatever is kept under keys that begin with the uid and a slash, so if another uid goes on after
that, its records are found there as well.

## Contents
- **Keys.** `Store.Nests`, and `Store.nests_iff`: it is a matter of the uids, unless an identifier has a
  slash.
- **Acts.** `Store.Act`, what can be done to a store, and `Act.Concerns`.
- **Writes.** `Act.Writes`, what an act can write, with what each document and each history becomes of it.
- **Isolation.** `Act.isolated` for one act, `Act.isolated_run` for any number of them.
- **A history within another.** `Act.not_forall_isolated`.
-/

namespace PowerOfAttorney

namespace Store

variable {uid other id : String}

/-! ## Keys -/

/-- The record of an update of one uid lies in the history of another. -/
def Nests (other uid id : String) : Prop :=
  (historyKey other).toList <+: (changeKey uid id).toList

instance (other uid id : String) : Decidable (Nests other uid id) :=
  inferInstanceAs (Decidable (_ <+: _))

/-- A record lies in the histories that its uid and its identifier, with a slash between them, begin with. -/
theorem nests_iff_begins : Nests other uid id ↔
    other.toList ++ ['/'] <+: uid.toList ++ '/' :: id.toList := by
  unfold Nests changeKey historyKey
  simp only [String.toList_append, List.append_assoc]
  rw [List.prefix_append_right_inj]
  exact Iff.rfl

/-- **The records of a uid lie in the history of another if the one goes on after the other and a slash**,
    as long as their identifiers have no slash. -/
theorem nests_iff (hne : uid ≠ other) (hid : '/' ∉ id.toList) :
    Nests other uid id ↔ other.toList ++ ['/'] <+: uid.toList := by
  rw [nests_iff_begins]
  constructor
  · intro h
    rcases List.prefix_or_prefix_of_prefix h (List.prefix_append uid.toList _) with hshort | ⟨rest, hrest⟩
    · exact hshort
    · rw [← hrest] at h ⊢
      have hslash := (List.prefix_append_right_inj uid.toList).mp h
      cases rest with
      | nil => exact (List.append_nil uid.toList).symm ▸ List.prefix_rfl
      | cons c rest =>
          -- The slash after the other uid would be the one after the uid itself, or in the identifier.
          obtain ⟨rfl, hwithin⟩ := List.cons_prefix_cons.mp hslash
          rcases List.eq_nil_or_concat rest with rfl | ⟨front, last, rfl⟩
          · exact absurd (String.toList_injective (List.append_inj_left' hrest rfl)) hne
          · rw [List.concat_eq_append] at hwithin hrest
            rw [← List.cons_append, ← List.append_assoc] at hrest
            obtain rfl := List.singleton_inj.mp (List.append_inj_right' hrest rfl)
            exact absurd (hwithin.subset (List.mem_append_right _ List.mem_cons_self)) hid
  · intro h
    exact h.trans (List.prefix_append _ _)

/-! ## Acts -/

/-- What can be done to a store. -/
inductive Act
  | put (d : Document)
  | putChanges (d : Document) (u : Update) (expected : Option Instant)
  | handle (verify : Verifier) (o : Occasion) (r : Request)

namespace Act

/-- The store after an act; one that fails leaves the store as it was. -/
def perform (s : Store) : Act → Store
  | put d => s.put d
  | putChanges d u expected =>
    match s.putChanges d u expected with
    | .ok s' => s'
    | .error _ => s
  | handle verify o r => (Service.handle verify o r s).2

theorem perform_handle (s : Store) (verify : Verifier) (o : Occasion) (r : Request) :
    (handle verify o r).perform s = (Service.handle verify o r s).2 := rfl

/-- The act concerns the document of one uid only. A request does if what is stored under its uid, so far as
    it can be read, is a document of that uid. -/
def Concerns (s : Store) (uid : String) : Act → Prop
  | put d => d.uid = uid
  | putChanges d _ _ => d.uid = uid
  | handle _ _ r => r.uid = uid ∧ ∀ d, s.get uid = .ok d → d.uid = uid

/-- The identifier of the update that the act may record. -/
def id? : Act → Option String
  | put _ => none
  | putChanges _ u _ => some u.id
  | handle _ o _ => some o.id

/-! ## Writes -/

/-- What an act that concerns the document of one uid makes of a store. -/
inductive Writes (s : Store) (uid : String) (id? : Option String) : Store → Prop
  | nothing : Writes s uid id? s
  | document {d : Document} (hd : d.uid = uid) : Writes s uid id? (s.put d)
  | record {d : Document} {id : String} {bytes : Bytes} (hd : d.uid = uid) (hid : id ∈ id?) :
      Writes s uid id? ((s.put d).write (changeKey uid id) bytes)

/-- **An act writes the document it concerns, its record, or nothing.** -/
theorem writes {a : Act} {s : Store} (h : a.Concerns s uid) : Writes s uid a.id? (a.perform s) := by
  cases a with
  | put d => exact .document h
  | putChanges d u expected =>
      obtain rfl : d.uid = uid := h
      unfold perform
      dsimp only
      cases hput : s.putChanges d u expected with
      | error why => exact .nothing
      | ok s' =>
          obtain ⟨bytes, _, _, rfl⟩ := putChanges_eq_ok.mp hput
          exact .record rfl rfl
  | handle verify o r =>
      obtain ⟨rfl, hown⟩ := h
      have hend := Service.ending verify o r s s
      change Writes s r.uid (some o.id) (Service.handleAcross verify o r s s).2
      generalize Service.handleAcross verify o r s s = x at hend
      cases hend with
      | done p _ _ =>
          have huid : p.read.uid = r.uid := hown p.read p.get_eq
          rw [huid]
          exact .record (p.uid_document.trans huid) rfl
      | _ => exact .nothing

namespace Writes

variable {s s' : Store} {id? : Option String}

/-- Other documents are read as before. -/
theorem get_eq (h : Writes s uid id? s') (hne : uid ≠ other) : s'.get other = s.get other := by
  have hread : s'.read? (documentKey other) = s.read? (documentKey other) := by
    cases h with
    | nothing => rfl
    | document hd =>
        rw [Store.put, read?_write, if_neg]
        intro hkey
        exact hne (hd.symm.trans (documentKey_injective hkey).symm)
    | record hd _ =>
        subst hd
        exact read?_of_ne s _ _ _ (fun hkey => hne (documentKey_injective hkey).symm)
          (documentKey_ne_changeKey _ _ _)
  unfold get
  rw [hread]

/-- Histories are read as before if the record does not lie in them. -/
theorem getChanges_eq (h : Writes s uid id? s') (hnests : ∀ id ∈ id?, ¬ Nests other uid id) :
    s'.getChanges other = s.getChanges other := by
  have hfound : s'.entries.withPrefix (historyKey other) = s.entries.withPrefix (historyKey other) := by
    cases h with
    | nothing => rfl
    | document _ => exact withPrefix_put s _ other
    | record hd hid =>
        rename_i d id bytes
        have hskip : (historyKey other).toList.isPrefixOf (changeKey uid id).toList = false := by
          rw [Bool.eq_false_iff]
          exact fun hkey => hnests id hid (List.isPrefixOf_iff_prefix.mp hkey)
        rw [← withPrefix_put s d other]
        exact Dictionary.filter_insertEntry_of_not
          (fun key => (historyKey other).toList.isPrefixOf key.toList) hskip bytes
  unfold getChanges
  rw [hfound]

end Writes

/-! ## Isolation -/

end Act

/-- A record that lies in a history is listed in it. -/
theorem exists_of_nests {s : Store} {bytes : Bytes} {us : List Update} (hnests : Nests other uid id)
    (hbytes : s.read? (changeKey uid id) = some bytes) (hus : s.getChanges other = .ok us) :
    ∃ u ∈ us, decodeUpdate bytes = .ok u := by
  have hfound : (changeKey uid id, bytes) ∈ s.entries.withPrefix (historyKey other) :=
    List.mem_filter.mpr ⟨mem_of_lookup hbytes, List.isPrefixOf_iff_prefix.mpr hnests⟩
  exact (exists_of_mapM hus).2.2 _ hfound

namespace Act

/-- **An act that concerns the document of one uid leaves other documents as they are, and their histories
    too unless its record lies in them**; then it is listed there. -/
theorem isolated {a : Act} {s : Store} (h : a.Concerns s uid) (hne : uid ≠ other) :
    (a.perform s).get other = s.get other ∧
      ((∀ id ∈ a.id?, ¬ Nests other uid id) → (a.perform s).getChanges other = s.getChanges other) ∧
      ∀ id bytes us, Nests other uid id → (a.perform s).read? (changeKey uid id) = some bytes →
        (a.perform s).getChanges other = .ok us → ∃ u ∈ us, decodeUpdate bytes = .ok u := by
  have hwrites := writes h
  exact ⟨hwrites.get_eq hne, hwrites.getChanges_eq, fun id bytes us => exists_of_nests⟩

/-- What is done to documents of other uids, none of which goes on after this uid and a slash, under
    identifiers without slashes. -/
inductive Elsewhere (other : String) : Store → List Act → Prop
  | nil {s : Store} : Elsewhere other s []
  | cons {s : Store} {a : Act} {as : List Act} {uid : String} (hconcerns : a.Concerns s uid)
      (hne : uid ≠ other) (huid : ¬ other.toList ++ ['/'] <+: uid.toList)
      (hid : ∀ id ∈ a.id?, '/' ∉ id.toList) (hrest : Elsewhere other (a.perform s) as) :
      Elsewhere other s (a :: as)

/-- **However much is done elsewhere, a document and its history stay as they are.** -/
theorem isolated_run {s : Store} {as : List Act} (h : Elsewhere other s as) :
    (as.foldl perform s).get other = s.get other ∧
      (as.foldl perform s).getChanges other = s.getChanges other := by
  induction h with
  | nil => exact ⟨rfl, rfl⟩
  | cons hconcerns hne huid hid _ ih =>
      have hwrites := writes hconcerns
      have hnests := fun id hmem => mt (nests_iff hne (hid id hmem)).mp huid
      exact ⟨ih.1.trans (hwrites.get_eq hne), ih.2.trans (hwrites.getChanges_eq hnests)⟩

/-! ## A history within another -/

/-- A document whose uid goes on after another uid and a slash. -/
def nestedDocument : Document :=
  { Document.ofTwoAttorneys with uid := "M-1/2" }

/-- A store with this document and that of the other uid. -/
def nestedStore : Store :=
  Service.oneDocument.put nestedDocument

/-- The first attorney is removed from the document. -/
def nestedRemoval : Act :=
  .handle Service.oneUser Service.removalOccasion { Service.removalRequest with uid := "M-1/2" }

theorem get_nestedStore : nestedStore.get "M-1/2" = .ok nestedDocument := by
  rw [get_of_read? (d := nestedDocument) rfl]
  decide +kernel

theorem concerns_nestedRemoval : nestedRemoval.Concerns nestedStore "M-1/2" := by
  refine ⟨rfl, fun d hd => ?_⟩
  obtain rfl := Except.ok.inj (get_nestedStore.symm.trans hd)
  rfl

/-- What is done to this document leaves the other document as it is, and the histories of uids that do not
    begin like it. -/
theorem isolated_nestedRemoval : nestedRemoval.Concerns nestedStore "M-1/2" ∧ "M-1/2" ≠ "M-1" ∧
    (nestedRemoval.perform nestedStore).get "M-1" = nestedStore.get "M-1" ∧
    (nestedRemoval.perform nestedStore).getChanges "M-2" = nestedStore.getChanges "M-2" :=
  ⟨concerns_nestedRemoval, by decide, (isolated concerns_nestedRemoval (by decide)).1,
    (isolated concerns_nestedRemoval (by decide)).2.1 (by decide +kernel)⟩

/-- The removal comes to write. -/
def nestedPassage : Service.Passage Service.oneUser Service.removalOccasion
    { Service.removalRequest with uid := "M-1/2" } nestedStore where
  claims := ⟨"urn:opg:poas:makeregister:users:a"⟩
  sent := Service.removal
  read := nestedDocument
  command := .changeAttorneys ⟨[(0, .removed)]⟩
  made := { nestedDocument with
    attorneys := nestedDocument.attorneys.modify 0 fun a => { a with status := .removed } }
  sends := Service.sends_removal
  get_eq := get_nestedStore
  valid := by decide +kernel
  applied := rfl

/-- **It is not so that documents are isolated from each other**: the removal is listed in the history of the
    other document. -/
theorem not_forall_isolated : ¬ ∀ (s : Store) (uid other : String) (a : Act), uid ≠ other →
    a.Concerns s uid → (a.perform s).get other = s.get other ∧
      (a.perform s).getChanges other = s.getChanges other := by
  intro h
  have hversion : nestedStore.version "M-1/2" = .ok none :=
    version_of_read? (d := nestedDocument) rfl nofun
  obtain ⟨record, hx⟩ := nestedPassage.handle_eq (by decide) (by decide +kernel) hversion
  have hafter : nestedRemoval.perform nestedStore =
      (nestedStore.put nestedPassage.document).write (changeKey "M-1/2" "0001") record := by
    rw [nestedRemoval, perform_handle, hx]
    rfl
  have hbefore : nestedStore.getChanges "M-1" = .ok [] := by
    unfold getChanges nestedStore Service.oneDocument
    rw [withPrefix_put, withPrefix_put]
    rfl
  have hsame := (h nestedStore "M-1/2" "M-1" nestedRemoval (by decide) concerns_nestedRemoval).2
  rw [hbefore, hafter] at hsame
  -- The record is there, so it would have to be listed.
  have hnests : Nests "M-1" "M-1/2" "0001" := by decide +kernel
  obtain ⟨u, hu, _⟩ := exists_of_nests hnests
    (read?_changeKey nestedStore nestedPassage.document "0001" record) hsame
  exact absurd hu List.not_mem_nil

end Act

end Store

end PowerOfAttorney
