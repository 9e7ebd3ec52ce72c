import PowerOfAttorney.Proofs.Document.Version
import PowerOfAttorney.Register.Store

/-!
# `PowerOfAttorney.Proofs.Register.Written` — what a store holds after a write

An update writes under two keys, which are never the same, and leaves all others alone.

## Contents
- **Keys.** `Store.documentKey_ne_changeKey`.
- **Writing.** `Store.putChanges_eq_ok` tells when an update is written and what the store is then.
- **Reading.** What is found in that store under each key, and how it is decoded: `Store.get_of_read?` and
  `Store.version_of_read?`.
-/

namespace PowerOfAttorney

namespace Store

/-! ## Keys -/

/-- Documents and updates are kept apart. -/
theorem documentKey_ne_changeKey (uid uid' id : String) : documentKey uid ≠ changeKey uid' id := by
  intro h
  have hchars := congrArg String.toList h
  unfold documentKey changeKey historyKey at hchars
  simp only [String.toList_append] at hchars
  rw [show "lpa/".toList = 'l' :: ['p', 'a', '/'] by decide,
    show "change/".toList = 'c' :: ['h', 'a', 'n', 'g', 'e', '/'] by decide] at hchars
  exact absurd (List.cons.inj hchars).1 (by decide)

/-- Each document has a key of its own. -/
theorem documentKey_injective {uid uid' : String} (h : documentKey uid = documentKey uid') :
    uid = uid' := by
  have hchars := congrArg String.toList h
  unfold documentKey at hchars
  rw [String.toList_append, String.toList_append] at hchars
  exact String.toList_injective (List.append_cancel_left hchars)

/-- Each update of a document has a key of its own. -/
theorem changeKey_injective {uid id id' : String} (h : changeKey uid id = changeKey uid id') :
    id = id' := by
  have hchars := congrArg String.toList h
  unfold changeKey at hchars
  rw [String.toList_append, String.toList_append] at hchars
  exact String.toList_injective (List.append_cancel_left hchars)

/-! ## Writing -/

/-- An update is written if its record has an encoding and the document has not changed. -/
theorem putChanges_eq_ok {s s' : Store} {d : Document} {u : Update} {expected : Option Instant} :
    s.putChanges d u expected = .ok s' ↔
      ∃ record, (AuditRecord.ofUpdate u).encode? = some record ∧ s.version d.uid = .ok expected ∧
        s' = (s.put d).write (changeKey d.uid u.id) record := by
  unfold putChanges
  cases (AuditRecord.ofUpdate u).encode? with
  | none => exact ⟨nofun, fun ⟨_, h, _⟩ => absurd h nofun⟩
  | some record =>
      cases s.version d.uid with
      | error why => exact ⟨nofun, fun ⟨_, _, h, _⟩ => absurd h nofun⟩
      | ok stored =>
          show (if stored = expected then Except.ok _ else .error _) = .ok s' ↔ _
          by_cases hsame : stored = expected
          · rw [if_pos hsame, hsame]
            constructor
            · intro h
              exact ⟨record, rfl, rfl, (Except.ok.inj h).symm⟩
            · rintro ⟨_, hrecord, _, rfl⟩
              rw [Option.some.inj hrecord]
          · rw [if_neg hsame]
            exact ⟨nofun, fun ⟨_, _, h, _⟩ => absurd (Except.ok.inj h) hsame⟩

/-! ## Reading -/

theorem read?_write (s : Store) (key key' : String) (bytes : Bytes) :
    (s.write key bytes).read? key' = if key' = key then some bytes else s.read? key' :=
  Dictionary.get?_insert s.entries key key' bytes

variable (s : Store) (d : Document) (id : String) (record : Bytes)

/-- The record of the update is found under its key. -/
theorem read?_changeKey : ((s.put d).write (changeKey d.uid id) record).read? (changeKey d.uid id) =
    some record := by
  rw [read?_write, if_pos rfl]

/-- The document is found under its key. -/
theorem read?_documentKey : ((s.put d).write (changeKey d.uid id) record).read? (documentKey d.uid) =
    some (documentBytes d) := by
  rw [read?_write, if_neg (documentKey_ne_changeKey _ _ _)]
  exact (read?_write s _ _ _).trans (if_pos rfl)

/-- What is under other keys stays. -/
theorem read?_of_ne {key : String} (hdocument : key ≠ documentKey d.uid)
    (hchange : key ≠ changeKey d.uid id) :
    ((s.put d).write (changeKey d.uid id) record).read? key = s.read? key := by
  rw [read?_write, if_neg hchange]
  exact (read?_write s _ _ _).trans (if_neg hdocument)

/-- What stored bytes decode to is what their text decodes to. -/
theorem decode_eq_ok {α : Type} {c : Codec α} {bytes : Bytes} {a : α} :
    decode c bytes = .ok a ↔ c.decodeText (Bytes.jsonText bytes) = .ok a := by
  unfold decode
  cases c.decodeText (Bytes.jsonText bytes) with
  | error why => exact ⟨nofun, nofun⟩
  | ok b =>
      show Except.ok b = .ok a ↔ _
      rw [Except.ok.injEq, Except.ok.injEq]

/-- The bytes of a document are decoded as its JSON. -/
theorem decode_documentBytes {α : Type} (c : Codec α) :
    decode c (documentBytes d) = (c.decodeJson (Document.codec.encode d)).mapError .json := by
  unfold decode documentBytes Codec.encodeText
  rw [Bytes.jsonText_ofString, Codec.decodeText_text c d.isPlain_encode]

/-- A document that is found is read as its JSON. -/
theorem get_of_read? {s : Store} {uid : String} {d : Document}
    (h : s.read? (documentKey uid) = some (documentBytes d)) :
    s.get uid = (Document.codec.decodeJson (Document.codec.encode d)).mapError .json := by
  unfold get
  rw [h]
  exact decode_documentBytes d Document.codec

/-- **The version of a document that is found is the time of its last change.** -/
theorem version_of_read? {s : Store} {uid : String} {d : Document}
    (h : s.read? (documentKey uid) = some (documentBytes d)) (ht : ∀ t ∈ d.updatedAt, t.IsStorable) :
    s.version uid = .ok d.updatedAt := by
  unfold version
  rw [h]
  refine decode_eq_ok.mpr ?_
  unfold documentBytes
  rw [Bytes.jsonText_ofString]
  exact Document.version_encodeText ht

/-- The version of a document that is found is no other time than that of its last change. -/
theorem eq_updatedAt_of_version {s : Store} {uid : String} {d : Document} {t : Option Instant}
    (h : s.read? (documentKey uid) = some (documentBytes d)) (ht : s.version uid = .ok t) :
    t = d.updatedAt := by
  unfold version at ht
  rw [h] at ht
  have hdecode := decode_eq_ok.mp ht
  unfold documentBytes at hdecode
  rw [Bytes.jsonText_ofString] at hdecode
  exact Document.eq_updatedAt_of_version hdecode

end Store

end PowerOfAttorney
