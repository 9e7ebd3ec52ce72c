import Mathlib.Data.List.Induction
import PowerOfAttorney.Proofs.Lifecycle.Replay
import PowerOfAttorney.Proofs.Register.Readable
import PowerOfAttorney.Proofs.Register.Scan

/-!
# `PowerOfAttorney.Proofs.Register.Explained` — the history of a document explains the document

The updates that are recorded of a document can be made again, one after the other, from the document as it
was first stored. Each is accepted again, and the stored document comes out.

## Contents
- **Requests.** `Service.serve` handles requests one after another.
- **Explanations.** `Explains`: what comes out when a history is made again.
- **Invariant.** `Service.Accounted`, which says what has been accepted so far, and that it is what is
  recorded. A request that is not answered with 201 leaves it as it is (`Accounted.skip`), and any other
  adds one update (`Accounted.record`).
- **Runs.** `Service.explains_of_serve`.
-/

namespace PowerOfAttorney

/-! ## Requests -/

/-- The store after some requests, each handled when the one before it has been answered. -/
def Service.serve (verify : Verifier) (s : Store) (xs : List (Occasion × Request)) : Store :=
  xs.foldl (fun s x => (handle verify x.1 x.2 s).2) s

theorem Service.serve_concat (verify : Verifier) (s : Store) (xs : List (Occasion × Request))
    (x : Occasion × Request) :
    serve verify s (xs ++ [x]) = (handle verify x.1 x.2 (serve verify s xs)).2 := by
  unfold serve
  rw [List.foldl_append]
  rfl

/-! ## Explanations -/

/-- A history explains how a document has come from another, if its updates were made at some of the given
    times. -/
structure Explains (times : List Instant) (d₀ : Document) (us : List Update) (d : Document) : Prop where
  /-- Whenever the updates are made again, each is accepted and the document comes out, but for what the
      clock leaves on it. -/
  again : ∀ as : List Attempt, as.map (·.update) = us →
    ∃ e, d₀.replay as = .ok e ∧ e.timeless = d.timeless
  /-- If they are made again at the times at which they were made, then nothing is different but when the
      document was last changed. -/
  asMade : ∃ as : List Attempt, as.map (·.update) = us ∧ (as.map (·.now)).Sublist times ∧
    ∃ e, d₀.replay as = .ok e ∧ { e with updatedAt := d.updatedAt } = d
  /-- The document was last changed by the last of the updates. -/
  updatedAt : d.updatedAt = (us.getLast?.map (·.applied)).getD d₀.updatedAt

/-- An attempt at the same update, at a related time. -/
structure Attempt.Repeats (R : Instant → Instant → Prop) (a b : Attempt) : Prop where
  update : a.update = b.update
  now : R b.now a.now

namespace Service

/-! ## Invariant -/

/-- What holds of a store in which requests to one document have been handled: the attempts that were
    accepted are recorded in order, and whenever they are repeated the stored document comes out. -/
structure Accounted (d₀ : Document) (xs : List (Occasion × Request)) (s : Store) (taken : List Attempt)
    (d : Document) : Prop where
  history : s.getChanges d₀.uid = .ok (taken.map (·.update))
  stored : s.read? (Store.documentKey d₀.uid) = some (Store.documentBytes d)
  uid : d.uid = d₀.uid
  recorded : ∀ id, (s.read? (Store.changeKey d₀.uid id)).isSome = true → id ∈ xs.map (·.1.id)
  times : (taken.map (·.now)).Sublist (xs.map (·.1.ruledAt))
  repeated : ∀ R : Instant → Instant → Prop, (∀ t, R t t) → ∀ as,
    List.Forall₂ (Attempt.Repeats R) as taken → ∃ e, d₀.replay as = .ok e ∧ d.Alike R e
  updatedAt : d.updatedAt = ((taken.map (·.update)).getLast?.map (·.applied)).getD d₀.updatedAt

/-- Nothing has happened to a document that has just been put into a store. -/
theorem accounted_put (d₀ : Document) : Accounted d₀ [] (Store.empty.put d₀) [] d₀ where
  history := by
    unfold Store.getChanges
    rw [Store.withPrefix_put]
    rfl
  stored := (Store.read?_write _ _ _ _).trans (if_pos rfl)
  uid := rfl
  recorded id hid := by
    rw [show (Store.empty.put d₀).read? _ = _ from Store.read?_write _ _ _ _,
      if_neg (Store.documentKey_ne_changeKey _ _ _).symm] at hid
    exact absurd hid nofun
  times := .slnil
  repeated R hrefl as has := by
    cases has
    exact ⟨d₀, rfl, Document.alike_refl hrefl d₀⟩
  updatedAt := rfl

variable {verify : Verifier} {d₀ d : Document} {xs : List (Occasion × Request)} {s : Store}
  {taken : List Attempt} {o : Occasion} {r : Request}

/-- A request that does not write changes nothing. -/
theorem Accounted.skip (h : Accounted d₀ xs s taken d) (x : Occasion × Request) :
    Accounted d₀ (xs ++ [x]) s taken d where
  history := h.history
  stored := h.stored
  uid := h.uid
  recorded id hid := by
    rw [List.map_append]
    exact List.mem_append_left _ (h.recorded id hid)
  times := by
    rw [List.map_append]
    exact h.times.trans (List.sublist_append_left _ _)
  repeated := h.repeated
  updatedAt := h.updatedAt

/-- The attempt that a request comes to when it is accepted, as it is recorded. -/
def Passage.attempt (p : Passage verify o r s) : Attempt :=
  ⟨p.update, o.ruledAt⟩

/-- The document that was read accepts the attempt. -/
theorem Passage.submit_attempt (p : Passage verify o r s) : p.read.submit p.attempt = .ok p.made :=
  Document.submit_eq_ok_iff.mpr ⟨p.command, p.valid, Command.effect_of_apply p.applied⟩

/-- What has been accepted so far can be repeated, and then the next attempt can. -/
theorem Accounted.repeated_concat (h : Accounted d₀ xs s taken d) {a : Attempt} {made : Document}
    (hsubmit : d.submit a = .ok made) {R : Instant → Instant → Prop} (hrefl : ∀ t, R t t)
    {as : List Attempt} (has : List.Forall₂ (Attempt.Repeats R) as (taken ++ [a])) :
    ∃ e, d₀.replay as = .ok e ∧ made.Alike R e := by
  obtain ⟨e, hreplay, halike⟩ := h.repeated R hrefl _ (List.forall₂_take_append as taken [a] has)
  have hlast := List.forall₂_drop_append as taken [a] has
  generalize hb : as.drop taken.length = bs at hlast
  cases hlast with
  | cons hrepeats hnil =>
      rename_i b _
      cases hnil
      obtain ⟨e', he', halike'⟩ := halike.submit hsubmit (b := b)
        (fun e => by rw [hrepeats.update]) hrepeats.now
      refine ⟨e', ?_, halike'⟩
      rw [← List.take_append_drop taken.length as, hb, Document.replay_concat, hreplay]
      exact he'

/-- A request that writes adds its update. -/
theorem Accounted.record (h : Accounted d₀ xs s taken d) (p : Passage verify o r s)
    (hr : r.uid = d₀.uid) (hid : ∀ id ∈ xs.map (·.1.id), id < o.id)
    (hleap : o.appliedAt.isLeap = false) {record : Bytes}
    (hrecord : (AuditRecord.ofUpdate p.update).encode? = some record) :
    Accounted d₀ (xs ++ [(o, r)])
      ((s.put p.document).write (Store.changeKey p.read.uid o.id) record)
      (taken ++ [p.attempt]) p.document := by
  obtain rfl : p.read = d := ((Store.get_eq_ok_iff (hr ▸ h.stored)).mp p.get_eq).2
  have huid : p.document.uid = d₀.uid := p.uid_document.trans h.uid
  have hdecode : Store.decodeUpdate record = .ok p.update :=
    Store.decodeUpdate_encode? hrecord (fun t ht => Option.some.inj ht ▸ hleap)
      (Update.isScalar_of_validate p.valid)
  have hlast : s.IsLast p.document.uid o.id :=
    Store.isLast_of_lt fun id' hid' => hid id' (h.recorded id' (huid ▸ hid'))
  rw [← p.uid_document]
  refine ⟨?_, ?_, huid, fun id hsome => ?_, ?_, fun R hrefl as has => ?_, ?_⟩
  · rw [← huid, Store.getChanges_write hlast hdecode, huid, h.history, List.map_append]
    rfl
  · rw [← huid]
    exact Store.read?_documentKey s p.document o.id record
  · -- A key that is recorded is the one that was just written, or was recorded before.
    rw [List.map_append]
    by_cases hkey : Store.changeKey d₀.uid id = Store.changeKey p.document.uid o.id
    · rw [huid] at hkey
      rw [Store.changeKey_injective hkey]
      exact List.mem_append_right _ (List.mem_singleton.mpr rfl)
    · rw [Store.read?_of_ne s p.document o.id record (Store.documentKey_ne_changeKey _ _ _).symm
        hkey] at hsome
      exact List.mem_append_left _ (h.recorded id hsome)
  · rw [List.map_append, List.map_append]
    exact h.times.append (List.Sublist.refl _)
  · obtain ⟨e, hreplay, halike⟩ := h.repeated_concat p.submit_attempt hrefl has
    exact ⟨e, hreplay, halike.updated _⟩
  · rw [List.map_append, List.map_singleton, List.getLast?_concat]
    rfl

/-- Every request keeps the account. -/
theorem Accounted.handle (h : Accounted d₀ xs s taken d) (hr : r.uid = d₀.uid)
    (hid : ∀ id ∈ xs.map (·.1.id), id < o.id) (hleap : o.appliedAt.isLeap = false) :
    ∃ taken' d', Accounted d₀ (xs ++ [(o, r)]) (handle verify o r s).2 taken' d' := by
  have hend := ending verify o r s s
  unfold Service.handle
  generalize handleAcross verify o r s s = x at hend
  cases hend with
  | done p hrecord _ => exact ⟨_, _, h.record p hr hid hleap hrecord⟩
  | _ => exact ⟨_, _, h.skip (o, r)⟩

/-! ## Runs -/

/-- Requests to one document, one after another, keep the account. -/
theorem accounted_serve (huid : ∀ x ∈ xs, x.2.uid = d₀.uid)
    (hids : (xs.map (·.1.id)).Pairwise (· < ·)) (hleap : ∀ x ∈ xs, x.1.appliedAt.isLeap = false) :
    ∃ taken d, Accounted d₀ xs (serve verify (Store.empty.put d₀) xs) taken d := by
  -- By induction from the end: the last request has the greatest identifier, so its record is listed last.
  induction xs using List.reverseRecOn with
  | nil => exact ⟨[], d₀, accounted_put d₀⟩
  | append_singleton xs x ih =>
      rw [List.map_append, List.pairwise_append] at hids
      obtain ⟨taken, d, h⟩ := ih (fun x hx => huid x (List.mem_append_left _ hx)) hids.1
        fun x hx => hleap x (List.mem_append_left _ hx)
      have hx : x ∈ xs ++ [x] := List.mem_append_right _ (List.mem_singleton.mpr rfl)
      rw [serve_concat]
      exact h.handle (huid x hx)
        (fun id hid => hids.2.2 id hid x.1.id (List.mem_singleton.mpr rfl)) (hleap x hx)

/-- What has been accounted for is an explanation. -/
theorem Accounted.explains (h : Accounted d₀ xs s taken d) :
    Explains (xs.map (·.1.ruledAt)) d₀ (taken.map (·.update)) d where
  again as has := by
    have hrepeats : List.Forall₂ (Attempt.Repeats fun _ _ => True) as taken := by
      have heq := List.forall₂_eq_eq_eq.symm ▸ has
      rw [List.forall₂_map_left_iff, List.forall₂_map_right_iff] at heq
      exact heq.imp fun _ _ hupdate => ⟨hupdate, trivial⟩
    obtain ⟨e, hreplay, halike⟩ := h.repeated _ (fun _ => trivial) as hrepeats
    exact ⟨e, hreplay, halike.timeless_eq⟩
  asMade := by
    obtain ⟨e, hreplay, halike⟩ := h.repeated Eq (fun _ => rfl) taken
      (List.forall₂_same.mpr fun _ _ => ⟨rfl, rfl⟩)
    exact ⟨taken, rfl, h.times, e, hreplay, halike.eq_of_same⟩
  updatedAt := h.updatedAt

/-- **The history explains the document**: when requests to a document that was put into an empty store
    have been handled one after another, under identifiers that grow, then all recorded updates can be
    listed, and they explain the document that is stored. -/
theorem explains_of_serve {verify : Verifier} {d₀ : Document} {xs : List (Occasion × Request)}
    (huid : ∀ x ∈ xs, x.2.uid = d₀.uid) (hids : (xs.map (·.1.id)).Pairwise (· < ·))
    (hleap : ∀ x ∈ xs, x.1.appliedAt.isLeap = false) :
    let s := serve verify (Store.empty.put d₀) xs
    ∃ us d, s.getChanges d₀.uid = .ok us ∧
      s.read? (Store.documentKey d₀.uid) = some (Store.documentBytes d) ∧
      (∀ e, s.get d₀.uid = .ok e ↔ d.IsWritable ∧ e = d) ∧
      Explains (xs.map (·.1.ruledAt)) d₀ us d := by
  obtain ⟨taken, d, h⟩ := @accounted_serve verify d₀ xs huid hids hleap
  exact ⟨taken.map (·.update), d, h.history, h.stored, fun e => Store.get_eq_ok_iff h.stored,
    h.explains⟩

/-- The history after a first request that comes to write is its update. -/
theorem getChanges_serve_one (p : Passage verify o r (Store.empty.put d₀)) (hr : r.uid = d₀.uid)
    (hleap : o.appliedAt.isLeap = false) {record : Bytes}
    (hrecord : (AuditRecord.ofUpdate p.update).encode? = some record)
    (hversion : (Store.empty.put d₀).version p.read.uid = .ok p.read.updatedAt) :
    (serve verify (Store.empty.put d₀) [(o, r)]).getChanges d₀.uid = .ok [p.update] := by
  have hdone := (Ending.done p hrecord hversion).eq
  show (handleAcross verify o r _ _).2.getChanges d₀.uid = _
  rw [hdone]
  exact ((accounted_put d₀).record p hr nofun hleap hrecord).history

/-- The history after the removal of an attorney is that removal. -/
theorem explains_of_serve_removal :
    let xs := [(removalOccasion, removalRequest)]
    let s := serve oneUser (Store.empty.put .ofTwoAttorneys) xs
    let us := [(removalPassage removalOccasion).update]
    (∀ x ∈ xs, x.2.uid = Document.ofTwoAttorneys.uid) ∧ (xs.map (·.1.id)).Pairwise (· < ·) ∧
      (∀ x ∈ xs, x.1.appliedAt.isLeap = false) ∧
      ∃ d, s.getChanges "M-1" = .ok us ∧
        s.read? (Store.documentKey "M-1") = some (Store.documentBytes d) ∧
        (∀ e, s.get "M-1" = .ok e ↔ d.IsWritable ∧ e = d) ∧
        Explains [.ofNanoseconds 0] .ofTwoAttorneys us d := by
  intro xs s us
  have huid : ∀ x ∈ xs, x.2.uid = Document.ofTwoAttorneys.uid :=
    fun x hx => List.mem_singleton.mp hx ▸ rfl
  have hids : (xs.map (·.1.id)).Pairwise (· < ·) := List.pairwise_singleton _ _
  have hleap : ∀ x ∈ xs, x.1.appliedAt.isLeap = false := fun x hx => List.mem_singleton.mp hx ▸ rfl
  refine ⟨huid, hids, hleap, ?_⟩
  obtain ⟨us', d, hchanges, hstored, hget, hexplains⟩ :=
    @explains_of_serve oneUser _ _ huid hids hleap
  obtain ⟨record, hrecord⟩ : ∃ record,
      (AuditRecord.ofUpdate (removalPassage removalOccasion).update).encode? = some record := by
    rw [← Option.isSome_iff_exists, Passage.isSome_encode? _ (by decide)]
    decide +kernel
  have hremoval := getChanges_serve_one (removalPassage removalOccasion) rfl rfl hrecord
    version_oneDocument
  obtain rfl : us' = us := Except.ok.inj (hchanges.symm.trans hremoval)
  exact ⟨d, hchanges, hstored, hget, hexplains⟩

end Service

end PowerOfAttorney
