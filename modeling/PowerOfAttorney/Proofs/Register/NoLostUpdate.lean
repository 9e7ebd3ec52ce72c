import PowerOfAttorney.Proofs.Lifecycle.Run
import PowerOfAttorney.Proofs.Register.Contention

/-!
# `PowerOfAttorney.Proofs.Register.NoLostUpdate` — contending requests might have come one after another

Whatever the order of their steps, the requests that are answered with 201 leave the store that they would
leave one after another, in the order of their writes, and the others leave nothing.

The reason is that a document never carries the same time twice. So a request that holds a document is in
one of two positions: what it holds is still what is stored, or what it holds has a time that the
stored document has left for good. In the second position it cannot write, and in the first it might as well
have read just now.

## Contents
- **Stages.** What each stage of a request can give.
- **Positions.** `Contention.Sees`, and that a write puts all others in the second position.
- **Invariant.** `Contention.Sound`, at the start and after each step.
- **Runs.** `Contention.IsSerial` and `Contention.isSerial_of_reach`.
-/

namespace PowerOfAttorney

namespace Service

variable {verify : Verifier} {o : Occasion} {r : Request} {u : Update} {d : Document} {k : Commit}
  {s : Store}

/-! ## Stages -/

/-- What has been received is what was sent, with its author. -/
theorem receive_eq_ok (h : receive verify r = .ok u) :
    ∃ claims sent, r.Sends verify claims sent ∧ u = { sent with author := claims.subject } := by
  unfold receive at h
  cases hclaims : verify r.headers with
  | error why =>
      rw [hclaims] at h
      exact absurd h nofun
  | ok claims =>
      rw [hclaims] at h
      dsimp only at h
      cases hsent : Update.codec.decodeText r.body with
      | error why =>
          rw [hsent] at h
          exact absurd h nofun
      | ok sent =>
          rw [hsent] at h
          exact ⟨claims, sent, ⟨hclaims, hsent⟩, (Except.ok.inj h).symm⟩

theorem status_of_receive {p : Problem} (h : receive verify r = .error p) : p.respond.status ≠ 201 := by
  unfold receive at h
  split at h
  · rw [← Except.error.inj h]
    decide
  · split at h
    · rw [← Except.error.inj h]
      decide
    · exact absurd h nofun

theorem status_unread (why : StoreError) : (unread why).respond.status ≠ 201 := by
  unfold unread
  split <;> decide

theorem status_unwritten (why : StoreError) : (unwritten why).respond.status ≠ 201 := by
  unfold unwritten
  split <;> decide

/-- What is prepared is the result of an accepted attempt, at the time of the occasion. -/
theorem prepare_eq_ok (h : prepare o u (.ok d) = .ok k) :
    ∃ made, d.submit ⟨{ u with uid := d.uid }, o.ruledAt⟩ = .ok made ∧
      k = ⟨{ made with updatedAt := some o.appliedAt },
        { u with id := o.id, uid := d.uid, applied := some o.appliedAt }, d.updatedAt⟩ := by
  rw [prepare_ok] at h
  split at h
  · exact absurd h nofun
  · rename_i made hsubmit
    exact ⟨made, hsubmit, (Except.ok.inj h).symm⟩

theorem status_of_prepare {p : Problem} (h : prepare o u (.ok d) = .error p) :
    p.respond.status ≠ 201 := by
  rw [prepare_ok] at h
  split at h
  · rw [← Except.error.inj h]
    exact nofun
  · exact absurd h nofun

/-- A write is answered with 201 and done, or answered with something else and not done. -/
theorem commit_cases (s : Store) (k : Commit) :
    ((commit s k).1.status = 201 ∧ ∃ record, (AuditRecord.ofUpdate k.update).encode? = some record ∧
      s.version k.document.uid = .ok k.expected ∧
      (commit s k).2 = (s.put k.document).write (Store.changeKey k.document.uid k.update.id) record) ∨
    ((commit s k).1.status ≠ 201 ∧ (commit s k).2 = s) := by
  unfold commit
  cases hput : s.putChanges k.document k.update k.expected with
  | error why => exact .inr ⟨status_unwritten why, rfl⟩
  | ok s' =>
      obtain ⟨record, hrecord, hversion, rfl⟩ := Store.putChanges_eq_ok.mp hput
      exact .inl ⟨rfl, record, hrecord, hversion, rfl⟩

namespace Contention

variable {c : Contention} {own : String} {s₀ : Store} {t t' : System}

/-! ## Positions -/

/-- What a request holds is what is stored, and so much more is known of it; or it has a time that the
    document has carried and that is no longer the stored one. -/
def Sees (c : Contention) (own : String) (t : System) (d : Document) (more : Prop) : Prop :=
  (t.store.get c.uid = .ok d ∧ more) ∨
    (d.uid = own ∧ d.updatedAt ∈ t.carried ∧ t.store.version own ≠ .ok d.updatedAt)

/-- What is known of a request in each phase, where documents are written under the uid `own`. -/
def IsSoundAt (c : Contention) (own : String) (t : System) (i : Nat) : Phase → Prop
  | .waiting => True
  | .holding u d => receive c.verify (c.request i) = .ok u ∧ c.Sees own t d True
  | .ruled u d _ appliedAt =>
    receive c.verify (c.request i) = .ok u ∧ appliedAt.IsStorable ∧
      c.Sees own t d (some appliedAt ∉ t.carried)
  | .ready o k =>
    ∃ u d, receive c.verify (c.request i) = .ok u ∧ prepare o u (.ok d) = .ok k ∧
      o.appliedAt.IsStorable ∧
      c.Sees own t d (some o.appliedAt ∉ t.carried ∧ t.store.IsLast own o.id)
  | .answered _ => True

/-- After a write with a time of its own, what others hold is out of date. -/
theorem Sees.outdated {d : Document} {more more' : Prop} {at' : Instant} (h : c.Sees own t d more)
    (hnamed : ∀ d, t.store.get c.uid = .ok d → d.uid = own ∧ d.updatedAt ∈ t.carried)
    (hsub : t.carried ⊆ t'.carried) (hfresh : some at' ∉ t.carried)
    (hversion : t'.store.version own = .ok (some at')) : c.Sees own t' d more' := by
  have hheld : d.uid = own ∧ d.updatedAt ∈ t.carried := by
    rcases h with ⟨hget, _⟩ | ⟨huid, hcarried, _⟩
    · exact hnamed d hget
    · exact ⟨huid, hcarried⟩
  refine .inr ⟨hheld.1, hsub hheld.2, fun heq => hfresh ?_⟩
  rw [hversion] at heq
  rw [Except.ok.inj heq]
  exact hheld.2

theorem IsSoundAt.outdated {i : Nat} {p : Phase} {at' : Instant} (h : c.IsSoundAt own t i p)
    (hnamed : ∀ d, t.store.get c.uid = .ok d → d.uid = own ∧ d.updatedAt ∈ t.carried)
    (hsub : t.carried ⊆ t'.carried) (hfresh : some at' ∉ t.carried)
    (hversion : t'.store.version own = .ok (some at')) : c.IsSoundAt own t' i p := by
  cases p with
  | waiting => trivial
  | holding u d => exact ⟨h.1, h.2.outdated hnamed hsub hfresh hversion⟩
  | ruled u d ruledAt appliedAt => exact ⟨h.1, h.2.1, h.2.2.outdated hnamed hsub hfresh hversion⟩
  | ready o k =>
      obtain ⟨u, d, hu, hk, ho, hsees⟩ := h
      exact ⟨u, d, hu, hk, ho, hsees.outdated hnamed hsub hfresh hversion⟩
  | answered answer => trivial

/-! ## Invariant -/

/-- An update is the record of a request that was made on an occasion. -/
def Records (c : Contention) (uid : String) (e : Nat × Occasion) (u : Update) : Prop :=
  ∃ claims sent, (c.request e.1).Sends c.verify claims sent ∧
    u = { sent with
      id := e.2.id, uid := uid, author := claims.subject, applied := some e.2.appliedAt }

/-- What holds of a system that has come from a store by timely steps. -/
structure Sound (c : Contention) (own : String) (s₀ : Store) (t : System) : Prop where
  named : ∀ d, t.store.get c.uid = .ok d → d.uid = own ∧ d.updatedAt ∈ t.carried
  replay : ∃ answers, c.serially s₀ t.log = (answers, t.store) ∧
    t.log.map (fun e => t.phase e.1) = answers.map .answered
  logged : ∀ i, i ∈ t.log.map Prod.fst ↔ ∃ a, t.phase i = .answered a ∧ a.status = 201
  nodup : (t.log.map Prod.fst).Nodup
  history : ∃ us, t.store.getChanges own = (s₀.getChanges own).map (· ++ us) ∧
    List.Forall₂ (c.Records own) t.log us
  requests : ∀ i, c.IsSoundAt own t i (t.phase i)

theorem carriedBy_eq {s : Store} {uid : String} {d : Document} (h : s.get uid = .ok d) :
    carriedBy s uid = [d.updatedAt] := by
  unfold carriedBy
  rw [h]

theorem mem_carriedBy {s : Store} {uid : String} {d : Document} (h : s.get uid = .ok d) :
    d.updatedAt ∈ carriedBy s uid := by
  rw [carriedBy_eq h]
  exact List.mem_singleton.mpr rfl

theorem sound_start (hown : ∀ d, s₀.get c.uid = .ok d → d.uid = own) : c.Sound own s₀ (c.start s₀) where
  named d hd := ⟨hown d hd, mem_carriedBy hd⟩
  replay := ⟨[], rfl, rfl⟩
  logged i := ⟨nofun, fun ⟨_, h, _⟩ => absurd h nofun⟩
  nodup := List.nodup_nil
  history := by
    refine ⟨[], ?_, .nil⟩
    show s₀.getChanges own = _
    cases s₀.getChanges own with
    | error why => rfl
    | ok us => exact congrArg Except.ok (List.append_nil us).symm
  requests _ := trivial

/-- A request that has not been answered has not been logged. -/
theorem Sound.not_mem_log (h : c.Sound own s₀ t) {i : Nat} (hphase : ∀ a, t.phase i ≠ .answered a) :
    i ∉ t.log.map Prod.fst := by
  intro hmem
  obtain ⟨a, ha, _⟩ := (h.logged i).mp hmem
  exact hphase a ha

/-- It leaves the requests alone that have been. -/
theorem Sound.phase_of_mem_log (h : c.Sound own s₀ t) {i : Nat} (hphase : ∀ a, t.phase i ≠ .answered a)
    (p : Phase) : ∀ e ∈ t.log, (t.set i p).phase e.1 = t.phase e.1 := by
  intro e he
  refine System.phase_set_of_ne p fun heq => h.not_mem_log hphase ?_
  rw [← heq]
  exact List.mem_map_of_mem he

/-- A request goes on without writing. -/
theorem Sound.set (h : c.Sound own s₀ t) {i : Nat} {p : Phase}
    (hphase : ∀ a, t.phase i ≠ .answered a) (hp : c.IsSoundAt own t i p)
    (hanswer : ∀ a, p = .answered a → a.status ≠ 201) : c.Sound own s₀ (t.set i p) := by
  refine ⟨h.named, ?_, fun j => ?_, h.nodup, h.history, fun j => ?_⟩
  · obtain ⟨answers, hserial, hanswers⟩ := h.replay
    exact ⟨answers, hserial, (List.map_congr_left (h.phase_of_mem_log hphase p)).trans hanswers⟩
  · by_cases hj : j = i
    · subst hj
      rw [System.phase_set_self]
      exact ⟨fun hmem => absurd hmem (h.not_mem_log hphase),
        fun ⟨a, ha, hstatus⟩ => absurd hstatus (hanswer a ha)⟩
    · rw [System.phase_set_of_ne p hj]
      exact h.logged j
  · by_cases hj : j = i
    · subst hj
      rw [System.phase_set_self]
      exact hp
    · rw [System.phase_set_of_ne p hj]
      exact h.requests j

/-- An update of a document that can be read is held against it. -/
theorem read_eq {i : Nat} {u : Update} {d : Document} (hu : receive c.verify (c.request i) = .ok u)
    (hd : t.store.get c.uid = .ok d) : c.read t i = .holding u d := by
  unfold read
  rw [hu, c.uid_request]
  dsimp only
  rw [hd]

/-- What was read is stored. -/
theorem isSoundAt_read (t : System) (i : Nat) : c.IsSoundAt own t i (c.read t i) := by
  unfold read
  cases hu : receive c.verify (c.request i) with
  | error p => trivial
  | ok u =>
      rw [c.uid_request]
      cases hd : t.store.get c.uid with
      | error why => trivial
      | ok d => exact ⟨hu, .inl ⟨hd, trivial⟩⟩

theorem status_read {a : Response} (h : c.read t i = .answered a) : a.status ≠ 201 := by
  unfold read at h
  cases hu : receive c.verify (c.request i) with
  | error p =>
      rw [hu] at h
      cases h
      exact status_of_receive hu
  | ok u =>
      rw [hu] at h
      dsimp only at h
      cases hd : t.store.get (c.request i).uid with
      | error why =>
          rw [hd] at h
          cases h
          exact status_unread why
      | ok d =>
          rw [hd] at h
          exact absurd h nofun

theorem isSoundAt_rule {i : Nat} {u : Update} {d : Document} {ruledAt appliedAt : Instant}
    (h : c.IsSoundAt own t i (.holding u d)) (ho : appliedAt.IsStorable)
    (hfresh : some appliedAt ∉ t.carried) : c.IsSoundAt own t i (rule u d ruledAt appliedAt) := by
  unfold rule
  cases prepare ⟨ruledAt, appliedAt, ""⟩ u (.ok d) with
  | error p => trivial
  | ok k => exact ⟨h.1, ho, h.2.imp_left fun hsees => ⟨hsees.1, hfresh⟩⟩

theorem status_rule {u : Update} {d : Document} {ruledAt appliedAt : Instant} {a : Response}
    (h : rule u d ruledAt appliedAt = .answered a) : a.status ≠ 201 := by
  unfold rule at h
  cases hk : prepare ⟨ruledAt, appliedAt, ""⟩ u (.ok d) with
  | error p =>
      rw [hk] at h
      cases h
      exact status_of_prepare hk
  | ok k =>
      rw [hk] at h
      exact absurd h nofun

theorem isSoundAt_name {i : Nat} {u : Update} {d : Document} {ruledAt appliedAt : Instant} {id : String}
    (h : c.IsSoundAt own t i (.ruled u d ruledAt appliedAt))
    (hlast : t.store.get c.uid = .ok d → t.store.IsLast own id) :
    c.IsSoundAt own t i (name u d ⟨ruledAt, appliedAt, id⟩) := by
  unfold name
  cases hk : prepare ⟨ruledAt, appliedAt, id⟩ u (.ok d) with
  | error p => trivial
  | ok k =>
      exact ⟨u, d, h.1, hk, h.2.1, h.2.2.imp_left fun hsees => ⟨hsees.1, hsees.2, hlast hsees.1⟩⟩

theorem status_name {u : Update} {d : Document} {o : Occasion} {a : Response}
    (h : name u d o = .answered a) : a.status ≠ 201 := by
  unfold name at h
  cases hk : prepare o u (.ok d) with
  | error p =>
      rw [hk] at h
      cases h
      exact status_of_prepare hk
  | ok k =>
      rw [hk] at h
      exact absurd h nofun

/-- A write of what is stored is the write of a request that nothing comes between. -/
theorem handle_eq_commit {i : Nat} {o : Occasion} {u : Update} {d : Document} {k : Commit}
    (hu : receive c.verify (c.request i) = .ok u) (hd : t.store.get c.uid = .ok d)
    (hk : prepare o u (.ok d) = .ok k) : handle c.verify o (c.request i) t.store = commit t.store k := by
  unfold handle handleAcross
  rw [hu]
  dsimp only
  rw [c.uid_request, hd, hk]

/-- A write that is not answered with 201 is none. -/
theorem write_of_ne {i : Nat} {o : Occasion} {k : Commit} (hstatus : (commit t.store k).1.status ≠ 201)
    (hstore : (commit t.store k).2 = t.store) :
    c.write t i o k = t.set i (.answered (commit t.store k).1) := by
  unfold write
  dsimp only
  rw [if_neg hstatus, if_neg hstatus, hstore]
  rfl

/-- What is stored after a write has the uid under which it was written. -/
theorem uid_of_write {d : Document} {id : String} {record : Bytes} (hd : d.uid = own)
    (hnamed : ∀ d, s₀.get c.uid = .ok d → d.uid = own) {d' : Document}
    (h : ((s₀.put d).write (Store.changeKey d.uid id) record).get c.uid = .ok d') : d'.uid = own := by
  by_cases hown : c.uid = d.uid
  · rw [hown, Store.get_of_read? (Store.read?_documentKey s₀ d id record)] at h
    cases hdecode : Document.codec.decodeJson (Document.codec.encode d) with
    | error why =>
        rw [hdecode] at h
        exact absurd h nofun
    | ok d'' =>
        rw [hdecode] at h
        cases h
        rw [Document.uid_of_decodeJson hdecode, hd]
  · refine hnamed d' (Eq.trans ?_ h)
    unfold Store.get
    rw [Store.read?_of_ne s₀ d id record (fun heq => hown ?_) (Store.documentKey_ne_changeKey _ _ _)]
    exact Store.documentKey_injective heq

/-- What is known of a write that is done: it is that of a request that nothing came between, with a time
    and an identifier that were not there before. -/
structure Done (c : Contention) (own : String) (t : System) (i : Nat) (o : Occasion) (k : Commit) :
    Prop where
  handled : handle c.verify o (c.request i) t.store = commit t.store k
  uid : k.document.uid = own
  time : k.document.updatedAt = some o.appliedAt
  storable : o.appliedAt.IsStorable
  fresh : some o.appliedAt ∉ t.carried
  last : t.store.IsLast own o.id
  update : c.Records own (i, o) k.update
  record : ∃ record, Store.decodeUpdate record = .ok k.update ∧
    (commit t.store k).2 = (t.store.put k.document).write (Store.changeKey k.document.uid o.id) record

/-- Only a request that holds what is stored can write. -/
theorem Sound.done (h : c.Sound own s₀ t) {i : Nat} {o : Occasion} {k : Commit}
    (hphase : t.phase i = .ready o k) (hstatus : (commit t.store k).1.status = 201) :
    c.Done own t i o k := by
  have hready := h.requests i
  rw [hphase] at hready
  obtain ⟨u, d, hu, hk, ho, hsees⟩ := hready
  rcases commit_cases t.store k with ⟨_, record, hrecord, hversion, hstore⟩ | ⟨hne, _⟩
  · obtain ⟨made, hsubmit, rfl⟩ := prepare_eq_ok hk
    obtain ⟨command, hvalid, heffect⟩ := Document.submit_eq_ok_iff.mp hsubmit
    have hmade : made.uid = d.uid := Command.uid_of_apply heffect.apply_eq
    change t.store.version made.uid = .ok d.updatedAt at hversion
    rcases hsees with ⟨hget, hfresh, hlast⟩ | ⟨hown, _, hstale⟩
    · obtain ⟨claims, sent, hsends, rfl⟩ := receive_eq_ok hu
      have hown := (h.named d hget).1
      refine ⟨handle_eq_commit hu hget hk, hmade.trans hown, rfl, ho, hfresh, hlast,
        ⟨claims, sent, hsends, by rw [hown]⟩, record, ?_, hstore⟩
      exact Store.decodeUpdate_encode? hrecord (fun x hx => Option.some.inj hx ▸ ho.1)
        (Update.isScalar_of_validate hvalid)
    · rw [hmade, hown] at hversion
      exact absurd hversion hstale
  · exact absurd hstatus hne

theorem write_of_eq {i : Nat} {o : Occasion} {k : Commit} (hstatus : (commit t.store k).1.status = 201) :
    c.write t i o k =
      ⟨(commit t.store k).2, (t.set i (.answered (commit t.store k).1)).phase,
        carriedBy (commit t.store k).2 c.uid ++ t.carried, t.log ++ [(i, o)]⟩ := by
  unfold write
  dsimp only
  rw [if_pos hstatus, if_pos hstatus]

/-- What is stored then has the time of the write. -/
theorem Done.version_eq {i : Nat} {o : Occasion} {k : Commit} (h : c.Done own t i o k) :
    (commit t.store k).2.version own = .ok (some o.appliedAt) := by
  obtain ⟨record, _, hstore⟩ := h.record
  rw [hstore, ← h.uid, ← h.time]
  refine Store.version_of_read? (Store.read?_documentKey t.store k.document o.id record) fun x hx => ?_
  rw [h.time] at hx
  exact Option.some.inj hx ▸ h.storable

/-- The record of the write comes last in the history. -/
theorem Sound.history_done (h : c.Sound own s₀ t) {i : Nat} {o : Occasion} {k : Commit}
    (hdone : c.Done own t i o k) :
    ∃ us, (commit t.store k).2.getChanges own = (s₀.getChanges own).map (· ++ us) ∧
      List.Forall₂ (c.Records own) (t.log ++ [(i, o)]) us := by
  obtain ⟨us, hchanges, hrecords⟩ := h.history
  obtain ⟨record, hrecord, hstore⟩ := hdone.record
  refine ⟨us ++ [k.update], ?_, List.rel_append hrecords (.cons hdone.update .nil)⟩
  rw [hstore, ← hdone.uid, Store.getChanges_write (hdone.uid ▸ hdone.last) hrecord, hdone.uid, hchanges]
  cases s₀.getChanges own with
  | error why => rfl
  | ok us₀ => exact congrArg Except.ok (List.append_assoc _ _ _)

/-- A write that is done keeps the invariant: all others are out of date from then on. -/
theorem Sound.write_done (h : c.Sound own s₀ t) {i : Nat} {o : Occasion} {k : Commit}
    (hphase : t.phase i = .ready o k) (hstatus : (commit t.store k).1.status = 201) :
    c.Sound own s₀ (c.write t i o k) := by
  have hdone := h.done hphase hstatus
  have hopen : ∀ a, t.phase i ≠ .answered a := by
    intro a ha
    rw [hphase] at ha
    exact absurd ha nofun
  have hnot := h.not_mem_log hopen
  rw [write_of_eq hstatus]
  refine ⟨fun d hd => ⟨?_, ?_⟩, ?_, fun j => ?_, ?_, h.history_done hdone, fun j => ?_⟩
  · obtain ⟨record, _, hstore⟩ := hdone.record
    change (commit t.store k).2.get c.uid = .ok d at hd
    rw [hstore] at hd
    exact uid_of_write hdone.uid (fun d hd => (h.named d hd).1) hd
  · exact List.mem_append_left _ (mem_carriedBy hd)
  · obtain ⟨answers, hserial, hanswers⟩ := h.replay
    refine ⟨answers ++ [(commit t.store k).1], ?_, ?_⟩
    · rw [serially_append, hserial, hdone.handled]
    · dsimp only
      rw [List.map_append, List.map_append, ← hanswers, List.map_congr_left (h.phase_of_mem_log hopen _),
        List.map_singleton, System.phase_set_self]
      rfl
  · dsimp only
    rw [List.map_append, List.mem_append, h.logged j]
    by_cases hj : j = i
    · subst hj
      rw [System.phase_set_self]
      exact ⟨fun _ => ⟨_, rfl, hstatus⟩, fun _ => .inr (List.mem_singleton.mpr rfl)⟩
    · rw [System.phase_set_of_ne _ hj]
      exact ⟨fun hmem => hmem.resolve_right fun heq => hj (List.mem_singleton.mp heq), .inl⟩
  · show ((t.log ++ [(i, o)]).map Prod.fst).Nodup
    rw [List.map_append, List.nodup_append]
    refine ⟨h.nodup, List.nodup_singleton _, fun x hx y hy => ?_⟩
    rw [List.mem_singleton.mp hy]
    rintro rfl
    exact hnot hx
  · dsimp only
    by_cases hj : j = i
    · subst hj
      rw [System.phase_set_self]
      trivial
    · rw [System.phase_set_of_ne _ hj]
      exact (h.requests j).outdated h.named (List.subset_append_right _ _) hdone.fresh hdone.version_eq

theorem Sound.write (h : c.Sound own s₀ t) {i : Nat} {o : Occasion} {k : Commit}
    (hphase : t.phase i = .ready o k) : c.Sound own s₀ (c.write t i o k) := by
  by_cases hstatus : (commit t.store k).1.status = 201
  · exact h.write_done hphase hstatus
  · have hstore : (commit t.store k).2 = t.store := by
      rcases commit_cases t.store k with ⟨hdone, _⟩ | ⟨_, hstore⟩
      · exact absurd hdone hstatus
      · exact hstore
    rw [write_of_ne hstatus hstore]
    refine h.set (fun a ha => ?_) trivial fun a ha => ?_
    · rw [hphase] at ha
      exact absurd ha nofun
    · cases ha
      exact hstatus

/-! ## Runs -/

/-- **A timely step keeps the invariant.** -/
theorem Sound.step (h : c.Sound own s₀ t) {e : Event} (htimely : c.Timely t e)
    (hstep : c.step t e = some t') : c.Sound own s₀ t' := by
  rcases step_cases hstep with ⟨i, rfl, hphase, rfl⟩ | ⟨i, u, d, ruledAt, appliedAt, rfl, hphase, rfl⟩ |
    ⟨i, id, u, d, ruledAt, appliedAt, rfl, hphase, rfl⟩ | ⟨i, o, k, rfl, hphase, rfl⟩
  · exact h.set (fun a ha => absurd (hphase.symm.trans ha) nofun) (isSoundAt_read t i)
      fun a => status_read
  · have hsound := h.requests i
    rw [hphase] at hsound
    exact h.set (fun a ha => absurd (hphase.symm.trans ha) nofun)
      (isSoundAt_rule hsound htimely.1 htimely.2) fun a => status_rule
  · have hsound := h.requests i
    rw [hphase] at hsound
    refine h.set (fun a ha => absurd (hphase.symm.trans ha) nofun)
      (isSoundAt_name hsound fun hget => ?_) fun a => status_name
    rw [← (h.named d hget).1]
    exact htimely d hget
  · exact h.write hphase

theorem sound_of_reach (hown : ∀ d, s₀.get c.uid = .ok d → d.uid = own) (h : c.Reach s₀ t) :
    c.Sound own s₀ t := by
  induction h with
  | start => exact sound_start hown
  | step _ htimely hstep ih => exact ih.step htimely hstep

/-- A system is as if its requests had come one after another.

    The store and the answers are those of the requests that have been answered with 201, handled without
    overlap, in the order of their writes and on the same occasions. What has been answered with 201 has been
    logged once, when it wrote, and no other step changes the store. The history of the document has
    grown by one record of each logged request, in that order. -/
structure IsSerial (c : Contention) (s : Store) (t : System) : Prop where
  replay : ∃ answers, c.serially s t.log = (answers, t.store) ∧
    t.log.map (fun e => t.phase e.1) = answers.map .answered
  logged : ∀ i, i ∈ t.log.map Prod.fst ↔ ∃ a, t.phase i = .answered a ∧ a.status = 201
  nodup : (t.log.map Prod.fst).Nodup
  steps : ∀ e t', c.step t e = some t' → (t'.store = t.store ∧ t'.log = t.log) ∨
    ∃ i o k a, e = .write i ∧ t.phase i = .ready o k ∧ t'.phase i = .answered a ∧ a.status = 201 ∧
      t'.log = t.log ++ [(i, o)]
  history : ∀ d, s.get c.uid = .ok d →
    ∃ us, t.store.getChanges d.uid = (s.getChanges d.uid).map (· ++ us) ∧
      List.Forall₂ (c.Records d.uid) t.log us

/-- The store changes only where a request writes and is answered with 201. -/
theorem store_of_step {e : Event} (h : c.step t e = some t') :
    (t'.store = t.store ∧ t'.log = t.log) ∨
      ∃ i o k a, e = .write i ∧ t.phase i = .ready o k ∧ t'.phase i = .answered a ∧ a.status = 201 ∧
        t'.log = t.log ++ [(i, o)] := by
  rcases step_cases h with ⟨i, rfl, _, rfl⟩ | ⟨i, _, _, _, _, rfl, _, rfl⟩ |
    ⟨i, _, _, _, _, _, rfl, _, rfl⟩ | ⟨i, o, k, rfl, hphase, rfl⟩
  · exact .inl ⟨rfl, rfl⟩
  · exact .inl ⟨rfl, rfl⟩
  · exact .inl ⟨rfl, rfl⟩
  · rcases commit_cases t.store k with ⟨hstatus, _⟩ | ⟨hstatus, hstore⟩
    · rw [write_of_eq hstatus]
      exact .inr ⟨i, o, k, (commit t.store k).1, rfl, hphase, System.phase_set_self _ _ _, hstatus, rfl⟩
    · rw [write_of_ne hstatus hstore]
      exact .inl ⟨rfl, rfl⟩

/-- The invariant has it that the requests might have come one after another. -/
theorem Sound.isSerial (h : c.Sound own s₀ t) (hown : ∀ d, s₀.get c.uid = .ok d → d.uid = own) :
    c.IsSerial s₀ t := by
  refine ⟨h.replay, h.logged, h.nodup, fun e t' => store_of_step, fun d hd => ?_⟩
  rw [hown d hd]
  exact h.history

/-- **No update is lost**: whatever requests to one document come to, in any order of their steps, they
    might have come to one after another. -/
theorem isSerial_of_reach (h : c.Reach s₀ t) : c.IsSerial s₀ t := by
  obtain ⟨own, hown⟩ : ∃ own, ∀ d, s₀.get c.uid = .ok d → d.uid = own := by
    by_cases hread : ∃ d, s₀.get c.uid = .ok d
    · obtain ⟨d, hd⟩ := hread
      refine ⟨d.uid, fun d' hd' => ?_⟩
      rw [hd] at hd'
      rw [Except.ok.inj hd']
    · exact ⟨"", fun d hd => absurd ⟨d, hd⟩ hread⟩
  exact (sound_of_reach hown h).isSerial hown

/-- Any number of callers who want the same removal. -/
def removals : Contention := ⟨oneUser, "M-1", fun _ => removalRequest, fun _ => rfl⟩

/-- What is received of them. -/
def received : Update := { removal with author := "urn:opg:poas:makeregister:users:a" }

/-- What is prepared of them on an occasion. -/
def prepared (o : Occasion) : Commit :=
  ⟨(removalPassage o).document, (removalPassage o).update, (removalPassage o).read.updatedAt⟩

theorem receive_removal : receive oneUser removalRequest = .ok received := by
  unfold receive
  rw [sends_removal.1]
  dsimp only
  rw [sends_removal.2]
  rfl

theorem prepare_removal (o : Occasion) :
    prepare o received (.ok .ofTwoAttorneys) = .ok (prepared o) :=
  (removalPassage o).prepare_eq

/-- There is no history yet, so every identifier comes last. -/
theorem isLast_oneDocument (uid id : String) : oneDocument.IsLast uid id := by
  unfold Store.IsLast oneDocument
  rw [Store.withPrefix_put]
  exact nofun

/-- A request comes to write, if the document has not changed since the start. -/
theorem reach_ready {t : System} (h : removals.Reach oneDocument t) {i : Nat}
    (hphase : t.phase i = .waiting) (hstore : t.store = oneDocument) (hcarried : t.carried = [none])
    {o : Occasion} (ho : o.appliedAt.IsStorable) :
    ∃ t', removals.Reach oneDocument t' ∧ t'.store = oneDocument ∧ t'.carried = [none] ∧
      t'.log = t.log ∧ t'.phase i = .ready o (prepared o) ∧ ∀ j, j ≠ i → t'.phase j = t.phase j := by
  have hread : removals.read t i = .holding received .ofTwoAttorneys :=
    read_eq receive_removal (hstore ▸ get_oneDocument)
  have hrule : rule received .ofTwoAttorneys o.ruledAt o.appliedAt =
      .ruled received .ofTwoAttorneys o.ruledAt o.appliedAt := by
    unfold rule
    rw [prepare_removal]
  have hname : name received .ofTwoAttorneys o = .ready o (prepared o) := by
    unfold name
    rw [prepare_removal]
  have h₁ := h.step (e := .read i) trivial (step_read hphase)
  rw [hread] at h₁
  have h₂ := h₁.step (e := .rule i o.ruledAt o.appliedAt) ⟨ho, by
    show some o.appliedAt ∉ t.carried
    simp [hcarried]⟩ (step_rule (System.phase_set_self _ _ _))
  rw [hrule] at h₂
  have h₃ := h₂.step (e := .name i o.id) (fun d _ => by
    show t.store.IsLast d.uid o.id
    rw [hstore]
    exact isLast_oneDocument _ _) (step_name (System.phase_set_self _ _ _))
  refine ⟨_, h₃, hstore, hcarried, rfl, (System.phase_set_self _ _ _).trans hname, fun j hj => ?_⟩
  rw [System.phase_set_of_ne _ hj, System.phase_set_of_ne _ hj, System.phase_set_of_ne _ hj]

theorem carried_start : (removals.start oneDocument).carried = [none] := by
  unfold start
  dsimp only
  exact carriedBy_eq get_oneDocument

theorem isStorable_removal : removalOccasion.appliedAt.IsStorable := by decide

theorem fits_removal : (AuditRecord.ofUpdate (removalPassage removalOccasion).update).fits = true := by
  decide +kernel

theorem status_commit {s : Store} {status : Nat}
    (h : (handleAcross oneUser removalOccasion removalRequest oneDocument s).1.status = status) :
    (commit s (prepared removalOccasion)).1.status = status := by
  rw [(removalPassage removalOccasion).handleAcross_eq] at h
  exact h

theorem commit_created : (commit oneDocument (prepared removalOccasion)).1.status = 201 :=
  status_commit <| ((ending _ _ _ _ _).status_created isStorable_removal).mpr
    ⟨removalPassage removalOccasion, fits_removal, version_oneDocument⟩

theorem commit_conflict {s : Store} {t : Instant} (h : s.version "M-1" = .ok (some t)) :
    (commit s (prepared removalOccasion)).1.status = 409 :=
  status_commit <| ((ending _ _ _ _ _).status_conflict isStorable_removal).mpr
    ⟨removalPassage removalOccasion, some t, fits_removal, h, nofun⟩

theorem version_created :
    (commit oneDocument (prepared removalOccasion)).2.version "M-1" =
      .ok (some removalOccasion.appliedAt) := by
  rcases commit_cases oneDocument (prepared removalOccasion) with ⟨_, record, _, _, hstore⟩ | ⟨hne, _⟩
  · rw [hstore]
    refine Store.version_of_read? (Store.read?_documentKey oneDocument _ _ record) fun t ht => ?_
    exact Option.some.inj ht ▸ isStorable_removal
  · exact absurd commit_created hne

/-- Two requests read the same document. The first to write is done, and the other is refused. -/
theorem isSerial_of_reach_removals :
    ∃ t, removals.Reach oneDocument t ∧ removals.IsSerial oneDocument t ∧
      t.log.map Prod.fst = [0] ∧ ∃ a, t.phase 1 = .answered a ∧ a.status = 409 := by
  obtain ⟨t₁, h₁, hstore₁, hcarried₁, hlog₁, hready₁, hothers₁⟩ :=
    reach_ready (.start) (i := 0) rfl rfl carried_start isStorable_removal
  obtain ⟨t₂, h₂, hstore₂, _, hlog₂, hready₂, hothers₂⟩ :=
    reach_ready h₁ (i := 1) (hothers₁ 1 (by decide)) hstore₁ hcarried₁ isStorable_removal
  have hfirst := (hothers₂ 0 (by decide)).trans hready₁
  have h₃ := h₂.step (e := .write 0) trivial (step_write hfirst)
  have hcreated : (commit t₂.store (prepared removalOccasion)).1.status = 201 :=
    hstore₂ ▸ commit_created
  rw [write_of_eq hcreated] at h₃
  have hsecond : (t₂.set 0 (.answered (commit t₂.store (prepared removalOccasion)).1)).phase 1 =
      .ready removalOccasion (prepared removalOccasion) :=
    (System.phase_set_of_ne _ (by decide)).trans hready₂
  have h₄ := h₃.step (e := .write 1) trivial (step_write hsecond)
  have hconflict : (commit (commit t₂.store (prepared removalOccasion)).2
      (prepared removalOccasion)).1.status = 409 := by
    rw [hstore₂]
    exact commit_conflict version_created
  have hlog : (t₂.log ++ [(0, removalOccasion)]).map Prod.fst = [0] := by
    rw [hlog₂, hlog₁]
    rfl
  rw [write_of_ne (by rw [hconflict]; decide) ((commit_cases _ _).resolve_left fun hdone => by
    rw [hconflict] at hdone
    exact absurd hdone.1 (by decide)).2] at h₄
  exact ⟨_, h₄, isSerial_of_reach h₄, hlog, _, System.phase_set_self _ _ _, hconflict⟩

end Contention

end Service

end PowerOfAttorney
