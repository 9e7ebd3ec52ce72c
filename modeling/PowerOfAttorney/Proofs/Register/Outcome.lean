import PowerOfAttorney.Proofs.Command.Effect
import PowerOfAttorney.Proofs.Register.History
import PowerOfAttorney.Proofs.Register.Written
import PowerOfAttorney.Register.Service

/-!
# `PowerOfAttorney.Proofs.Register.Outcome` — the answer to a request tells what it did to the store

A request passes seven points at which it can end, and reads the store at two different times. Each
ending has its own cause and its own answer, and only the last of them writes.

## Contents
- **Answers.** `Problem.errors_eq_nil_of_respond`: a list of errors shows in the answer.
- **Causes.** `Request.Sends`, `Update.IsRefused` and `Service.Passage`, what a request has gone through
  when it comes to write.
- **Endings.** `Service.Ending`, one for each point, `Service.ending` and `Service.Ending.unique`.
- **Agreement.** `Service.Agrees`, each field for whatever ending there is, and
  `Service.agrees_handleAcross`.
-/

namespace PowerOfAttorney

/-! ## Answers -/

namespace Json

theorem length_membersOfJson (ms : List (String × Json)) :
    (Node.membersOfJson ms).length = ms.length := by
  induction ms with
  | nil => rfl
  | cons m ms ih => rw [Node.membersOfJson, List.length_cons, List.length_cons, ih]

/-- Objects with the same text have as many members as each other. -/
theorem length_eq_of_text {ms ms' : List (String × Json)} (hms : (obj ms).isPlain = true)
    (hms' : (obj ms').isPlain = true) (h : (obj ms).text = (obj ms').text) :
    ms.length = ms'.length := by
  have hchars : (obj ms).chars = (obj ms').chars := String.ofList_injective h
  have hread := Node.read_chars hms
  rw [hchars, Node.read_chars hms'] at hread
  have hmembers : Node.membersOfJson ms' = Node.membersOfJson ms :=
    Node.obj.inj (congrArg Prod.fst hread)
  rw [← length_membersOfJson ms, ← length_membersOfJson ms', hmembers]

end Json

namespace Problem

theorem isPlain_errors (errors : List FieldError) :
    ((Codec.list FieldError.codec).encode errors).isPlain = true := by
  have herror : FieldError.codec.IsPlain := by
    refine Part.isPlain_codec ?_
    with_reducible repeat' first | apply Part.isOrderly_seq | apply Part.isOrderly_map
    all_goals simp
  exact Codec.isPlain_list herror errors

theorem isPlain_json (p : Problem) : p.json.isPlain = true := by
  show Json.isPlainMembers (_ ++ _) = true
  rw [Json.isPlainMembers_append]
  split
  · rfl
  · show (true && (((Codec.list FieldError.codec).encode p.errors).isPlain && true)) = true
    rw [isPlain_errors]
    rfl

/-- An answer without a list of errors was made from a problem without errors. -/
theorem errors_eq_nil_of_respond {p : Problem} {errors : List FieldError}
    (hp : p.errors = []) (h : (p.withErrors errors).respond = p.respond) : errors = [] := by
  have hlength := Json.length_eq_of_text (isPlain_json (p.withErrors errors)) (isPlain_json p)
    (congrArg Response.body h)
  show errors = []
  cases errors with
  | nil => rfl
  | cons e es =>
      rw [hp] at hlength
      exact absurd hlength (by simp [withErrors])

end Problem

/-! ## Causes -/

/-- The caller is known and sends an update. -/
def Request.Sends (r : Request) (verify : Verifier) (claims : Claims) (u : Update) : Prop :=
  verify r.headers = .ok claims ∧ Update.codec.decodeText r.body = .ok u

/-- The update of a caller as it is held against a document. -/
def Update.filed (u : Update) (claims : Claims) (d : Document) : Update :=
  { u with uid := d.uid, author := claims.subject }

/-- The update is not valid for a document, or breaks one of its rules, for the given reasons. -/
inductive Update.IsRefused (u : Update) (now : Instant) (d : Document) : List FieldError → Prop
  | invalid {faults : List Fault} (h : u.validate d = .error faults) :
      IsRefused u now d (faults.map Fault.toFieldError)
  | inapplicable {c : Command} {why : Refusal} (h : u.validate d = .ok c)
      (hwhy : c.apply now d = .error why) : IsRefused u now d [why.toFieldError]

/-- There is always a reason. -/
theorem Update.IsRefused.ne_nil {u : Update} {now : Instant} {d : Document} {errors : List FieldError}
    (h : u.IsRefused now d errors) : errors ≠ [] := by
  cases h with
  | invalid h =>
      rename_i faults
      have hfaults : faults ≠ [] := by
        unfold validate at h
        split at h
        · rw [← Except.error.inj h]
          exact nofun
        · dsimp only at h
          split at h
          · exact absurd h nofun
          · rename_i hne
            rw [← Except.error.inj h]
            exact fun hnil => hne (by rw [hnil]; rfl)
      exact fun hnil => hfaults (List.map_eq_nil_iff.mp hnil)
  | inapplicable _ _ => exact nofun

namespace Service

/-- What a request has gone through when it comes to write. -/
structure Passage (verify : Verifier) (o : Occasion) (r : Request) (atRead : Store) where
  claims : Claims
  sent : Update
  /-- The document that was read. -/
  read : Document
  command : Command
  /-- The document that the command made of it. -/
  made : Document
  sends : r.Sends verify claims sent
  get_eq : atRead.get r.uid = .ok read
  valid : (sent.filed claims read).validate read = .ok command
  applied : command.apply o.ruledAt read = .ok made

namespace Passage

variable {verify : Verifier} {o : Occasion} {r : Request} {atRead : Store}

/-- The document to be written. -/
def document (p : Passage verify o r atRead) : Document :=
  { p.made with updatedAt := some o.appliedAt }

/-- The update to be recorded. -/
def update (p : Passage verify o r atRead) : Update :=
  { p.sent.filed p.claims p.read with id := o.id, applied := some o.appliedAt }

/-- The document is written where it was read, if it is stored under its own uid. -/
theorem uid_document (p : Passage verify o r atRead) : p.document.uid = p.read.uid := by
  show p.made.uid = p.read.uid
  exact Command.uid_of_apply p.applied

end Passage

/-! ## Endings -/

variable {verify : Verifier} {o : Occasion} {r : Request} {atRead atWrite : Store}

/-- The points at which a request can end, each with its cause, its answer and the store after it. -/
inductive Ending (verify : Verifier) (o : Occasion) (r : Request) (atRead atWrite : Store) :
    Response × Store → Prop
  | unauthorised {why : VerifyError} (h : verify r.headers = .error why) :
      Ending verify o r atRead atWrite (Problem.unauthorised.respond, atWrite)
  | notAnUpdate {claims : Claims} {why : DecodeError} (hclaims : verify r.headers = .ok claims)
      (h : Update.codec.decodeText r.body = .error why) :
      Ending verify o r atRead atWrite (Problem.invalidRequest.respond, atWrite)
  | missing {claims : Claims} {u : Update} (hsends : r.Sends verify claims u)
      (h : atRead.read? (Store.documentKey r.uid) = none) :
      Ending verify o r atRead atWrite (Problem.notFound.respond, atWrite)
  | unreadable {claims : Claims} {u : Update} {bytes : Bytes} {why : StoreError}
      (hsends : r.Sends verify claims u) (hbytes : atRead.read? (Store.documentKey r.uid) = some bytes)
      (h : atRead.get r.uid = .error why) :
      Ending verify o r atRead atWrite (Problem.internalServerError.respond, atWrite)
  | refused {claims : Claims} {u : Update} {d : Document} {errors : List FieldError}
      (hsends : r.Sends verify claims u) (hget : atRead.get r.uid = .ok d)
      (h : (u.filed claims d).IsRefused o.ruledAt d errors) :
      Ending verify o r atRead atWrite ((Problem.invalidRequest.withErrors errors).respond, atWrite)
  | unrecorded (p : Passage verify o r atRead)
      (h : (AuditRecord.ofUpdate p.update).encode? = none) :
      Ending verify o r atRead atWrite (Problem.internalServerError.respond, atWrite)
  | unversioned (p : Passage verify o r atRead) {record : Bytes} {why : StoreError}
      (hrecord : (AuditRecord.ofUpdate p.update).encode? = some record)
      (h : atWrite.version p.read.uid = .error why) :
      Ending verify o r atRead atWrite (Problem.internalServerError.respond, atWrite)
  | conflict (p : Passage verify o r atRead) {record : Bytes} {stored : Option Instant}
      (hrecord : (AuditRecord.ofUpdate p.update).encode? = some record)
      (hstored : atWrite.version p.read.uid = .ok stored) (h : stored ≠ p.read.updatedAt) :
      Ending verify o r atRead atWrite (Problem.conflict.respond, atWrite)
  | done (p : Passage verify o r atRead) {record : Bytes}
      (hrecord : (AuditRecord.ofUpdate p.update).encode? = some record)
      (h : atWrite.version p.read.uid = .ok p.read.updatedAt) :
      Ending verify o r atRead atWrite
        (⟨201, Document.codec.encodeText p.document⟩,
          (atWrite.put p.document).write (Store.changeKey p.read.uid o.id) record)

/-- What is read fails as not found if nothing is stored, and in no other case. -/
theorem get_cases (s : Store) (uid : String) :
    (s.read? (Store.documentKey uid) = none ∧ s.get uid = .error (.notFound uid)) ∨
      ∃ bytes, s.read? (Store.documentKey uid) = some bytes ∧
        ((∃ d, s.get uid = .ok d) ∨ ∃ why, s.get uid = .error (.json why)) := by
  unfold Store.get
  cases s.read? (Store.documentKey uid) with
  | none => exact .inl ⟨rfl, rfl⟩
  | some bytes =>
      refine .inr ⟨bytes, rfl, ?_⟩
      show (∃ d, Store.decode Document.codec bytes = .ok d) ∨
        ∃ why, Store.decode Document.codec bytes = .error (.json why)
      unfold Store.decode
      cases Document.codec.decodeText (Bytes.jsonText bytes) with
      | error why => exact .inr ⟨why, rfl⟩
      | ok d => exact .inl ⟨d, rfl⟩

/-- A version that cannot be read was stored as something else. -/
theorem version_error {s : Store} {uid : String} {why : StoreError} (h : s.version uid = .error why) :
    ∃ cause, why = .json cause := by
  unfold Store.version at h
  cases hread : s.read? (Store.documentKey uid) with
  | none =>
      rw [hread] at h
      exact absurd h nofun
  | some bytes =>
      rw [hread] at h
      change Store.decode Document.version bytes = _ at h
      unfold Store.decode at h
      cases hdecode : Document.version.decodeText (Bytes.jsonText bytes) with
      | error cause =>
          rw [hdecode] at h
          exact ⟨cause, (Except.error.inj h).symm⟩
      | ok t =>
          rw [hdecode] at h
          exact absurd h nofun

/-- Writing ends a request in one of four ways. -/
theorem ending_commit (p : Passage verify o r atRead) (atWrite : Store) :
    Ending verify o r atRead atWrite (commit atWrite ⟨p.document, p.update, p.read.updatedAt⟩) := by
  unfold commit Store.putChanges
  dsimp only
  rw [p.uid_document]
  cases hrecord : (AuditRecord.ofUpdate p.update).encode? with
  | none => exact .unrecorded p hrecord
  | some record =>
      cases hversion : atWrite.version p.read.uid with
      | error why =>
          obtain ⟨cause, rfl⟩ := version_error hversion
          exact .unversioned p hrecord hversion
      | ok stored =>
          by_cases hsame : stored = p.read.updatedAt
          · subst hsame
            simp only [bind, Except.bind, if_true]
            exact .done p hrecord hversion
          · simp only [bind, Except.bind, if_neg hsame]
            exact .conflict p hrecord hversion hsame

/-- **Every request comes to one of the endings.** -/
theorem ending (verify : Verifier) (o : Occasion) (r : Request) (atRead atWrite : Store) :
    Ending verify o r atRead atWrite (handleAcross verify o r atRead atWrite) := by
  unfold handleAcross receive
  cases hclaims : verify r.headers with
  | error why => exact .unauthorised hclaims
  | ok claims =>
      cases hsent : Update.codec.decodeText r.body with
      | error why => exact .notAnUpdate hclaims hsent
      | ok sent =>
          have hsends : r.Sends verify claims sent := ⟨hclaims, hsent⟩
          rcases get_cases atRead r.uid with
            ⟨hnone, hget⟩ | ⟨bytes, hbytes, ⟨d, hget⟩ | ⟨why, hget⟩⟩
          · rw [hget]
            exact .missing hsends hnone
          · rw [hget]
            unfold prepare
            dsimp only
            cases hvalid : (sent.filed claims d).validate d with
            | error faults =>
                unfold Update.filed at hvalid
                rw [hvalid]
                exact .refused hsends hget (.invalid hvalid)
            | ok command =>
                cases happly : command.apply o.ruledAt d with
                | error why =>
                    have hrefused : (sent.filed claims d).IsRefused o.ruledAt d [why.toFieldError] :=
                      .inapplicable hvalid happly
                    unfold Update.filed at hvalid
                    rw [hvalid]
                    dsimp only
                    rw [happly]
                    exact .refused hsends hget hrefused
                | ok made =>
                    have hending := ending_commit
                      (⟨claims, sent, d, command, made, hsends, hget, hvalid, happly⟩ :
                        Passage verify o r atRead) atWrite
                    unfold Update.filed at hvalid
                    rw [hvalid]
                    dsimp only
                    rw [happly]
                    exact hending
          · rw [hget]
            exact .unreadable hsends hbytes hget

/-- A request that sends an update is answered with what keeps it from being prepared. -/
theorem handleAcross_of_error {claims : Claims} {u : Update} {p : Problem} (h : r.Sends verify claims u)
    (hp : prepare o { u with author := claims.subject } (atRead.get r.uid) = .error p) :
    handleAcross verify o r atRead atWrite = (p.respond, atWrite) := by
  simp only [handleAcross, receive, h.1, h.2, hp]

/-- A request that has been prepared is answered as its write is. -/
theorem handleAcross_of_ok {claims : Claims} {u : Update} {c : Commit} (h : r.Sends verify claims u)
    (hc : prepare o { u with author := claims.subject } (atRead.get r.uid) = .ok c) :
    handleAcross verify o r atRead atWrite = commit atWrite c := by
  simp only [handleAcross, receive, h.1, h.2, hc]

/-- What has been gone through is prepared to be written. -/
theorem Passage.prepare_eq (p : Passage verify o r atRead) :
    prepare o { p.sent with author := p.claims.subject } (.ok p.read) =
      .ok ⟨p.document, p.update, p.read.updatedAt⟩ := by
  have hvalid := p.valid
  unfold Update.filed at hvalid
  unfold prepare
  dsimp only
  rw [hvalid]
  dsimp only
  rw [p.applied]
  rfl

/-- A request that comes to write is answered as its write is. -/
theorem Passage.handleAcross_eq (p : Passage verify o r atRead) (atWrite : Store) :
    handleAcross verify o r atRead atWrite =
      commit atWrite ⟨p.document, p.update, p.read.updatedAt⟩ := by
  refine handleAcross_of_ok p.sends ?_
  rw [p.get_eq]
  exact p.prepare_eq

/-- **The cause of an ending decides the answer and the store.** -/
theorem Ending.eq {x : Response × Store} (h : Ending verify o r atRead atWrite x) :
    handleAcross verify o r atRead atWrite = x := by
  cases h with
  | unauthorised h =>
      unfold handleAcross receive
      rw [h]
  | notAnUpdate hclaims h =>
      unfold handleAcross receive
      rw [hclaims]
      dsimp only
      rw [h]
  | missing hsends h =>
      refine handleAcross_of_error hsends ?_
      unfold Store.get
      rw [h]
      rfl
  | unreadable hsends hbytes h =>
      refine handleAcross_of_error hsends ?_
      rcases get_cases atRead r.uid with ⟨hnone, _⟩ | ⟨_, _, ⟨d, hget⟩ | ⟨why, hget⟩⟩
      · rw [hnone] at hbytes
        exact absurd hbytes nofun
      · rw [hget] at h
        exact absurd h nofun
      · rw [hget]
        rfl
  | refused hsends hget h =>
      refine handleAcross_of_error hsends ?_
      rw [hget]
      unfold prepare
      dsimp only
      cases h with
      | invalid hvalid =>
          unfold Update.filed at hvalid
          rw [hvalid]
      | inapplicable hvalid happly =>
          unfold Update.filed at hvalid
          rw [hvalid]
          dsimp only
          rw [happly]
  | unrecorded p h =>
      rw [p.handleAcross_eq]
      unfold commit Store.putChanges
      rw [h]
      rfl
  | unversioned p hrecord h =>
      rw [p.handleAcross_eq]
      obtain ⟨cause, rfl⟩ := version_error h
      unfold commit Store.putChanges
      dsimp only
      rw [hrecord, p.uid_document, h]
      rfl
  | conflict p hrecord hstored h =>
      rw [p.handleAcross_eq]
      unfold commit Store.putChanges
      dsimp only
      rw [hrecord, p.uid_document, hstored]
      simp only [bind, Except.bind, if_neg h]
      rfl
  | done p hrecord h =>
      rw [p.handleAcross_eq]
      unfold commit
      rw [Store.putChanges_eq_ok.mpr ⟨_, hrecord, by rw [p.uid_document, h], rfl⟩]
      rw [p.uid_document]
      rfl

/-- A request has one ending. -/
theorem Ending.unique {x y : Response × Store} (hx : Ending verify o r atRead atWrite x)
    (hy : Ending verify o r atRead atWrite y) : x = y :=
  hx.eq.symm.trans hy.eq

/-! ## Agreement -/

/-- The answer to a request and the store after it agree on how it went.

    A request that is not answered with 201 has not touched the store. One that is has written two keys:
    the document's, with the body of the answer, and that of the update, as it was sent but with its
    new identifier, the uid of the document, the caller as its author, and the time that stands in the
    stored document. Each answer has one kind of cause, and each kind of cause one answer. -/
structure Agrees (verify : Verifier) (o : Occasion) (r : Request) (atRead atWrite : Store)
    (answer : Response) (after : Store) : Prop where
  unchanged : answer.status ≠ 201 → after = atWrite
  written : answer.status = 201 → ∃ (claims : Claims) (u : Update) (d : Document) (record : Bytes),
    r.Sends verify claims u ∧ atRead.get r.uid = .ok d ∧
    after.read? (Store.documentKey d.uid) = some (Bytes.ofString answer.body) ∧
    after.version d.uid = .ok (some o.appliedAt) ∧
    after.read? (Store.changeKey d.uid o.id) = some record ∧
    Store.decodeUpdate record = .ok
      { u with id := o.id, uid := d.uid, author := claims.subject, applied := some o.appliedAt } ∧
    ∀ key, key ≠ Store.documentKey d.uid → key ≠ Store.changeKey d.uid o.id →
      after.read? key = atWrite.read? key
  unauthorised : answer.status = 401 ↔ ∃ why, verify r.headers = .error why
  notAnUpdate : answer = Problem.invalidRequest.respond ↔
    ∃ claims why, verify r.headers = .ok claims ∧ Update.codec.decodeText r.body = .error why
  missing : answer.status = 404 ↔
    ∃ claims u, r.Sends verify claims u ∧ atRead.read? (Store.documentKey r.uid) = none
  refused : (∃ errors, errors ≠ [] ∧ answer = (Problem.invalidRequest.withErrors errors).respond) ↔
    ∃ claims u d errors, r.Sends verify claims u ∧ atRead.get r.uid = .ok d ∧
      (u.filed claims d).IsRefused o.ruledAt d errors
  conflict : answer.status = 409 ↔ ∃ (p : Passage verify o r atRead) (stored : Option Instant),
    (AuditRecord.ofUpdate p.update).fits = true ∧
    atWrite.version p.read.uid = .ok stored ∧ stored ≠ p.read.updatedAt
  failed : answer.status = 500 ↔
    (∃ claims u bytes why, r.Sends verify claims u ∧
      atRead.read? (Store.documentKey r.uid) = some bytes ∧ atRead.get r.uid = .error why) ∨
    ∃ p : Passage verify o r atRead, (AuditRecord.ofUpdate p.update).fits = false ∨
      ∃ why, atWrite.version p.read.uid = .error why
  created : answer.status = 201 ↔ ∃ p : Passage verify o r atRead,
    (AuditRecord.ofUpdate p.update).fits = true ∧ atWrite.version p.read.uid = .ok p.read.updatedAt
  nothingElse : answer.status ∈ [201, 401, 404, 409, 500] ∨
    answer = Problem.invalidRequest.respond ∨
    ∃ errors, errors ≠ [] ∧ answer = (Problem.invalidRequest.withErrors errors).respond

/-- What a request writes is what was announced. -/
theorem written_of_passage (p : Passage verify o r atRead) (ho : o.appliedAt.IsStorable)
    {record : Bytes} (hrecord : (AuditRecord.ofUpdate p.update).encode? = some record) :
    let after := (atWrite.put p.document).write (Store.changeKey p.read.uid o.id) record
    after.read? (Store.documentKey p.read.uid) =
        some (Bytes.ofString (Document.codec.encodeText p.document)) ∧
      after.version p.read.uid = .ok (some o.appliedAt) ∧
      after.read? (Store.changeKey p.read.uid o.id) = some record ∧
      Store.decodeUpdate record = .ok p.update ∧
      ∀ key, key ≠ Store.documentKey p.read.uid → key ≠ Store.changeKey p.read.uid o.id →
        after.read? key = atWrite.read? key := by
  have hscalar := Update.isScalar_of_validate p.valid
  have htime : ∀ t ∈ p.document.updatedAt, t.IsStorable :=
    fun t ht => Option.some.inj ht ▸ ho
  have hleap : ∀ t ∈ p.update.applied, t.isLeap = false :=
    fun t ht => Option.some.inj ht ▸ ho.1
  rw [← p.uid_document]
  exact ⟨Store.read?_documentKey atWrite p.document o.id record,
    Store.version_of_read? (Store.read?_documentKey atWrite p.document o.id record) htime,
    Store.read?_changeKey atWrite p.document o.id record,
    Store.decodeUpdate_encode? hrecord hleap hscalar,
    fun key => Store.read?_of_ne atWrite p.document o.id record⟩

/-- A record of a storable time has an encoding as soon as its lengths fit. -/
theorem Passage.isSome_encode? (p : Passage verify o r atRead) (ho : o.appliedAt.IsStorable) :
    (AuditRecord.ofUpdate p.update).encode?.isSome = (AuditRecord.ofUpdate p.update).fits :=
  AuditRecord.isSome_encode? fun _ ht => Option.some.inj ht ▸ ho

namespace Ending

variable {x : Response × Store}

theorem unchanged_of_status (hx : Ending verify o r atRead atWrite x) (h : x.1.status ≠ 201) :
    x.2 = atWrite := by
  cases hx with
  | done p hrecord hversion => exact absurd rfl h
  | _ => rfl

theorem written_of_status (hx : Ending verify o r atRead atWrite x) (ho : o.appliedAt.IsStorable)
    (h : x.1.status = 201) :
    ∃ (claims : Claims) (u : Update) (d : Document) (record : Bytes),
      r.Sends verify claims u ∧ atRead.get r.uid = .ok d ∧
      x.2.read? (Store.documentKey d.uid) = some (Bytes.ofString x.1.body) ∧
      x.2.version d.uid = .ok (some o.appliedAt) ∧
      x.2.read? (Store.changeKey d.uid o.id) = some record ∧
      Store.decodeUpdate record = .ok
        { u with id := o.id, uid := d.uid, author := claims.subject, applied := some o.appliedAt } ∧
      ∀ key, key ≠ Store.documentKey d.uid → key ≠ Store.changeKey d.uid o.id →
        x.2.read? key = atWrite.read? key := by
  cases hx with
  | done p hrecord _ =>
      obtain ⟨hdocument, hversion, hchange, hupdate, hothers⟩ := written_of_passage p ho hrecord
      exact ⟨p.claims, p.sent, p.read, _, p.sends, p.get_eq, hdocument, hversion, hchange, hupdate,
        hothers⟩
  | _ => exact absurd h nofun

theorem status_unauthorised (hx : Ending verify o r atRead atWrite x) :
    x.1.status = 401 ↔ ∃ why, verify r.headers = .error why := by
  constructor
  · intro h
    cases hx with
    | unauthorised hwhy => exact ⟨_, hwhy⟩
    | _ => exact absurd h nofun
  · rintro ⟨why, hwhy⟩
    rw [hx.unique (.unauthorised hwhy)]
    rfl

theorem answer_notAnUpdate (hx : Ending verify o r atRead atWrite x) :
    x.1 = Problem.invalidRequest.respond ↔
      ∃ claims why, verify r.headers = .ok claims ∧ Update.codec.decodeText r.body = .error why := by
  constructor
  · intro h
    have hstatus := congrArg Response.status h
    cases hx with
    | notAnUpdate hclaims hwhy => exact ⟨_, _, hclaims, hwhy⟩
    | refused _ _ hrefused =>
        exact absurd (Problem.errors_eq_nil_of_respond rfl h) hrefused.ne_nil
    | _ => exact absurd hstatus nofun
  · rintro ⟨claims, why, hclaims, hwhy⟩
    rw [hx.unique (.notAnUpdate hclaims hwhy)]

theorem status_missing (hx : Ending verify o r atRead atWrite x) :
    x.1.status = 404 ↔ ∃ claims u, r.Sends verify claims u ∧
      atRead.read? (Store.documentKey r.uid) = none := by
  constructor
  · intro h
    cases hx with
    | missing hsends hnone => exact ⟨_, _, hsends, hnone⟩
    | _ => exact absurd h nofun
  · rintro ⟨claims, u, hsends, hnone⟩
    rw [hx.unique (.missing hsends hnone)]
    rfl

theorem answer_refused (hx : Ending verify o r atRead atWrite x) :
    (∃ errors, errors ≠ [] ∧ x.1 = (Problem.invalidRequest.withErrors errors).respond) ↔
      ∃ claims u d errors, r.Sends verify claims u ∧ atRead.get r.uid = .ok d ∧
        (u.filed claims d).IsRefused o.ruledAt d errors := by
  constructor
  · rintro ⟨errors, hne, h⟩
    have hstatus := congrArg Response.status h
    cases hx with
    | notAnUpdate hclaims hwhy => exact absurd (Problem.errors_eq_nil_of_respond rfl h.symm) hne
    | refused hsends hget hrefused => exact ⟨_, _, _, _, hsends, hget, hrefused⟩
    | _ => exact absurd hstatus nofun
  · rintro ⟨claims, u, d, errors, hsends, hget, hrefused⟩
    exact ⟨errors, hrefused.ne_nil, by rw [hx.unique (.refused hsends hget hrefused)]⟩

theorem status_conflict (hx : Ending verify o r atRead atWrite x) (ho : o.appliedAt.IsStorable) :
    x.1.status = 409 ↔
    ∃ (p : Passage verify o r atRead) (stored : Option Instant),
      (AuditRecord.ofUpdate p.update).fits = true ∧
      atWrite.version p.read.uid = .ok stored ∧ stored ≠ p.read.updatedAt := by
  constructor
  · intro h
    cases hx with
    | conflict p hrecord hstored hne =>
        refine ⟨p, _, ?_, hstored, hne⟩
        rw [← p.isSome_encode? ho, hrecord]
        rfl
    | _ => exact absurd h nofun
  · rintro ⟨p, stored, hfits, hstored, hne⟩
    rw [← p.isSome_encode? ho] at hfits
    obtain ⟨record, hrecord⟩ := Option.isSome_iff_exists.mp hfits
    rw [hx.unique (.conflict p hrecord hstored hne)]
    rfl

theorem status_failed (hx : Ending verify o r atRead atWrite x) (ho : o.appliedAt.IsStorable) :
    x.1.status = 500 ↔
    (∃ claims u bytes why, r.Sends verify claims u ∧
      atRead.read? (Store.documentKey r.uid) = some bytes ∧ atRead.get r.uid = .error why) ∨
    ∃ p : Passage verify o r atRead, (AuditRecord.ofUpdate p.update).fits = false ∨
      ∃ why, atWrite.version p.read.uid = .error why := by
  constructor
  · intro h
    cases hx with
    | unreadable hsends hbytes hget => exact .inl ⟨_, _, _, _, hsends, hbytes, hget⟩
    | unrecorded p hrecord =>
        refine .inr ⟨p, .inl ?_⟩
        rw [← p.isSome_encode? ho, hrecord]
        rfl
    | unversioned p _ hversion => exact .inr ⟨p, .inr ⟨_, hversion⟩⟩
    | _ => exact absurd h nofun
  · rintro (⟨claims, u, bytes, why, hsends, hbytes, hget⟩ | ⟨p, hfail⟩)
    · rw [hx.unique (.unreadable hsends hbytes hget)]
      rfl
    · cases hrecord : (AuditRecord.ofUpdate p.update).encode? with
      | none =>
          rw [hx.unique (.unrecorded p hrecord)]
          rfl
      | some record =>
          rw [← p.isSome_encode? ho, hrecord] at hfail
          obtain ⟨why, hversion⟩ := hfail.resolve_left nofun
          rw [hx.unique (.unversioned p hrecord hversion)]
          rfl

theorem status_created (hx : Ending verify o r atRead atWrite x) (ho : o.appliedAt.IsStorable) :
    x.1.status = 201 ↔
    ∃ p : Passage verify o r atRead, (AuditRecord.ofUpdate p.update).fits = true ∧
      atWrite.version p.read.uid = .ok p.read.updatedAt := by
  constructor
  · intro h
    cases hx with
    | done p hrecord hversion =>
        refine ⟨p, ?_, hversion⟩
        rw [← p.isSome_encode? ho, hrecord]
        rfl
    | _ => exact absurd h nofun
  · rintro ⟨p, hfits, hversion⟩
    rw [← p.isSome_encode? ho] at hfits
    obtain ⟨record, hrecord⟩ := Option.isSome_iff_exists.mp hfits
    rw [hx.unique (.done p hrecord hversion)]

theorem answer_cases (hx : Ending verify o r atRead atWrite x) :
    x.1.status ∈ [201, 401, 404, 409, 500] ∨ x.1 = Problem.invalidRequest.respond ∨
      ∃ errors, errors ≠ [] ∧ x.1 = (Problem.invalidRequest.withErrors errors).respond := by
  cases hx with
  | unauthorised _ => exact .inl (show 401 ∈ [201, 401, 404, 409, 500] by decide)
  | notAnUpdate _ _ => exact .inr (.inl rfl)
  | missing _ _ => exact .inl (show 404 ∈ [201, 401, 404, 409, 500] by decide)
  | unreadable _ _ _ => exact .inl (show 500 ∈ [201, 401, 404, 409, 500] by decide)
  | refused _ _ hrefused => exact .inr (.inr ⟨_, hrefused.ne_nil, rfl⟩)
  | unrecorded _ _ => exact .inl (show 500 ∈ [201, 401, 404, 409, 500] by decide)
  | unversioned _ _ _ => exact .inl (show 500 ∈ [201, 401, 404, 409, 500] by decide)
  | conflict _ _ _ _ => exact .inl (show 409 ∈ [201, 401, 404, 409, 500] by decide)
  | done _ _ _ => exact .inl (show 201 ∈ [201, 401, 404, 409, 500] by decide)

end Ending

/-- **Answer and store agree**, whatever the store has become between reading and writing. -/
theorem agrees_handleAcross (verify : Verifier) (o : Occasion) (r : Request) (atRead atWrite : Store)
    (ho : o.appliedAt.IsStorable) :
    Agrees verify o r atRead atWrite (handleAcross verify o r atRead atWrite).1
      (handleAcross verify o r atRead atWrite).2 where
  unchanged := (ending verify o r atRead atWrite).unchanged_of_status
  written := (ending verify o r atRead atWrite).written_of_status ho
  unauthorised := (ending verify o r atRead atWrite).status_unauthorised
  notAnUpdate := (ending verify o r atRead atWrite).answer_notAnUpdate
  missing := (ending verify o r atRead atWrite).status_missing
  refused := (ending verify o r atRead atWrite).answer_refused
  conflict := (ending verify o r atRead atWrite).status_conflict ho
  failed := (ending verify o r atRead atWrite).status_failed ho
  created := (ending verify o r atRead atWrite).status_created ho
  nothingElse := (ending verify o r atRead atWrite).answer_cases

/-- An update that removes the first of two attorneys. -/
def removal : Update :=
  ⟨"", "", none, "", "CHANGE_ATTORNEYS", [⟨"/attorneys/0/status", .str "active", .str "removed"⟩]⟩

/-- A request to make it. -/
def removalRequest : Request := ⟨"M-1", .empty, Update.codec.encodeText removal⟩

/-- A verifier that takes everyone for the same user. -/
def oneUser : Verifier := fun _ => .ok ⟨"urn:opg:poas:makeregister:users:a"⟩

/-- A store with one document. -/
def oneDocument : Store := Store.empty.put .ofTwoAttorneys

theorem get_oneDocument : oneDocument.get "M-1" = .ok .ofTwoAttorneys := by
  rw [Store.get_of_read? (d := .ofTwoAttorneys) rfl]
  decide +kernel

theorem version_oneDocument : oneDocument.version "M-1" = .ok none :=
  Store.version_of_read? (d := .ofTwoAttorneys) rfl nofun

theorem sends_removal : removalRequest.Sends oneUser ⟨"urn:opg:poas:makeregister:users:a"⟩ removal := by
  refine ⟨rfl, ?_⟩
  have hplain : (Update.codec.encode removal).isPlain = true := by decide +kernel
  exact (Codec.decodeText_text Update.codec hplain).trans rfl

/-- Whenever the removal is made, it comes to write. -/
def removalPassage (o : Occasion) : Passage oneUser o removalRequest oneDocument where
  claims := ⟨"urn:opg:poas:makeregister:users:a"⟩
  sent := removal
  read := .ofTwoAttorneys
  command := .changeAttorneys ⟨[(0, .removed)]⟩
  made := { Document.ofTwoAttorneys with
    attorneys := Document.ofTwoAttorneys.attorneys.modify 0 fun a => { a with status := .removed } }
  sends := sends_removal
  get_eq := get_oneDocument
  valid := by decide +kernel
  applied := rfl

/-- When the removal is made. -/
def removalOccasion : Occasion := ⟨.ofNanoseconds 0, .ofNanoseconds 1700000000000000000, "0001"⟩

/-- The removal is answered with 201. -/
theorem agrees_handleAcross_removal :
    let x := handleAcross oneUser removalOccasion removalRequest oneDocument oneDocument
    x.1.status = 201 ∧ removalOccasion.appliedAt.IsStorable ∧
      Agrees oneUser removalOccasion removalRequest oneDocument oneDocument x.1 x.2 := by
  have ho : removalOccasion.appliedAt.IsStorable := by decide
  exact ⟨((ending _ _ _ _ _).status_created ho).mpr
      ⟨removalPassage removalOccasion, by decide +kernel, version_oneDocument⟩,
    ho, agrees_handleAcross _ _ _ _ _ ho⟩

end Service

end PowerOfAttorney
