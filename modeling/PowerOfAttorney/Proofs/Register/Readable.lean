import PowerOfAttorney.Proofs.Lifecycle.Times
import PowerOfAttorney.Proofs.Register.Outcome

/-!
# `PowerOfAttorney.Proofs.Register.Readable` — whether an updated document can be read again

An instant may be sent with an offset, and it is stored without. Near the ends of the years 0 to 9999 that
moves it out of them, and then the document that was just written, and answered with, cannot be read any
more. Nothing else stands in the way.

## Contents
- **Times.** `Request.IsWritable`, and `Service.Passage.isWritable_document`: without such an instant among
  those sent, there is none on the document.
- **Updates.** `Service.get_of_created`.
- **The last hour of the year 9999.** `Service.not_forall_get_of_created`.
-/

namespace PowerOfAttorney

/-- A document that is found is read if its instants can be read. -/
theorem Store.get_eq_ok_iff {s : Store} {uid : String} {d e : Document}
    (h : s.read? (documentKey uid) = some (documentBytes d)) :
    s.get uid = .ok e ↔ d.IsWritable ∧ e = d := by
  unfold get
  rw [h]
  dsimp only
  rw [decode_eq_ok]
  unfold documentBytes
  rw [Bytes.jsonText_ofString, Document.decodeText_encodeText]

/-! ## Times -/

/-- Each instant that a request sends is in a year of four digits. -/
def Request.IsWritable (r : Request) : Prop :=
  ∀ u, Update.codec.decodeText r.body = .ok u → Change.GiveTimes Instant.IsWritable u.changes

/-- The clock stands in a year of four digits. -/
structure Occasion.IsWritable (o : Occasion) : Prop where
  ruledAt : o.ruledAt.IsWritable
  appliedAt : o.appliedAt.IsWritable

namespace Service

/-- A document stays writable through an update that sends no other instants. -/
theorem Passage.isWritable_document {verify : Verifier} {o : Occasion} {r : Request} {s : Store}
    (p : Passage verify o r s) (hread : p.read.IsWritable) (ho : o.IsWritable) (hr : r.IsWritable) :
    p.document.IsWritable := by
  have hmade := (Command.effect_of_apply p.applied).allTimes (Update.isRead_of_validate p.valid).2
    (hr p.sent p.sends.2) ho.ruledAt (Document.allTimes_iff.mpr hread)
  refine Document.allTimes_iff.mp { hmade with updatedAt := fun t ht => ?_ }
  exact Option.some.inj ht ▸ ho.appliedAt

/-! ## Updates -/

/-- A request that comes to write is answered with its document, if the record fits and nothing has been
    written in between. -/
theorem Passage.handle_eq {verify : Verifier} {o : Occasion} {r : Request} {s : Store}
    (p : Passage verify o r s) (ho : o.appliedAt.IsStorable)
    (hfits : (AuditRecord.ofUpdate p.update).fits = true) (h : s.version p.read.uid = .ok p.read.updatedAt) :
    ∃ record, handle verify o r s = (⟨201, Document.codec.encodeText p.document⟩,
      (s.put p.document).write (Store.changeKey p.document.uid o.id) record) := by
  rw [← p.isSome_encode? ho] at hfits
  obtain ⟨record, hrecord⟩ := Option.isSome_iff_exists.mp hfits
  rw [p.uid_document]
  exact ⟨record, (Ending.done p hrecord h).eq⟩

/-- **An update that is answered with 201 has stored the document of the answer, and that document can be
    read if each of its instants is in a year of four digits, and only then.** So it is if all instants on
    record, all that were sent and the clock are in such years. -/
theorem get_of_created {verify : Verifier} {o : Occasion} {r : Request} {s s' : Store} {body : String}
    {d : Document} (hget : s.get r.uid = .ok d) (h : handle verify o r s = (⟨201, body⟩, s')) :
    ∃ d' : Document, body = Document.codec.encodeText d' ∧ d'.uid = d.uid ∧
      (∀ e, s'.get d.uid = .ok e ↔ d'.IsWritable ∧ e = d') ∧
      (d.IsWritable → o.IsWritable → r.IsWritable → s'.get d.uid = .ok d') := by
  have hend := ending verify o r s s
  have hx : handleAcross verify o r s s = (⟨201, body⟩, s') := h
  have hstatus : (handleAcross verify o r s s).1.status = 201 := by rw [hx]
  generalize handleAcross verify o r s s = x at hend hx hstatus
  cases hend with
  | done p hrecord hversion =>
      obtain rfl : p.read = d := Except.ok.inj (p.get_eq.symm.trans hget)
      obtain ⟨hanswer, rfl⟩ := Prod.mk.inj hx
      rename_i record
      have hstored : ∀ e, ((s.put p.document).write (Store.changeKey p.read.uid o.id) record).get
          p.read.uid = .ok e ↔ p.document.IsWritable ∧ e = p.document := by
        intro e
        rw [← p.uid_document]
        exact Store.get_eq_ok_iff (Store.read?_documentKey s p.document o.id record)
      exact ⟨p.document, (congrArg Response.body hanswer).symm, p.uid_document, hstored,
        fun hd ho hr => (hstored _).mpr ⟨p.isWritable_document hd ho hr, rfl⟩⟩
  | _ => exact absurd hstatus nofun

/-- The removal of an attorney sends no instant. -/
theorem isWritable_removalRequest : removalRequest.IsWritable := by
  intro u hu c hc t hgives
  obtain rfl : u = removal := Except.ok.inj (hu.symm.trans sends_removal.2)
  obtain rfl := List.mem_singleton.mp hc
  have hno : (FieldType.time.decode (.str "removed")).isOk = false := by decide +kernel
  have hyes : FieldType.time.decode (.str "removed") = .ok (some t) := hgives
  rw [hyes] at hno
  exact absurd hno nofun

/-- The removal is answered with a document that is read again. -/
theorem get_of_created_removal : ∃ body s', oneDocument.get removalRequest.uid = .ok .ofTwoAttorneys ∧
    handle oneUser removalOccasion removalRequest oneDocument = (⟨201, body⟩, s') ∧
    ∃ d' : Document, body = Document.codec.encodeText d' ∧ s'.get "M-1" = .ok d' := by
  obtain ⟨record, hx⟩ := (removalPassage removalOccasion).handle_eq (by decide) (by decide +kernel)
    version_oneDocument
  have hget : oneDocument.get removalRequest.uid = .ok .ofTwoAttorneys := get_oneDocument
  obtain ⟨d', hbody, _, _, hread⟩ := get_of_created hget hx
  exact ⟨_, _, hget, hx, d', hbody,
    hread (by decide) ⟨by decide, by decide⟩ isWritable_removalRequest⟩

/-! ## The last hour of the year 9999 -/

/-- A correction of the time at which a document was signed, where none was on record. -/
def signingCorrection (new : String) : Update :=
  ⟨"", "", none, "", "CORRECTION", [⟨"/signedAt", .null, .str new⟩]⟩

/-- A request to make it. -/
def signingRequest (new : String) : Request :=
  ⟨"M-1", .empty, Update.codec.encodeText (signingCorrection new)⟩

/-- Half an hour before the year 9999 ends, one hour west of Greenwich, where it has ended. -/
def lateText : String := "9999-12-31T23:30:00-01:00"

/-- The instant of that text. -/
def lateInstant : Instant := .ofNanoseconds 253402302600000000000

theorem sends_late : (signingRequest lateText).Sends oneUser ⟨"urn:opg:poas:makeregister:users:a"⟩
    (signingCorrection lateText) := by
  refine ⟨rfl, ?_⟩
  have hplain : (Update.codec.encode (signingCorrection lateText)).isPlain = true := by decide +kernel
  exact (Codec.decodeText_text Update.codec hplain).trans rfl

/-- The correction comes to write. -/
def latePassage : Passage oneUser removalOccasion (signingRequest lateText) oneDocument where
  claims := ⟨"urn:opg:poas:makeregister:users:a"⟩
  sent := signingCorrection lateText
  read := .ofTwoAttorneys
  command := .correct { Correction.of .ofTwoAttorneys with signedAt := some lateInstant }
  made := { Document.ofTwoAttorneys with signedAt := some lateInstant }
  sends := sends_late
  get_eq := get_oneDocument
  valid := by decide +kernel
  applied := by decide +kernel

/-- **It is not so that every document that was answered with can be read**: an instant of the year 10000
    is stored as a text that is no instant. -/
theorem not_forall_get_of_created : ¬ ∀ (verify : Verifier) (o : Occasion) (r : Request) (s s' : Store)
    (body : String) (d : Document), s.get r.uid = .ok d → handle verify o r s = (⟨201, body⟩, s') →
      ∃ d' : Document, body = Document.codec.encodeText d' ∧ s'.get r.uid = .ok d' := by
  intro h
  obtain ⟨record, hx⟩ := latePassage.handle_eq (by decide) (by decide +kernel) version_oneDocument
  obtain ⟨d', _, hget⟩ := h oneUser removalOccasion (signingRequest lateText) oneDocument _ _ _
    get_oneDocument hx
  have hwritable := (Store.get_eq_ok_iff (Store.read?_documentKey oneDocument latePassage.document
    removalOccasion.id record)).mp hget
  exact absurd hwritable.1 (by decide +kernel)

end Service

end PowerOfAttorney
