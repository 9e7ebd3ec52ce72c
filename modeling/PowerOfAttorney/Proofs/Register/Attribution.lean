import PowerOfAttorney.Proofs.Register.Explained

/-!
# `PowerOfAttorney.Proofs.Register.Attribution` — whose update it is, and which, is not for the sender to say

An update comes with an identifier, the uid of a document, a time and an author of its own. The service takes
the author from the caller's claims, the uid from the document that is read, and the rest from its
surroundings. So two requests that ask for the same edits are not told apart, whatever else their bodies
say, and in particular nobody opts out in another's name.

## Contents
- **Edits.** `Update.SameEdits`: updates of one type with the same changes. Validation reads no more of an
  update than this and the author.
- **Requests.** `Request.Restates`, one request in other words, and `Service.prepared_restated`: what is to
  be written is the same.
- **Indifference.** `Service.handleAcross_restated`, and `Service.serve_restated` for any number of
  requests.
-/

namespace PowerOfAttorney

/-! ## Edits -/

/-- Two updates ask for the same, whatever they say of themselves. -/
structure Update.SameEdits (u v : Update) : Prop where
  type : u.type = v.type
  changes : u.changes = v.changes

namespace Update

variable {u v : Update}

/-- With the same edits and the same data about them, two updates are one. -/
theorem SameEdits.eq_of (h : u.SameEdits v) (hid : u.id = v.id) (huid : u.uid = v.uid)
    (happlied : u.applied = v.applied) (hauthor : u.author = v.author) : u = v := by
  obtain ⟨htype, hchanges⟩ := h
  cases u
  cases v
  simp only at hid huid happlied hauthor htype hchanges
  subst hid huid happlied hauthor htype hchanges
  rfl

/-- Of the data about an update, validation asks for the author alone. -/
theorem SameEdits.validate_eq (h : u.SameEdits v) (hauthor : u.author = v.author) (d : Document) :
    u.validate d = v.validate d := by
  unfold validate
  simp only [h.type, h.changes, hauthor]

end Update

/-! ## Requests -/

/-- Two requests of one caller for one document, whose bodies ask for the same edits. -/
structure Request.Restates (r r' : Request) : Prop where
  uid : r.uid = r'.uid
  headers : r.headers = r'.headers
  bodies : ∃ u v, Update.codec.decodeText r.body = .ok u ∧ Update.codec.decodeText r'.body = .ok v ∧
    u.SameEdits v

namespace Service

variable {verify : Verifier} {o : Occasion} {r r' : Request}

/-- Both requests are refused to the caller, or both give the same edits in the caller's name. -/
theorem receive_restated (verify : Verifier) (h : r.Restates r') :
    (∃ p, receive verify r = .error p ∧ receive verify r' = .error p) ∨
      ∃ u v, receive verify r = .ok u ∧ receive verify r' = .ok v ∧ u.SameEdits v ∧
        u.author = v.author := by
  obtain ⟨u, v, hu, hv, hedits⟩ := h.bodies
  unfold receive
  rw [h.headers, hu, hv]
  cases verify r'.headers with
  | error why => exact Or.inl ⟨.unauthorised, rfl, rfl⟩
  | ok claims =>
      have hnamed : Update.SameEdits { u with author := claims.subject }
          { v with author := claims.subject } := ⟨hedits.type, hedits.changes⟩
      exact Or.inr ⟨_, _, rfl, rfl, hnamed, rfl⟩

/-- What is prepared for the same edits of the same author is the same. -/
theorem prepare_of_sameEdits {u v : Update} (h : u.SameEdits v) (hauthor : u.author = v.author)
    (read : Except StoreError Document) : prepare o u read = prepare o v read := by
  cases read with
  | error why => rfl
  | ok d =>
      have hfiled : ({ u with uid := d.uid } : Update).SameEdits { v with uid := d.uid } :=
        ⟨h.type, h.changes⟩
      have hvalid := hfiled.validate_eq hauthor d
      -- What is to be recorded has its identifier and its time from the occasion.
      have hrecorded : ({ u with uid := d.uid, id := o.id, applied := some o.appliedAt } : Update) =
          { v with uid := d.uid, id := o.id, applied := some o.appliedAt } :=
        Update.SameEdits.eq_of ⟨h.type, h.changes⟩ rfl rfl rfl hauthor
      unfold prepare
      dsimp only
      rw [hvalid, hrecorded]

/-- What is to be written on a request, if it comes to that. -/
def prepared (verify : Verifier) (o : Occasion) (r : Request) (atRead : Store) :
    Except Problem Commit :=
  (receive verify r).bind fun u => prepare o u (atRead.get r.uid)

/-- The store as it is by then decides only whether what was prepared is written. -/
theorem handleAcross_eq (verify : Verifier) (o : Occasion) (r : Request) (atRead atWrite : Store) :
    handleAcross verify o r atRead atWrite =
      match prepared verify o r atRead with
      | .error p => (p.respond, atWrite)
      | .ok c => commit atWrite c := by
  unfold handleAcross prepared
  cases receive verify r with
  | error p => rfl
  | ok u => rfl

/-- **What is to be written does not depend on the words of a request.** -/
theorem prepared_restated (h : r.Restates r') (atRead : Store) :
    prepared verify o r atRead = prepared verify o r' atRead := by
  unfold prepared
  rcases receive_restated verify h with ⟨p, hr, hr'⟩ | ⟨u, v, hr, hr', hedits, hauthor⟩
  · rw [hr, hr']
    rfl
  · rw [hr, hr', h.uid]
    exact prepare_of_sameEdits hedits hauthor _

/-! ## Indifference -/

/-- **What a body says about its update decides nothing.** Two requests for the same edits, with whatever
    identifiers, uids, authors and times in their bodies, get the same answer and leave the same store,
    also if others write between reading and writing. -/
theorem handleAcross_restated (h : r.Restates r') (verify : Verifier) (o : Occasion)
    (atRead atWrite : Store) :
    handleAcross verify o r atRead atWrite = handleAcross verify o r' atRead atWrite := by
  have hprepared : prepared verify o r atRead = prepared verify o r' atRead := prepared_restated h atRead
  rw [handleAcross_eq, handleAcross_eq, hprepared]

/-- The first attorney opts out, and says nothing else. -/
def optOut : Update := ⟨"", "", none, "", "ATTORNEY_OPT_OUT", []⟩

/-- The same, with an identifier, a uid and a time, in the name of the second attorney. -/
def optOutAsAnother : Update :=
  ⟨"0000", "M-2", some (.ofNanoseconds 0), "urn:opg:poas:makeregister:users:b", "ATTORNEY_OPT_OUT", []⟩

theorem decodeText_optOut : Update.codec.decodeText (Update.codec.encodeText optOut) = .ok optOut := by
  have hplain : (Update.codec.encode optOut).isPlain = true := by decide +kernel
  exact (Codec.decodeText_text Update.codec hplain).trans rfl

theorem decodeText_optOutAsAnother :
    Update.codec.decodeText (Update.codec.encodeText optOutAsAnother) = .ok optOutAsAnother := by
  have hplain : (Update.codec.encode optOutAsAnother).isPlain = true := by decide +kernel
  exact (Codec.decodeText_text Update.codec hplain).trans rfl

/-- The opt-out of the first attorney, who is the caller, comes to write. -/
def optOutPassage : Passage oneUser removalOccasion
    ⟨"M-1", .empty, Update.codec.encodeText optOut⟩ oneDocument where
  claims := ⟨"urn:opg:poas:makeregister:users:a"⟩
  sent := optOut
  read := .ofTwoAttorneys
  command := .optOut (.attorney "a")
  made := Document.afterLeaving { Document.ofTwoAttorneys with
    attorneys := Document.ofTwoAttorneys.attorneys.modify 0 fun a => { a with status := .removed } }
    .original
  sends := ⟨rfl, decodeText_optOut⟩
  get_eq := get_oneDocument
  valid := by decide +kernel
  applied := rfl

/-- In whoever's name the body is written, it is the caller who opts out, with 201. -/
theorem handleAcross_restated_optOut :
    let r : Request := ⟨"M-1", .empty, Update.codec.encodeText optOut⟩
    let r' : Request := ⟨"M-1", .empty, Update.codec.encodeText optOutAsAnother⟩
    r.Restates r' ∧
      (handleAcross oneUser removalOccasion r oneDocument oneDocument).1.status = 201 ∧
      handleAcross oneUser removalOccasion r oneDocument oneDocument =
        handleAcross oneUser removalOccasion r' oneDocument oneDocument := by
  intro r r'
  have hrestates : r.Restates r' :=
    ⟨rfl, rfl, _, _, decodeText_optOut, decodeText_optOutAsAnother, rfl, rfl⟩
  have hcreated : (handleAcross oneUser removalOccasion r oneDocument oneDocument).1.status = 201 :=
    ((ending _ _ _ _ _).status_created (by decide)).mpr
      ⟨optOutPassage, by decide +kernel, version_oneDocument⟩
  exact ⟨hrestates, hcreated, handleAcross_restated hrestates _ _ _ _⟩

/-- **Nor does it decide anything in the long run**: requests one after another leave the same store if each
    of them is put in other words. -/
theorem serve_restated (verify : Verifier) (s : Store) {xs ys : List (Occasion × Request)}
    (h : List.Forall₂ (fun x y => x.1 = y.1 ∧ x.2.Restates y.2) xs ys) :
    serve verify s xs = serve verify s ys := by
  induction h generalizing s with
  | nil => rfl
  | @cons x y xs ys hxy _ ih =>
      obtain ⟨hoccasion, hrestates⟩ := hxy
      have hhead : handle verify x.1 x.2 s = handle verify y.1 y.2 s := by
        unfold handle
        rw [handleAcross_eq, handleAcross_eq, hoccasion, prepared_restated hrestates]
      show serve verify (handle verify x.1 x.2 s).2 xs = serve verify (handle verify y.1 y.2 s).2 ys
      rw [hhead]
      exact ih _

end Service

end PowerOfAttorney
