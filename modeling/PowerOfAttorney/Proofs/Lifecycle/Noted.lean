import PowerOfAttorney.Proofs.Command.Atomic
import PowerOfAttorney.Proofs.Lifecycle.Perfected
import PowerOfAttorney.Proofs.Lifecycle.Run
import PowerOfAttorney.Proofs.Operation.Entries

/-!
# `PowerOfAttorney.Proofs.Lifecycle.Noted` — what a correction leaves in the notes

A correction notes new names and new dates of birth while it writes them, person by person. So what it has
noted can be read off the document before and the document afterwards, whatever fields the changes named:
each person whose name differs has a note, and so has the donor with another date of birth. An attorney
with another date of birth has none.

## Contents
- **Notes.** `Document.nameNotes`, `donorBirthNotes` and `attorneyBirthNotes`, from the people of two
  documents.
- **Lists.** `flatMap_zip_modify`: where one entry is modified, only that one has something to say.
- **Corrections.** `Document.Noted`, and that both kinds of corrections note in this way.
- **Updates.** `Update.corrections_noted`, and `Update.not_forall_birth_noted` for the attorneys.
-/

namespace PowerOfAttorney

/-! ## Notes -/

/-- The note of a new name, if it is new. -/
def Note.ofNewName (kind : String) (now : Instant) (uid firstNames lastName firstNames' lastName' : String) :
    List Note :=
  if firstNames ≠ firstNames' ∨ lastName ≠ lastName' then [.ofName kind now uid firstNames' lastName']
  else []

/-- The note of a new date of birth, if it is new. -/
def Note.ofNewBirth (kind : String) (now : Instant) (uid : String) (date date' : Option Date) :
    List Note :=
  if date ≠ date' then [.ofBirth kind now uid date'] else []

/-- The note of an attorney's new name. -/
def Attorney.nameNote (now : Instant) (a a' : Attorney) : List Note :=
  Note.ofNewName "ATTORNEY_NAME_CHANGE_V1" now a.uid a.firstNames a.lastName a'.firstNames a'.lastName

namespace Document

/-- One note for each person whose first or last name differs. -/
def nameNotes (now : Instant) (d d' : Document) : List Note :=
  Note.ofNewName "DONOR_NAME_CHANGE_V1" now d.donor.uid d.donor.firstNames d.donor.lastName
      d'.donor.firstNames d'.donor.lastName ++
    (d.attorneys.zip d'.attorneys).flatMap (fun p => p.1.nameNote now p.2) ++
    Note.ofNewName "CERTIFICATE_PROVIDER_NAME_CHANGE_V1" now d.certificateProvider.uid
      d.certificateProvider.firstNames d.certificateProvider.lastName
      d'.certificateProvider.firstNames d'.certificateProvider.lastName

/-- A note if the date of birth of the donor differs. -/
def donorBirthNotes (now : Instant) (d d' : Document) : List Note :=
  Note.ofNewBirth "DONOR_DOB_CHANGE_V1" now d.donor.uid d.donor.dateOfBirth d'.donor.dateOfBirth

/-- One note of some kind for each attorney whose date of birth differs. -/
def attorneyBirthNotes (kind : String) (now : Instant) (d d' : Document) : List Note :=
  (d.attorneys.zip d'.attorneys).flatMap fun p =>
    Note.ofNewBirth kind now p.1.uid p.1.dateOfBirth p.2.dateOfBirth

end Document

/-- Who keeps the name has no note. -/
theorem Attorney.nameNote_self (now : Instant) (a : Attorney) : a.nameNote now a = [] := by
  simp [nameNote, Note.ofNewName]

/-! ## Lists -/

section

variable {α β : Type} {g : α → α → List β} (hsame : ∀ x, g x x = [])

include hsame

/-- Where nothing differs, there is nothing to say. -/
theorem flatMap_zip_self (xs : List α) : ((xs.zip xs).flatMap fun p => g p.1 p.2) = [] := by
  rw [List.flatMap_eq_nil_iff]
  intro p hp
  obtain ⟨i, hi⟩ := List.mem_iff_getElem?.mp hp
  rw [List.getElem?_zip_eq_some] at hi
  have hdiagonal : p.2 = p.1 := Option.some.inj (hi.2.symm.trans hi.1)
  rw [hdiagonal]
  exact hsame p.1

/-- Where one entry of a list is modified, what is said of pairs of entries is said of that one. -/
theorem flatMap_zip_modify (f : α → α) (xs : List α) (i : Nat) :
    ((xs.zip (xs.modify i f)).flatMap fun p => g p.1 p.2) =
      ((xs[i]?).map fun x => g x (f x)).getD [] := by
  induction xs generalizing i with
  | nil => rfl
  | cons x xs ih =>
      cases i with
      | zero => simp [flatMap_zip_self hsame]
      | succ i => simp [hsame, ih]

end

/-- The last two of three lists may change places. -/
theorem perm_append_last {α : Type} (xs ys zs : List α) : (xs ++ ys ++ zs).Perm (xs ++ zs ++ ys) := by
  rw [List.append_assoc, List.append_assoc]
  exact List.perm_append_comm.append_left xs

/-! ## Corrections -/

/-- **What a correction notes**: the people are the same, and the notes grow by those of new names and of a
    new date of birth of the donor, in some order, and by nothing else. -/
structure Document.Noted (now : Instant) (d d' : Document) : Prop where
  donor : d'.donor.uid = d.donor.uid
  attorneys : d'.attorneys.map (·.uid) = d.attorneys.map (·.uid)
  certificateProvider : d'.certificateProvider.uid = d.certificateProvider.uid
  notes : ∃ notes, d'.notes = d.notes ++ notes ∧
    notes.Perm (d.nameNotes now d' ++ d.donorBirthNotes now d')

/-- What is noted of the attorney who is corrected is what can be read off all attorneys. -/
theorem AttorneyCorrection.noted_eq (target : Option (Nat × AttorneyCorrection)) (now : Instant)
    (attorneys : List Attorney) :
    noted target now attorneys =
      (attorneys.zip (amendAt amend target attorneys)).flatMap fun p => p.1.nameNote now p.2 := by
  cases target with
  | none => exact (flatMap_zip_self (Attorney.nameNote_self now) attorneys).symm
  | some t =>
      exact (flatMap_zip_modify (Attorney.nameNote_self now) (amend t.2) attorneys t.1).symm

/-- The notes of a donor, a name first. -/
theorem DonorCorrection.notes_eq (c : DonorCorrection) (now : Instant) (d d' : Document)
    (hdonor : d'.donor = c.amend d.donor) :
    c.notes now d.donor =
      Note.ofNewName "DONOR_NAME_CHANGE_V1" now d.donor.uid d.donor.firstNames d.donor.lastName
        d'.donor.firstNames d'.donor.lastName ++ d.donorBirthNotes now d' := by
  unfold Document.donorBirthNotes
  rw [hdonor]
  rfl

/-- The notes of three people who are corrected are those that can be read off the documents, with the
    donor's date of birth before the names of the others. -/
theorem Document.perm_notes {donor : DonorCorrection} {attorney : Option (Nat × AttorneyCorrection)}
    {provider : CertificateProviderCorrection} {d d' : Document} (now : Instant)
    (hdonor : d'.donor = donor.amend d.donor)
    (hattorneys : d'.attorneys = amendAt AttorneyCorrection.amend attorney d.attorneys)
    (hprovider : d'.certificateProvider = provider.amend d.certificateProvider) :
    (donor.notes now d.donor ++ AttorneyCorrection.noted attorney now d.attorneys ++
      provider.notes now d.certificateProvider).Perm (d.nameNotes now d' ++ d.donorBirthNotes now d') := by
  rw [DonorCorrection.notes_eq donor now d d' hdonor, AttorneyCorrection.noted_eq, ← hattorneys, nameNotes,
    hprovider, List.append_assoc (_ ++ _), List.append_assoc _ _ (Note.ofNewName _ _ _ _ _ _ _)]
  exact perm_append_last _ _ _

theorem Correction.noted (c : Correction) (now : Instant) (d : Document) :
    d.Noted now (c.amend now d) where
  donor := rfl
  attorneys := map_amendAt fun _ _ _ _ _ => rfl
  certificateProvider := rfl
  notes := by
    refine ⟨c.notes now d, rfl, ?_⟩
    rw [notes_eq]
    exact Document.perm_notes now rfl rfl rfl

theorem RegisteredCorrection.noted (c : RegisteredCorrection) (now : Instant) (d : Document) :
    d.Noted now (c.amend now d) where
  donor := rfl
  attorneys := map_amendAt fun _ _ _ _ _ => rfl
  certificateProvider := rfl
  notes := by
    refine ⟨c.notes now d, rfl, ?_⟩
    rw [notes_eq]
    exact (perm_append_last _ _ _).trans (Document.perm_notes now rfl rfl rfl)

/-! ## Updates -/

/-- **A correction leaves one note for each person whose name differs afterwards, one if the donor's date of
    birth does, and no other**, before registration and after it. Each note has the uid of the person and
    the new value. -/
theorem Update.corrections_noted {u : Update} {now : Instant} {d d' : Document} {c : Command}
    (htype : Word.ofText? u.type = some Operation.correction ∨
      Word.ofText? u.type = some Operation.postRegistrationCorrection)
    (hvalid : u.validate d = .ok c) (happly : c.apply now d = .ok d') : d.Noted now d' := by
  obtain ⟨hop, _⟩ := isRead_of_validate hvalid
  rcases htype with htype | htype
  · obtain ⟨x, rfl⟩ := Command.exists_eq_correct (Option.some.inj (hop.symm.trans htype))
    cases Command.effect_of_apply happly with
    | correct _ hstatus hdates => exact x.noted now d
  · obtain ⟨x, rfl⟩ := Command.exists_eq_correctRegistered (Option.some.inj (hop.symm.trans htype))
    cases Command.effect_of_apply happly with
    | correctRegistered _ hbirth => exact x.noted now d

/-- The donor has another name and a date of birth, and an attorney has another name. -/
theorem Update.corrections_noted_donor :
    let u : Update := ⟨"", "", none, "", "CORRECTION",
      [⟨"/donor/firstNames", .str "Ada", .str "Eve"⟩,
        ⟨"/donor/dateOfBirth", .null, .str "1960-05-06"⟩,
        ⟨"/attorneys/1/firstNames", .str "Cy", .str "Cyd"⟩]⟩
    ∃ (c : Command) (d' : Document), Word.ofText? u.type = some Operation.correction ∧
      u.validate .ofJointAttorneys = .ok c ∧ c.apply (.ofNanoseconds 1) .ofJointAttorneys = .ok d' ∧
      d'.notes.map (·.kind) =
        ["DONOR_NAME_CHANGE_V1", "DONOR_DOB_CHANGE_V1", "ATTORNEY_NAME_CHANGE_V1"] ∧
      Document.ofJointAttorneys.Noted (.ofNanoseconds 1) d' := by
  intro u
  let read := Correction.of .ofJointAttorneys
  let a : Attorney := Document.ofJointAttorneys.attorneys[1]
  let x : Correction := { read with
    donor := { read.donor with firstNames := "Eve", dateOfBirth := Date.parse? "1960-05-06" }
    attorney := some (1, { AttorneyCorrection.of a with firstNames := "Cyd" }) }
  have htype : Word.ofText? u.type = some Operation.correction := by decide +kernel
  have hvalid : u.validate .ofJointAttorneys = .ok (.correct x) := by decide +kernel
  have happly : (Command.correct x).apply (.ofNanoseconds 1) .ofJointAttorneys =
      .ok (x.amend (.ofNanoseconds 1) .ofJointAttorneys) := rfl
  exact ⟨_, _, htype, hvalid, happly, by decide +kernel,
    corrections_noted (Or.inl htype) hvalid happly⟩

/-- No kind of note records the date of birth of every attorney. -/
theorem Update.not_forall_birth_noted :
    ¬ ∃ kind : String, ∀ (u : Update) (now : Instant) (d d' : Document) (c : Command),
      Word.ofText? u.type = some Operation.correction → u.validate d = .ok c →
        c.apply now d = .ok d' → ∃ notes, d'.notes = d.notes ++ notes ∧
          notes.Perm (d.nameNotes now d' ++ d.donorBirthNotes now d' ++
            d.attorneyBirthNotes kind now d') := by
  rintro ⟨kind, h⟩
  let u : Update := ⟨"", "", none, "", "CORRECTION",
    [⟨"/attorneys/0/dateOfBirth", .null, .str "1990-01-02"⟩]⟩
  let read := Correction.of .ofJointAttorneys
  let a : Attorney := Document.ofJointAttorneys.attorneys[0]
  let x : Correction := { read with
    attorney := some (0, { AttorneyCorrection.of a with dateOfBirth := Date.parse? "1990-01-02" }) }
  have htype : Word.ofText? u.type = some Operation.correction := by decide +kernel
  have hvalid : u.validate .ofJointAttorneys = .ok (.correct x) := by decide +kernel
  obtain ⟨notes, hnotes, hperm⟩ := h u (.ofNanoseconds 1) _ _ _ htype hvalid rfl
  obtain rfl : notes = [] := hnotes.symm
  have hnone := (List.append_eq_nil_iff.mp hperm.nil_eq.symm).2
  have hone : (Document.attorneyBirthNotes kind (.ofNanoseconds 1) .ofJointAttorneys
      (x.amend (.ofNanoseconds 1) .ofJointAttorneys)).length = 1 := rfl
  rw [hnone] at hone
  exact absurd hone (by decide)

end PowerOfAttorney
