import PowerOfAttorney.Proofs.Lifecycle.Parties

/-!
# `PowerOfAttorney.Proofs.Lifecycle.Replay` — the clock decides nothing

A clock leaves its mark on a document in three places: when it was last changed, when it was registered,
and when each note was made. No script reads these places and no rule looks at them. So updates that were
accepted once are accepted at any other time, and make the same document but for those marks.

Which times are taken for others is left open by a relation of instants. Any two may be related, and then
the marks tell nothing; or none but the same, and then they are the same.

## Contents
- **Alike.** `Document.Alike`: documents that a clock alone tells apart. `Document.timeless` is what all of
  them have in common.
- **Notes.** What is noted does not depend on the time.
- **Reading.** `Document.Alike.validate_eq`.
- **Effects.** `Command.Effect.alike`, one case for each effect.
- **Replays.** `Document.replay`, and `Document.Alike.submit` for one step of it.
-/

namespace PowerOfAttorney

/-! ## Alike -/

/-- The same note, made at related times. -/
structure Note.Alike (R : Instant → Instant → Prop) (n n' : Note) : Prop where
  dated : n' = { n with datetime := n'.datetime }
  datetime : R n.datetime n'.datetime

/-- A note without the time at which it was made. -/
def Note.timeless (n : Note) : Note :=
  { n with datetime := .ofNanoseconds 0 }

theorem Note.Alike.timeless_eq {R : Instant → Instant → Prop} {n n' : Note} (h : n.Alike R n') :
    n'.timeless = n.timeless := by
  rw [h.dated]
  rfl

theorem Note.Alike.eq_of_same {n n' : Note} (h : n.Alike Eq n') : n = n' := by
  rw [h.dated, ← h.datetime]

namespace Document

/-- A document with other marks of a clock. -/
def marked (d : Document) (updatedAt registrationDate : Option Instant) (notes : List Note) : Document :=
  { d with updatedAt := updatedAt, registrationDate := registrationDate, notes := notes }

/-- The same document but for what a clock has left on it. It was registered and its notes were made at
    related times, and it was last changed at any time. -/
structure Alike (R : Instant → Instant → Prop) (d e : Document) : Prop where
  marked : e = d.marked e.updatedAt e.registrationDate e.notes
  registrationDate : Option.Rel R d.registrationDate e.registrationDate
  notes : List.Forall₂ (Note.Alike R) d.notes e.notes

/-- A document without what a clock has left on it. That it was registered and what was noted stays. -/
def timeless (d : Document) : Document :=
  { d with
    updatedAt := none
    registrationDate := d.registrationDate.map fun _ => .ofNanoseconds 0
    notes := d.notes.map Note.timeless }

variable {R : Instant → Instant → Prop} {d e : Document}

theorem alike_marked {updatedAt registrationDate : Option Instant} {notes : List Note}
    (hregistered : Option.Rel R d.registrationDate registrationDate)
    (hnotes : List.Forall₂ (Note.Alike R) d.notes notes) :
    d.Alike R (d.marked updatedAt registrationDate notes) :=
  ⟨rfl, hregistered, hnotes⟩

theorem alike_refl (hrefl : ∀ t, R t t) (d : Document) : d.Alike R d := by
  refine ⟨rfl, ?_, List.forall₂_same.mpr fun n _ => ⟨rfl, hrefl _⟩⟩
  cases d.registrationDate with
  | none => exact .none
  | some t => exact .some (hrefl t)

/-- When a document was last changed makes no difference. -/
theorem Alike.updated (h : d.Alike R e) (t : Option Instant) : { d with updatedAt := t }.Alike R e :=
  ⟨h.marked, h.registrationDate, h.notes⟩

/-- Alike documents have all in common but what a clock has left. -/
theorem Alike.timeless_eq (h : d.Alike R e) : e.timeless = d.timeless := by
  have hregistered : (e.registrationDate.map fun _ => Instant.ofNanoseconds 0) =
      d.registrationDate.map fun _ => Instant.ofNanoseconds 0 := by
    have hrel := h.registrationDate
    generalize d.registrationDate = date, e.registrationDate = date' at hrel
    cases hrel with
    | none => rfl
    | some _ => rfl
  have hnotes : e.notes.map Note.timeless = d.notes.map Note.timeless :=
    map_eq_of_forall₂ (h.notes.imp fun _ _ => Note.Alike.timeless_eq)
  rw [h.marked]
  unfold timeless Document.marked
  dsimp only
  rw [hregistered, hnotes]

/-- Documents that are alike at the same times are the same, but for when they were last changed. -/
theorem Alike.eq_of_same (h : d.Alike Eq e) : { e with updatedAt := d.updatedAt } = d := by
  have hregistered : e.registrationDate = d.registrationDate := by
    have hrel := h.registrationDate
    generalize d.registrationDate = date, e.registrationDate = date' at hrel
    cases hrel with
    | none => rfl
    | some heq => rw [heq]
  have hnotes : d.notes = e.notes := by
    rw [← List.forall₂_eq_eq_eq]
    exact h.notes.imp fun _ _ => Note.Alike.eq_of_same
  rw [h.marked]
  unfold Document.marked
  dsimp only
  rw [hregistered, ← hnotes]

end Document

/-! ## Notes -/

section

variable {R : Instant → Instant → Prop} {now now' : Instant} (htime : R now now')
include htime

theorem DonorCorrection.alike_notes (c : DonorCorrection) (d : Donor) :
    List.Forall₂ (Note.Alike R) (c.notes now d) (c.notes now' d) := by
  unfold notes
  refine List.rel_append ?_ ?_
  · split
    · exact .cons ⟨rfl, htime⟩ .nil
    · exact .nil
  · split
    · exact .cons ⟨rfl, htime⟩ .nil
    · exact .nil

theorem AttorneyCorrection.alike_notes (c : AttorneyCorrection) (a : Attorney) :
    List.Forall₂ (Note.Alike R) (c.notes now a) (c.notes now' a) := by
  unfold notes
  split
  · exact .cons ⟨rfl, htime⟩ .nil
  · exact .nil

theorem CertificateProviderCorrection.alike_notes (c : CertificateProviderCorrection)
    (p : CertificateProvider) :
    List.Forall₂ (Note.Alike R) (c.notes now p) (c.notes now' p) := by
  unfold notes
  split
  · exact .cons ⟨rfl, htime⟩ .nil
  · exact .nil

/-- The notes of a correction of one of the attorneys, if any. -/
theorem AttorneyCorrection.alike_notes_at (target : Option (Nat × AttorneyCorrection))
    (attorneys : List Attorney) :
    List.Forall₂ (Note.Alike R)
      ((do let (i, a) ← target; let old ← attorneys[i]?; some (a.notes now old)).getD [])
      ((do let (i, a) ← target; let old ← attorneys[i]?; some (a.notes now' old)).getD []) := by
  cases target with
  | none => exact .nil
  | some x =>
      obtain ⟨i, a⟩ := x
      cases hold : attorneys[i]? with
      | none => simp [hold]
      | some old => simp [hold, a.alike_notes htime]

theorem Correction.alike_notes (c : Correction) (d : Document) :
    List.Forall₂ (Note.Alike R) (c.notes now d) (c.notes now' d) :=
  List.rel_append
    (List.rel_append (c.donor.alike_notes htime d.donor)
      (AttorneyCorrection.alike_notes_at htime c.attorney d.attorneys))
    (c.certificateProvider.alike_notes htime d.certificateProvider)

theorem RegisteredCorrection.alike_notes (c : RegisteredCorrection) (d : Document) :
    List.Forall₂ (Note.Alike R) (c.notes now d) (c.notes now' d) :=
  List.rel_append
    (List.rel_append (c.donor.alike_notes htime d.donor)
      (c.certificateProvider.alike_notes htime d.certificateProvider))
    (AttorneyCorrection.alike_notes_at htime c.attorney d.attorneys)

end

/-! ## Reading -/

/-- No script reads what a clock has left. -/
theorem Command.ofChanges_marked (d : Document) (updatedAt registrationDate : Option Instant)
    (notes : List Note) (author : String) (changes : List Change) (op : Operation) :
    ofChanges (d.marked updatedAt registrationDate notes) author changes op =
      ofChanges d author changes op := by
  cases op <;> rfl

/-- **An update is as valid for a document at other times.** -/
theorem Document.Alike.validate_eq {R : Instant → Instant → Prop} {d e : Document} (h : d.Alike R e)
    (u : Update) : u.validate e = u.validate d := by
  rw [h.marked]
  unfold Update.validate
  simp only [Command.ofChanges_marked]

/-! ## Effects -/

section

variable (d : Document) (updatedAt registrationDate : Option Instant) (notes : List Note)

theorem ChangeAttorneys.refusal?_marked (moves : List (Nat × AttorneyStatus)) :
    refusal? (d.marked updatedAt registrationDate notes) moves = refusal? d moves := by
  induction moves with
  | nil => rfl
  | cons move rest ih =>
      rw [refusal?, refusal?, ih]
      rfl

theorem AttorneyDecisions.refusal?_marked (exceptions : List (Nat × Bool)) :
    refusal? (d.marked updatedAt registrationDate notes) exceptions = refusal? d exceptions := by
  induction exceptions with
  | nil => rfl
  | cons exception rest ih =>
      rw [refusal?, refusal?, ih]
      rfl

variable (party : CheckedParty) (check : IdentityCheck)

theorem CheckedParty.record_marked :
    party.record check (d.marked updatedAt registrationDate notes) =
      (party.record check d).marked updatedAt registrationDate notes := by
  cases party <;> rfl

theorem CheckedParty.registrationDate_record :
    (party.record check d).registrationDate = d.registrationDate := by
  cases party <;> rfl

theorem CheckedParty.notes_record : (party.record check d).notes = d.notes := by
  cases party <;> rfl

end

namespace Command

variable {R : Instant → Instant → Prop} {now now' : Instant} {d d' e : Document} {c : Command}

/-- An effect that differs from another in the marks of a clock alone. -/
theorem Effect.alike_of_marked {updatedAt registrationDate : Option Instant} {notes : List Note}
    (h : Effect now' e c (d'.marked updatedAt registrationDate notes))
    (hregistered : Option.Rel R d'.registrationDate registrationDate)
    (hnotes : List.Forall₂ (Note.Alike R) d'.notes notes) :
    ∃ e', Effect now' e c e' ∧ d'.Alike R e' :=
  ⟨_, h, Document.alike_marked hregistered hnotes⟩

open Document in
/-- **A command has the same effect at another time**, but for the marks of the clock. -/
theorem Effect.alike (h : Effect now d c d') (hsame : d.Alike R e) (htime : R now now') :
    ∃ e', Effect now' e c e' ∧ d'.Alike R e' := by
  obtain ⟨hmarked, hregistered, hnotes⟩ := hsame
  generalize e.updatedAt = updatedAt, e.registrationDate = registrationDate, e.notes = notes
    at hmarked hregistered hnotes
  subst hmarked
  cases h with
  | certificateProviderSign s hunsigned =>
      exact alike_of_marked (.certificateProviderSign s hunsigned) hregistered hnotes
  | attorneySign s ha hunsigned =>
      exact alike_of_marked (.attorneySign s ha hunsigned) hregistered hnotes
  | trustCorporationSign s ht hunsigned =>
      exact alike_of_marked (.trustCorporationSign s ht hunsigned) hregistered hnotes
  | attorneyOptOut hi ha hunsigned =>
      have heffect : Effect now' (d.marked updatedAt registrationDate notes) _ _ :=
        .attorneyOptOut hi ha hunsigned
      rw [afterLeaving_eq] at heffect ⊢
      exact alike_of_marked heffect hregistered hnotes
  | trustCorporationOptOut hi ht hunsigned =>
      have heffect : Effect now' (d.marked updatedAt registrationDate notes) _ _ :=
        .trustCorporationOptOut hi ht hunsigned
      rw [afterLeaving_eq] at heffect ⊢
      exact alike_of_marked heffect hregistered hnotes
  | certificateProviderOptOut hunsigned =>
      exact alike_of_marked (.certificateProviderOptOut hunsigned) hregistered hnotes
  | withdraw hwithdrawn hregistered' hcannotRegister =>
      exact alike_of_marked (.withdraw hwithdrawn hregistered' hcannotRegister) hregistered hnotes
  | makePerfect hprogress hsigned =>
      exact alike_of_marked (.makePerfect hprogress hsigned) hregistered hnotes
  | beginWaiting hprogress hsigned =>
      exact alike_of_marked (.beginWaiting hprogress hsigned) hregistered hnotes
  | register hwaiting => exact alike_of_marked (.register hwaiting) (.some htime) hnotes
  | setStatus hallowed => exact alike_of_marked (.setStatus hallowed) hregistered hnotes
  | correct c hstatus hdates =>
      exact alike_of_marked (.correct c hstatus hdates) hregistered
        (List.rel_append hnotes (c.alike_notes htime d))
  | correctRegistered c hbirth =>
      exact alike_of_marked (.correctRegistered c hbirth) hregistered
        (List.rel_append hnotes (c.alike_notes htime d))
  | decideJointly c hallowed =>
      rw [← AttorneyDecisions.refusal?_marked d updatedAt registrationDate notes] at hallowed
      exact alike_of_marked (.decideJointly c hallowed) hregistered hnotes
  | changeAttorneys c hallowed =>
      rw [← ChangeAttorneys.refusal?_marked d updatedAt registrationDate notes] at hallowed
      exact alike_of_marked (.changeAttorneys c hallowed) hregistered hnotes
  | attorneyAccess email ha hpaper =>
      exact alike_of_marked (.attorneyAccess email ha hpaper) hregistered hnotes
  | certificateProviderAccess email hpaper =>
      exact alike_of_marked (.certificateProviderAccess email hpaper) hregistered hnotes
  | severRestrictions wording =>
      exact alike_of_marked (.severRestrictions wording) hregistered
        (List.rel_append hnotes (.cons ⟨rfl, htime⟩ .nil))
  | confirmIdentity hkind hcheckedAt =>
      have heffect : Effect now' (d.marked updatedAt registrationDate notes) _ _ :=
        .confirmIdentity hkind hcheckedAt
      rw [CheckedParty.record_marked] at heffect
      rw [← CheckedParty.registrationDate_record] at hregistered
      rw [← CheckedParty.notes_record] at hnotes
      exact alike_of_marked heffect hregistered hnotes

end Command

/-! ## Replays -/

namespace Document

/-- The document after some attempts, if each of them is accepted. -/
def replay (d : Document) (as : List Attempt) : Except (List FieldError) Document :=
  as.foldlM submit d

theorem replay_concat (d : Document) (as : List Attempt) (a : Attempt) :
    d.replay (as ++ [a]) = (d.replay as).bind (·.submit a) := by
  unfold replay
  rw [List.foldlM_append]
  cases as.foldlM submit d with
  | error errors => rfl
  | ok e =>
      show [a].foldlM submit e = e.submit a
      rw [List.foldlM_cons]
      exact bind_pure _

/-- **What was accepted once is accepted at another time**, under another identifier, and makes a document
    that is alike. -/
theorem Alike.submit {R : Instant → Instant → Prop} {d d' e : Document} {a b : Attempt}
    (h : d.Alike R e) (hd : d.submit a = .ok d')
    (hread : ∀ e, b.update.validate e = a.update.validate e) (htime : R a.now b.now) :
    ∃ e', e.submit b = .ok e' ∧ d'.Alike R e' := by
  obtain ⟨c, hvalid, heffect⟩ := submit_eq_ok_iff.mp hd
  obtain ⟨e', heffect', halike⟩ := heffect.alike h htime
  refine ⟨e', submit_eq_ok_iff.mpr ⟨c, ?_, heffect'⟩, halike⟩
  rw [hread, h.validate_eq, hvalid]

end Document

end PowerOfAttorney
