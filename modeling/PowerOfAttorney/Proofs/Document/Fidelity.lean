import PowerOfAttorney.Proofs.Document.Version
import PowerOfAttorney.Proofs.Json.Fidelity

/-!
# `PowerOfAttorney.Proofs.Document.Fidelity` — a document is read back if its instants can be read

A document is written part by part, and part by part it is read back. What can go wrong is the same for
every part: an instant that has no text of its own.

## Contents
- **Instants.** `Document.instants`, all that a document holds, and `Document.IsWritable`.
- **People and parts.** A lemma for each codec.
- **The document.** `Document.decodeText_encodeText`, and `Document.encodeText_lossless` for one whose
  instants can be read.
-/

namespace PowerOfAttorney

open PowerOfAttorney.Part

/-! ## Instants -/

/-- The instants that a party or a part of a document holds. -/
def IdentityCheck.instants (c : IdentityCheck) : List Instant :=
  [c.checkedAt]

def Donor.instants (d : Donor) : List Instant :=
  d.identityCheck.toList.flatMap IdentityCheck.instants

def Attorney.instants (a : Attorney) : List Instant :=
  a.signedAt.toList

def Signatory.instants (s : Signatory) : List Instant :=
  s.signedAt.toList

def TrustCorporation.instants (t : TrustCorporation) : List Instant :=
  t.signatories.flatMap Signatory.instants

def CertificateProvider.instants (c : CertificateProvider) : List Instant :=
  c.signedAt.toList ++ c.identityCheck.toList.flatMap IdentityCheck.instants

def Note.instants (n : Note) : List Instant :=
  [n.datetime]

namespace Document

/-- Every instant that a document holds. -/
def instants (d : Document) : List Instant :=
  d.donor.instants ++ d.attorneys.flatMap Attorney.instants ++
    d.trustCorporations.flatMap TrustCorporation.instants ++ d.certificateProvider.instants ++
    d.signedAt.toList ++ d.witnessedByCertificateProviderAt.toList ++
    d.witnessedByIndependentWitnessAt.toList ++ d.certificateProviderNotRelatedConfirmedAt.toList ++
    d.registrationDate.toList ++ d.updatedAt.toList ++ d.notes.flatMap Note.instants

/-- Every instant that a document holds is in a year of four digits. -/
def IsWritable (d : Document) : Prop :=
  ∀ t ∈ d.instants, t.IsWritable

instance (d : Document) : Decidable d.IsWritable :=
  inferInstanceAs (Decidable (∀ t ∈ d.instants, t.IsWritable))

end Document

/-! ## People and parts -/

section

variable (n : Nat)

theorem Address.readsBack_codec : Address.codec.ReadsBack (n + 1) (fun _ => []) := by
  apply Part.readsBack_codec
  case hp =>
    with_reducible repeat' first
      | apply readsBack_seq | apply readsBack_map | apply readsBack_text
  · decide
  · exact fun _ => rfl
  · simp

theorem readsBack_addressOf {σ : Type} {get : σ → Address} :
    (addressOf get).ReadsBack (n + 1) get fun _ => [] :=
  readsBack_shown (Address.readsBack_codec n)

theorem IdentityCheck.readsBack_codec : IdentityCheck.codec.ReadsBack (n + 1) IdentityCheck.instants := by
  apply Part.readsBack_codec
  case hp =>
    with_reducible repeat' first
      | apply readsBack_seq | apply readsBack_map | apply readsBack_text | apply readsBack_required
      | apply Codec.readsBack_word | apply Codec.readsBack_instant
  · decide
  · exact fun _ => rfl
  · simp [instants]

theorem Donor.readsBack_codec : Donor.codec.ReadsBack (n + 2) Donor.instants := by
  apply Part.readsBack_codec
  case hp =>
    with_reducible repeat' first
      | apply readsBack_seq | apply readsBack_map | apply readsBack_text | apply readsBack_textShown
      | apply readsBack_maybe | apply Codec.readsBack_word | apply Codec.readsBack_date
    · exact readsBack_addressOf n
    · exact IdentityCheck.readsBack_codec n
  · decide
  · exact fun _ => rfl
  · simp [instants]

theorem Attorney.readsBack_codec : Attorney.codec.ReadsBack (n + 2) Attorney.instants := by
  apply Part.readsBack_codec
  case hp =>
    with_reducible repeat' first
      | apply readsBack_seq | apply readsBack_map | apply readsBack_text | apply readsBack_textShown
      | apply readsBack_maybe | apply readsBack_required | apply Codec.readsBack_word
      | apply Codec.readsBack_date | apply Codec.readsBack_instant
    · exact readsBack_addressOf n
    · exact readsBack_optional (fun a _ => Codec.readsBack_flag.decode a)
        fun a ha => ⟨rfl, by simpa using ha⟩
  · decide
  · exact fun _ => rfl
  · simp [instants]

theorem Signatory.readsBack_codec : Signatory.codec.ReadsBack (n + 1) Signatory.instants := by
  apply Part.readsBack_codec
  case hp =>
    with_reducible repeat' first
      | apply readsBack_seq | apply readsBack_map | apply readsBack_textShown
      | apply readsBack_maybe | apply Codec.readsBack_instant
  · decide
  · exact fun _ => rfl
  · simp [instants]

theorem TrustCorporation.readsBack_codec :
    TrustCorporation.codec.ReadsBack (n + 3) TrustCorporation.instants := by
  apply Part.readsBack_codec
  case hp =>
    with_reducible repeat' first
      | apply readsBack_seq | apply readsBack_map | apply readsBack_text | apply readsBack_textShown
      | apply readsBack_maybe | apply readsBack_many | apply readsBack_required
      | apply Codec.readsBack_word
    · exact readsBack_addressOf (n + 1)
    · exact Signatory.readsBack_codec n
  · decide
  · exact fun _ => rfl
  · simp [instants]

theorem CertificateProvider.readsBack_codec :
    CertificateProvider.codec.ReadsBack (n + 2) CertificateProvider.instants := by
  apply Part.readsBack_codec
  case hp =>
    with_reducible repeat' first
      | apply readsBack_seq | apply readsBack_map | apply readsBack_text | apply readsBack_textShown
      | apply readsBack_maybe | apply readsBack_required | apply Codec.readsBack_word
      | apply Codec.readsBack_instant
    · exact readsBack_addressOf n
    · exact IdentityCheck.readsBack_codec n
  · decide
  · exact fun _ => rfl
  · simp [instants]

theorem AuthorisedSignatory.readsBack_codec : AuthorisedSignatory.codec.ReadsBack (n + 1) (fun _ => []) := by
  apply Part.readsBack_codec
  case hp =>
    with_reducible repeat' first
      | apply readsBack_seq | apply readsBack_map | apply readsBack_textShown
  · decide
  · exact fun _ => rfl
  · simp

theorem IndependentWitness.readsBack_codec : IndependentWitness.codec.ReadsBack (n + 2) (fun _ => []) := by
  apply Part.readsBack_codec
  case hp =>
    with_reducible repeat' first
      | apply readsBack_seq | apply readsBack_map | apply readsBack_text | apply readsBack_textShown
    · exact readsBack_addressOf n
  · decide
  · exact fun _ => rfl
  · simp

theorem FileUpload.readsBack_codec : FileUpload.codec.ReadsBack (n + 1) (fun _ => []) := by
  apply Part.readsBack_codec
  case hp =>
    with_reducible repeat' first
      | apply readsBack_seq | apply readsBack_map | apply readsBack_textShown
  · decide
  · exact fun _ => rfl
  · simp

theorem Note.readsBack_codec : Note.codec.ReadsBack (n + 2) Note.instants := by
  apply Part.readsBack_codec
  case hp =>
    with_reducible repeat' first
      | apply readsBack_seq | apply readsBack_map | apply readsBack_required
      | apply Codec.readsBack_instant
    · exact Codec.readsBack_string
    · exact readsBack_optional (fun d _ => Codec.readsBack_strings.decode d)
        fun d hd => ⟨rfl, Dictionary.eq_empty_of_isEmpty hd⟩
  · decide
  · exact fun _ => rfl
  · simp [instants]

end

/-! ## The document -/

namespace Document

theorem readsBack_codec (n : Nat) : codec.ReadsBack (n + 5) instants := by
  apply Part.readsBack_codec
  case hp =>
    with_reducible repeat' first
      | apply readsBack_seq | apply readsBack_map | apply readsBack_text | apply readsBack_maybe
      | apply readsBack_many | apply readsBack_required | apply Codec.readsBack_string
      | apply Codec.readsBack_word | apply Codec.readsBack_instant
    · exact Donor.readsBack_codec (n + 2)
    · exact readsBack_shown (Codec.readsBack_list (Attorney.readsBack_codec (n + 1)))
    · exact TrustCorporation.readsBack_codec n
    · exact CertificateProvider.readsBack_codec (n + 2)
    · exact AuthorisedSignatory.readsBack_codec (n + 3)
    · exact IndependentWitness.readsBack_codec (n + 2)
    · unfold Decisions.part
      with_reducible repeat' first
        | apply readsBack_seq | apply readsBack_map | apply readsBack_text | apply readsBack_maybe
        | apply Codec.readsBack_word
    · exact FileUpload.readsBack_codec (n + 2)
    · exact Note.readsBack_codec (n + 1)
  · decide
  · exact fun _ => rfl
  · simp [instants]

/-- **The text of a document reads as the document if its instants can be read, and as nothing
    otherwise.** -/
theorem decodeText_encodeText {d e : Document} :
    codec.decodeText (codec.encodeText d) = .ok e ↔ d.IsWritable ∧ e = d :=
  (readsBack_codec 122).decodeText_encodeText isPlain_encode

/-- **The text of a document loses nothing**, if each of its instants is in a year of four digits. It
    reads as that document and is the text of no other. A text that reads as that document need not be the
    one that is written of it, but once rewritten it stays as it is. -/
theorem encodeText_lossless {d : Document} (h : d.IsWritable) :
    codec.decodeText (codec.encodeText d) = .ok d ∧
      (∀ e, codec.encodeText e = codec.encodeText d → e = d) ∧
      ∀ s, codec.decodeText s = .ok d → ∃ t, codec.rewrite s = .ok t ∧ codec.rewrite t = .ok t := by
  have hread : codec.decodeText (codec.encodeText d) = .ok d := decodeText_encodeText.mpr ⟨h, rfl⟩
  refine ⟨hread, fun e htext => ?_, fun s hs => ?_⟩
  · have hother : codec.decodeText (codec.encodeText e) = .ok d := by
      rw [htext]
      exact hread
    exact (decodeText_encodeText.mp hother).2.symm
  · exact ⟨codec.encodeText d, Codec.rewrite_eq_ok hs, Codec.rewrite_eq_ok hread⟩

/-- A document with something in each part, and an instant in a leap second. -/
def ofEveryPart : Document where
  uid := "M-1"
  status := .registered
  kind := .propertyAndAffairs
  channel := .online
  donor := ⟨"d", "Ada", "Day \"A\"", "Zoé\n", some ⟨1960, 2, 29, by decide⟩, "a@b.c",
    ⟨"1 Road", "", "", "Town", "", "GB"⟩, some .welsh, some ⟨.oneLogin, .ofNanoseconds 1, "r"⟩⟩
  attorneys := [⟨"a", "Bo", "Bell", none, "", "07", {}, .active, .original, .paper,
    some ⟨59, 1000000000, by decide⟩, some .english, true⟩]
  trustCorporations := [⟨"t", "Trust", "1", "", "", {}, .inactive, .replacement, .online,
    [⟨"Al", "Ash", "", none⟩, {}], none⟩]
  certificateProvider := ⟨"c", "Di", "Dunn", "", "", {}, .paper, some (.ofNanoseconds 2), none, none⟩
  authorisedSignatory := some ⟨"s", "Ed", ""⟩
  independentWitness := some ⟨"w", "", "Fox", "", {}⟩
  decisions := ⟨some .jointly, "", none, "", some .anotherWay, "\t", some .hasCapacity, none⟩
  restrictions := "none"
  restrictionImages := [⟨"p", "h"⟩]
  signedAt := some (.ofNanoseconds (-1))
  witnessedByCertificateProviderAt := some (.ofNanoseconds 1000000000)
  witnessedByIndependentWitnessAt := none
  certificateProviderNotRelatedConfirmedAt := none
  registrationDate := some (.ofNanoseconds 123456789)
  updatedAt := some (.ofNanoseconds 1700000000000000000)
  notes := [⟨"N", .ofNanoseconds 0, .ofList [("k", "v")]⟩, ⟨"O", .ofNanoseconds 0, .empty⟩]

/-- It comes back from its text. -/
theorem encodeText_lossless_ofEveryPart :
    ofEveryPart.IsWritable ∧ codec.decodeText (codec.encodeText ofEveryPart) = .ok ofEveryPart :=
  ⟨by decide +kernel, (encodeText_lossless (by decide +kernel)).1⟩

end Document

end PowerOfAttorney
