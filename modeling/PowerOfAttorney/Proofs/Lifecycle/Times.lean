import PowerOfAttorney.Proofs.Document.Fidelity
import PowerOfAttorney.Proofs.Lifecycle.Replay
import PowerOfAttorney.Proofs.Operation.Signers

/-!
# `PowerOfAttorney.Proofs.Lifecycle.Times` — where the times on a document come from

A time that stands on a document after an update stood there before, is that of the update, or was sent as
the new value of one of its changes. So what is known of all these times is known of the document.

## Contents
- **Given.** `Change.Gives`, and `Script.Fits.shown`: what a run without faults ends in shows what was shown
  at first or what a change gives.
- **Times.** `Document.AllTimes`, one field for each place at which a document has a time.
- **Commands.** What is read of each command that sets a time.
- **Effects.** `Command.Effect.allTimes`, one case for each effect.
-/

namespace PowerOfAttorney

variable {σ : Type}

/-! ## Given -/

/-- The new value of a change is read as this. -/
def Change.Gives (c : Change) (x : Held) : Prop :=
  x.type.decode c.new = .ok x.value

namespace Script

/-- **What is shown in the end was shown at first, or some change gives it.** -/
theorem Fits.shown {s : Script σ} {L : Layout σ}
    (h : s.Fits L True (fun _ => True) (fun _ => True) []) (hends : s.Ends) {changes : List Change}
    (hnone : (s.read L.start changes).2 = []) {q : Place} {x : Held}
    (hx : L.view (s.read L.start changes).1 q = some x) :
    L.base q = some x ∨ ∃ c ∈ changes, c.Gives x := by
  have hsound := h.sound_log changes
  -- Where a change was taken, its value is shown; elsewhere nothing has moved.
  by_cases hq : q ∈ (s.log L.start changes).map Hit.place
  · obtain ⟨g, hg, rfl⟩ := List.mem_map.mp hq
    obtain ⟨c, hc, _, hnew, hagrees, v, hdecode, _⟩ := isAccepted_of_mem_log hends hnone hg
    rw [hsound.patch.taken g hg v hagrees hdecode] at hx
    obtain rfl := Option.some.inj hx
    rw [hnew] at hdecode
    exact Or.inr ⟨c, hc, hdecode⟩
  · exact Or.inl ((hsound.patch.kept q hq).symm.trans hx)

end Script

/-! ## Times -/

/-- All times on a document are of a kind. -/
structure Document.AllTimes (G : Instant → Prop) (d : Document) : Prop where
  donorCheck : ∀ c ∈ d.donor.identityCheck, G c.checkedAt
  attorneys : ∀ a ∈ d.attorneys, ∀ t ∈ a.signedAt, G t
  trustCorporations : ∀ t ∈ d.trustCorporations, ∀ s ∈ t.signatories, ∀ t ∈ s.signedAt, G t
  certificateProvider : ∀ t ∈ d.certificateProvider.signedAt, G t
  providerCheck : ∀ c ∈ d.certificateProvider.identityCheck, G c.checkedAt
  signedAt : ∀ t ∈ d.signedAt, G t
  witnessedByCertificateProviderAt : ∀ t ∈ d.witnessedByCertificateProviderAt, G t
  witnessedByIndependentWitnessAt : ∀ t ∈ d.witnessedByIndependentWitnessAt, G t
  notRelated : ∀ t ∈ d.certificateProviderNotRelatedConfirmedAt, G t
  registrationDate : ∀ t ∈ d.registrationDate, G t
  updatedAt : ∀ t ∈ d.updatedAt, G t
  notes : ∀ n ∈ d.notes, G n.datetime

variable {G : Instant → Prop}

/-- Where the instants of a document stand. -/
theorem Document.mem_instants {d : Document} {t : Instant} : t ∈ d.instants ↔
    (∃ c ∈ d.donor.identityCheck, t = c.checkedAt) ∨ (∃ a ∈ d.attorneys, t ∈ a.signedAt) ∨
      (∃ tc ∈ d.trustCorporations, ∃ s ∈ tc.signatories, t ∈ s.signedAt) ∨
      t ∈ d.certificateProvider.signedAt ∨
      (∃ c ∈ d.certificateProvider.identityCheck, t = c.checkedAt) ∨ t ∈ d.signedAt ∨
      t ∈ d.witnessedByCertificateProviderAt ∨ t ∈ d.witnessedByIndependentWitnessAt ∨
      t ∈ d.certificateProviderNotRelatedConfirmedAt ∨ t ∈ d.registrationDate ∨ t ∈ d.updatedAt ∨
      ∃ n ∈ d.notes, t = n.datetime := by
  simp only [instants, Donor.instants, Attorney.instants, TrustCorporation.instants,
    CertificateProvider.instants, Signatory.instants, IdentityCheck.instants, Note.instants,
    List.mem_append, List.mem_flatMap, List.mem_singleton, Option.mem_toList, Option.mem_def,
    or_assoc]

/-- These are all the instants that a document holds. -/
theorem Document.allTimes_iff {d : Document} : d.AllTimes G ↔ ∀ t ∈ d.instants, G t := by
  simp only [mem_instants]
  constructor
  · rintro h t (⟨c, hc, rfl⟩ | ⟨a, ha, ht⟩ | ⟨tc, htc, s, hs, ht⟩ | ht | ⟨c, hc, rfl⟩ | ht | ht | ht | ht |
      ht | ht | ⟨n, hn, rfl⟩)
    · exact h.donorCheck c hc
    · exact h.attorneys a ha t ht
    · exact h.trustCorporations tc htc s hs t ht
    · exact h.certificateProvider t ht
    · exact h.providerCheck c hc
    · exact h.signedAt t ht
    · exact h.witnessedByCertificateProviderAt t ht
    · exact h.witnessedByIndependentWitnessAt t ht
    · exact h.notRelated t ht
    · exact h.registrationDate t ht
    · exact h.updatedAt t ht
    · exact h.notes n hn
  · intro h
    simp only [or_imp, forall_and] at h
    obtain ⟨hdonor, hattorneys, htrust, hprovider, hcheck, hsigned, hby, hwitness, hrelated, hregistered,
      hupdated, hnotes⟩ := h
    exact ⟨fun c hc => hdonor _ ⟨c, hc, rfl⟩, fun a ha t ht => hattorneys t ⟨a, ha, ht⟩,
      fun tc htc s hs t ht => htrust t ⟨tc, htc, s, hs, ht⟩, hprovider,
      fun c hc => hcheck _ ⟨c, hc, rfl⟩, hsigned, hby, hwitness, hrelated, hregistered, hupdated,
      fun n hn => hnotes _ ⟨n, hn, rfl⟩⟩

/-! ## Commands -/

/-- The times that changes give are of a kind. -/
def Change.GiveTimes (G : Instant → Prop) (changes : List Change) : Prop :=
  ∀ c ∈ changes, ∀ t, c.Gives ⟨.time, some t⟩ → G t

open Script

variable {changes : List Change}

/-- A time that is shown in the end is of the kind if it is when it was shown at first. -/
theorem Script.Fits.time {s : Script σ} {L : Layout σ} {x : σ}
    (h : s.Fits L True (fun _ => True) (fun _ => True) []) (hends : s.Ends)
    (hread : s.read L.start changes = (x, [])) (hgiven : Change.GiveTimes G changes) {q : Place}
    {t : Instant} (hview : L.view x q = some ⟨.time, some t⟩)
    (hbase : L.base q = some ⟨.time, some t⟩ → G t) : G t := by
  obtain ⟨rfl, hnone⟩ := Prod.mk.inj hread
  rcases h.shown hends hnone hview with hfirst | ⟨c, hc, hgives⟩
  · exact hbase hfirst
  · exact hgiven c hc t hgives

/-- The same below another place. -/
theorem Script.Fits.time_below {s : Script σ} {L : Layout σ} {x : σ} {top : Place}
    (h : s.Fits (L.below top) True (fun _ => True) (fun _ => True) []) (hends : s.Ends)
    (hread : s.read L.start changes = (x, [])) (hgiven : Change.GiveTimes G changes) (b : Place)
    {t : Instant} (hview : L.view x b = some ⟨.time, some t⟩)
    (hbase : L.base b = some ⟨.time, some t⟩ → G t) : G t :=
  h.time hends hread hgiven ((L.view_below top x b).trans hview) fun hfirst =>
    hbase ((L.view_below top L.start b).symm.trans hfirst)

/-- A certificate provider signs at a time that was sent. -/
theorem CertificateProviderSign.time {s : CertificateProviderSign}
    (hread : script.read {} changes = (s, [])) (hgiven : Change.GiveTimes G changes) :
    ∀ t ∈ s.signedAt, G t := by
  intro t ht
  refine fits.time_below ends hread hgiven [.name "signedAt"] ?_ nofun
  show some (Held.mk .time s.signedAt) = _
  rw [ht]

/-- So does an attorney. -/
theorem AttorneySign.time {d : Document} {i : Nat} {s : AttorneySign} (hi : i < d.attorneys.length)
    (hread : (script d).read none changes = (some (i, s), [])) (hgiven : Change.GiveTimes G changes) :
    ∀ t ∈ s.signedAt, G t := by
  intro t ht
  refine (fits d).time_below (ends d) hread hgiven [.index i, .name "signedAt"] ?_ ?_
  · rw [Layout.view_atIndex hi]
    show some (Held.mk .time s.signedAt) = _
    rw [ht]
  · rw [Layout.base_atIndex hi]
    exact nofun

/-- And so do the signatories of a trust corporation. -/
theorem TrustCorporationSign.time {d : Document} {i : Nat} {s : TrustCorporationSign}
    (hi : i < d.trustCorporations.length) (hread : (script d).read none changes = (some (i, s), []))
    (hgiven : Change.GiveTimes G changes) : ∀ x ∈ s.signatories, ∀ t ∈ x.signedAt, G t := by
  have htime : ∀ (n : Nat) x, [s.first, s.second][n]? = some x → ∀ t ∈ x.signedAt, G t := by
    intro n x hx t ht
    refine (fits d).time_below (ends d) hread hgiven
      [.index i, .name "signatories", .index n, .name "signedAt"] ?_ ?_
    · rw [Layout.view_atIndex hi]
      show ([s.first, s.second][n]?).bind _ = _
      rw [hx]
      show some (Held.mk .time x.signedAt) = _
      rw [ht]
    · rw [Layout.base_atIndex hi]
      intro hfirst
      obtain ⟨x, hx, hheld⟩ := Option.bind_eq_some_iff.mp hfirst
      -- Nothing is known of anyone at first.
      obtain rfl : x = {} := by
        have hmem : x ∈ [({} : Signatory), {}] := List.mem_of_getElem? hx
        simpa using hmem
      exact absurd hheld nofun
  intro x hx
  obtain ⟨n, hn⟩ := List.mem_iff_getElem?.mp (List.mem_filter.mp hx).1
  exact htime n x hn

/-- The time of an identity check was sent, if it is not the one on record. -/
theorem ConfirmIdentity.time {d : Document} {party : CheckedParty} {c : ConfirmIdentity}
    (hread : (script party d).read (.onRecord party d) changes = (c, []))
    (hgiven : Change.GiveTimes G changes) (hrecord : ∀ check ∈ party.check? d, G check.checkedAt) :
    ∀ t ∈ c.checkedAt, G t := by
  intro t ht
  refine (fits party d rfl).time_below (ends party d) hread hgiven [.name "checkedAt"] ?_ ?_
  · show some (Held.mk .time c.checkedAt) = _
    rw [ht]
  · intro hfirst
    have hheld : some (Held.mk .time ((party.check? d).map (·.checkedAt))) = some ⟨.time, some t⟩ :=
      (holds_onRecord party d [.name "checkedAt"]).symm.trans hfirst
    cases hcheck : party.check? d with
    | none =>
        rw [hcheck] at hheld
        exact absurd hheld nofun
    | some check =>
        rw [hcheck] at hheld
        cases hheld
        exact hrecord check hcheck

/-- What is known of the entries of a list is known after one of them is replaced by one of which it is
    known. -/
theorem forall_mem_set {α : Type} {P : α → Prop} {xs : List α} {i : Nat} {x : α} (h : ∀ x ∈ xs, P x)
    (hx : P x) : ∀ y ∈ xs.set i x, P y := by
  intro y hy
  rcases List.mem_or_eq_of_mem_set hy with hy | rfl
  · exact h y hy
  · exact hx

theorem Held.time_inj {v v' : Option Instant} (h : some (Held.mk .time v) = some ⟨.time, v'⟩) :
    v = v' := by
  cases h
  rfl

namespace Correction

variable {d : Document} {c : Correction}

/-- The times of a corrected document were sent, if they are not those on record. -/
theorem allTimes_onto (hread : (script d).read (.of d) changes = (c, []))
    (hgiven : Change.GiveTimes G changes) (hd : d.AllTimes G) : (c.onto d).AllTimes G := by
  have htime : ∀ q t, (c.onto d).holds q = some ⟨.time, some t⟩ →
      (d.holds q = some ⟨.time, some t⟩ → G t) → G t := fun q t hview hbase =>
    (fits d).time (ends d) hread hgiven hview hbase
  -- At most places there is one time, which is shown as it stands.
  have hone : ∀ (q : Place) (v v₀ : Option Instant), (c.onto d).holds q = some ⟨.time, v⟩ →
      d.holds q = some ⟨.time, v₀⟩ → (∀ t ∈ v₀, G t) → ∀ t ∈ v, G t := by
    intro q v v₀ hview hbase hv₀ t ht
    refine htime q t (hview.trans (by rw [ht])) fun hfirst => hv₀ t ?_
    exact Held.time_inj (hbase.symm.trans hfirst)
  refine { hd with
    attorneys := fun a ha t ht => ?_
    trustCorporations := fun tc htc s hs t ht => ?_
    certificateProvider := hone [.name "certificateProvider", .name "signedAt"] _ _ rfl rfl
      hd.certificateProvider
    signedAt := hone [.name "signedAt"] _ _ rfl rfl hd.signedAt
    witnessedByCertificateProviderAt := hone [.name "witnessedByCertificateProviderAt"] _ _ rfl rfl
      hd.witnessedByCertificateProviderAt
    witnessedByIndependentWitnessAt := hone [.name "witnessedByIndependentWitnessAt"] _ _ rfl rfl
      hd.witnessedByIndependentWitnessAt }
  · obtain ⟨i, hi⟩ := List.mem_iff_getElem?.mp ha
    refine htime [.name "attorneys", .index i, .name "signedAt"] t ?_ fun hfirst => ?_
    · show ((c.onto d).attorneys[i]?).bind _ = _
      rw [hi]
      show some (Held.mk .time a.signedAt) = _
      rw [ht]
    · obtain ⟨a', ha', hheld⟩ := Option.bind_eq_some_iff.mp hfirst
      exact hd.attorneys a' (List.mem_of_getElem? ha') t (Held.time_inj hheld)
  · obtain ⟨i, hi⟩ := List.mem_iff_getElem?.mp htc
    obtain ⟨n, hn⟩ := List.mem_iff_getElem?.mp hs
    refine htime [.name "trustCorporations", .index i, .name "signatories", .index n,
      .name "signedAt"] t ?_ fun hfirst => ?_
    · show ((c.onto d).trustCorporations[i]?).bind _ = _
      rw [hi]
      show (tc.signatories[n]?).bind _ = _
      rw [hn]
      show some (Held.mk .time s.signedAt) = _
      rw [ht]
    · obtain ⟨tc', htc', hheld⟩ := Option.bind_eq_some_iff.mp hfirst
      obtain ⟨s', hs', hheld⟩ := Option.bind_eq_some_iff.mp hheld
      exact hd.trustCorporations tc' (List.mem_of_getElem? htc') s' (List.mem_of_getElem? hs') t
        (Held.time_inj hheld)

end Correction

/-! ## Effects -/

/-- The date at which an attorney signed stays, if there is one, and stays away otherwise. -/
def Attorney.SameDate (a a' : Attorney) : Prop :=
  a'.signedAt = a.signedAt

theorem Attorney.SameDate.refl (a : Attorney) : a.SameDate a :=
  Eq.refl a.signedAt

namespace Document.AllTimes

variable {d : Document}

/-- If only attorneys are others, it is enough to know of them. -/
theorem of_attorneys (h : d.AllTimes G) {as : List Attorney} (has : ∀ a ∈ as, ∀ t ∈ a.signedAt, G t) :
    { d with attorneys := as }.AllTimes G :=
  { h with attorneys := has }

/-- If only trust corporations are others, it is enough to know of them. -/
theorem of_trustCorporations (h : d.AllTimes G) {ts : List TrustCorporation}
    (hts : ∀ tc ∈ ts, ∀ s ∈ tc.signatories, ∀ t ∈ s.signedAt, G t) :
    { d with trustCorporations := ts }.AllTimes G :=
  { h with trustCorporations := hts }

/-- If attorneys keep the dates at which they signed, all is known. -/
theorem of_forall₂ (h : d.AllTimes G) {as : List Attorney}
    (has : List.Forall₂ Attorney.SameDate d.attorneys as) : { d with attorneys := as }.AllTimes G := by
  refine h.of_attorneys fun a' ha' t ht => ?_
  obtain ⟨i, hi⟩ := List.mem_iff_getElem?.mp ha'
  obtain ⟨a, ha, hsame⟩ := exists_of_forall₂ has hi
  exact h.attorneys a (List.mem_of_getElem? ha) t (hsame.symm.trans ht)

theorem afterLeaving (h : d.AllTimes G) (left : Appointment) : (d.afterLeaving left).AllTimes G := by
  rw [afterLeaving_eq]
  exact { h with }

theorem check? (h : d.AllTimes G) (party : CheckedParty) : ∀ c ∈ party.check? d, G c.checkedAt := by
  cases party with
  | donor => exact h.donorCheck
  | certificateProvider => exact h.providerCheck

theorem record (h : d.AllTimes G) (party : CheckedParty) {check : IdentityCheck}
    (hcheck : G check.checkedAt) : (party.record check d).AllTimes G := by
  cases party with
  | donor => exact { h with donorCheck := fun c hc => Option.some.inj hc ▸ hcheck }
  | certificateProvider => exact { h with providerCheck := fun c hc => Option.some.inj hc ▸ hcheck }

end Document.AllTimes

/-- What is noted at a time has been noted at it. -/
theorem forall_notes {ns : List Note} (h : List.Forall₂ (Note.Alike fun t _ => G t) ns ns) :
    ∀ n ∈ ns, G n.datetime :=
  fun n hn => (List.forall₂_same.mp h n hn).datetime

namespace Command

variable {now : Instant} {d d' : Document} {c : Command}

/-- **The times on a document after a command were on it before, are that of the command, or were
    sent.** -/
theorem Effect.allTimes (h : c.Effect now d d') (hread : c.IsRead d changes)
    (hgiven : Change.GiveTimes G changes) (hnow : G now) (hd : d.AllTimes G) : d'.AllTimes G := by
  cases h with
  | certificateProviderSign s hunsigned =>
      exact { hd with certificateProvider := CertificateProviderSign.time hread hgiven }
  | attorneySign s ha hunsigned =>
      obtain ⟨hi, _⟩ := List.getElem?_eq_some_iff.mp ha
      exact hd.of_attorneys (forall_mem_set hd.attorneys (AttorneySign.time hi hread hgiven))
  | trustCorporationSign s ht hunsigned =>
      obtain ⟨hi, _⟩ := List.getElem?_eq_some_iff.mp ht
      exact hd.of_trustCorporations (forall_mem_set hd.trustCorporations
        (TrustCorporationSign.time hi hread hgiven))
  | attorneyOptOut hi ha hunsigned =>
      -- Who leaves is marked, and keeps the date.
      have hleaver := hd.attorneys _ (List.mem_of_getElem? ha)
      refine Document.AllTimes.afterLeaving ?_ _
      exact hd.of_attorneys (forall_mem_set hd.attorneys hleaver)
  | trustCorporationOptOut hi ht hunsigned =>
      have hleaver := hd.trustCorporations _ (List.mem_of_getElem? ht)
      refine Document.AllTimes.afterLeaving ?_ _
      exact hd.of_trustCorporations (forall_mem_set hd.trustCorporations hleaver)
  | register hwaiting =>
      exact { hd with registrationDate := fun t ht => Option.some.inj ht ▸ hnow }
  | correct c hstatus hdates =>
      exact { Correction.allTimes_onto hread hgiven hd with
        notes := List.forall_mem_append.mpr ⟨hd.notes, forall_notes (c.alike_notes hnow d)⟩ }
  | correctRegistered c hbirth =>
      obtain ⟨hprovider, hattorney⟩ := RegisteredCorrection.keepsSignatures_of_read hread
      have hattorneys : List.Forall₂ Attorney.SameDate d.attorneys
          (amendAt AttorneyCorrection.amend c.attorney d.attorneys) :=
        forall₂_amendAt .refl hattorney fun _ _ hb => hb
      exact { hd.of_forall₂ hattorneys with
        certificateProvider := fun t ht => hd.certificateProvider t (hprovider.symm.trans ht)
        notes := List.forall_mem_append.mpr ⟨hd.notes, forall_notes (c.alike_notes hnow d)⟩ }
  | decideJointly c hallowed =>
      have hattorneys := forall₂_moved Attorney.SameDate.refl
        (fun v a => { a with cannotMakeJointDecisions := v }) (fun _ _ _ => rfl) c.exceptions
        d.attorneys fun _ _ _ _ _ => .refl _
      exact hd.of_forall₂ hattorneys
  | changeAttorneys c hallowed =>
      have hattorneys := forall₂_moved Attorney.SameDate.refl
        (fun next a => { a with status := next }) (fun _ _ _ => rfl) c.moves d.attorneys
        fun _ _ _ _ _ => .refl _
      exact hd.of_forall₂ hattorneys
  | attorneyAccess email ha hpaper =>
      have hattorney := hd.attorneys _ (List.mem_of_getElem? ha)
      exact hd.of_attorneys (forall_mem_set hd.attorneys hattorney)
  | severRestrictions wording =>
      exact { hd with
        notes := List.forall_mem_append.mpr ⟨hd.notes, List.forall_mem_singleton.mpr hnow⟩ }
  | confirmIdentity hkind hcheckedAt =>
      exact hd.record _ (ConfirmIdentity.time hread hgiven (hd.check? _) _ hcheckedAt)
  | _ => exact { hd with }

end Command

end PowerOfAttorney
