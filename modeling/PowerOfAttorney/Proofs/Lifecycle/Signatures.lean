import PowerOfAttorney.Proofs.Lifecycle.Parties
import PowerOfAttorney.Proofs.Operation.Signers

/-!
# `PowerOfAttorney.Proofs.Lifecycle.Signatures` — signatures are permanent

Three tests say whether a trust corporation has signed: its first signatory has, one of them has, all of
them have. They agree as long as every signatory on record has signed, which is how signing leaves a trust
corporation and how corrections leave it too. From such a document on, a date of signing is never taken
away, and where the document was made online it is never changed.

## Contents
- **Signers.** `Signer`, the parties by their places, and `Document.signingDates`, the dates of each.
- **Dates.** `KeepsDate`, for one date, and `Document.KeepsSignatures`, from one document to another.
- **Updates.** `keepsSignatures_of_submit`, and `keepsSignatures_of_run` for runs.
- **Signing.** `Document.signer?`, for whom an attempt signs; `signs_of_signer?`, before and after.
- **Permanence.** `signatures_permanent`.
-/

namespace PowerOfAttorney

/-! ## Signers -/

/-- A party of a document, by its place. -/
inductive Signer
  | donor
  | certificateProvider
  | attorney (i : Nat)
  | trustCorporation (i : Nat)
deriving DecidableEq

namespace Document

/-- The dates at which a party has signed: one for a person, one for each signatory of a trust
    corporation, none for a party that is not there. -/
def signingDates (d : Document) : Signer → List (Option Instant)
  | .donor => [d.signedAt]
  | .certificateProvider => [d.certificateProvider.signedAt]
  | .attorney i => (d.attorneys[i]?.map fun a => [a.signedAt]).getD []
  | .trustCorporation i =>
    (d.trustCorporations[i]?.map fun t => t.signatories.map (·.signedAt)).getD []

/-- Whoever is on record as a signatory of a trust corporation has signed. -/
def SignatoriesSigned (d : Document) : Prop :=
  ∀ t ∈ d.trustCorporations, ∀ s ∈ t.signatories, s.isSigned

instance (d : Document) : Decidable d.SignatoriesSigned :=
  inferInstanceAs (Decidable (∀ t ∈ d.trustCorporations, ∀ s ∈ t.signatories, s.isSigned))

/-- A party is there and has signed, with all its signatories. -/
def HasSigned (d : Document) (p : Signer) : Prop :=
  d.signingDates p ≠ [] ∧ ∀ t ∈ d.signingDates p, t.isSome

end Document

/-! ## Dates -/

/-- A date that is set stays set, and if dates are fixed, stays the same. -/
def KeepsDate (fixed : Prop) (t t' : Option Instant) : Prop :=
  t.isSome → t'.isSome ∧ (fixed → t' = t)

theorem KeepsDate.refl (fixed : Prop) (t : Option Instant) : KeepsDate fixed t t :=
  fun h => ⟨h, fun _ => rfl⟩

theorem KeepsDate.trans {fixed : Prop} {t t' t'' : Option Instant} (h : KeepsDate fixed t t')
    (h' : KeepsDate fixed t' t'') : KeepsDate fixed t t'' := fun hset =>
  have hnext := h' (h hset).1
  ⟨hnext.1, fun hfixed => (hnext.2 hfixed).trans ((h hset).2 hfixed)⟩

theorem KeepsDate.of_eq {fixed : Prop} {t t' : Option Instant} (h : t' = t) : KeepsDate fixed t t' :=
  h ▸ .refl fixed t

/-- A date that is not set has nothing to keep. -/
theorem KeepsDate.of_none {fixed : Prop} {t t' : Option Instant} (h : t = none) :
    KeepsDate fixed t t' := by
  subst h
  exact nofun

/-- Where each date is kept, all stay set that were. -/
theorem all_of_keepsDate {fixed : Prop} {ss ss' : List Signatory}
    (h : List.Forall₂ (fun s s' => KeepsDate fixed s.signedAt s'.signedAt) ss ss')
    (hall : ∀ s ∈ ss, s.isSigned) : ∀ s ∈ ss', s.isSigned := by
  intro s' hs'
  obtain ⟨n, hn⟩ := List.mem_iff_getElem?.mp hs'
  obtain ⟨s, hs, hdate⟩ := exists_of_forall₂ h hn
  exact (hdate (hall s (List.mem_of_getElem? hs))).1

/-- What an attorney keeps: the name by which the attorney is known, and the date of signing. -/
structure Attorney.KeepsSignature (fixed : Prop) (a a' : Attorney) : Prop where
  uid : a'.uid = a.uid
  date : KeepsDate fixed a.signedAt a'.signedAt

/-- What a trust corporation keeps whose signatories have all signed: they still have, and are the same
    ones unless there were none. -/
structure TrustCorporation.KeepsSignatures (fixed : Prop) (t t' : TrustCorporation) : Prop where
  uid : t'.uid = t.uid
  signed : (∀ s ∈ t.signatories, s.isSigned) → ∀ s ∈ t'.signatories, s.isSigned
  dates : (∀ s ∈ t.signatories, s.isSigned) → t.signatories = [] ∨
    List.Forall₂ (fun s s' => KeepsDate fixed s.signedAt s'.signedAt) t.signatories t'.signatories

/-- What a document keeps of its signatures. Dates are fixed if it was made online. -/
structure Document.KeepsSignatures (d d' : Document) : Prop where
  channel : d'.channel = d.channel
  donor : KeepsDate (d.channel = .online) d.signedAt d'.signedAt
  certificateProvider :
    KeepsDate (d.channel = .online) d.certificateProvider.signedAt d'.certificateProvider.signedAt
  attorneys :
    List.Forall₂ (Attorney.KeepsSignature (d.channel = .online)) d.attorneys d'.attorneys
  trustCorporations :
    List.Forall₂ (TrustCorporation.KeepsSignatures (d.channel = .online)) d.trustCorporations
      d'.trustCorporations

section

variable {fixed : Prop}

theorem Attorney.KeepsSignature.refl (a : Attorney) : a.KeepsSignature fixed a :=
  ⟨rfl, .refl fixed _⟩

theorem Attorney.KeepsSignature.trans {a a' a'' : Attorney} (h : a.KeepsSignature fixed a')
    (h' : a'.KeepsSignature fixed a'') : a.KeepsSignature fixed a'' :=
  ⟨h'.uid.trans h.uid, h.date.trans h'.date⟩

/-- The same signatories are kept. -/
theorem TrustCorporation.KeepsSignatures.of_eq {t t' : TrustCorporation} (huid : t'.uid = t.uid)
    (hsignatories : t'.signatories = t.signatories) : t.KeepsSignatures fixed t' where
  uid := huid
  signed h := hsignatories ▸ h
  dates _ := Or.inr (hsignatories ▸ forall₂_of_refl (fun _ => .refl fixed _) _)

theorem TrustCorporation.KeepsSignatures.refl (t : TrustCorporation) : t.KeepsSignatures fixed t :=
  .of_eq rfl rfl

theorem TrustCorporation.KeepsSignatures.trans {t t' t'' : TrustCorporation}
    (h : t.KeepsSignatures fixed t') (h' : t'.KeepsSignatures fixed t'') :
    t.KeepsSignatures fixed t'' where
  uid := h'.uid.trans h.uid
  signed hall := h'.signed (h.signed hall)
  dates hall := by
    rcases h.dates hall with hnil | hdates
    · exact Or.inl hnil
    · rcases h'.dates (h.signed hall) with hnil | hdates'
      · rw [hnil] at hdates
        exact Or.inl (List.forall₂_nil_right_iff.mp hdates)
      · exact Or.inr (forall₂_trans (fun _ _ _ h h' => h.trans h') hdates hdates')

end

namespace Document

variable {d d' d'' : Document}

theorem KeepsSignatures.refl (d : Document) : d.KeepsSignatures d :=
  ⟨rfl, .refl _ _, .refl _ _, forall₂_of_refl .refl _, forall₂_of_refl .refl _⟩

theorem KeepsSignatures.trans (h : d.KeepsSignatures d') (h' : d'.KeepsSignatures d'') :
    d.KeepsSignatures d'' := by
  obtain ⟨hchannel, hdonor, hprovider, hattorneys, htrustCorporations⟩ := h
  obtain ⟨hchannel', hdonor', hprovider', hattorneys', htrustCorporations'⟩ := h'
  rw [hchannel] at hdonor' hprovider' hattorneys' htrustCorporations'
  exact ⟨hchannel'.trans hchannel, hdonor.trans hdonor', hprovider.trans hprovider',
    forall₂_trans (fun _ _ _ h h' => h.trans h') hattorneys hattorneys',
    forall₂_trans (fun _ _ _ h h' => h.trans h') htrustCorporations htrustCorporations'⟩

/-- If only attorneys are others, it is enough that they keep their signatures. -/
theorem KeepsSignatures.of_attorneys {as : List Attorney}
    (h : List.Forall₂ (Attorney.KeepsSignature (d.channel = .online)) d.attorneys as) :
    d.KeepsSignatures { d with attorneys := as } :=
  ⟨rfl, .refl _ _, .refl _ _, h, forall₂_of_refl .refl _⟩

/-- If only trust corporations are others, it is enough that they keep theirs. -/
theorem KeepsSignatures.of_trustCorporations {ts : List TrustCorporation}
    (h : List.Forall₂ (TrustCorporation.KeepsSignatures (d.channel = .online)) d.trustCorporations
      ts) : d.KeepsSignatures { d with trustCorporations := ts } :=
  ⟨rfl, .refl _ _, .refl _ _, forall₂_of_refl .refl _, h⟩

/-- Whether the document can be registered has nothing to do with signatures. -/
theorem KeepsSignatures.afterLeaving (h : d.KeepsSignatures d') (left : Appointment) :
    d.KeepsSignatures (d'.afterLeaving left) := by
  rw [afterLeaving_eq]
  exact ⟨h.channel, h.donor, h.certificateProvider, h.attorneys, h.trustCorporations⟩

/-- If signing dates are as they were, they are kept. -/
theorem KeepsSignatures.of_eq (hchannel : d'.channel = d.channel) (hdonor : d'.signedAt = d.signedAt)
    (hprovider : d'.certificateProvider.signedAt = d.certificateProvider.signedAt)
    (hattorneys : d'.attorneys = d.attorneys)
    (htrustCorporations : d'.trustCorporations = d.trustCorporations) : d.KeepsSignatures d' where
  channel := hchannel
  donor := .of_eq hdonor
  certificateProvider := .of_eq hprovider
  attorneys := hattorneys ▸ forall₂_of_refl .refl _
  trustCorporations := htrustCorporations ▸ forall₂_of_refl .refl _

end Document

/-! ## Updates -/

/-- If all signatories have signed and the first one has not, there is none. -/
theorem TrustCorporation.signatories_eq_nil {t : TrustCorporation}
    (hall : ∀ s ∈ t.signatories, s.isSigned)
    (hunsigned : t.signatories.head?.any Signatory.isSigned = false) : t.signatories = [] := by
  cases hs : t.signatories with
  | nil => rfl
  | cons s rest =>
      rw [hs] at hall hunsigned
      have hsigned := hall s List.mem_cons_self
      rw [show s.isSigned = false from hunsigned] at hsigned
      exact absurd hsigned Bool.false_ne_true

/-- A correction keeps signatures: the checks of its fields let no date be emptied, and the check of an
    online document lets none be moved. -/
theorem Correction.keepsSignatures {now : Instant} {d : Document} (c : Correction)
    (hdates : d.channel = .online → c.movedDate? d = none)
    (hdonor : d.signedAt.isSome → c.signedAt.isSome)
    (hprovider : d.certificateProvider.signedAt.isSome → c.certificateProvider.signedAt.isSome)
    (hattorney : ChosenFrom d.attorneys (fun a b => a.signedAt.isSome → b.signedAt.isSome) c.attorney)
    (htrustCorporation : ChosenFrom d.trustCorporations TrustCorporationCorrection.KeepsSignatories
      c.trustCorporation) : d.KeepsSignatures (c.amend now d) := by
  have hfixed (h : d.channel = .online) : c.DatesKept d := datesKept_of_movedDate? (hdates h)
  have hattorney' : ChosenFrom d.attorneys
      (fun a b => KeepsDate (d.channel = .online) a.signedAt b.signedAt) c.attorney := by
    intro i b hb
    obtain ⟨a, ha, hsigned⟩ := hattorney i b hb
    exact ⟨a, ha, fun hset => ⟨hsigned hset, fun h => (hfixed h).attorney i b a hb ha⟩⟩
  have htrustCorporation' : ChosenFrom d.trustCorporations
      (fun t b => List.Forall₂ (fun s s' => KeepsDate (d.channel = .online) s.signedAt s'.signedAt)
        t.signatories b.signatories) c.trustCorporation := by
    intro i b hb
    obtain ⟨t, ht, hsigned⟩ := htrustCorporation i b hb
    refine ⟨t, ht, List.forall₂_iff_get.mpr ⟨hsigned.length_eq, fun n hn hn' hset => ?_⟩⟩
    exact ⟨hsigned.get hn hn' hset, fun h => (hfixed h).trustCorporation i b t hb ht n _ _
      (List.getElem?_eq_getElem hn) (List.getElem?_eq_getElem hn')⟩
  refine ⟨rfl, fun hset => ⟨hdonor hset, fun h => (hfixed h).donor⟩,
    fun hset => ⟨hprovider hset, fun h => (hfixed h).certificateProvider⟩,
    forall₂_amendAt .refl hattorney' fun a b hb => ⟨rfl, hb⟩,
    forall₂_amendAt .refl htrustCorporation' fun t b hb => ⟨rfl, fun hall => ?_, fun _ => Or.inr hb⟩⟩
  exact all_of_keepsDate hb hall

namespace Command

open Document

variable {now : Instant} {d d' : Document} {changes : List Change}

/-- A command that signs gives the dates of signing. -/
def Signs : Command → Prop
  | .certificateProviderSign s => s.signedAt.isSome
  | .attorneySign _ s => s.signedAt.isSome
  | .trustCorporationSign _ s => s.signatories ≠ [] ∧ ∀ x ∈ s.signatories, x.isSigned
  | _ => True

theorem signs_of_isRead {c : Command} (h : c.IsRead d changes) : c.Signs := by
  cases c with
  | certificateProviderSign s => exact CertificateProviderSign.isSome_of_read h
  | attorneySign i s =>
      obtain ⟨hchosen, hnone⟩ := Prod.mk.inj h
      obtain ⟨i', s', hs, hsigned⟩ := AttorneySign.exists_of_read hnone
      obtain ⟨_, rfl⟩ := Prod.mk.inj (Option.some.inj (hs.symm.trans hchosen))
      exact hsigned
  | trustCorporationSign i s =>
      obtain ⟨hchosen, hnone⟩ := Prod.mk.inj h
      obtain ⟨i', s', hs, hsigned⟩ := TrustCorporationSign.exists_of_read hnone
      obtain ⟨_, rfl⟩ := Prod.mk.inj (Option.some.inj (hs.symm.trans hchosen))
      exact hsigned
  | _ => trivial

/-- **Every command that is read without faults keeps signatures.** -/
theorem Effect.keepsSignatures {c : Command} (h : c.Effect now d d') (hread : c.IsRead d changes) :
    d.KeepsSignatures d' := by
  cases h with
  | certificateProviderSign s hunsigned =>
      exact ⟨rfl, .refl _ _, .of_none hunsigned, forall₂_of_refl .refl _,
        forall₂_of_refl .refl _⟩
  | attorneySign s ha hunsigned =>
      exact .of_attorneys (forall₂_set .refl ha ⟨rfl, .of_none hunsigned⟩)
  | trustCorporationSign s ht hunsigned =>
      -- If all signatories have signed and the first one has not, there is none.
      refine .of_trustCorporations (forall₂_set .refl ht ⟨rfl, fun _ => ?_, fun hall => Or.inl ?_⟩)
      · exact (signs_of_isRead hread).2
      · exact TrustCorporation.signatories_eq_nil hall hunsigned
  | attorneyOptOut hi ha hunsigned =>
      refine KeepsSignatures.afterLeaving (.of_attorneys (forall₂_set .refl ha ?_)) _
      exact ⟨rfl, .refl _ _⟩
  | trustCorporationOptOut hi ht hunsigned =>
      refine KeepsSignatures.afterLeaving (.of_trustCorporations (forall₂_set .refl ht ?_)) _
      exact .of_eq rfl rfl
  | correct c hstatus hdates =>
      obtain ⟨hdonor, hprovider, hattorney, _⟩ := Correction.keepsSignatures_of_read hread
      have htrustCorporation := Correction.keepsSignatories_of_read hread
      exact c.keepsSignatures hdates hdonor hprovider hattorney htrustCorporation
  | correctRegistered c hbirth =>
      obtain ⟨hprovider, hattorney⟩ := RegisteredCorrection.keepsSignatures_of_read hread
      exact ⟨rfl, .refl _ _, .of_eq hprovider,
        forall₂_amendAt .refl hattorney fun a b hb => ⟨rfl, .of_eq hb⟩,
        forall₂_of_refl .refl _⟩
  | decideJointly c hallowed =>
      have hrefl : ∀ a : Attorney, a.KeepsSignature (d.channel = .online) a := .refl
      have hmoved := forall₂_moved hrefl
        (fun v a => { a with cannotMakeJointDecisions := v }) (fun _ _ _ => rfl)
        c.exceptions d.attorneys fun _ _ _ _ _ => ⟨rfl, .refl _ _⟩
      exact .of_attorneys hmoved
  | changeAttorneys c hallowed =>
      have hrefl : ∀ a : Attorney, a.KeepsSignature (d.channel = .online) a := .refl
      have hmoved := forall₂_moved hrefl
        (fun next a => { a with status := next }) (fun _ _ _ => rfl) c.moves d.attorneys
        fun _ _ _ _ _ => ⟨rfl, .refl _ _⟩
      exact .of_attorneys hmoved
  | attorneyAccess email ha hpaper =>
      exact .of_attorneys (forall₂_set .refl ha ⟨rfl, .refl _ _⟩)
  | confirmIdentity hkind hcheckedAt =>
      unfold CheckedParty.record
      split <;> exact .of_eq rfl rfl rfl rfl rfl
  | _ => exact .of_eq rfl rfl rfl rfl rfl

end Command

namespace Document

variable {d d' : Document} {a : Attempt} {p : Signer}

/-- **Every attempt that is accepted keeps signatures.** -/
theorem keepsSignatures_of_submit (h : d.submit a = .ok d') : d.KeepsSignatures d' := by
  obtain ⟨c, _, hread, heffect⟩ := effect_of_submit h
  exact heffect.keepsSignatures (Command.isRead_of_ofChanges hread)

/-- So does every run. -/
theorem keepsSignatures_of_run (d : Document) (as : List Attempt) : d.KeepsSignatures (d.run as) := by
  refine run_induction (P := d.KeepsSignatures) (fun e a he => ?_) (.refl d) as
  rcases e.submit_after_or a with hok | ⟨_, hsame⟩
  · exact he.trans (keepsSignatures_of_submit hok)
  · rwa [hsame]

/-- Signatories who have all signed still have. -/
theorem KeepsSignatures.signatoriesSigned (h : d.KeepsSignatures d') (hd : d.SignatoriesSigned) :
    d'.SignatoriesSigned := by
  intro t' ht'
  obtain ⟨i, hi⟩ := List.mem_iff_getElem?.mp ht'
  obtain ⟨t, ht, hkeeps⟩ := exists_of_forall₂ h.trustCorporations hi
  exact hkeeps.signed (hd t (List.mem_of_getElem? ht))

/-- **The dates of a party are kept one by one**, if there are any. -/
theorem KeepsSignatures.signingDates (h : d.KeepsSignatures d') (hd : d.SignatoriesSigned)
    (p : Signer) : d.signingDates p = [] ∨
      List.Forall₂ (KeepsDate (d.channel = .online)) (d.signingDates p) (d'.signingDates p) := by
  cases p with
  | donor => exact Or.inr (.cons h.donor .nil)
  | certificateProvider => exact Or.inr (.cons h.certificateProvider .nil)
  | attorney i =>
      cases ha : d.attorneys[i]? with
      | none => exact Or.inl (by rw [Document.signingDates, ha]; rfl)
      | some a =>
          obtain ⟨a', ha', hkeeps⟩ := exists_of_forall₂_left h.attorneys ha
          refine Or.inr ?_
          rw [Document.signingDates, Document.signingDates, ha, ha']
          exact .cons hkeeps.date .nil
  | trustCorporation i =>
      cases ht : d.trustCorporations[i]? with
      | none => exact Or.inl (by rw [Document.signingDates, ht]; rfl)
      | some t =>
          obtain ⟨t', ht', hkeeps⟩ := exists_of_forall₂_left h.trustCorporations ht
          rw [Document.signingDates, Document.signingDates, ht, ht']
          refine (hkeeps.dates (hd t (List.mem_of_getElem? ht))).imp (fun hnil => ?_) fun hdates => ?_
          · rw [Option.map_some, hnil]
            rfl
          · exact List.forall₂_map_left_iff.mpr (List.forall₂_map_right_iff.mpr hdates)

/-- Who has signed has signed. -/
theorem KeepsSignatures.hasSigned (h : d.KeepsSignatures d') (hd : d.SignatoriesSigned)
    (hp : d.HasSigned p) : d'.HasSigned p := by
  have hdates := (h.signingDates hd p).resolve_left hp.1
  refine ⟨fun hnil => ?_, fun t' ht' => ?_⟩
  · rw [hnil] at hdates
    exact hp.1 (List.forall₂_nil_right_iff.mp hdates)
  · obtain ⟨n, hn⟩ := List.mem_iff_getElem?.mp ht'
    obtain ⟨t, ht, hkeeps⟩ := exists_of_forall₂ hdates hn
    exact (hkeeps (hp.2 t (List.mem_of_getElem? ht))).1

end Document

/-! ## Signing -/

/-- The party for whom a command signs. -/
def Command.signer? : Command → Option Signer
  | .certificateProviderSign _ => some .certificateProvider
  | .attorneySign i _ => some (.attorney i)
  | .trustCorporationSign i _ => some (.trustCorporation i)
  | _ => none

theorem Command.isSome_signer? (c : Command) : c.signer?.isSome = c.operation.isSigning := by
  cases c with
  | optOut party => cases party <;> rfl
  | confirmIdentity c =>
      show false = c.party.operation.isSigning
      cases c.party <;> rfl
  | _ => rfl

namespace Document

variable {d d' : Document} {a : Attempt} {p : Signer}

/-- The party for whom an attempt signs, if it is accepted. -/
def signer? (d : Document) (a : Attempt) : Option Signer :=
  match a.update.validate d with
  | .ok c => if (c.apply a.now d).isOk then c.signer? else none
  | .error _ => none

/-- The parties for whom the attempts of a run sign, in order. -/
def signers (d : Document) : List Attempt → List Signer
  | [] => []
  | a :: as => (d.signer? a).toList ++ (d.after a).signers as

/-- An attempt signs for the party for whom its command signs, if the command takes effect. -/
theorem signer?_eq_some_iff : d.signer? a = some p ↔
    ∃ c d', a.update.validate d = .ok c ∧ Command.Effect a.now d c d' ∧ c.signer? = some p := by
  unfold signer?
  constructor
  · intro h
    split at h
    · rename_i c hvalid
      cases happly : c.apply a.now d with
      | error why =>
          rw [happly] at h
          exact absurd h nofun
      | ok d' =>
          rw [happly] at h
          exact ⟨c, d', hvalid, Command.effect_of_apply happly, h⟩
    · exact absurd h nofun
  · rintro ⟨c, d', hvalid, heffect, hsigner⟩
    rw [hvalid]
    dsimp only
    rw [heffect.apply_eq]
    exact hsigner

/-- **A party signs who has not signed before, and has signed then.** -/
theorem signs_of_signer? (hd : d.SignatoriesSigned) (h : d.signer? a = some p) :
    (∀ t ∈ d.signingDates p, t = none) ∧ (d.after a).HasSigned p := by
  obtain ⟨c, d', hvalid, heffect, hsigner⟩ := signer?_eq_some_iff.mp h
  rw [after_of_ok (submit_eq_ok_iff.mpr ⟨c, hvalid, heffect⟩)]
  have hsigns := Command.signs_of_isRead (Update.isRead_of_validate hvalid).2
  cases heffect with
  | certificateProviderSign s hunsigned =>
      obtain rfl := Option.some.inj hsigner
      exact ⟨fun t ht => (List.mem_singleton.mp ht).trans hunsigned, nofun,
        fun t ht => List.mem_singleton.mp ht ▸ hsigns⟩
  | attorneySign s ha hunsigned =>
      obtain rfl := Option.some.inj hsigner
      obtain ⟨hi, _⟩ := List.getElem?_eq_some_iff.mp ha
      unfold HasSigned Document.signingDates
      dsimp only
      rw [ha, List.getElem?_set_self hi]
      exact ⟨fun t ht => (List.mem_singleton.mp ht).trans hunsigned, nofun,
        fun t ht => List.mem_singleton.mp ht ▸ hsigns⟩
  | trustCorporationSign s ht hunsigned =>
      obtain rfl := Option.some.inj hsigner
      obtain ⟨hi, _⟩ := List.getElem?_eq_some_iff.mp ht
      have hnil := TrustCorporation.signatories_eq_nil (hd _ (List.mem_of_getElem? ht)) hunsigned
      unfold HasSigned Document.signingDates
      dsimp only
      rw [ht, List.getElem?_set_self hi, Option.map_some, Option.map_some, Option.getD_some,
        Option.getD_some, hnil]
      refine ⟨nofun, fun h => hsigns.1 (List.map_eq_nil_iff.mp h), fun t ht => ?_⟩
      obtain ⟨x, hx, rfl⟩ := List.mem_map.mp ht
      exact hsigns.2 x hx
  | _ => exact absurd hsigner nofun

/-- Who has signed does not sign again. -/
theorem not_mem_signers (hd : d.SignatoriesSigned) (hp : d.HasSigned p) (as : List Attempt) :
    p ∉ d.signers as := by
  induction as generalizing d with
  | nil => exact List.not_mem_nil
  | cons a as ih =>
      have hkeeps := d.keepsSignatures_of_run [a]
      intro hmem
      rcases List.mem_append.mp hmem with hnow | hlater
      · have hunsigned := (signs_of_signer? hd (Option.mem_toList.mp hnow)).1
        obtain ⟨t, ht⟩ := List.exists_mem_of_ne_nil _ hp.1
        have hset := hp.2 t ht
        rw [hunsigned t ht] at hset
        exact Bool.false_ne_true hset
      · exact ih (hkeeps.signatoriesSigned hd) (hkeeps.hasSigned hd hp) hlater

/-- No party signs twice in the course of a run. -/
theorem nodup_signers (hd : d.SignatoriesSigned) (as : List Attempt) : (d.signers as).Nodup := by
  induction as generalizing d with
  | nil => exact List.nodup_nil
  | cons a as ih =>
      have hd' := (d.keepsSignatures_of_run [a]).signatoriesSigned hd
      rw [signers]
      cases hsigner : d.signer? a with
      | none => exact ih hd'
      | some p =>
          exact List.nodup_cons.mpr ⟨not_mem_signers hd' (signs_of_signer? hd hsigner).2 as, ih hd'⟩

/-! ## Permanence -/

/-- **Signatures are permanent.** From a document on whose signatories have all signed, in every run:
    signatories have all signed; every date of signing that is set stays set, and stays the same if the
    document was made online; a trust corporation that has signed keeps its signatories, no more and no
    fewer; a party signs only if it has not signed, and no party does so twice. All parties keep their
    places. -/
theorem signatures_permanent (hd : d.SignatoriesSigned) (as bs : List Attempt) :
    let e := d.run as
    let e' := d.run (as ++ bs)
    e.SignatoriesSigned ∧
      (∀ (p : Signer) (n : Nat) (t : Instant), (e.signingDates p)[n]? = some (some t) →
        ∃ t', (e'.signingDates p)[n]? = some (some t') ∧ (d.channel = .online → t' = t)) ∧
      (∀ i, e.HasSigned (.trustCorporation i) →
        (e'.signingDates (.trustCorporation i)).length =
          (e.signingDates (.trustCorporation i)).length) ∧
      (∀ a p, e.signer? a = some p → ∀ t ∈ e.signingDates p, t = none) ∧
      (d.signers as).Nodup ∧
      e'.attorneys.map (·.uid) = e.attorneys.map (·.uid) ∧
      e'.trustCorporations.map (·.uid) = e.trustCorporations.map (·.uid) := by
  intro e e'
  have hkeeps := d.keepsSignatures_of_run as
  have he : e.SignatoriesSigned := hkeeps.signatoriesSigned hd
  have hnext : e.KeepsSignatures e' := by
    have hrest := e.keepsSignatures_of_run bs
    rwa [← run_append] at hrest
  refine ⟨he, fun p n t ht => ?_, fun i hi => ?_, fun a p h => (signs_of_signer? he h).1,
    nodup_signers hd as, ?_, ?_⟩
  · -- Who has a date is there, so the dates of this party are kept one by one.
    have hdates := (hnext.signingDates he p).resolve_left
      (List.ne_nil_of_mem (List.mem_of_getElem? ht))
    obtain ⟨t', ht', hkept⟩ := exists_of_forall₂_left hdates ht
    obtain ⟨hset, hfixed⟩ := hkept rfl
    obtain ⟨v, rfl⟩ := Option.isSome_iff_exists.mp hset
    refine ⟨v, ht', fun honline => ?_⟩
    exact Option.some.inj (hfixed (hkeeps.channel.trans honline))
  · exact ((hnext.signingDates he (.trustCorporation i)).resolve_left hi.1).length_eq.symm
  · exact map_eq_of_forall₂ (hnext.attorneys.imp fun _ _ h => h.uid)
  · exact map_eq_of_forall₂ (hnext.trustCorporations.imp fun _ _ h => h.uid)

/-- An online document with a trust corporation whose signatory has signed. -/
def ofSignedCorporation : Document :=
  { ofTwoAttorneys with
    channel := .online
    trustCorporations := [
      ⟨"t", "Trust", "1", "", "", {}, .active, .original, .online,
        [⟨"Al", "Ash", "Director", some (.ofNanoseconds 0)⟩], none⟩] }

/-- The first attorney signs, and tries to sign again. -/
def signTwice : List Attempt :=
  [.of "ATTORNEY_SIGN" "" [⟨"/attorneys/0/signedAt", .null, .str "2024-01-02T10:00:00Z"⟩,
      ⟨"/attorneys/0/contactLanguagePreference", .null, .str "en"⟩],
    .of "ATTORNEY_SIGN" "" [⟨"/attorneys/0/signedAt", .null, .str "2024-01-03T10:00:00Z"⟩,
      ⟨"/attorneys/0/contactLanguagePreference", .null, .str "en"⟩]]

/-- One signature comes of it. -/
theorem signatures_permanent_signTwice :
    let d := ofSignedCorporation
    let e := d.run signTwice
    d.SignatoriesSigned ∧ d.signers signTwice = [.attorney 0] ∧ e.SignatoriesSigned ∧
      (∀ (p : Signer) (n : Nat) (t : Instant), (e.signingDates p)[n]? = some (some t) →
        ∃ t', (e.signingDates p)[n]? = some (some t') ∧ (d.channel = .online → t' = t)) ∧
      (d.signers signTwice).Nodup := by
  intro d e
  have hd : d.SignatoriesSigned := by decide +kernel
  obtain ⟨he, hdates, _, _, honce, _⟩ := signatures_permanent hd signTwice []
  exact ⟨hd, by decide +kernel, he, hdates, honce⟩

end Document

end PowerOfAttorney
