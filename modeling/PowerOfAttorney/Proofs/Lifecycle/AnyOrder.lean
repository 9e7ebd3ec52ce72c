import PowerOfAttorney.Proofs.Lifecycle.Signatures
import PowerOfAttorney.Proofs.Operation.Order

/-!
# `PowerOfAttorney.Proofs.Lifecycle.AnyOrder` — parties sign in any order

What a party gives on signing is read from a draft that is empty, so the only thing a signature needs of
the document is that the party is there and has not signed. Nobody else's signature has a say in that, and
signatures are kept in places of their own. So whoever is to sign may do so in any order. Progress can then
be left for either status as soon as all have signed who have not been removed, and not before.

## Contents
- **Signatures.** `Command.sign`, what a signature makes of a document, and `sign_comm`.
- **Reading.** `Script.exists_entry_of_read`: whoever signs is there. `Update.validate_congr`: an update
  that signs is read alike from documents with as many parties. `Command.effect_sign`: what is read takes
  effect if the party has not signed.
- **Orders.** `Document.CanAllSign`: updates sign for different parties. `CanAllSign.tail` and
  `CanAllSign.induction` for the first of them, and `CanAllSign.accepted_eq`, `run_of_perm` and
  `hasSigned_run_iff` for all.
- **Leaving progress.** `Document.EveryoneSigned` and `Document.FirstUnsigned`, what is asked and in which
  order; `submit_of_leaveProgress`.
- **Any order.** `signs_in_any_order`, both together.
-/

namespace PowerOfAttorney

/-! ## Signatures -/

/-- The certificate provider, once a signature is given. -/
def CertificateProviderSign.signed (s : CertificateProviderSign) (p : CertificateProvider) :
    CertificateProvider :=
  { p with
    address := if s.address.isUnknown then p.address else s.address
    signedAt := s.signedAt
    contactLanguage := s.contactLanguage }

/-- An attorney, once a signature is given. -/
def AttorneySign.signed (s : AttorneySign) (a : Attorney) : Attorney :=
  { a with
    mobile := if s.mobile.isEmpty then a.mobile else s.mobile
    signedAt := s.signedAt
    contactLanguage := s.contactLanguage }

/-- A trust corporation, once signatures are given. -/
def TrustCorporationSign.signed (s : TrustCorporationSign) (t : TrustCorporation) : TrustCorporation :=
  { t with
    mobile := if s.mobile.isEmpty then t.mobile else s.mobile
    signatories := s.signatories
    contactLanguage := s.contactLanguage }

namespace Command

/-- What a signature makes of a document. A command by which nobody signs leaves it as it is. -/
def sign : Command → Document → Document
  | .certificateProviderSign s, d => { d with certificateProvider := s.signed d.certificateProvider }
  | .attorneySign i s, d => { d with attorneys := d.attorneys.modify i s.signed }
  | .trustCorporationSign i s, d =>
    { d with trustCorporations := d.trustCorporations.modify i s.signed }
  | _, d => d

variable {c c' : Command} {d : Document} {p q : Signer}

/-- No attorney comes and none goes. -/
@[simp]
theorem length_attorneys_sign (c : Command) (d : Document) :
    (c.sign d).attorneys.length = d.attorneys.length := by
  cases c with
  | attorneySign i s => exact List.length_modify s.signed d.attorneys i
  | _ => rfl

/-- Nor does a trust corporation. -/
@[simp]
theorem length_trustCorporations_sign (c : Command) (d : Document) :
    (c.sign d).trustCorporations.length = d.trustCorporations.length := by
  cases c with
  | trustCorporationSign i s => exact List.length_modify s.signed d.trustCorporations i
  | _ => rfl

@[simp]
theorem status_sign (c : Command) (d : Document) : (c.sign d).status = d.status := by
  cases c <;> rfl

/-- The donor has signed before. -/
@[simp]
theorem signedAt_sign (c : Command) (d : Document) : (c.sign d).signedAt = d.signedAt := by
  cases c <;> rfl

/-- **Signatures for different parties may be given in either order.** -/
theorem sign_comm (hc : c.signer? = some p) (hc' : c'.signer? = some q) (hne : p ≠ q) :
    c'.sign (c.sign d) = c.sign (c'.sign d) := by
  -- Parties of different kinds are kept apart; those of one kind have different places.
  cases c with
  | certificateProviderSign s =>
      cases c' with
      | certificateProviderSign s' =>
          exact absurd (Option.some.inj (hc.symm.trans hc')) hne
      | _ => rfl
  | attorneySign i s =>
      cases c' with
      | attorneySign j s' =>
          obtain rfl := Option.some.inj hc
          obtain rfl := Option.some.inj hc'
          have hij : i ≠ j := fun heq => hne (congrArg Signer.attorney heq)
          exact congrArg (fun as => { d with attorneys := as })
            (List.modify_modify_ne s.signed s'.signed d.attorneys hij)
      | _ => rfl
  | trustCorporationSign i s =>
      cases c' with
      | trustCorporationSign j s' =>
          obtain rfl := Option.some.inj hc
          obtain rfl := Option.some.inj hc'
          have hij : i ≠ j := fun heq => hne (congrArg Signer.trustCorporation heq)
          exact congrArg (fun ts => { d with trustCorporations := ts })
            (List.modify_modify_ne s.signed s'.signed d.trustCorporations hij)
      | _ => rfl
  | _ => rfl

/-- A signature changes the dates of no other party. -/
theorem signingDates_sign_of_ne (hc : c.signer? = some p) (hne : p ≠ q) :
    (c.sign d).signingDates q = d.signingDates q := by
  cases c with
  | certificateProviderSign s =>
      cases q with
      | certificateProvider => exact absurd (Option.some.inj hc).symm hne
      | _ => rfl
  | attorneySign i s =>
      cases q with
      | attorney j =>
          obtain rfl := Option.some.inj hc
          have hij : i ≠ j := fun heq => hne (congrArg Signer.attorney heq)
          show ((d.attorneys.modify i s.signed)[j]?.map _).getD [] = _
          rw [List.getElem?_modify_ne s.signed d.attorneys hij]
          rfl
      | _ => rfl
  | trustCorporationSign i s =>
      cases q with
      | trustCorporation j =>
          obtain rfl := Option.some.inj hc
          have hij : i ≠ j := fun heq => hne (congrArg Signer.trustCorporation heq)
          show ((d.trustCorporations.modify i s.signed)[j]?.map _).getD [] = _
          rw [List.getElem?_modify_ne s.signed d.trustCorporations hij]
          rfl
      | _ => rfl
  | _ => rfl

end Command

/-! ## Reading -/

/-- Whoever is chosen by a script that has to read one entry of a list is an entry of the list. -/
theorem Script.exists_entry_of_read {α τ : Type} {xs : List α} {seed : τ} {inner : Script τ}
    {key : String} {changes : List Change} {s : Script (Option (Nat × τ))} {i : Nat} {b : τ}
    (hs : s = .under key true (.each [] (oneEntry xs.length seed inner) <| .consumed .done)
      (.consumed .done)) (h : s.read none changes = (some (i, b), [])) : ∃ a, xs[i]? = some a := by
  have hentry (j : Nat) : (oneEntry xs.length seed inner j).Keeps (ChosenFrom xs fun _ _ => True) := by
    unfold oneEntry
    split
    · rename_i hj
      exact keeps_choose (List.getElem?_eq_getElem hj) trivial inner.keeps_trivial
    · exact keeps_done
  have hkeeps : s.Keeps (ChosenFrom xs fun _ _ => True) := by
    rw [hs]
    exact keeps_under (keeps_each hentry keeps_done) keeps_done
  obtain ⟨hchosen, hnone⟩ := Prod.mk.inj h
  obtain ⟨a, ha, _⟩ := (hkeeps none (chosenFrom_none _ _)).read hnone i b hchosen
  exact ⟨a, ha⟩

/-- An attorney who signs is there. -/
theorem AttorneySign.exists_attorney_of_read {d : Document} {changes : List Change} {i : Nat}
    {s : AttorneySign} (h : (script d).read none changes = (some (i, s), [])) :
    ∃ a, d.attorneys[i]? = some a :=
  Script.exists_entry_of_read rfl h

/-- So is a trust corporation. -/
theorem TrustCorporationSign.exists_trustCorporation_of_read {d : Document} {changes : List Change}
    {i : Nat} {s : TrustCorporationSign} (h : (script d).read none changes = (some (i, s), [])) :
    ∃ t, d.trustCorporations[i]? = some t :=
  Script.exists_entry_of_read rfl h

section

variable {d d' : Document} (hattorneys : d'.attorneys.length = d.attorneys.length)
  (htrustCorporations : d'.trustCorporations.length = d.trustCorporations.length)
include hattorneys htrustCorporations

/-- **An update by which one signs is read alike from documents with as many parties.** -/
theorem Update.validate_congr {u : Update} {op : Operation} (hop : Word.ofText? u.type = some op)
    (hsigning : op.isSigning) : u.validate d' = u.validate d := by
  have hread : Command.ofChanges d' u.author u.changes op =
      Command.ofChanges d u.author u.changes op := by
    cases op with
    | certificateProviderSign => rfl
    | attorneySign =>
        have hscript : AttorneySign.script d' = AttorneySign.script d := by
          unfold AttorneySign.script
          rw [hattorneys]
        unfold Command.ofChanges
        dsimp only
        rw [hscript]
    | trustCorporationSign =>
        have hscript : TrustCorporationSign.script d' = TrustCorporationSign.script d := by
          unfold TrustCorporationSign.script
          rw [htrustCorporations]
        unfold Command.ofChanges
        dsimp only
        rw [hscript]
    | _ => exact absurd hsigning Bool.false_ne_true
  unfold validate
  rw [hop]
  dsimp only
  rw [hread]

end

/-- The party for whom an update signs, if it is valid. -/
def Update.signer? (u : Update) (d : Document) : Option Signer :=
  (u.validate d).toOption.bind Command.signer?

namespace Update

variable {u : Update} {d d' : Document} {p : Signer}

theorem signer?_eq_some_iff :
    u.signer? d = some p ↔ ∃ c, u.validate d = .ok c ∧ c.signer? = some p := by
  unfold signer?
  cases u.validate d with
  | error faults =>
      constructor
      · intro h
        exact absurd h nofun
      · rintro ⟨c, hvalid, _⟩
        exact absurd hvalid nofun
  | ok c =>
      constructor
      · intro h
        exact ⟨c, rfl, h⟩
      · rintro ⟨c', hvalid, hsigner⟩
        rw [Except.ok.inj hvalid]
        exact hsigner

/-- It is the same command that signs. -/
theorem validate_of_signer? {c : Command} (hattorneys : d'.attorneys.length = d.attorneys.length)
    (htrustCorporations : d'.trustCorporations.length = d.trustCorporations.length)
    (hvalid : u.validate d = .ok c) (hsigner : c.signer? = some p) : u.validate d' = .ok c := by
  have hsigning : c.operation.isSigning := by
    rw [← c.isSome_signer?, hsigner, Option.isSome_some]
  rw [validate_congr hattorneys htrustCorporations (isRead_of_validate hvalid).1 hsigning, hvalid]

/-- **For whom an update signs depends on nothing but the number of parties.** -/
theorem signer?_congr (hattorneys : d'.attorneys.length = d.attorneys.length)
    (htrustCorporations : d'.trustCorporations.length = d.trustCorporations.length) :
    u.signer? d' = u.signer? d := by
  ext p
  rw [signer?_eq_some_iff, signer?_eq_some_iff]
  constructor
  · rintro ⟨c, hvalid, hsigner⟩
    exact ⟨c, validate_of_signer? hattorneys.symm htrustCorporations.symm hvalid hsigner, hsigner⟩
  · rintro ⟨c, hvalid, hsigner⟩
    exact ⟨c, validate_of_signer? hattorneys htrustCorporations hvalid hsigner, hsigner⟩

end Update

/-- A party has not signed, with none of its signatories. -/
def Document.HasNotSigned (d : Document) (p : Signer) : Prop :=
  ∀ t ∈ d.signingDates p, t = none

instance (d : Document) (p : Signer) : Decidable (d.HasNotSigned p) :=
  inferInstanceAs (Decidable (∀ t ∈ d.signingDates p, t = none))

namespace Command

variable {c : Command} {d : Document} {p : Signer} {changes : List Change}

/-- **A signature that is read is given, if the party has not signed.** -/
theorem effect_sign (now : Instant) (hread : c.IsRead d changes) (hc : c.signer? = some p)
    (hp : d.HasNotSigned p) : c.Effect now d (c.sign d) := by
  cases c with
  | certificateProviderSign s =>
      obtain rfl := Option.some.inj hc
      exact .certificateProviderSign s (hp _ List.mem_cons_self)
  | attorneySign i s =>
      obtain rfl := Option.some.inj hc
      obtain ⟨a, ha⟩ := AttorneySign.exists_attorney_of_read hread
      have hunsigned : a.signedAt = none := by
        refine hp _ ?_
        rw [Document.signingDates, ha]
        exact List.mem_cons_self
      have hmodify : d.attorneys.modify i s.signed = d.attorneys.set i (s.signed a) := by
        rw [List.modify_eq_set_getElem?, ha]
        rfl
      rw [sign, hmodify]
      exact .attorneySign s ha hunsigned
  | trustCorporationSign i s =>
      obtain rfl := Option.some.inj hc
      obtain ⟨t, ht⟩ := TrustCorporationSign.exists_trustCorporation_of_read hread
      have hunsigned : t.signatories.head?.any Signatory.isSigned = false := by
        cases hs : t.signatories with
        | nil => rfl
        | cons x rest =>
            have hnone : x.signedAt = none := by
              refine hp _ ?_
              rw [Document.signingDates, ht, Option.map_some, hs]
              exact List.mem_cons_self
            rw [List.head?_cons, Option.any_some, Signatory.isSigned, hnone]
            rfl
      have hmodify : d.trustCorporations.modify i s.signed =
          d.trustCorporations.set i (s.signed t) := by
        rw [List.modify_eq_set_getElem?, ht]
        rfl
      rw [sign, hmodify]
      exact .trustCorporationSign s ht hunsigned
  | _ => exact absurd hc.symm (Option.some_ne_none p)

/-- Then the party has signed. -/
theorem hasSigned_sign (hread : c.IsRead d changes) (hc : c.signer? = some p) :
    (c.sign d).HasSigned p := by
  have hsigns := signs_of_isRead hread
  unfold Document.HasSigned
  cases c with
  | certificateProviderSign s =>
      obtain rfl := Option.some.inj hc
      exact ⟨List.cons_ne_nil _ _, fun t ht => List.mem_singleton.mp ht ▸ hsigns⟩
  | attorneySign i s =>
      obtain rfl := Option.some.inj hc
      obtain ⟨a, ha⟩ := AttorneySign.exists_attorney_of_read hread
      have hdates : ((attorneySign i s).sign d).signingDates (.attorney i) = [s.signedAt] := by
        unfold sign Document.signingDates
        dsimp only
        rw [List.getElem?_modify_eq, ha]
        rfl
      rw [hdates]
      exact ⟨List.cons_ne_nil _ _, fun t ht => List.mem_singleton.mp ht ▸ hsigns⟩
  | trustCorporationSign i s =>
      obtain rfl := Option.some.inj hc
      obtain ⟨t, ht⟩ := TrustCorporationSign.exists_trustCorporation_of_read hread
      have hdates : ((trustCorporationSign i s).sign d).signingDates (.trustCorporation i) =
          s.signatories.map (·.signedAt) := by
        unfold sign Document.signingDates
        dsimp only
        rw [List.getElem?_modify_eq, ht]
        rfl
      rw [hdates]
      refine ⟨fun h => hsigns.1 (List.map_eq_nil_iff.mp h), fun t ht => ?_⟩
      obtain ⟨x, hx, rfl⟩ := List.mem_map.mp ht
      exact hsigns.2 x hx
  | _ => exact absurd hc.symm (Option.some_ne_none p)

end Command

/-! ## Orders -/

namespace Document

/-- A valid attempt to sign, by a command, for a party that has not signed. -/
structure CanSign (d : Document) (a : Attempt) (c : Command) (p : Signer) : Prop where
  valid : a.update.validate d = .ok c
  signer : c.signer? = some p
  unsigned : d.HasNotSigned p

/-- Attempts to sign, each valid and for a party that has not signed, no two for the same one. -/
structure CanAllSign (d : Document) (as : List Attempt) : Prop where
  each : ∀ a ∈ as, ∃ p ∈ a.update.signer? d, d.HasNotSigned p
  apart : (as.map fun a => a.update.signer? d).Nodup

variable {d : Document} {a b : Attempt} {as bs : List Attempt} {c c' : Command} {p q : Signer}

/-- For whom updates sign does not depend on who has signed. -/
theorem signer?_sign (c : Command) (d : Document) (u : Update) : u.signer? (c.sign d) = u.signer? d :=
  Update.signer?_congr (c.length_attorneys_sign d) (c.length_trustCorporations_sign d)

theorem CanSign.signer?_eq (h : d.CanSign a c p) : a.update.signer? d = some p :=
  Update.signer?_eq_some_iff.mpr ⟨c, h.valid, h.signer⟩

/-- **An attempt to sign for a party that has not signed is accepted.** -/
theorem CanSign.submit (h : d.CanSign a c p) : d.submit a = .ok (c.sign d) := by
  have hread := (Update.isRead_of_validate h.valid).2
  exact submit_eq_ok_iff.mpr ⟨c, h.valid, Command.effect_sign a.now hread h.signer h.unsigned⟩

theorem CanSign.after_eq (h : d.CanSign a c p) : d.after a = c.sign d :=
  after_of_ok h.submit

/-- **Whoever signs first, another party can still sign**, and gives the same signature. -/
theorem CanSign.keeps (ha : d.CanSign a c p) (hb : d.CanSign b c' q) (hne : p ≠ q) :
    (c.sign d).CanSign b c' q where
  valid := Update.validate_of_signer? (c.length_attorneys_sign d)
    (c.length_trustCorporations_sign d) hb.valid hb.signer
  signer := hb.signer
  unsigned := by
    unfold HasNotSigned
    rw [Command.signingDates_sign_of_ne ha.signer hne]
    exact hb.unsigned

/-- **Two parties may sign in either order.** -/
theorem CanSign.after_comm (ha : d.CanSign a c p) (hb : d.CanSign b c' q) (hne : p ≠ q) :
    (d.after a).after b = (d.after b).after a := by
  rw [ha.after_eq, hb.after_eq, (ha.keeps hb hne).after_eq, (hb.keeps ha hne.symm).after_eq]
  exact Command.sign_comm ha.signer hb.signer hne

/-- Who has signed after a signature had signed before, or is the one who signs. -/
theorem CanSign.hasSigned_iff (h : d.CanSign a c p) :
    (c.sign d).HasSigned q ↔ d.HasSigned q ∨ p = q := by
  by_cases hq : p = q
  · subst hq
    have hread := (Update.isRead_of_validate h.valid).2
    exact iff_of_true (Command.hasSigned_sign hread h.signer) (Or.inr rfl)
  · unfold HasSigned
    rw [Command.signingDates_sign_of_ne h.signer hq, or_iff_left hq]

namespace CanAllSign

theorem of_perm (h : d.CanAllSign as) (hperm : as.Perm bs) : d.CanAllSign bs where
  each b hb := h.each b (hperm.mem_iff.mpr hb)
  apart := (hperm.map _).nodup_iff.mp h.apart

theorem exists_canSign (h : d.CanAllSign as) (ha : a ∈ as) : ∃ c p, d.CanSign a c p := by
  obtain ⟨p, hp, hunsigned⟩ := h.each a ha
  obtain ⟨c, hvalid, hsigner⟩ := Update.signer?_eq_some_iff.mp hp
  exact ⟨c, p, hvalid, hsigner, hunsigned⟩

/-- The first of them signs for another party than any of the rest. -/
theorem ne_of_mem (h : d.CanAllSign (a :: as)) (hb : b ∈ as) (hp : a.update.signer? d = some p)
    (hq : b.update.signer? d = some q) : p ≠ q := by
  rintro rfl
  exact (List.nodup_cons.mp h.apart).1 (List.mem_map.mpr ⟨b, hb, hq.trans hp.symm⟩)

/-- When the first has signed, the rest can sign. -/
theorem tail (h : d.CanAllSign (a :: as)) (ha : d.CanSign a c p) : (c.sign d).CanAllSign as where
  each b hb := by
    obtain ⟨c', q, hsign⟩ := h.exists_canSign (List.mem_cons_of_mem a hb)
    have hkeeps := ha.keeps hsign (h.ne_of_mem hb ha.signer?_eq hsign.signer?_eq)
    exact ⟨q, hkeeps.signer?_eq, hkeeps.unsigned⟩
  apart := by
    simp only [signer?_sign]
    exact (List.nodup_cons.mp h.apart).2

/-- **What every signature keeps, a run of them keeps.** -/
theorem induction {P : Document → Prop} (hstep : ∀ d (c : Command), P d → P (c.sign d))
    (h : d.CanAllSign as) (hd : P d) : P (d.run as) := by
  induction as generalizing d with
  | nil => exact hd
  | cons a as ih =>
      obtain ⟨c, p, ha⟩ := h.exists_canSign List.mem_cons_self
      show P ((d.after a).run as)
      rw [ha.after_eq]
      exact ih (h.tail ha) (hstep d c hd)

/-- **All of them are accepted.** -/
theorem accepted_eq (h : d.CanAllSign as) : d.accepted as = as := by
  induction as generalizing d with
  | nil => rfl
  | cons a as ih =>
      obtain ⟨c, p, ha⟩ := h.exists_canSign List.mem_cons_self
      rw [accepted_cons_of_ok ha.submit, ih (h.tail ha)]

/-- **Every order of them gives the same document.** -/
theorem run_of_perm (hperm : as.Perm bs) (h : d.CanAllSign as) : d.run as = d.run bs := by
  induction hperm generalizing d with
  | nil => rfl
  | cons a _ ih =>
      obtain ⟨c, p, ha⟩ := h.exists_canSign List.mem_cons_self
      have hrest := h.tail ha
      rw [← ha.after_eq] at hrest
      exact ih hrest
  | swap b a as =>
      obtain ⟨c, p, ha⟩ := h.exists_canSign List.mem_cons_self
      obtain ⟨c', q, hb⟩ := h.exists_canSign (List.mem_cons_of_mem a List.mem_cons_self)
      have hne := h.ne_of_mem List.mem_cons_self ha.signer?_eq hb.signer?_eq
      show ((d.after a).after b).run as = ((d.after b).after a).run as
      rw [ha.after_comm hb hne]
  | trans hfirst _ ih ih' => exact (ih h).trans (ih' (h.of_perm hfirst))

/-- **In the end those have signed who had before, and those for whom the attempts are.** -/
theorem hasSigned_run_iff (h : d.CanAllSign as) :
    (d.run as).HasSigned q ↔ d.HasSigned q ∨ ∃ a ∈ as, a.update.signer? d = some q := by
  induction as generalizing d with
  | nil => simp [run]
  | cons a as ih =>
      obtain ⟨c, p, ha⟩ := h.exists_canSign List.mem_cons_self
      show ((d.after a).run as).HasSigned q ↔ _
      rw [ha.after_eq, ih (h.tail ha), ha.hasSigned_iff]
      simp only [signer?_sign, List.exists_mem_cons_iff, ha.signer?_eq, Option.some.injEq, or_assoc]

end CanAllSign

/-! ## Leaving progress -/

/-- The certificate provider has signed. -/
def HasCertificate (d : Document) : Prop :=
  d.certificateProvider.signedAt.isSome

/-- Every attorney has signed who has not been removed. -/
def AttorneysSigned (d : Document) : Prop :=
  ∀ a ∈ d.attorneys, a.status ≠ .removed → a.signedAt.isSome

/-- Every trust corporation that has not been removed has signatories, and all of them have signed. -/
def TrustCorporationsSigned (d : Document) : Prop :=
  ∀ t ∈ d.trustCorporations, t.status ≠ .removed →
    t.signatories ≠ [] ∧ ∀ s ∈ t.signatories, s.signedAt.isSome

/-- Everyone has signed whom the donor names and who has not been removed. -/
structure EveryoneSigned (d : Document) : Prop where
  certificate : d.HasCertificate
  attorneys : d.AttorneysSigned
  trustCorporations : d.TrustCorporationsSigned

/-- The first of these conditions that is not met. -/
inductive FirstUnsigned (d : Document) : Unsigned → Prop
  | certificateProvider (h : ¬ d.HasCertificate) : FirstUnsigned d .certificateProvider
  | attorneys (hcertificate : d.HasCertificate) (h : ¬ d.AttorneysSigned) : FirstUnsigned d .attorneys
  | trustCorporations (hcertificate : d.HasCertificate) (hattorneys : d.AttorneysSigned)
      (h : ¬ d.TrustCorporationsSigned) : FirstUnsigned d .trustCorporations

theorem exists_firstUnsigned (h : ¬ d.EveryoneSigned) : ∃ first, d.FirstUnsigned first := by
  by_cases hcertificate : d.HasCertificate
  · by_cases hattorneys : d.AttorneysSigned
    · exact ⟨.trustCorporations, .trustCorporations hcertificate hattorneys fun htrustCorporations =>
        h ⟨hcertificate, hattorneys, htrustCorporations⟩⟩
    · exact ⟨.attorneys, .attorneys hcertificate hattorneys⟩
  · exact ⟨.certificateProvider, .certificateProvider hcertificate⟩

theorem hasCertificate_iff :
    d.HasCertificate ↔ ¬ d.certificateProvider.signedAt.isNone := by
  unfold HasCertificate
  simp [Option.isSome_iff_ne_none]

theorem attorneysSigned_iff :
    d.AttorneysSigned ↔ ¬ d.attorneys.any fun a => a.status != .removed && a.signedAt.isNone := by
  unfold AttorneysSigned
  simp [Option.isSome_iff_ne_none]

theorem trustCorporationsSigned_iff : d.TrustCorporationsSigned ↔
    ¬ d.trustCorporations.any fun t => t.status != .removed && !t.isSigned := by
  unfold TrustCorporationsSigned TrustCorporation.isSigned Signatory.isSigned
  simp [imp_iff_not_or, Option.isSome_iff_ne_none]

section

variable (hdonor : d.signedAt.isSome)
include hdonor

/-- If the donor and everyone else have signed, no signature is missing. -/
theorem unsigned?_of_everyoneSigned (h : d.EveryoneSigned) : d.unsigned? = none := by
  have hdonor' : ¬ d.signedAt.isNone := by simpa [Option.isSome_iff_ne_none] using hdonor
  unfold unsigned?
  rw [if_neg hdonor', if_neg (hasCertificate_iff.mp h.certificate),
    if_neg (attorneysSigned_iff.mp h.attorneys),
    if_neg (trustCorporationsSigned_iff.mp h.trustCorporations)]

/-- Otherwise the first one is that of the first condition. -/
theorem unsigned?_of_firstUnsigned {first : Unsigned} (h : d.FirstUnsigned first) :
    d.unsigned? = some first := by
  have hdonor' : ¬ d.signedAt.isNone := by simpa [Option.isSome_iff_ne_none] using hdonor
  unfold unsigned?
  rw [if_neg hdonor']
  cases h with
  | certificateProvider h => rw [if_pos (Decidable.not_not.mp (mt hasCertificate_iff.mpr h))]
  | attorneys hcertificate h =>
      rw [if_neg (hasCertificate_iff.mp hcertificate),
        if_pos (Decidable.not_not.mp (mt attorneysSigned_iff.mpr h))]
  | trustCorporations hcertificate hattorneys h =>
      rw [if_neg (hasCertificate_iff.mp hcertificate), if_neg (attorneysSigned_iff.mp hattorneys),
        if_pos (Decidable.not_not.mp (mt trustCorporationsSigned_iff.mpr h))]

end

end Document

/-- An attempt asks for an operation that takes no changes. -/
structure Attempt.Asks (a : Attempt) (op : Operation) : Prop where
  operation : a.operation? = some op
  changes : a.update.changes = []

theorem Attempt.Asks.validate_eq {a : Attempt} {op : Operation} {d : Document} {c : Command}
    (h : a.Asks op) (hread : ∀ author, Command.ofChanges d author [] op = (c, [])) :
    a.update.validate d = .ok c := by
  refine Update.validate_eq_ok_iff.mpr ⟨op, h.operation, ?_, ?_⟩
  · rw [h.changes]
    exact hread a.update.author
  · rw [h.changes]
    exact List.forall_mem_nil _

namespace Document

variable {d : Document} {a : Attempt} {as : List Attempt}

section

variable {c : Command} {next : Status} {early : Refusal} (hvalid : a.update.validate d = .ok c)
  (happly : c.apply a.now d = d.leaveProgress next early) (hd : d.status = .inProgress)
  (hdonor : d.signedAt.isSome)
include hvalid happly hd hdonor

/-- **Progress is left when everyone has signed**, and else the first missing signature is named. -/
theorem submit_of_leaveProgress :
    (d.EveryoneSigned → d.submit a = .ok { d with status := next }) ∧
      ∀ first, d.FirstUnsigned first → d.submit a = .error [⟨"/type", first.message⟩] := by
  unfold submit
  rw [hvalid]
  dsimp only
  rw [happly, leaveProgress, if_neg (not_not_intro hd)]
  constructor
  · intro h
    rw [unsigned?_of_everyoneSigned hdonor h]
  · intro first h
    rw [unsigned?_of_firstUnsigned hdonor h]
    rfl

/-- An attempt to leave it is accepted exactly when everyone has signed. -/
theorem exists_submit_iff : (∃ d', d.submit a = .ok d') ↔ d.EveryoneSigned := by
  obtain ⟨hready, hmissing⟩ := submit_of_leaveProgress hvalid happly hd hdonor
  constructor
  · rintro ⟨d', hok⟩
    by_contra h
    obtain ⟨first, hfirst⟩ := exists_firstUnsigned h
    rw [hmissing first hfirst] at hok
    cases hok
  · intro h
    exact ⟨_, hready h⟩

end

/-! ## Any order -/

/-- **Parties sign in any order, and progress can be left exactly when all have signed.** From a document
    in progress that the donor has signed, attempts to sign for different parties who have not signed are
    accepted in every order, and make the same document, on which those have signed who had before and
    those who signed now. There a document can be made perfect exactly when its waiting period can begin,
    which is when everyone has signed; and if not, both attempts name the first condition that is not
    met. -/
theorem signs_in_any_order (hd : d.status = .inProgress) (hdonor : d.signedAt.isSome)
    (hsign : d.CanAllSign as) {x y : Attempt} (hx : x.Asks .perfect)
    (hy : y.Asks .statutoryWaitingPeriod) :
    let e := d.run as
    (∀ bs, bs.Perm as → d.accepted bs = bs ∧ d.run bs = e) ∧
      (∀ p, e.HasSigned p ↔ d.HasSigned p ∨ ∃ a ∈ as, a.update.signer? d = some p) ∧
      ((∃ e', e.submit x = .ok e') ↔ e.EveryoneSigned) ∧
      ((∃ e', e.submit y = .ok e') ↔ e.EveryoneSigned) ∧
      (¬ e.EveryoneSigned → ∃ first, e.FirstUnsigned first ∧
        e.submit x = .error [⟨"/type", first.message⟩] ∧
        e.submit y = .error [⟨"/type", first.message⟩]) := by
  intro e
  -- Nobody who signs changes the status, or takes the donor's signature away.
  obtain ⟨he, hedonor⟩ : e.status = .inProgress ∧ e.signedAt.isSome := by
    refine hsign.induction (P := fun e => e.status = .inProgress ∧ e.signedAt.isSome) ?_ ⟨hd, hdonor⟩
    intro d c h
    rwa [Command.status_sign, Command.signedAt_sign]
  have hx' : x.update.validate e = .ok .makePerfect := hx.validate_eq fun _ => rfl
  have hy' : y.update.validate e = .ok .beginWaiting := hy.validate_eq fun _ => rfl
  refine ⟨fun bs hbs => ?_, fun p => hsign.hasSigned_run_iff, exists_submit_iff hx' rfl he hedonor,
    exists_submit_iff hy' rfl he hedonor, fun h => ?_⟩
  · exact ⟨(hsign.of_perm hbs.symm).accepted_eq, (hsign.run_of_perm hbs.symm).symm⟩
  · obtain ⟨first, hfirst⟩ := exists_firstUnsigned h
    exact ⟨first, hfirst, (submit_of_leaveProgress hx' rfl he hedonor).2 first hfirst,
      (submit_of_leaveProgress hy' rfl he hedonor).2 first hfirst⟩

/-- The donor has signed a document with an attorney, another who has been removed, and a trust
    corporation. -/
def ofUnsignedParties : Document :=
  { ofTwoAttorneys with
    attorneys := [
      ⟨"a", "Bo", "Bell", none, "", "", {}, .active, .original, .paper, none, none, false⟩,
      ⟨"b", "Cy", "Cole", none, "", "", {}, .removed, .replacement, .paper, none, none, false⟩]
    trustCorporations := [
      ⟨"t", "Trust", "1", "", "", {}, .active, .original, .paper, [], none⟩]
    signedAt := some (.ofNanoseconds 0) }

/-- The attorney signs. -/
def attorneySigns : Attempt :=
  .of "ATTORNEY_SIGN" "" [⟨"/attorneys/0/signedAt", .null, .str "2024-01-02T10:00:00Z"⟩,
    ⟨"/attorneys/0/contactLanguagePreference", .null, .str "en"⟩]

/-- A director signs for the trust corporation. -/
def trustCorporationSigns : Attempt :=
  .of "TRUST_CORPORATION_SIGN" "" [
    ⟨"/trustCorporations/0/signatories/0/firstNames", .null, .str "Al"⟩,
    ⟨"/trustCorporations/0/signatories/0/lastName", .null, .str "Ash"⟩,
    ⟨"/trustCorporations/0/signatories/0/professionalTitle", .null, .str "Director"⟩,
    ⟨"/trustCorporations/0/signatories/0/signedAt", .null, .str "2024-01-03T10:00:00Z"⟩,
    ⟨"/trustCorporations/0/contactLanguagePreference", .null, .str "en"⟩]

/-- The certificate provider signs. -/
def certificateProviderSigns : Attempt :=
  .of "CERTIFICATE_PROVIDER_SIGN" "" [
    ⟨"/certificateProvider/signedAt", .null, .str "2024-01-04T10:00:00Z"⟩,
    ⟨"/certificateProvider/contactLanguagePreference", .null, .str "cy"⟩]

/-- All of them sign. -/
def signatures : List Attempt :=
  [attorneySigns, trustCorporationSigns, certificateProviderSigns]

theorem canAllSign_signatures : ofUnsignedParties.CanAllSign signatures := by
  have hattorney : attorneySigns.update.signer? ofUnsignedParties = some (.attorney 0) := by
    decide +kernel
  have htrustCorporation : trustCorporationSigns.update.signer? ofUnsignedParties =
      some (.trustCorporation 0) := by decide +kernel
  have hprovider : certificateProviderSigns.update.signer? ofUnsignedParties =
      some .certificateProvider := by decide +kernel
  refine ⟨?_, ?_⟩
  · simp only [signatures, List.forall_mem_cons, hattorney, htrustCorporation, hprovider]
    decide
  · simp only [signatures, List.map_cons, hattorney, htrustCorporation, hprovider]
    decide

theorem everyoneSigned_signatures : (ofUnsignedParties.run signatures).EveryoneSigned := by
  have h : (ofUnsignedParties.run signatures).certificateProvider.signedAt.isSome ∧
      (∀ a ∈ (ofUnsignedParties.run signatures).attorneys,
        a.status ≠ .removed → a.signedAt.isSome) ∧
      ∀ t ∈ (ofUnsignedParties.run signatures).trustCorporations, t.status ≠ .removed →
        t.signatories ≠ [] ∧ ∀ s ∈ t.signatories, s.signedAt.isSome := by decide +kernel
  exact ⟨h.1, h.2.1, h.2.2⟩

/-- They may do so the other way round; then the document can be made perfect, or wait. -/
theorem signs_in_any_order_three :
    let d := ofUnsignedParties
    let e := d.run signatures
    let x : Attempt := .of "PERFECT" "" []
    let y : Attempt := .of "STATUTORY_WAITING_PERIOD" "" []
    d.status = .inProgress ∧ d.signedAt.isSome ∧ d.CanAllSign signatures ∧ x.Asks .perfect ∧
      y.Asks .statutoryWaitingPeriod ∧
      d.accepted signatures.reverse = signatures.reverse ∧ d.run signatures.reverse = e ∧
      (∃ e', e.submit x = .ok e') ∧ ∃ e', e.submit y = .ok e' := by
  intro d e x y
  have hd : d.status = .inProgress := rfl
  have hdonor : d.signedAt.isSome := rfl
  have hx : x.Asks .perfect := ⟨by decide +kernel, rfl⟩
  have hy : y.Asks .statutoryWaitingPeriod := ⟨by decide +kernel, rfl⟩
  obtain ⟨horders, _, hperfect, hwaiting, _⟩ :=
    signs_in_any_order hd hdonor canAllSign_signatures hx hy
  obtain ⟨haccepted, hrun⟩ := horders _ (List.reverse_perm signatures)
  exact ⟨hd, hdonor, canAllSign_signatures, hx, hy, haccepted, hrun,
    hperfect.mpr everyoneSigned_signatures, hwaiting.mpr everyoneSigned_signatures⟩

end Document

end PowerOfAttorney
