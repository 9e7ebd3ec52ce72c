import PowerOfAttorney.Proofs.Command.Atomic
import PowerOfAttorney.Proofs.Lifecycle.Allowed
import PowerOfAttorney.Proofs.Lifecycle.AnyOrder
import PowerOfAttorney.Proofs.Operation.Target

/-!
# `PowerOfAttorney.Proofs.Lifecycle.OneParty` — who signs or is given an address is whom the keys name

The changes of such an operation are about one party, who is there. So the operation finds the party, and all
that can stand against it is that the party has signed, or does not take part on paper. What is sent replaces
what the party had; a mobile number that is not sent stays. Those who sign claim that nothing is on record,
and a change has to change something, so nothing that they send is blank, and what is left blank was not sent.

## Contents
- **Values.** `Update.isBlank_new`: who signs sends nothing blank.
- **Parties.** What is made of an attorney or a trust corporation: `Attorney.SignsAs`,
  `TrustCorporation.SignsAs` and `Attorney.IsReachedAs`.
- **Hits.** `PartyOperation.Hits`, and one lemma for each operation that is read without faults.
- **Updates.** `Update.hits_one_party`.
-/

namespace PowerOfAttorney

open Script

/-! ## Values -/

/-- **Who signs sends nothing blank**, since the old values are. -/
theorem Update.isBlank_new {u : Update} {d : Document} {c : Command} {op : Operation}
    (hvalid : u.validate d = .ok c) (htype : Word.ofText? u.type = some op)
    (hsigning : op.isSigning = true) : ∀ change ∈ u.changes, change.new.isBlank = false := by
  intro change hchange
  obtain rfl := Option.some.inj ((isRead_of_validate hvalid).1.symm.trans htype)
  obtain ⟨place, _, hedits⟩ := accepts_operation hvalid
  obtain ⟨_, _, _, hredundant⟩ := validate_eq_ok_iff.mp hvalid
  obtain ⟨i, hi, rfl⟩ := List.mem_iff_getElem.mp hchange
  exact (hedits ⟨i, hi⟩).isBlank_new hsigning (hredundant _ hchange)

/-! ## Parties -/

/-- The fields of an attorney that are held, and the language, which no correction reaches. -/
def Attorney.shows (a : Attorney) : Place → Option Held
  | [.name "contactLanguagePreference"] => some ⟨.maybeWord .language, a.contactLanguage⟩
  | b => a.holds b

/-- The same of a trust corporation. -/
def TrustCorporation.shows (t : TrustCorporation) : Place → Option Held
  | [.name "contactLanguagePreference"] => some ⟨.maybeWord .language, t.contactLanguage⟩
  | b => t.holds b

/-- An attorney who signs gives a date and a language, and may give a mobile number. Nothing else of the
    attorney is touched. -/
structure Attorney.SignsAs (named : Place → Prop) (a a' : Attorney) : Prop where
  others : a' = { a with
    mobile := a'.mobile, signedAt := a'.signedAt, contactLanguage := a'.contactLanguage }
  mobile : ¬ named [.name "mobile"] → a'.mobile = a.mobile
  signedAt : named [.name "signedAt"]
  contactLanguage : named [.name "contactLanguagePreference"]

/-- A signatory of whom everything is known, and who has signed. -/
structure Signatory.IsComplete (s : Signatory) : Prop where
  firstNames : s.firstNames ≠ ""
  lastName : s.lastName ≠ ""
  professionalTitle : s.professionalTitle ≠ ""
  signed : s.isSigned

/-- A trust corporation that signs gives one or two signatories and a language, and may give a mobile
    number. The signatories are complete, and each field of theirs is sent. Nothing else of the trust
    corporation is touched. -/
structure TrustCorporation.SignsAs (named : Place → Prop) (t t' : TrustCorporation) : Prop where
  others : t' = { t with
    mobile := t'.mobile, signatories := t'.signatories, contactLanguage := t'.contactLanguage }
  mobile : ¬ named [.name "mobile"] → t'.mobile = t.mobile
  contactLanguage : named [.name "contactLanguagePreference"]
  oneOrTwo : t'.signatories.length = 1 ∨ t'.signatories.length = 2
  complete : ∀ s ∈ t'.signatories, s.IsComplete
  signatories : ∀ j b, named (.name "signatories" :: .index j :: b) ↔
    ((t'.signatories[j]?).bind fun s => s.holds b).isSome

/-- An attorney who is to be reached online is given an email address, and nothing else. -/
structure Attorney.IsReachedAs (named : Place → Prop) (a a' : Attorney) : Prop where
  others : a' = { a with email := a'.email }
  email : named [.name "email"]

/-! ## Hits -/

/-- **An operation hits one party.** The party is there, all changes name fields of this party and no other,
    and each field that is named comes to hold what is sent. -/
structure PartyOperation.Hits {α : Type} (op : PartyOperation α) (shows : α → Place → Option Held)
    (Makes : (Place → Prop) → α → α → Prop) (d : Document) (changes : List Change) (i : Nat) (x x' : α) :
    Prop where
  there : (op.list.get d)[i]? = some x
  sent : changes ≠ []
  named : ∀ c ∈ changes, ∃ b y, op.operation.place? d c.key = some (op.place i b) ∧
    y.type.decode c.new = .ok y.value ∧ shows x' b = some y
  makes : Makes (fun b => op.operation.Names d changes (op.place i b)) x x'

section

variable {d : Document} {changes : List Change} {i : Nat}

/-- A field that is given something else than it started from is named. -/
theorem PartyOperation.Concerns.names_of_ne {α : Type} {op : PartyOperation α}
    {starts gives : Place → Option Held} (h : op.Concerns d changes i starts gives) {b : Place}
    (hne : gives b ≠ starts b) : op.operation.Names d changes (op.place i b) := by
  by_contra hunnamed
  exact hne (h.kept b hunnamed)

/-- What is sent is not blank. -/
theorem PartyOperation.Concerns.exists_of_mem {α : Type} {op : PartyOperation α}
    {starts gives : Place → Option Held} (h : op.Concerns d changes i starts gives)
    (hnew : ∀ c ∈ changes, c.new.isBlank = false) {c : Change} (hc : c ∈ changes) :
    ∃ b y, op.operation.place? d c.key = some (op.place i b) ∧ y.type.decode c.new = .ok y.value ∧
      gives b = some y ∧ y.isBlank = false := by
  obtain ⟨b, y, hkey, hdecode, hgives⟩ := h.named c hc
  refine ⟨b, y, hkey, hdecode, hgives, ?_⟩
  cases hblank : y.isBlank with
  | false => rfl
  | true => exact (Held.isBlank_of_decode hblank hdecode).symm.trans (hnew c hc)

namespace AttorneySign

variable {s : AttorneySign}

/-- What is given and not blank is what the attorney has then. -/
theorem shows_signed (a : Attorney) {b : Place} {y : Held} (h : s.holds b = some y)
    (hy : y.isBlank = false) : (s.signed a).shows b = some y := by
  unfold holds at h
  split at h
  · obtain rfl := Option.some.inj h
    have hmobile : s.mobile.isEmpty = false := hy
    show some (Held.mk .text (if s.mobile.isEmpty then a.mobile else s.mobile)) = _
    rw [hmobile, if_neg Bool.false_ne_true]
  · exact h
  · exact h
  · cases h

/-- What is not given is as it was. -/
theorem signsAs (h : PartyOperation.attorneySign.Concerns d changes i ({} : AttorneySign).holds s.holds)
    (hs : s.signedAt.isSome ∧ s.contactLanguage.isSome) (a : Attorney) :
    a.SignsAs (fun b => Operation.attorneySign.Names d changes (PartyOperation.attorneySign.place i b))
      (s.signed a) where
  others := rfl
  mobile := by
    intro hunnamed
    have hkept : s.mobile = "" := Held.value_inj (t := .text) (h.kept [.name "mobile"] hunnamed)
    show (if s.mobile.isEmpty then a.mobile else s.mobile) = a.mobile
    rw [hkept]
    rfl
  signedAt := by
    refine h.names_of_ne fun hkept => ?_
    have hnone : s.signedAt = none := Held.value_inj (t := .time) hkept
    rw [hnone] at hs
    exact Bool.false_ne_true hs.1
  contactLanguage := by
    refine h.names_of_ne fun hkept => ?_
    have hnone : s.contactLanguage = none := Held.value_inj (t := .maybeWord .language) hkept
    rw [hnone] at hs
    exact Bool.false_ne_true hs.2

/-- **An attorney who signs is the one whom the keys name.** -/
theorem exists_hits (hnone : ((script d).read none changes).2 = [])
    (hnew : ∀ c ∈ changes, c.new.isBlank = false) :
    ∃ i s a, ((script d).read none changes).1 = some (i, s) ∧
      PartyOperation.attorneySign.Hits Attorney.shows Attorney.SignsAs d changes i a (s.signed a) := by
  obtain ⟨hne, i, s, a, hchosen, ha, hconcerns⟩ := (readBy d).exists_concerns hnone
  obtain ⟨j, s', hchosen', hs⟩ := exists_chosen_of_read yields_fields rfl hnone
  obtain ⟨rfl, rfl⟩ := Prod.mk.inj (Option.some.inj (hchosen'.symm.trans hchosen))
  refine ⟨j, s', a, hchosen, ha, hne, ?_, signsAs hconcerns hs a⟩
  intro c hc
  obtain ⟨b, y, hkey, hdecode, hgives, hy⟩ := hconcerns.exists_of_mem hnew hc
  exact ⟨b, y, hkey, hdecode, shows_signed a hgives hy⟩

end AttorneySign

namespace Signatory

variable {s : Signatory}

/-- A signatory who is read in full is complete. -/
theorem yields_isComplete (s : Signatory) :
    (fields (.checking .needs .notEmpty)).Yields IsComplete s := by
  refine ⟨fun firstNames hfirst => ⟨fun lastName hlast => ⟨fun title htitle => ?_, nofun⟩, nofun⟩, nofun⟩
  exact yields_date fun _ hsigned => ⟨Slot.ne_empty_of_passes hfirst, Slot.ne_empty_of_passes hlast,
    Slot.ne_empty_of_passes htitle, hsigned⟩

theorem IsComplete.isUnknown_eq (h : s.IsComplete) : s.isUnknown = false := by
  rw [isUnknown, beq_eq_false_iff_ne]
  rintro rfl
  exact h.firstNames rfl

/-- No field of a complete signatory is blank. -/
theorem IsComplete.isBlank_of_holds (h : s.IsComplete) {b : Place} {y : Held} (hy : s.holds b = some y) :
    y.isBlank = false := by
  have htext (text : String) (hne : text ≠ "") : (Held.mk .text text).isBlank = false := by
    show text.isEmpty = false
    simpa using hne
  unfold holds at hy
  split at hy
  · obtain rfl := Option.some.inj hy
    exact htext _ h.firstNames
  · obtain rfl := Option.some.inj hy
    exact htext _ h.lastName
  · obtain rfl := Option.some.inj hy
    exact htext _ h.professionalTitle
  · obtain rfl := Option.some.inj hy
    exact Option.isNone_eq_false_iff.mpr h.signed
  · cases hy

end Signatory

namespace TrustCorporationSign

variable {s : TrustCorporationSign}

/-- Complete signatories are given as they are; the second one is left out if nothing is known of one. -/
theorem signatories_eq_or (hfirst : s.first.IsComplete) (hsecond : s.second = {} ∨ s.second.IsComplete) :
    (s.second = {} ∧ s.signatories = [s.first]) ∨
      (s.second.IsComplete ∧ s.signatories = [s.first, s.second]) := by
  have hnothing : ({} : Signatory).isUnknown = true := rfl
  unfold signatories
  rcases hsecond with hunknown | hcomplete
  · refine Or.inl ⟨hunknown, ?_⟩
    rw [hunknown]
    simp [hfirst.isUnknown_eq, hnothing]
  · refine Or.inr ⟨hcomplete, ?_⟩
    simp [hfirst.isUnknown_eq, hcomplete.isUnknown_eq]

section

variable (hfirst : s.first.IsComplete) (hsecond : s.second = {} ∨ s.second.IsComplete)
include hfirst hsecond

/-- What is given of signatories and not blank is what the signatories have. -/
theorem holds_signatories {b : Place} {y : Held}
    (h : Entries.holds Signatory.holds [s.first, s.second] b = some y) (hy : y.isBlank = false) :
    Entries.holds Signatory.holds s.signatories b = some y := by
  rcases signatories_eq_or hfirst hsecond with ⟨hunknown, heq⟩ | ⟨_, heq⟩
  · rw [heq]
    rw [hunknown] at h
    unfold Entries.holds at h ⊢
    split at h
    · rename_i j b
      cases j with
      | zero => exact h
      | succ j =>
          -- Nothing is known of the second one, so nothing but blanks could be given.
          obtain ⟨x, hx, hheld⟩ := Option.bind_eq_some_iff.mp h
          obtain rfl := List.mem_singleton.mp (List.mem_of_getElem? (l := [({} : Signatory)]) hx)
          rw [Signatory.isBlank_of_holds hheld] at hy
          exact absurd hy.symm Bool.false_ne_true
    · cases h
  · rw [heq]
    exact h

/-- What is given and not blank is what the trust corporation has then. -/
theorem shows_signed (t : TrustCorporation) {b : Place} {y : Held} (h : s.holds b = some y)
    (hy : y.isBlank = false) : (s.signed t).shows b = some y := by
  unfold holds at h
  split at h
  · obtain rfl := Option.some.inj h
    have hmobile : s.mobile.isEmpty = false := hy
    show some (Held.mk .text (if s.mobile.isEmpty then t.mobile else s.mobile)) = _
    rw [hmobile, if_neg Bool.false_ne_true]
  · exact holds_signatories hfirst hsecond h hy
  · exact h
  · cases h

/-- All signatories are complete. -/
theorem isComplete_of_mem {x : Signatory} (hx : x ∈ s.signatories) : x.IsComplete := by
  rcases signatories_eq_or hfirst hsecond with ⟨_, heq⟩ | ⟨hcomplete, heq⟩
  · rw [heq, List.mem_singleton] at hx
    rw [hx]
    exact hfirst
  · rw [heq, List.mem_cons, List.mem_singleton] at hx
    rcases hx with rfl | rfl
    · exact hfirst
    · exact hcomplete

/-- There are one or two. -/
theorem length_signatories : s.signatories.length = 1 ∨ s.signatories.length = 2 := by
  rcases signatories_eq_or hfirst hsecond with ⟨_, heq⟩ | ⟨_, heq⟩
  · rw [heq]
    exact Or.inl rfl
  · rw [heq]
    exact Or.inr rfl

/-- Each is the one that is given at its index. -/
theorem getElem?_of_signatories {j : Nat} {x : Signatory} (hx : s.signatories[j]? = some x) :
    [s.first, s.second][j]? = some x := by
  rcases signatories_eq_or hfirst hsecond with ⟨_, heq⟩ | ⟨_, heq⟩
  · rw [heq] at hx
    cases j with
    | zero => exact hx
    | succ j => cases hx
  · rwa [heq] at hx

end

/-- What is not given is as it was, and of the signatories everything is given. -/
theorem signsAs
    (h : PartyOperation.trustCorporationSign.Concerns d changes i ({} : TrustCorporationSign).holds s.holds)
    (hnew : ∀ c ∈ changes, c.new.isBlank = false)
    (hs : (s.first.IsComplete ∧ (s.second = {} ∨ s.second.IsComplete)) ∧ s.contactLanguage.isSome)
    (t : TrustCorporation) :
    t.SignsAs (fun b => Operation.trustCorporationSign.Names d changes
      (PartyOperation.trustCorporationSign.place i b)) (s.signed t) where
  others := rfl
  mobile := by
    intro hunnamed
    have hkept : s.mobile = "" := Held.value_inj (t := .text) (h.kept [.name "mobile"] hunnamed)
    show (if s.mobile.isEmpty then t.mobile else s.mobile) = t.mobile
    rw [hkept]
    rfl
  contactLanguage := by
    refine h.names_of_ne fun hkept => ?_
    have hnone : s.contactLanguage = none := Held.value_inj (t := .maybeWord .language) hkept
    rw [hnone] at hs
    exact Bool.false_ne_true hs.2
  oneOrTwo := length_signatories hs.1.1 hs.1.2
  complete _ hx := isComplete_of_mem hs.1.1 hs.1.2 hx
  signatories := by
    intro j b
    constructor
    · rintro ⟨c, hc, hkey⟩
      obtain ⟨b', y, hkey', _, hgives, hy⟩ := h.exists_of_mem hnew hc
      obtain ⟨_, rfl⟩ :=
        PartyOperation.trustCorporationSign.place_inj (Option.some.inj (hkey'.symm.trans hkey))
      have hheld : Entries.holds Signatory.holds [s.first, s.second] (.index j :: b) = some y := hgives
      exact Option.isSome_of_eq_some (holds_signatories hs.1.1 hs.1.2 hheld hy)
    · intro hsome
      obtain ⟨y, hheld⟩ := Option.isSome_iff_exists.mp hsome
      obtain ⟨x, hx, hxy⟩ := Option.bind_eq_some_iff.mp hheld
      -- The field is not blank, so it is not what there was before anything was given.
      refine h.names_of_ne fun hkept => ?_
      have hgives : s.holds (.name "signatories" :: .index j :: b) = some y := by
        show (([s.first, s.second] : List Signatory)[j]?).bind (fun x => x.holds b) = some y
        rw [getElem?_of_signatories hs.1.1 hs.1.2 hx]
        exact hxy
      have hstarts : (([{}, {}] : List Signatory)[j]?).bind (fun x => x.holds b) = some y :=
        hkept.symm.trans hgives
      obtain ⟨x', hx', hxy'⟩ := Option.bind_eq_some_iff.mp hstarts
      obtain rfl : x' = {} := by simpa using List.mem_of_getElem? hx'
      have hcomplete := isComplete_of_mem hs.1.1 hs.1.2 (List.mem_of_getElem? hx)
      have hblank := (Signatory.isBlank_of_holds hxy').symm.trans (hcomplete.isBlank_of_holds hxy)
      exact Bool.false_ne_true hblank.symm

/-- **A trust corporation that signs is the one that the keys name.** -/
theorem exists_hits (hnone : ((script d).read none changes).2 = [])
    (hnew : ∀ c ∈ changes, c.new.isBlank = false) :
    ∃ i s t, ((script d).read none changes).1 = some (i, s) ∧
      PartyOperation.trustCorporationSign.Hits TrustCorporation.shows TrustCorporation.SignsAs d changes i
        t (s.signed t) := by
  obtain ⟨hne, i, s, t, hchosen, ht, hconcerns⟩ := (readBy d).exists_concerns hnone
  obtain ⟨j, s', hchosen', hs⟩ :=
    exists_chosen_of_read (yields_fields Signatory.yields_isComplete) rfl hnone
  obtain ⟨rfl, rfl⟩ := Prod.mk.inj (Option.some.inj (hchosen'.symm.trans hchosen))
  refine ⟨j, s', t, hchosen, ht, hne, ?_, signsAs hconcerns hnew hs t⟩
  intro c hc
  obtain ⟨b, y, hkey, hdecode, hgives, hy⟩ := hconcerns.exists_of_mem hnew hc
  exact ⟨b, y, hkey, hdecode, shows_signed hs.1.1 hs.1.2 t hgives hy⟩

end TrustCorporationSign

/-- **An attorney who is given an address for online access is the one whom the keys name.** -/
theorem AttorneyAccess.exists_hits (hnone : ((script d).read none changes).2 = []) :
    ∃ i email a, ((script d).read none changes).1 = some (i, email) ∧
      PartyOperation.attorneyAccess.Hits Attorney.shows Attorney.IsReachedAs d changes i a
        { a with email := email } := by
  obtain ⟨hne, i, email, a, hchosen, ha, hconcerns⟩ := (readBy d).exists_concerns hnone
  -- The address is the only field that may be named, and some field is.
  have hemail (b : Place) (hnamed : Operation.attorneyAccessOnline.Names d changes
      (PartyOperation.attorneyAccess.place i b)) : b = [.name "email"] := by
    obtain ⟨check, hcheck⟩ := hconcerns.checked b hnamed
    obtain ⟨j, hplace⟩ := exists_of_check? d hcheck
    exact (PartyOperation.attorneyAccess.place_inj hplace).2
  refine ⟨i, email, a, hchosen, ha, hne, ?_, rfl, ?_⟩
  · intro c hc
    obtain ⟨b, y, hkey, hdecode, hgives⟩ := hconcerns.named c hc
    obtain rfl := hemail b ⟨c, hc, hkey⟩
    exact ⟨_, y, hkey, hdecode, hgives⟩
  · obtain ⟨c, hc⟩ := List.exists_mem_of_ne_nil changes hne
    obtain ⟨b, _, hkey, _⟩ := hconcerns.named c hc
    obtain rfl := hemail b ⟨c, hc, hkey⟩
    exact ⟨c, hc, hkey⟩

end

/-! ## Updates -/

/-- The command of a reading is made of the draft in the end. -/
theorem Command.make_eq_of_reading {σ : Type} {script : Script σ} {draft x : σ} {changes : List Change}
    {make : σ → Command} {c : Command} {faults : List Fault}
    (hread : reading script draft changes make = (c, faults)) (hx : (script.read draft changes).1 = x) :
    make x = c := by
  rw [← hx]
  exact (Prod.mk.inj hread).1

section

variable {d : Document} {i : Nat}

/-- An attorney who is there signs, but only once. -/
theorem AttorneySign.apply_of_getElem? {s : AttorneySign} {a : Attorney} (ha : d.attorneys[i]? = some a) :
    s.apply i d = if a.signedAt.isSome then .error .attorneySignsAgain
      else .ok { d with attorneys := d.attorneys.set i (s.signed a) } := by
  unfold apply
  rw [ha]
  rfl

/-- So does a trust corporation. -/
theorem TrustCorporationSign.apply_of_getElem? {s : TrustCorporationSign} {t : TrustCorporation}
    (ht : d.trustCorporations[i]? = some t) :
    s.apply i d = if t.signatories.head?.any Signatory.isSigned then .error .trustCorporationSignsAgain
      else .ok { d with trustCorporations := d.trustCorporations.set i (s.signed t) } := by
  unfold apply
  rw [ht]
  rfl

/-- An attorney who is there is given an address, if on paper. -/
theorem AttorneyAccess.apply_of_getElem? {email : String} {a : Attorney} (ha : d.attorneys[i]? = some a) :
    AttorneyAccess.apply i email d = if a.channel ≠ .paper then .error .notPaper
      else .ok { d with attorneys := d.attorneys.set i { a with email := email } } := by
  unfold apply
  rw [ha]

end

/-- **Who signs or is given an address is whom the keys name.** Every change of such an update names a field
    of one attorney or trust corporation, who is there. The party is never missing: the update is refused
    only because the party has signed before or does not take part on paper, and then nothing changes.
    Otherwise the fields that are named hold what is sent, and nothing else of the document differs. -/
theorem Update.hits_one_party {u : Update} {d : Document} {c : Command} (hvalid : u.validate d = .ok c)
    (now : Instant) :
    (Word.ofText? u.type = some Operation.attorneySign → ∃ i a a',
      PartyOperation.attorneySign.Hits Attorney.shows Attorney.SignsAs d u.changes i a a' ∧
        c.carryOut now d =
          if a.signedAt.isSome then .error (.refused [Refusal.attorneySignsAgain.toFieldError]) d
          else .ok () { d with attorneys := d.attorneys.set i a' }) ∧
    (Word.ofText? u.type = some Operation.trustCorporationSign → ∃ i t t',
      PartyOperation.trustCorporationSign.Hits TrustCorporation.shows TrustCorporation.SignsAs d u.changes
          i t t' ∧
        c.carryOut now d =
          if t.signatories.head?.any Signatory.isSigned then
            .error (.refused [Refusal.trustCorporationSignsAgain.toFieldError]) d
          else .ok () { d with trustCorporations := d.trustCorporations.set i t' }) ∧
    (Word.ofText? u.type = some Operation.attorneyAccessOnline → ∃ i a a',
      PartyOperation.attorneyAccess.Hits Attorney.shows Attorney.IsReachedAs d u.changes i a a' ∧
        c.carryOut now d =
          if a.channel ≠ .paper then .error (.refused [Refusal.notPaper.toFieldError]) d
          else .ok () { d with attorneys := d.attorneys.set i a' }) := by
  obtain ⟨op, hop, hread⟩ := ofChanges_of_validate hvalid
  rw [Command.carryOut_eq]
  refine ⟨fun htype => ?_, fun htype => ?_, fun htype => ?_⟩
  · obtain rfl := Option.some.inj (hop.symm.trans htype)
    rw [Command.ofChanges] at hread
    have hnone : ((AttorneySign.script d).read none u.changes).2 = [] := (Prod.mk.inj hread).2
    obtain ⟨i, s, a, hchosen, hhits⟩ :=
      AttorneySign.exists_hits hnone (isBlank_new hvalid htype rfl)
    have hmade := Command.make_eq_of_reading hread hchosen
    obtain rfl : Command.attorneySign i s = c := hmade
    refine ⟨i, a, s.signed a, hhits, ?_⟩
    show Procedure.outcome d (s.apply i d) = _
    rw [AttorneySign.apply_of_getElem? hhits.there, apply_ite (Procedure.outcome d)]
    rfl
  · obtain rfl := Option.some.inj (hop.symm.trans htype)
    rw [Command.ofChanges] at hread
    have hnone : ((TrustCorporationSign.script d).read none u.changes).2 = [] := (Prod.mk.inj hread).2
    obtain ⟨i, s, t, hchosen, hhits⟩ :=
      TrustCorporationSign.exists_hits hnone (isBlank_new hvalid htype rfl)
    have hmade := Command.make_eq_of_reading hread hchosen
    obtain rfl : Command.trustCorporationSign i s = c := hmade
    refine ⟨i, t, s.signed t, hhits, ?_⟩
    show Procedure.outcome d (s.apply i d) = _
    rw [TrustCorporationSign.apply_of_getElem? hhits.there, apply_ite (Procedure.outcome d)]
    rfl
  · obtain rfl := Option.some.inj (hop.symm.trans htype)
    rw [Command.ofChanges] at hread
    have hnone : ((AttorneyAccess.script d).read none u.changes).2 = [] := (Prod.mk.inj hread).2
    obtain ⟨i, email, a, hchosen, hhits⟩ := AttorneyAccess.exists_hits hnone
    have hmade := Command.make_eq_of_reading hread hchosen
    obtain rfl : Command.attorneyAccess i email = c := hmade
    refine ⟨i, a, _, hhits, ?_⟩
    show Procedure.outcome d (AttorneyAccess.apply i email d) = _
    rw [AttorneyAccess.apply_of_getElem? hhits.there, apply_ite (Procedure.outcome d)]
    rfl

/-- An attorney signs, a trust corporation does by two directors, the second one named first, and another
    attorney is given an address. A plus sign does not make another party of an index. -/
theorem Update.hits_one_party_ofUnsignedParties :
    let d := Document.ofUnsignedParties
    let signs : Update := ⟨"", "", none, "", "ATTORNEY_SIGN",
      [⟨"/attorneys/0/signedAt", .null, .str "2024-01-02T10:00:00Z"⟩,
        ⟨"/attorneys/+0/contactLanguagePreference", .null, .str "en"⟩,
        ⟨"/attorneys/0/mobile", .null, .str "07"⟩]⟩
    let corporationSigns : Update := ⟨"", "", none, "", "TRUST_CORPORATION_SIGN",
      [⟨"/trustCorporations/0/signatories/1/firstNames", .null, .str "Bea"⟩,
        ⟨"/trustCorporations/0/signatories/1/lastName", .null, .str "Birch"⟩,
        ⟨"/trustCorporations/0/signatories/1/professionalTitle", .null, .str "Director"⟩,
        ⟨"/trustCorporations/0/signatories/1/signedAt", .null, .str "2024-01-03T10:00:00Z"⟩,
        ⟨"/trustCorporations/0/signatories/0/firstNames", .null, .str "Al"⟩,
        ⟨"/trustCorporations/0/signatories/0/lastName", .null, .str "Ash"⟩,
        ⟨"/trustCorporations/0/signatories/0/professionalTitle", .null, .str "Director"⟩,
        ⟨"/trustCorporations/0/signatories/0/signedAt", .null, .str "2024-01-02T10:00:00Z"⟩,
        ⟨"/trustCorporations/0/contactLanguagePreference", .null, .str "cy"⟩]⟩
    let isReached : Update := ⟨"", "", none, "", "PAPER_ATTORNEY_ACCESS_ONLINE",
      [⟨"/attorneys/b/email", .null, .str "cy@example.com"⟩]⟩
    let now : Instant := .ofNanoseconds 1
    ∃ c c' c'' d₁ d₂ d₃, signs.validate d = .ok c ∧ corporationSigns.validate d = .ok c' ∧
      isReached.validate d = .ok c'' ∧ c.carryOut now d = .ok () d₁ ∧ c'.carryOut now d = .ok () d₂ ∧
      c''.carryOut now d = .ok () d₃ ∧ d₁.attorneys.map (·.mobile) = ["07", ""] ∧
      d₂.trustCorporations.map (fun t => t.signatories.map (·.firstNames)) = [["Al", "Bea"]] ∧
      d₃.attorneys.map (·.email) = ["", "cy@example.com"] ∧
      (∃ i a a', PartyOperation.attorneySign.Hits Attorney.shows Attorney.SignsAs d signs.changes i a a') ∧
      (∃ i t t', PartyOperation.trustCorporationSign.Hits TrustCorporation.shows TrustCorporation.SignsAs d
        corporationSigns.changes i t t') ∧
      ∃ i a a', PartyOperation.attorneyAccess.Hits Attorney.shows Attorney.IsReachedAs d isReached.changes
        i a a' := by
  intro d signs corporationSigns isReached now
  let first := Instant.parse? "2024-01-02T10:00:00Z"
  let second := Instant.parse? "2024-01-03T10:00:00Z"
  have hsigns : signs.validate d = .ok (.attorneySign 0 ⟨"07", first, some .english⟩) := by
    decide +kernel
  have hcorporationSigns : corporationSigns.validate d = .ok (.trustCorporationSign 0
      ⟨"", ⟨"Al", "Ash", "Director", first⟩, ⟨"Bea", "Birch", "Director", second⟩, some .welsh⟩) := by
    decide +kernel
  have hisReached : isReached.validate d = .ok (.attorneyAccess 1 "cy@example.com") := by
    decide +kernel
  obtain ⟨i, a, a', hattorney, _⟩ := (hits_one_party hsigns now).1 (by decide +kernel)
  obtain ⟨j, t, t', htrustCorporation, _⟩ :=
    (hits_one_party hcorporationSigns now).2.1 (by decide +kernel)
  obtain ⟨k, b, b', haccess, _⟩ := (hits_one_party hisReached now).2.2 (by decide +kernel)
  exact ⟨_, _, _, _, _, _, hsigns, hcorporationSigns, hisReached, rfl, rfl, rfl, rfl, rfl, rfl,
    ⟨i, a, a', hattorney⟩, ⟨j, t, t', htrustCorporation⟩, k, b, b', haccess⟩

end PowerOfAttorney
