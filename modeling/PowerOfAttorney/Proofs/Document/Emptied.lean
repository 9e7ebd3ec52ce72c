import PowerOfAttorney.Proofs.Document.Holds

/-!
# `PowerOfAttorney.Proofs.Document.Emptied` — what a document is besides the fields that updates name

`Document.holds` shows the fields that some update may name. The rest of a document is what is left when
these are emptied: uids, channels, appointments and the like, and how many entries each list has. Together
with what is held, the rest is the whole document, but for its notes and for whether a part is absent or
there with nothing in it.

## Contents
- **Fields.** `Held.value_inj`, for one field.
- **People.** `Donor.emptied` and so on, each with `eq_of_holds`: a record is known from what it holds and
  from what is left of it.
- **Entries.** `Entries.eq_of_holds`, for lists.
- **The document.** `Document.emptied` and `Document.eq_of_holds`.
-/

namespace PowerOfAttorney

/-! ## Fields -/

/-- A field of a known type holds one value. -/
theorem Held.value_inj {t : FieldType} {v w : t.Value} (h : some (Held.mk t v) = some (Held.mk t w)) :
    v = w := by
  cases h
  rfl

/-! ## People -/

/-- All of an address is held. -/
theorem Address.eq_of_holds {a a' : Address} (h : ∀ p, a'.holds p = a.holds p) : a' = a := by
  have hline1 : a'.line1 = a.line1 := Held.value_inj (t := .text) (h [.name "line1"])
  have hline2 : a'.line2 = a.line2 := Held.value_inj (t := .text) (h [.name "line2"])
  have hline3 : a'.line3 = a.line3 := Held.value_inj (t := .text) (h [.name "line3"])
  have htown : a'.town = a.town := Held.value_inj (t := .text) (h [.name "town"])
  have hpostcode : a'.postcode = a.postcode := Held.value_inj (t := .text) (h [.name "postcode"])
  have hcountry : a'.country = a.country := Held.value_inj (t := .text) (h [.name "country"])
  cases a
  cases a'
  simp_all

/-- So is all of an identity check, and whether there is one. -/
theorem IdentityCheck.eq_of_holds {c c' : Option IdentityCheck}
    (h : ∀ p, IdentityCheck.holds c' p = IdentityCheck.holds c p) : c' = c := by
  have hkind : c'.map (·.kind) = c.map (·.kind) :=
    Held.value_inj (t := .maybeWord .identityCheckKind) (h [.name "type"])
  have hcheckedAt : c'.map (·.checkedAt) = c.map (·.checkedAt) :=
    Held.value_inj (t := .time) (h [.name "checkedAt"])
  have hreference : (c'.map (·.reference)).getD "" = (c.map (·.reference)).getD "" :=
    Held.value_inj (t := .text) (h [.name "reference"])
  cases c with
  | none => simpa using hkind
  | some x =>
      cases c' with
      | none => simp at hkind
      | some x' =>
          cases x
          cases x'
          simp_all

/-- A donor without the fields that updates name. -/
def Donor.emptied (d : Donor) : Donor :=
  { uid := d.uid, contactLanguage := d.contactLanguage }

theorem Donor.eq_of_holds {d d' : Donor} (hrest : d'.emptied = d.emptied)
    (h : ∀ p, d'.holds p = d.holds p) : d' = d := by
  have hfirstNames : d'.firstNames = d.firstNames :=
    Held.value_inj (t := .text) (h [.name "firstNames"])
  have hlastName : d'.lastName = d.lastName := Held.value_inj (t := .text) (h [.name "lastName"])
  have hotherNames : d'.otherNamesKnownBy = d.otherNamesKnownBy :=
    Held.value_inj (t := .text) (h [.name "otherNamesKnownBy"])
  have hdateOfBirth : d'.dateOfBirth = d.dateOfBirth :=
    Held.value_inj (t := .date) (h [.name "dateOfBirth"])
  have hemail : d'.email = d.email := Held.value_inj (t := .text) (h [.name "email"])
  have haddress : d'.address = d.address := Address.eq_of_holds fun p => h (.name "address" :: p)
  have hcheck : d'.identityCheck = d.identityCheck :=
    IdentityCheck.eq_of_holds fun p => h (.name "identityCheck" :: p)
  cases d
  cases d'
  simp_all [emptied]

/-- An attorney without them. -/
def Attorney.emptied (a : Attorney) : Attorney where
  uid := a.uid
  firstNames := ""
  lastName := ""
  dateOfBirth := none
  email := ""
  mobile := ""
  address := {}
  status := .inactive
  appointment := a.appointment
  channel := a.channel
  signedAt := none
  contactLanguage := a.contactLanguage
  cannotMakeJointDecisions := false

theorem Attorney.eq_of_holds {a a' : Attorney} (hrest : a'.emptied = a.emptied)
    (h : ∀ p, a'.holds p = a.holds p) : a' = a := by
  have hfirstNames : a'.firstNames = a.firstNames :=
    Held.value_inj (t := .text) (h [.name "firstNames"])
  have hlastName : a'.lastName = a.lastName := Held.value_inj (t := .text) (h [.name "lastName"])
  have hdateOfBirth : a'.dateOfBirth = a.dateOfBirth :=
    Held.value_inj (t := .date) (h [.name "dateOfBirth"])
  have hemail : a'.email = a.email := Held.value_inj (t := .text) (h [.name "email"])
  have hmobile : a'.mobile = a.mobile := Held.value_inj (t := .text) (h [.name "mobile"])
  have haddress : a'.address = a.address := Address.eq_of_holds fun p => h (.name "address" :: p)
  have hstatus : a'.status = a.status :=
    Held.value_inj (t := .word .attorneyStatus) (h [.name "status"])
  have hsignedAt : a'.signedAt = a.signedAt := Held.value_inj (t := .time) (h [.name "signedAt"])
  have hexcepted : a'.cannotMakeJointDecisions = a.cannotMakeJointDecisions :=
    Held.value_inj (t := .flag) (h [.name "cannotMakeJointDecisions"])
  cases a
  cases a'
  simp_all [emptied]

/-- All of a signatory is held. -/
theorem Signatory.eq_of_holds {s s' : Signatory} (h : ∀ p, s'.holds p = s.holds p) : s' = s := by
  have hfirstNames : s'.firstNames = s.firstNames :=
    Held.value_inj (t := .text) (h [.name "firstNames"])
  have hlastName : s'.lastName = s.lastName := Held.value_inj (t := .text) (h [.name "lastName"])
  have htitle : s'.professionalTitle = s.professionalTitle :=
    Held.value_inj (t := .text) (h [.name "professionalTitle"])
  have hsignedAt : s'.signedAt = s.signedAt := Held.value_inj (t := .time) (h [.name "signedAt"])
  cases s
  cases s'
  simp_all

/-! ## Entries -/

/-- Entries that hold the same, and of which the same is left, are the same. -/
theorem Entries.eq_of_holds {α : Type} {holds : α → Place → Option Held} {emptied : α → α}
    (heq : ∀ x x', emptied x' = emptied x → (∀ p, holds x' p = holds x p) → x' = x) {xs xs' : List α}
    (hrest : xs'.map emptied = xs.map emptied)
    (h : ∀ p, Entries.holds holds xs' p = Entries.holds holds xs p) : xs' = xs := by
  refine List.ext_getElem? ?_
  intro i
  have hentry : (xs'[i]?).map emptied = (xs[i]?).map emptied := by
    rw [← List.getElem?_map, ← List.getElem?_map, hrest]
  have hheld : ∀ p, (xs'[i]?).bind (fun x => holds x p) = (xs[i]?).bind fun x => holds x p :=
    fun p => h (.index i :: p)
  cases hx : xs[i]? with
  | none =>
      rw [hx, Option.map_none, Option.map_eq_none_iff] at hentry
      exact hentry
  | some x =>
      cases hx' : xs'[i]? with
      | none => simp [hx, hx'] at hentry
      | some x' =>
          rw [hx, hx'] at hentry hheld
          rw [heq x x' (Option.some.inj hentry) hheld]

/-- A trust corporation without the fields that updates name. Of its signatories it is left how many there
    are. -/
def TrustCorporation.emptied (t : TrustCorporation) : TrustCorporation where
  uid := t.uid
  name := ""
  companyNumber := ""
  email := ""
  mobile := ""
  address := {}
  status := t.status
  appointment := t.appointment
  channel := t.channel
  signatories := t.signatories.map fun _ => {}
  contactLanguage := t.contactLanguage

theorem TrustCorporation.eq_of_holds {t t' : TrustCorporation} (hrest : t'.emptied = t.emptied)
    (h : ∀ p, t'.holds p = t.holds p) : t' = t := by
  have hname : t'.name = t.name := Held.value_inj (t := .text) (h [.name "name"])
  have hnumber : t'.companyNumber = t.companyNumber :=
    Held.value_inj (t := .text) (h [.name "companyNumber"])
  have hemail : t'.email = t.email := Held.value_inj (t := .text) (h [.name "email"])
  have hmobile : t'.mobile = t.mobile := Held.value_inj (t := .text) (h [.name "mobile"])
  have haddress : t'.address = t.address := Address.eq_of_holds fun p => h (.name "address" :: p)
  have hsignatories : t'.signatories = t.signatories :=
    Entries.eq_of_holds (fun _ _ _ hheld => Signatory.eq_of_holds hheld)
      (congrArg TrustCorporation.signatories hrest) fun p => h (.name "signatories" :: p)
  cases t
  cases t'
  simp_all [emptied]

/-! ## The document -/

/-- A certificate provider without them. -/
def CertificateProvider.emptied (p : CertificateProvider) : CertificateProvider where
  uid := p.uid
  firstNames := ""
  lastName := ""
  email := ""
  phone := ""
  address := {}
  channel := p.channel
  signedAt := none
  contactLanguage := p.contactLanguage
  identityCheck := none

theorem CertificateProvider.eq_of_holds {p p' : CertificateProvider} (hrest : p'.emptied = p.emptied)
    (h : ∀ b, p'.holds b = p.holds b) : p' = p := by
  have hfirstNames : p'.firstNames = p.firstNames :=
    Held.value_inj (t := .text) (h [.name "firstNames"])
  have hlastName : p'.lastName = p.lastName := Held.value_inj (t := .text) (h [.name "lastName"])
  have hemail : p'.email = p.email := Held.value_inj (t := .text) (h [.name "email"])
  have hphone : p'.phone = p.phone := Held.value_inj (t := .text) (h [.name "phone"])
  have haddress : p'.address = p.address := Address.eq_of_holds fun b => h (.name "address" :: b)
  have hsignedAt : p'.signedAt = p.signedAt := Held.value_inj (t := .time) (h [.name "signedAt"])
  have hcheck : p'.identityCheck = p.identityCheck :=
    IdentityCheck.eq_of_holds fun b => h (.name "identityCheck" :: b)
  cases p
  cases p'
  simp_all [emptied]

/-- Of an authorised signatory the uid is left. -/
def AuthorisedSignatory.emptied (s : AuthorisedSignatory) : AuthorisedSignatory :=
  { uid := s.uid }

theorem AuthorisedSignatory.eq_of_holds {s s' : AuthorisedSignatory} (hrest : s'.emptied = s.emptied)
    (h : ∀ p, s'.holds p = s.holds p) : s' = s := by
  have hfirstNames : s'.firstNames = s.firstNames :=
    Held.value_inj (t := .text) (h [.name "firstNames"])
  have hlastName : s'.lastName = s.lastName := Held.value_inj (t := .text) (h [.name "lastName"])
  cases s
  cases s'
  simp_all [emptied]

/-- So it is of an independent witness. -/
def IndependentWitness.emptied (w : IndependentWitness) : IndependentWitness :=
  { uid := w.uid }

theorem IndependentWitness.eq_of_holds {w w' : IndependentWitness} (hrest : w'.emptied = w.emptied)
    (h : ∀ p, w'.holds p = w.holds p) : w' = w := by
  have hfirstNames : w'.firstNames = w.firstNames :=
    Held.value_inj (t := .text) (h [.name "firstNames"])
  have hlastName : w'.lastName = w.lastName := Held.value_inj (t := .text) (h [.name "lastName"])
  have hphone : w'.phone = w.phone := Held.value_inj (t := .text) (h [.name "phone"])
  have haddress : w'.address = w.address := Address.eq_of_holds fun p => h (.name "address" :: p)
  cases w
  cases w'
  simp_all [emptied]

/-- Something that is there or not is known from whether it is there and from what it reads as. -/
theorem eq_of_getD {α : Type} {x x' : Option α} {default : α} (hsome : x'.isSome = x.isSome)
    (h : x'.getD default = x.getD default) : x' = x := by
  cases x with
  | none => simpa using hsome
  | some v =>
      cases x' with
      | none => simp at hsome
      | some v' =>
          rw [Option.getD_some, Option.getD_some] at h
          rw [h]

/-- No decision is made. -/
def Decisions.unmade : Decisions :=
  ⟨none, "", none, "", none, "", none, none⟩

/-- All of the decisions is held. -/
theorem Decisions.eq_of_holds {s s' : Decisions} (h : ∀ p, s'.holds p = s.holds p) : s' = s := by
  have hattorneys : s'.attorneysDecide = s.attorneysDecide :=
    Held.value_inj (t := .maybeWord .decisionMode) (h [.name "howAttorneysMakeDecisions"])
  have hattorneysDetails : s'.attorneysDecideDetails = s.attorneysDecideDetails :=
    Held.value_inj (t := .text) (h [.name "howAttorneysMakeDecisionsDetails"])
  have hstepIn : s'.replacementsStepIn = s.replacementsStepIn :=
    Held.value_inj (t := .maybeWord .stepIn) (h [.name "howReplacementAttorneysStepIn"])
  have hstepInDetails : s'.replacementsStepInDetails = s.replacementsStepInDetails :=
    Held.value_inj (t := .text) (h [.name "howReplacementAttorneysStepInDetails"])
  have hreplacements : s'.replacementsDecide = s.replacementsDecide :=
    Held.value_inj (t := .maybeWord .decisionMode) (h [.name "howReplacementAttorneysMakeDecisions"])
  have hreplacementsDetails : s'.replacementsDecideDetails = s.replacementsDecideDetails :=
    Held.value_inj (t := .text) (h [.name "howReplacementAttorneysMakeDecisionsDetails"])
  have htreatment : s'.lifeSustainingTreatment = s.lifeSustainingTreatment :=
    Held.value_inj (t := .maybeWord .lifeSustainingTreatment)
      (h [.name "lifeSustainingTreatmentOption"])
  have husable : s'.usableWhen = s.usableWhen :=
    Held.value_inj (t := .maybeWord .usableWhen) (h [.name "whenTheLpaCanBeUsed"])
  cases s
  cases s'
  simp_all

namespace Document

/-- A document without the fields that updates name, and without its notes. A part that may be absent is
    there. -/
def emptied (d : Document) : Document where
  uid := d.uid
  status := .inProgress
  kind := d.kind
  channel := d.channel
  donor := d.donor.emptied
  attorneys := d.attorneys.map Attorney.emptied
  trustCorporations := d.trustCorporations.map TrustCorporation.emptied
  certificateProvider := d.certificateProvider.emptied
  authorisedSignatory := some (d.authorisedSignatory.getD {}).emptied
  independentWitness := some (d.independentWitness.getD {}).emptied
  decisions := .unmade
  restrictions := ""
  restrictionImages := d.restrictionImages
  signedAt := none
  witnessedByCertificateProviderAt := none
  witnessedByIndependentWitnessAt := none
  certificateProviderNotRelatedConfirmedAt := d.certificateProviderNotRelatedConfirmedAt
  registrationDate := d.registrationDate
  updatedAt := d.updatedAt
  notes := []

/-- The decisions are held among the fields of the document itself. -/
theorem holds_decisions {d d' : Document} (h : ∀ p, d'.holds p = d.holds p) (p : Place) :
    d'.decisions.holds p = d.decisions.holds p := by
  unfold Decisions.holds
  split
  case h_1 => exact h [.name "howAttorneysMakeDecisions"]
  case h_2 => exact h [.name "howAttorneysMakeDecisionsDetails"]
  case h_3 => exact h [.name "howReplacementAttorneysStepIn"]
  case h_4 => exact h [.name "howReplacementAttorneysStepInDetails"]
  case h_5 => exact h [.name "howReplacementAttorneysMakeDecisions"]
  case h_6 => exact h [.name "howReplacementAttorneysMakeDecisionsDetails"]
  case h_7 => exact h [.name "lifeSustainingTreatmentOption"]
  case h_8 => exact h [.name "whenTheLpaCanBeUsed"]
  case h_9 => rfl

/-- **A document is what it holds and what is left of it**, with the parts that are there and its notes. -/
theorem eq_of_holds {d d' : Document} (hrest : d'.emptied = d.emptied)
    (h : ∀ p, d'.holds p = d.holds p)
    (hauthorised : d'.authorisedSignatory.isSome = d.authorisedSignatory.isSome)
    (hwitness : d'.independentWitness.isSome = d.independentWitness.isSome)
    (hnotes : d'.notes = d.notes) : d' = d := by
  have hdonor : d'.donor = d.donor :=
    Donor.eq_of_holds (congrArg donor hrest) fun p => h (.name "donor" :: p)
  have hattorneys : d'.attorneys = d.attorneys :=
    Entries.eq_of_holds (fun _ _ => Attorney.eq_of_holds) (congrArg attorneys hrest)
      fun p => h (.name "attorneys" :: p)
  have htrustCorporations : d'.trustCorporations = d.trustCorporations :=
    Entries.eq_of_holds (fun _ _ => TrustCorporation.eq_of_holds) (congrArg trustCorporations hrest)
      fun p => h (.name "trustCorporations" :: p)
  have hprovider : d'.certificateProvider = d.certificateProvider :=
    CertificateProvider.eq_of_holds (congrArg certificateProvider hrest)
      fun p => h (.name "certificateProvider" :: p)
  have hsigner : d'.authorisedSignatory.getD {} = d.authorisedSignatory.getD {} :=
    AuthorisedSignatory.eq_of_holds (Option.some.inj (congrArg authorisedSignatory hrest))
      fun p => h (.name "authorisedSignatory" :: p)
  have hreader : d'.independentWitness.getD {} = d.independentWitness.getD {} :=
    IndependentWitness.eq_of_holds (Option.some.inj (congrArg independentWitness hrest))
      fun p => h (.name "independentWitness" :: p)
  have hsigner' := eq_of_getD hauthorised hsigner
  have hreader' := eq_of_getD hwitness hreader
  have hsignedAt : d'.signedAt = d.signedAt := Held.value_inj (t := .time) (h [.name "signedAt"])
  have hbyProvider : d'.witnessedByCertificateProviderAt = d.witnessedByCertificateProviderAt :=
    Held.value_inj (t := .time) (h [.name "witnessedByCertificateProviderAt"])
  have hbyWitness : d'.witnessedByIndependentWitnessAt = d.witnessedByIndependentWitnessAt :=
    Held.value_inj (t := .time) (h [.name "witnessedByIndependentWitnessAt"])
  have hstatus : d'.status = d.status := Held.value_inj (t := .word .status) (h [.name "status"])
  have hrestrictions : d'.restrictions = d.restrictions :=
    Held.value_inj (t := .text) (h [.name "restrictionsAndConditions"])
  have hdecisions : d'.decisions = d.decisions := Decisions.eq_of_holds (holds_decisions h)
  cases d
  cases d'
  simp_all [emptied]

end Document

end PowerOfAttorney
