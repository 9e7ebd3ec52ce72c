/-!
# `PowerOfAttorney.Vocabulary` — fixed vocabularies

The closed sets of words in a document and in an update, each word with its one text.

## Contents
- **The class.** `Word`: all words of a type and their texts, no two alike; `Word.ofText?` reads.
- **Words of documents.** Status, kind and channel of a document, the standing of an attorney, and
  the choices the donor makes.
- **Words of updates.** `Operation`, what an update may do.
-/

namespace PowerOfAttorney

/-- A type of finitely many words with texts that tell them apart. -/
class Word (ω : Type) where
  /-- Every word, in the order of its declaration. -/
  all : List ω
  /-- The text that stands for a word. -/
  text : ω → String
  mem_all : ∀ w, w ∈ all
  text_injective : ∀ v w, text v = text w → v = w

namespace Word

variable {ω : Type} [Word ω]

/-- The word that a text stands for. -/
def ofText? (s : String) : Option ω :=
  (all : List ω).find? fun w => text w == s

theorem ofText?_text (w : ω) : ofText? (text w) = some w := by
  have h : (ofText? (text w) : Option ω).isSome := by
    simp only [ofText?, List.find?_isSome]
    exact ⟨w, mem_all w, by simp⟩
  obtain ⟨v, hv⟩ := Option.isSome_iff_exists.mp h
  have ht := List.find?_some hv
  rw [hv, text_injective v w (by simpa using ht)]

theorem ofText?_eq_some_iff {s : String} {w : ω} : ofText? s = some w ↔ text w = s := by
  constructor
  · intro h
    simpa using List.find?_some h
  · rintro rfl
    exact ofText?_text w

end Word

/-! ## Words of documents -/

/-- Where a document stands in its life. -/
inductive Status
  | inProgress
  | perfect
  | statutoryWaitingPeriod
  | registered
  | cannotRegister
  | withdrawn
  | cancelled
  | doNotRegister
  | expired
deriving DecidableEq

/-- What a document gives power over. -/
inductive Kind
  | propertyAndAffairs
  | personalWelfare
deriving DecidableEq

/-- How a party takes part. -/
inductive Channel
  | online
  | paper
deriving DecidableEq

/-- The language in which a party wishes to be written to. -/
inductive Language
  | welsh
  | english
deriving DecidableEq

/-- Whether an attorney may act now, may step in later, or has left. -/
inductive AttorneyStatus
  | active
  | inactive
  | removed
deriving DecidableEq

/-- Whether an attorney acts from the start or replaces one who does. -/
inductive Appointment
  | original
  | replacement
deriving DecidableEq

/-- How several attorneys decide. -/
inductive DecisionMode
  | jointly
  | jointlyAndSeverally
  | jointlyForSomeSeverallyForOthers
deriving DecidableEq

/-- When replacement attorneys step in. -/
inductive StepIn
  | allCanNoLongerAct
  | oneCanNoLongerAct
  | anotherWay
deriving DecidableEq

/-- When the document can be used. -/
inductive UsableWhen
  | capacityLost
  | hasCapacity
deriving DecidableEq

/-- Who decides on life-sustaining treatment. -/
inductive LifeSustainingTreatment
  | optionA
  | optionB
deriving DecidableEq

/-- How an identity was checked. -/
inductive IdentityCheckKind
  | oneLogin
  | paperId
deriving DecidableEq

instance : Word Status where
  all := [.inProgress, .perfect, .statutoryWaitingPeriod, .registered, .cannotRegister, .withdrawn,
    .cancelled, .doNotRegister, .expired]
  text
    | .inProgress => "in-progress"
    | .perfect => "perfect"
    | .statutoryWaitingPeriod => "statutory-waiting-period"
    | .registered => "registered"
    | .cannotRegister => "cannot-register"
    | .withdrawn => "withdrawn"
    | .cancelled => "cancelled"
    | .doNotRegister => "do-not-register"
    | .expired => "expired"
  mem_all w := by cases w <;> decide
  text_injective v w := by cases v <;> cases w <;> decide

instance : Word Kind where
  all := [.propertyAndAffairs, .personalWelfare]
  text
    | .propertyAndAffairs => "property-and-affairs"
    | .personalWelfare => "personal-welfare"
  mem_all w := by cases w <;> decide
  text_injective v w := by cases v <;> cases w <;> decide

instance : Word Channel where
  all := [.online, .paper]
  text
    | .online => "online"
    | .paper => "paper"
  mem_all w := by cases w <;> decide
  text_injective v w := by cases v <;> cases w <;> decide

instance : Word Language where
  all := [.welsh, .english]
  text
    | .welsh => "cy"
    | .english => "en"
  mem_all w := by cases w <;> decide
  text_injective v w := by cases v <;> cases w <;> decide

instance : Word AttorneyStatus where
  all := [.active, .inactive, .removed]
  text
    | .active => "active"
    | .inactive => "inactive"
    | .removed => "removed"
  mem_all w := by cases w <;> decide
  text_injective v w := by cases v <;> cases w <;> decide

instance : Word Appointment where
  all := [.original, .replacement]
  text
    | .original => "original"
    | .replacement => "replacement"
  mem_all w := by cases w <;> decide
  text_injective v w := by cases v <;> cases w <;> decide

instance : Word DecisionMode where
  all := [.jointly, .jointlyAndSeverally, .jointlyForSomeSeverallyForOthers]
  text
    | .jointly => "jointly"
    | .jointlyAndSeverally => "jointly-and-severally"
    | .jointlyForSomeSeverallyForOthers => "jointly-for-some-severally-for-others"
  mem_all w := by cases w <;> decide
  text_injective v w := by cases v <;> cases w <;> decide

instance : Word StepIn where
  all := [.allCanNoLongerAct, .oneCanNoLongerAct, .anotherWay]
  text
    | .allCanNoLongerAct => "all-can-no-longer-act"
    | .oneCanNoLongerAct => "one-can-no-longer-act"
    | .anotherWay => "another-way"
  mem_all w := by cases w <;> decide
  text_injective v w := by cases v <;> cases w <;> decide

instance : Word UsableWhen where
  all := [.capacityLost, .hasCapacity]
  text
    | .capacityLost => "when-capacity-lost"
    | .hasCapacity => "when-has-capacity"
  mem_all w := by cases w <;> decide
  text_injective v w := by cases v <;> cases w <;> decide

instance : Word LifeSustainingTreatment where
  all := [.optionA, .optionB]
  text
    | .optionA => "option-a"
    | .optionB => "option-b"
  mem_all w := by cases w <;> decide
  text_injective v w := by cases v <;> cases w <;> decide

instance : Word IdentityCheckKind where
  all := [.oneLogin, .paperId]
  text
    | .oneLogin => "one-login"
    | .paperId => "opg-paper-id"
  mem_all w := by cases w <;> decide
  text_injective v w := by cases v <;> cases w <;> decide

/-! ## Words of updates -/

/-- What an update may do to a document. -/
inductive Operation
  | certificateProviderSign
  | attorneySign
  | trustCorporationSign
  | attorneyOptOut
  | certificateProviderOptOut
  | trustCorporationOptOut
  | donorWithdraw
  | perfect
  | register
  | statutoryWaitingPeriod
  | statusChange
  | correction
  | postRegistrationCorrection
  | attorneyDecisions
  | changeAttorneys
  | attorneyAccessOnline
  | certificateProviderAccessOnline
  | severRestrictions
  | donorConfirmIdentity
  | certificateProviderConfirmIdentity
deriving DecidableEq

instance : Word Operation where
  all := [.certificateProviderSign, .attorneySign, .trustCorporationSign, .attorneyOptOut,
    .certificateProviderOptOut, .trustCorporationOptOut, .donorWithdraw, .perfect, .register,
    .statutoryWaitingPeriod, .statusChange, .correction, .postRegistrationCorrection,
    .attorneyDecisions, .changeAttorneys, .attorneyAccessOnline, .certificateProviderAccessOnline,
    .severRestrictions, .donorConfirmIdentity, .certificateProviderConfirmIdentity]
  text
    | .certificateProviderSign => "CERTIFICATE_PROVIDER_SIGN"
    | .attorneySign => "ATTORNEY_SIGN"
    | .trustCorporationSign => "TRUST_CORPORATION_SIGN"
    | .attorneyOptOut => "ATTORNEY_OPT_OUT"
    | .certificateProviderOptOut => "CERTIFICATE_PROVIDER_OPT_OUT"
    | .trustCorporationOptOut => "TRUST_CORPORATION_OPT_OUT"
    | .donorWithdraw => "DONOR_WITHDRAW_LPA"
    | .perfect => "PERFECT"
    | .register => "REGISTER"
    | .statutoryWaitingPeriod => "STATUTORY_WAITING_PERIOD"
    | .statusChange => "OPG_STATUS_CHANGE"
    | .correction => "CORRECTION"
    | .postRegistrationCorrection => "POST_REGISTRATION_CORRECTION"
    | .attorneyDecisions => "ATTORNEY_DECISIONS"
    | .changeAttorneys => "CHANGE_ATTORNEYS"
    | .attorneyAccessOnline => "PAPER_ATTORNEY_ACCESS_ONLINE"
    | .certificateProviderAccessOnline => "PAPER_CERTIFICATE_PROVIDER_ACCESS_ONLINE"
    | .severRestrictions => "SEVER_RESTRICTIONS_AND_CONDITIONS"
    | .donorConfirmIdentity => "DONOR_CONFIRM_IDENTITY"
    | .certificateProviderConfirmIdentity => "CERTIFICATE_PROVIDER_CONFIRM_IDENTITY"
  mem_all w := by cases w <;> decide
  text_injective v w := by cases v <;> cases w <;> decide

end PowerOfAttorney
