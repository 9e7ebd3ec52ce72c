import PowerOfAttorney.Json.Value
import PowerOfAttorney.Time.Date
import PowerOfAttorney.Time.Instant
import PowerOfAttorney.Vocabulary

/-!
# `PowerOfAttorney.Change.FieldType` — the types of fields

What a field may hold, how a JSON value is decoded for it, when a JSON value agrees with what it
holds, and the checks that a decoded value may have to pass.

## Contents
- **Types.** `Choice` names a vocabulary, `FieldType` a type of field with its `FieldType.Value`.
- **Faults.** `ValueFault` and its wording.
- **Decoding.** `FieldType.decode`. Null and the empty string both stand for a field that holds
  nothing.
- **Agreement.** `FieldType.agrees` compares a held value with a claimed one.
- **Checks.** `Check.fault?` on what `FieldType.view` shows of a value.
-/

namespace PowerOfAttorney

/-- A vocabulary that a field may choose from. -/
inductive Choice
  | status
  | attorneyStatus
  | channel
  | language
  | decisionMode
  | stepIn
  | usableWhen
  | lifeSustainingTreatment
  | identityCheckKind
deriving DecidableEq

/-- The words of a vocabulary. -/
abbrev Choice.Of : Choice → Type
  | .status => Status
  | .attorneyStatus => AttorneyStatus
  | .channel => Channel
  | .language => Language
  | .decisionMode => DecisionMode
  | .stepIn => StepIn
  | .usableWhen => UsableWhen
  | .lifeSustainingTreatment => LifeSustainingTreatment
  | .identityCheckKind => IdentityCheckKind

instance (c : Choice) : Word c.Of :=
  match c with
  | .status => inferInstanceAs (Word Status)
  | .attorneyStatus => inferInstanceAs (Word AttorneyStatus)
  | .channel => inferInstanceAs (Word Channel)
  | .language => inferInstanceAs (Word Language)
  | .decisionMode => inferInstanceAs (Word DecisionMode)
  | .stepIn => inferInstanceAs (Word StepIn)
  | .usableWhen => inferInstanceAs (Word UsableWhen)
  | .lifeSustainingTreatment => inferInstanceAs (Word LifeSustainingTreatment)
  | .identityCheckKind => inferInstanceAs (Word IdentityCheckKind)

/-- The type of a field. -/
inductive FieldType
  | text
  | flag
  | time
  | date
  /-- A word that is always chosen. -/
  | word (c : Choice)
  /-- A word that may be left open. -/
  | maybeWord (c : Choice)
deriving DecidableEq

/-- What a field of a type holds. -/
abbrev FieldType.Value : FieldType → Type
  | .text => String
  | .flag => Bool
  | .time => Option Instant
  | .date => Option Date
  | .word c => c.Of
  | .maybeWord c => Option c.Of

/-- What is wrong with a value for a field. -/
inductive ValueFault
  | required
  | unexpectedType
  | notProvided
  | invalidValue
  | invalidFormat
  | countryCode
deriving DecidableEq

/-- The wording of a fault. -/
def ValueFault.message : ValueFault → String
  | .required => "field is required"
  | .unexpectedType => "unexpected type"
  | .notProvided => "field must not be provided"
  | .invalidValue => "invalid value"
  | .invalidFormat => "invalid format"
  | .countryCode => "must be a valid ISO-3166-1 country code"

namespace FieldType

/-! ## Decoding -/

/-- A string, of which the empty one is nothing. -/
def decodeMaybe {α : Type} (read : String → Option α) (unread : ValueFault) :
    Json → Except ValueFault (Option α)
  | .null => .ok none
  | .str s =>
    if s.isEmpty then .ok none
    else
      match read s with
      | some a => .ok (some a)
      | none => .error unread
  | _ => .error .unexpectedType

/-- The value of a field that a JSON value stands for. -/
def decode : (t : FieldType) → Json → Except ValueFault t.Value
  | .text, .str s => .ok s
  | .text, .null => .ok ""
  | .text, _ => .error .unexpectedType
  | .flag, .bool b => .ok b
  | .flag, .null => .ok false
  | .flag, _ => .error .unexpectedType
  | .time, j => decodeMaybe Instant.parse? .unexpectedType j
  | .date, j => decodeMaybe Date.parse? .invalidFormat j
  | .word _, j =>
    match decodeMaybe Word.ofText? .invalidValue j with
    | .ok (some w) => .ok w
    | .ok none => .error .required
    | .error why => .error why
  | .maybeWord _, j => decodeMaybe Word.ofText? .invalidValue j

/-! ## Agreement -/

/-- A word agrees with its text; no word agrees with null and the empty string. -/
def wordAgrees {ω : Type} [Word ω] (held : Option ω) : Json → Bool
  | .null => held.isNone
  | .str s => if s.isEmpty then held.isNone else held.any fun w => Word.text w == s
  | _ => false

/-- The claimed value is the one that is held. -/
def agrees : (t : FieldType) → t.Value → Json → Bool
  | .text, held, .null => held.isEmpty
  | .text, held, .str s => s == held
  | .text, _, _ => false
  | .flag, held, .null => !held
  | .flag, held, .bool b => b == held
  | .flag, _, _ => false
  | .time, held, j =>
    match decodeMaybe Instant.parse? .unexpectedType j with
    | .ok claimed => claimed == held
    | .error _ => false
  | .date, held, j =>
    match decodeMaybe Date.parse? .invalidFormat j with
    | .ok claimed => claimed == held
    | .error _ => false
  | .word _, held, j => wordAgrees (some held) j
  | .maybeWord _, held, j => wordAgrees held j

/-! ## Checks -/

/-- What a check sees of a value. -/
inductive View
  | text (s : String)
  | flag (b : Bool)
  /-- A time, which may be set or not. -/
  | time (isSet : Bool)
  /-- A date, which may be set or not. -/
  | date (isSet : Bool)
  /-- A word, which may be chosen or not. -/
  | word (isSet : Bool)

/-- What a check sees of a value of a type. -/
def view : (t : FieldType) → t.Value → View
  | .text, s => .text s
  | .flag, b => .flag b
  | .time, t => .time t.isSome
  | .date, d => .date d.isSome
  | .word _, _ => .word true
  | .maybeWord _, w => .word w.isSome

end FieldType

/-- A check of a decoded value. -/
inductive Check
  /-- There is a value. -/
  | notEmpty
  /-- There is no value. -/
  | empty
  /-- A word is chosen. -/
  | chosen
  /-- A date is set. -/
  | date
  /-- The text is a country code. -/
  | country
deriving DecidableEq

namespace Check

/-- Two capital letters of ASCII. -/
def isCountryCode (s : String) : Bool :=
  s.toList.length == 2 && s.toList.all fun c => 'A' ≤ c && c ≤ 'Z'

/-- What a check finds wrong with a value. -/
def fault? : Check → FieldType.View → Option ValueFault
  | .notEmpty, .text s => if s.isEmpty then some .required else none
  | .notEmpty, .flag _ => none
  | .notEmpty, .time isSet | .notEmpty, .date isSet | .notEmpty, .word isSet =>
    if isSet then none else some .required
  | .empty, .text s => if s.isEmpty then none else some .notProvided
  | .empty, .flag b => if b then some .notProvided else none
  | .empty, .time isSet | .empty, .date isSet | .empty, .word isSet =>
    if isSet then some .notProvided else none
  | .chosen, .word isSet => if isSet then none else some .required
  | .date, .date isSet => if isSet then none else some .required
  | .country, .text s => if isCountryCode s then none else some .countryCode
  | _, _ => some .unexpectedType

end Check

end PowerOfAttorney
