import PowerOfAttorney.Change.Basic
import PowerOfAttorney.Dictionary
import PowerOfAttorney.Text.Blank

/-!
# `PowerOfAttorney.Register.Caller` — who asks for an update

## Contents
- **Claims.** `Claims` are what is known of a caller: the name of a user.
- **Tokens.** `bearerToken` finds the token in the headers of a request.
- **Verification.** A `Verifier` turns headers into claims.
-/

namespace PowerOfAttorney

/-- Why a caller is not known. -/
inductive VerifyError
  | missingHeader
  | invalidToken (why : String)
  | invalidSubject
deriving DecidableEq

/-- The wording of an error. -/
def VerifyError.message : VerifyError → String
  | .missingHeader => "Invalid X-Jwt-Authorization header"
  | .invalidToken why => "Invalid JWT: " ++ why
  | .invalidSubject => "JWT subject is not a user URN"

/-- What is known of a caller. -/
structure Claims where
  /-- The name of the caller, such as `urn:opg:poas:makeregister:users:abc`. -/
  subject : String
deriving DecidableEq

/-- The claims of a name, which has to be that of a user. -/
def Claims.ofSubject (subject : String) : Except VerifyError Claims :=
  if (authorUid subject).isEmpty then .error .invalidSubject else .ok ⟨subject⟩

/-- The identifier of the caller. -/
def Claims.authorUid (c : Claims) : String :=
  PowerOfAttorney.authorUid c.subject

/-- The headers of a request. -/
abbrev Headers := Dictionary String

/-- Turns headers into claims. -/
abbrev Verifier := Headers → Except VerifyError Claims

/-- The name of the header that carries the token, in small letters. -/
def authHeader : List Char := "x-jwt-authorization".toList

/-- The token of a header's value: what follows the word `Bearer` and spaces, or all of it. -/
def tokenOf (value : List Char) : List Char :=
  let scheme := ['B', 'e', 'a', 'r', 'e', 'r']
  if scheme.isPrefixOf value then (value.drop scheme.length).dropWhile (· == ' ') else value

/-- The token in the first header of the right name, whose letters may be small or capital. -/
def bearerToken (headers : Headers) : Except VerifyError String :=
  match headers.entries.find? fun (name, _) => name.toList.map Char.toLower == authHeader with
  | none => .error .missingHeader
  | some (_, value) =>
    let token := tokenOf (Text.trim value).toList
    if token.isEmpty then .error .missingHeader else .ok (String.ofList token)

end PowerOfAttorney
