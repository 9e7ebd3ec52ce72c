import PowerOfAttorney.Change.Basic

/-!
# `PowerOfAttorney.Register.Problem` — answers to callers

## Contents
- **Problems.** `Problem`: a status, a code, a detail, and the problems with single fields, if any.
- **Responses.** `Response`, and `Problem.respond`.
-/

namespace PowerOfAttorney

/-- What a caller is told when an update is not made. -/
structure Problem where
  status : Nat
  code : String
  detail : String
  errors : List FieldError := []
deriving DecidableEq

/-- A status and a body. -/
structure Response where
  status : Nat
  body : String
deriving DecidableEq

namespace Problem

/-- The request could not be carried out, through no fault of its own. -/
def internalServerError : Problem := ⟨500, "INTERNAL_SERVER_ERROR", "Internal server error", []⟩

/-- The request is no update, or not one that the document allows. -/
def invalidRequest : Problem := ⟨400, "INVALID_REQUEST", "Invalid request", []⟩

/-- The caller is not known. -/
def unauthorised : Problem := ⟨401, "UNAUTHORISED", "Invalid JWT", []⟩

/-- There is no document of the uid. -/
def notFound : Problem := ⟨404, "NOT_FOUND", "Record not found", []⟩

/-- The document was changed while the request was handled. -/
def conflict : Problem := ⟨409, "CONFLICT", "Record has been modified", []⟩

/-- The problem with problems of single fields. -/
def withErrors (p : Problem) (errors : List FieldError) : Problem :=
  { p with errors }

/-- The body that tells of a problem; without problems of fields there is no list of them. -/
def json (p : Problem) : Json :=
  .obj ([("code", .str p.code), ("detail", .str p.detail)] ++
    if p.errors.isEmpty then [] else [("errors", (Codec.list FieldError.codec).encode p.errors)])

/-- The answer that tells of a problem. -/
def respond (p : Problem) : Response :=
  ⟨p.status, p.json.text⟩

end Problem

end PowerOfAttorney
