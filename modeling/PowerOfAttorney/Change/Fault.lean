import PowerOfAttorney.Change.Basic
import PowerOfAttorney.Change.FieldType

/-!
# `PowerOfAttorney.Change.Fault` — what can be wrong with the changes of an update

## Contents
- **Causes.** `Fault`; most name the place of one change in the update.
- **Wording.** `Fault.toFieldError` gives each cause its one source and detail.
-/

namespace PowerOfAttorney

/-- Something wrong with an update. -/
inductive Fault
  /-- No change names a field that has to be changed. -/
  | missing (path : String)
  /-- The claimed value is not the one that is held. -/
  | stale (position : Nat)
  /-- The new value does not fit the field. -/
  | unfit (position : Nat) (why : ValueFault)
  /-- The key has no segment where one has to name an entry. -/
  | noEntry (position : Nat)
  /-- The entry that the key names is not there, or not the one to be changed. -/
  | outOfRange (position : Nat)
  /-- The key names no field that may be changed. -/
  | unexpected (position : Nat)
  /-- The change leaves the field as it is. -/
  | redundant (position : Nat) (key : String)
  /-- The type of the update is no operation. -/
  | unknownOperation
  /-- The update needs an author. -/
  | anonymous
deriving DecidableEq

namespace Fault

/-- The source of a change, with what follows its place. -/
def sourceOf (position : Nat) (part : String) : String :=
  "/changes/" ++ String.ofList (Decimal.digits position) ++ part

/-- Source and detail of a fault. -/
def toFieldError : Fault → FieldError
  | .missing path => ⟨"/changes", "missing " ++ path⟩
  | .stale i => ⟨sourceOf i "/old", "does not match existing value"⟩
  | .unfit i why => ⟨sourceOf i "/new", why.message⟩
  | .noEntry i => ⟨sourceOf i "/key", "require index"⟩
  | .outOfRange i => ⟨sourceOf i "/key", "index out of range"⟩
  | .unexpected i => ⟨sourceOf i "", "unexpected change provided"⟩
  | .redundant i key => ⟨sourceOf i "", "redundant change for " ++ key⟩
  | .unknownOperation => ⟨"/type", ValueFault.invalidValue.message⟩
  | .anonymous => ⟨"/author", ValueFault.required.message⟩

/-- The change that a fault points at. -/
def position? : Fault → Option Nat
  | .stale i | .unfit i _ | .noEntry i | .outOfRange i | .unexpected i | .redundant i _ => some i
  | .missing _ | .unknownOperation | .anonymous => none

end Fault

end PowerOfAttorney
