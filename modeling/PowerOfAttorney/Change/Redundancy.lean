import PowerOfAttorney.Change.Fault

/-!
# `PowerOfAttorney.Change.Redundancy` — changes that change nothing

## Contents
- **One change.** `Change.isRedundant`: old and new value are the same, null and the empty string
  counting as one.
- **All changes.** `Change.redundancies` reports each such change at its place.
-/

namespace PowerOfAttorney.Change

/-- Two values that leave a field alike. -/
def sameEffect (old new : Json) : Bool :=
  (old.isBlank && new.isBlank) || old.same new

/-- The new value is the old one. -/
def isRedundant (c : Change) : Bool :=
  sameEffect c.old c.new

/-- The redundant changes of an update. -/
def redundancies (changes : List Change) : List Fault :=
  changes.zipIdx.filterMap fun (c, i) =>
    if c.isRedundant then some (.redundant i c.key) else none

end PowerOfAttorney.Change
