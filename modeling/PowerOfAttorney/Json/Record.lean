import PowerOfAttorney.Json.Codec

/-!
# `PowerOfAttorney.Json.Record` — records as JSON objects

A record is described once, member by member in the order of its declaration, and the description
both writes and reads it.

## Contents
- **Descriptions.** `Part σ α` describes how an `α` is made from members of the object that stands
  for a `σ`. `Part.required` and `Part.optional` describe one member; parts are combined with the
  operators of an applicative functor.
- **Reading.** An object gives its members in any order. A known name may not come twice; an unknown
  one is passed over. A list gives the members in the order of their declaration, and the last
  optional ones may be left out.
- **Codecs.** `Part.codec` is the codec of a record described as a whole.
-/

namespace PowerOfAttorney

/-- How an `α` is written as members of the object of a `σ`, and read from them. -/
structure Part (σ α : Type) where
  /-- The names of the members, each with what its value has to satisfy. -/
  checks : List (String × ((depth : Nat) → Node → Except DecodeError Unit))
  /-- The members as written, in order. -/
  members : σ → List (String × Json)
  /-- Reads the members that there are. -/
  build : (depth : Nat) → (String → Option Node) → Except DecodeError α

namespace Part

variable {σ α β : Type}

/-- A value that needs no member. -/
def const (a : α) : Part σ α where
  checks := []
  members _ := []
  build _ _ := .ok a

/-- Members of a function, then members of its argument. -/
def apply (f : Part σ (α → β)) (x : Unit → Part σ α) : Part σ β where
  checks := f.checks ++ (x ()).checks
  members s := f.members s ++ (x ()).members s
  build depth lookup := do .ok ((← f.build depth lookup) (← (x ()).build depth lookup))

instance : Applicative (Part σ) where
  pure := const
  seq := apply

/-- A member that has to be there. -/
def required (name : String) (get : σ → α) (c : Codec α) : Part σ α where
  checks := [(name, fun depth node => (c.decode depth node).map fun _ => ())]
  members s := [(name, c.encode (get s))]
  build depth lookup :=
    match lookup name with
    | some node => c.decode depth node
    | none => .error .malformed

/-- A member that stands for `default` when it is not there, and that is not written when `omitted`
    holds of its value. -/
def optional (name : String) (get : σ → α) (c : Codec α) (default : α) (omitted : α → Bool) :
    Part σ α where
  checks := [(name, fun depth node => (c.decode depth node).map fun _ => ())]
  members s := if omitted (get s) then [] else [(name, c.encode (get s))]
  build depth lookup :=
    match lookup name with
    | some node => c.decode depth node
    | none => .ok default

/-! ## Reading -/

/-- Checks the members of an object from left to right, `seen` being the known names so far. -/
def checkMembers (p : Part σ α) (depth : Nat) (seen : List String) :
    List (Option String × Node) → Except DecodeError Unit
  | [] => .ok ()
  | (none, _) :: _ => .error .malformed
  | (some name, node) :: rest =>
    match p.checks.lookup name with
    | some check =>
      if name ∈ seen then .error .malformed
      else do
        check depth node
        checkMembers p depth (name :: seen) rest
    | none => if node.intact then checkMembers p depth seen rest else .error .malformed

/-- Checks the items of a list against the members in their order; there may be fewer, not more. -/
def checkItems (depth : Nat) :
    List (String × ((depth : Nat) → Node → Except DecodeError Unit)) → List Node →
      Except DecodeError Unit
  | _, [] => .ok ()
  | [], _ :: _ => .error .malformed
  | (_, check) :: checks, node :: rest => do
    check depth node
    checkItems depth checks rest

/-- Reads an object, or a list of the members in order. -/
def decode (p : Part σ α) : (depth : Nat) → Node → Except DecodeError α
  | 0, _ => .error .malformed
  | depth + 1, .obj members => do
    p.checkMembers depth [] members
    p.build depth fun name => members.lookup (some name)
  | depth + 1, .arr items => do
    checkItems depth p.checks items
    p.build depth fun name => ((p.checks.map Prod.fst).zip items).lookup name
  | _, _ => .error .malformed

/-- The codec of a record. -/
def codec (p : Part α α) : Codec α where
  encode a := .obj (p.members a)
  decode := p.decode

/-! ## Usual optional members -/

/-- A string, left out when empty. -/
def text (name : String) (get : σ → String) : Part σ String :=
  optional name get .string "" String.isEmpty

/-- A string that is always written. -/
def textShown (name : String) (get : σ → String) : Part σ String :=
  optional name get .string "" fun _ => false

/-- A value, left out when there is none. -/
def maybe (name : String) (get : σ → Option α) (c : Codec α) : Part σ (Option α) :=
  optional name get c.option none Option.isNone

/-- A list, left out when empty. -/
def many (name : String) (get : σ → List α) (c : Codec α) : Part σ (List α) :=
  optional name get c.list [] List.isEmpty

end Part

end PowerOfAttorney
