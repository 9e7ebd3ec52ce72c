/-!
# `PowerOfAttorney.Settings.Toml` — tables of settings

A file of settings is a table of values by name. Tables arise in several ways, and how one arose says
whether it may still be added to.

## Contents
- **Values.** `Toml`; strings, dates and times, lists and tables are told apart, all else is a `scalar`.
- **Tables in the making.** `Toml.amend` goes down a path of names, making tables on its way.
- **Statements.** `Toml.assign` for `a.b = value`, `Toml.open?` for `[a.b]`, `Toml.append?` for
  `[[a.b]]`, and `Toml.inline?` for the assignments between braces.
-/

namespace PowerOfAttorney

/-- How a table arose. -/
inductive Toml.Form
  /-- On the way to a table below it. -/
  | implied
  /-- From a dotted name. -/
  | dotted
  /-- From a header of its own, or as the whole file. -/
  | header
  /-- Between braces. -/
  | inline
deriving DecidableEq

/-- A value of a settings file. -/
inductive Toml
  | string (s : String)
  /-- A number or a truth value. -/
  | scalar
  /-- A date, a time of day, or both. -/
  | datetime
  | list (items : List Toml)
  | table (form : Toml.Form) (entries : List (String × Toml))
  /-- A list of tables with a header each, the last one first. -/
  | rows (tables : List (List (String × Toml)))

namespace Toml

/-- The entries of a table. -/
abbrev Entries := List (String × Toml)

/-- Sets the value of a name, in place of an earlier one. -/
def put (name : String) (value : Toml) : Entries → Entries
  | [] => [(name, value)]
  | (other, v) :: rest =>
    if other = name then (name, value) :: rest else (other, v) :: put name value rest

/-- Changes the table at the end of a path, given how it arose. A dotted path does not go into a table
    that has a header; no path goes into a value. -/
def amend (dotted : Bool) (change : Form → Entries → Option Entries) :
    (path : List String) → Form → Entries → Option Entries
  | [], form, entries => change form entries
  | name :: path, _, entries =>
    match entries.lookup name with
    | none =>
      let form := if dotted then .dotted else .implied
      (amend dotted change path form []).map fun sub => put name (.table form sub) entries
    | some (.table form sub) =>
      if form = .inline ∨ (dotted ∧ form = .header) then none
      else (amend dotted change path form sub).map fun sub => put name (.table form sub) entries
    | some (.rows (last :: others)) =>
      (amend dotted change path .header last).map fun last =>
        put name (.rows (last :: others)) entries
    | some _ => none

/-- Adds a new name to a table, which has to have arisen from the dots before the name if there are
    any, and not from dots if there are none. -/
def add (dots : Bool) (name : String) (value : Toml) (form : Form) (entries : Entries) :
    Option Entries :=
  if (form == .dotted) != dots then none
  else if (entries.lookup name).isSome then none
  else some (put name value entries)

/-- Adds a value under a dotted name to a table. -/
def assign (name : List String × String) (value : Toml) (form : Form) (entries : Entries) :
    Option Entries :=
  amend true (add (!name.1.isEmpty) name.2 value) name.1 form entries

/-- Opens the table of a header, which may have been implied but not made before. -/
def open? (name : List String × String) (root : Entries) : Option Entries :=
  amend false
    (fun _ entries =>
      match entries.lookup name.2 with
      | none => some (put name.2 (.table .header []) entries)
      | some (.table .implied sub) => some (put name.2 (.table .header sub) entries)
      | some _ => none)
    name.1 .header root

/-- Appends a table to the list of tables of a header. -/
def append? (name : List String × String) (root : Entries) : Option Entries :=
  amend false
    (fun _ entries =>
      match entries.lookup name.2 with
      | none => some (put name.2 (.rows [[]]) entries)
      | some (.rows tables) => some (put name.2 (.rows ([] :: tables)) entries)
      | some _ => none)
    name.1 .header root

/-- The table of the assignments between braces, none of whose values is a table in the making. -/
def inline? (assignments : List ((List String × String) × Toml)) : Option Toml :=
  (assignments.foldlM (fun entries (name, value) => assign name value .header entries) []).map
    (.table .inline)

end Toml

end PowerOfAttorney
