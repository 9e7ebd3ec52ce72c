import PowerOfAttorney.Settings.TomlText
import PowerOfAttorney.Text.Blank
import PowerOfAttorney.Text.Bytes

/-!
# `PowerOfAttorney.Settings.Basic` — the settings of the service

Settings come from a file, if there is one, and then from the environment.

## Contents
- **The type.** `Settings`, with a default for each.
- **Files.** `Settings.ofToml?`: unknown names are passed over, a known one has to have a value of its
  type. A section may also be a list of its settings in order; a date or time is a section without any.
- **Environment.** `Settings.override`: blank values count as not set.
- **Loading.** `Settings.load`, and `SettingsError` for files that cannot be used.
-/

namespace PowerOfAttorney

/-- How log lines are written. -/
inductive LogFormat
  | pretty
  | json
deriving DecidableEq

/-- The text of a format. -/
def LogFormat.text : LogFormat → String
  | .pretty => "pretty"
  | .json => "json"

/-- The format of a text. -/
def LogFormat.ofText? (s : String) : Option LogFormat :=
  if s = "pretty" then some .pretty else if s = "json" then some .json else none

/-- The settings of the service. -/
structure Settings where
  serviceName : String := "opg-data-lpa-store"
  /-- Where the store keeps its files. -/
  storePath : String := "lpa-store.db"
  /-- Which log lines are written. -/
  logFilter : String := "info"
  logFormat : LogFormat := .json
deriving DecidableEq

/-- The variables of the environment that override settings. -/
structure Environment where
  storePath : Option String
  logFilter : Option String
  logFormat : Option String

/-- What there is at the place of a settings file. -/
inductive SettingsFile
  | absent
  | directory
  | contents (bytes : Bytes)

/-- Why a settings file cannot be used. -/
inductive SettingsError
  | unreadable (path : String)
  | unparsable (path : String)
deriving DecidableEq

/-- The wording of an error. -/
def SettingsError.message : SettingsError → String
  | .unreadable path => "failed to read " ++ path
  | .unparsable path => "failed to parse " ++ path

namespace Settings

/-! ## Files -/

/-- The value of a string. -/
def string? : Toml → Option String
  | .string s => some s
  | _ => none

/-- The format that a value names: its text, or a table or list of tables under that name with nothing
    in it. -/
def logFormat? : Toml → Option LogFormat
  | .string s => LogFormat.ofText? s
  | .table _ [(s, .table _ [])] | .table _ [(s, .list [])] => LogFormat.ofText? s
  | _ => none

/-- The settings of a section: a table, or a list in the order of `names`. A date or time stands for a
    table of its own parts, none of which is a setting. -/
def section? (names : List String) : Toml → Option Toml.Entries
  | .table _ entries => some entries
  | .datetime => some []
  | .list items => some (names.zip items)
  | .rows tables => some (names.zip (tables.reverse.map (.table .header)))
  | _ => none

/-- The value of a name, or the default if the name is not there. -/
def setting? {α : Type} (read : Toml → Option α) (default : α) (name : String)
    (entries : Toml.Entries) : Option α :=
  match entries.lookup name with
  | none => some default
  | some value => read value

/-- The settings of a file. -/
def ofToml? (root : Toml.Entries) : Option Settings := do
  let base : Settings := {}
  let serviceName ← setting? string? base.serviceName "service_name" root
  let store ← setting? (section? ["path"]) [] "store" root
  let storePath ← setting? string? base.storePath "path" store
  let logging ← setting? (section? ["filter", "format"]) [] "logging" root
  let logFilter ← setting? string? base.logFilter "filter" logging
  let logFormat ← setting? logFormat? base.logFormat "format" logging
  some { serviceName, storePath, logFilter, logFormat }

/-! ## Environment -/

/-- A variable that is set to something. -/
def present (raw? : Option String) : Option String :=
  raw?.filter fun s => !Text.isAllBlank s

/-- The settings under an environment. A format in any letters counts, one that is unknown does not. -/
def override (e : Environment) (s : Settings) : Settings :=
  let format? (raw : String) : Option LogFormat :=
    LogFormat.ofText? (String.ofList ((Text.trim raw).toList.map Char.toLower))
  { s with
    storePath := (present e.storePath).getD s.storePath
    logFilter := (present e.logFilter).getD s.logFilter
    logFormat := (e.logFormat.bind format?).getD s.logFormat }

/-! ## Loading -/

/-- The settings of a file, or the defaults if there is none. -/
def ofFile (path : String) : SettingsFile → Except SettingsError Settings
  | .absent => .ok {}
  | .directory => .error (.unreadable path)
  | .contents bytes =>
    match Bytes.string? bytes with
    | none => .error (.unreadable path)
    | some text =>
      match (Toml.parse? text).bind ofToml? with
      | some s => .ok s
      | none => .error (.unparsable path)

/-- The settings of a file under an environment. -/
def load (path : String) (file : SettingsFile) (e : Environment) : Except SettingsError Settings :=
  (ofFile path file).map (override e)

end Settings

end PowerOfAttorney
