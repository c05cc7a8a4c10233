import ScriptLint.Selection
import ScriptLint.Toml.Document

/-! The settings of an embedding program.

A configuration is a TOML table with two keys, `locale` and `locales`, both
optional.  A table that does not fit is refused with a complaint about the first
key, in the order of the keys' bytes, that is unknown or has a value of the wrong type. -/

namespace ScriptLint

/-- A preferred locale, and a priority list. -/
structure Config where
  locale : Option String
  locales : List String
  deriving DecidableEq

namespace Config

/-- The name under which an embedding program keeps these settings. -/
def settingsName : String := "lintel"

/-- Why a configuration is refused. -/
inductive Error where
  | malformed
  | misfit (complaint : String)
  deriving DecidableEq

/-- The error about a value of the wrong type.  A number out of range makes the text
malformed, though only where it is used. -/
def Error.wrongType (v : Toml.Value) (expected : String) : Error :=
  match v.wrongType? expected with
  | some complaint => .misfit complaint
  | none => .malformed

/-! ## Algorithm -/

/-- The texts of an array; a complaint about the first item that is none. -/
def textItems : List Toml.Value → Except Error (List String)
  | [] => .ok []
  | .string s :: rest =>
    match textItems rest with
    | .ok ss => .ok (s :: ss)
    | .error e => .error e
  | v :: _ => .error (.wrongType v "a string")

/-- Takes one key into the configuration. -/
def addEntry (c : Config) (key : String) (v : Toml.Value) : Except Error Config :=
  if key = "locale" then
    match v with
    | .string s => .ok { c with locale := some s }
    | v => .error (.wrongType v "a string")
  else if key = "locales" then
    match v with
    | .array items =>
      match textItems items with
      | .ok locales => .ok { c with locales }
      | .error e => .error e
    | v => .error (.wrongType v "a sequence")
  else .error (.misfit s!"unknown field `{key}`, expected `locale` or `locales`")

/-- Takes keys into the configuration, in order, up to the first misfit. -/
def addEntries (c : Config) : Toml.Table → Except Error Config
  | [] => .ok c
  | (key, v) :: rest =>
    match c.addEntry key v with
    | .ok c => addEntries c rest
    | .error e => .error e

/-- The entries of a table in the order of their keys' bytes. -/
def byKey (table : Toml.Table) : Toml.Table :=
  table.mergeSort fun a b => decide (Bytes.ofString a.1 ≤ Bytes.ofString b.1)

/-- The configuration that a table holds. -/
def ofTable (table : Toml.Table) : Except Error Config :=
  addEntries ⟨none, []⟩ (byKey table)

/-- Reads a configuration. -/
def parse (source : String) : Except Error Config :=
  match Toml.parse? source with
  | none => .error .malformed
  | some table => ofTable table

/-- The events of reading a configuration. -/
def parseEvents : Except Error Config → List Event
  | .ok _ => []
  | .error _ => [.configRejected]

/-- The preferred locale, trimmed; a blank one is none. -/
def preferred? (c : Config) : Option String :=
  c.locale.bind Text.nonBlank?

/-- Chooses a locale by these settings; an explicit name goes first. -/
def resolve (c : Config) (explicit : Option String) (t : Translator) :
    Step Translator Selection :=
  let step := Selection.resolve t explicit c.preferred? c.locales
  { step with events := step.events ++ [.configResolved step.result.source step.result.locale] }

end Config

end ScriptLint
