/-! What can be wrong with a message catalog or with a request to it. -/

namespace ScriptLint

/-- The most messages that a catalog can number. -/
def maxMessages : Nat := 65536

namespace Catalog

/-- Why a catalog cannot be packed or loaded. -/
inductive Error where
  | unterminatedLocaleTable
  | emptyLocaleName (index : Nat)
  | invalidLocaleName (index : Nat)
  | duplicateLocale (locale : String)
  | misalignedMapping (entries stride : Nat)
  | tooManyMessages (count : Nat)
  | translationCount (message expected found : Nat)
  | missingDefault (message : Nat)
  | emptyDefault (message : Nat)
  | interiorNul (message : Nat)
  | missingReservedOffset
  | invalidUtf8 (offset : Nat)
  | poolTooLarge (length : Nat)
  | offsetOutOfRange (message offset : Nat)
  | unterminatedString (message offset : Nat)
  deriving DecidableEq

def Error.message : Error → String
  | unterminatedLocaleTable => "locale table is missing its empty-name terminator"
  | emptyLocaleName index => s!"locale #{index} has an empty name"
  | invalidLocaleName index => s!"locale #{index} has an invalid name"
  | duplicateLocale locale => s!"locale `{locale}` is listed more than once"
  | misalignedMapping entries stride =>
    s!"mapping table has {entries} entries, not a multiple of {stride}"
  | tooManyMessages count =>
    s!"catalog holds {count} messages; at most {maxMessages} are addressable"
  | translationCount message expected found =>
    s!"message #{message} has {found} translations; expected {expected}"
  | missingDefault message => s!"message #{message} has no default text"
  | emptyDefault message => s!"message #{message} has an empty default text"
  | interiorNul message => s!"message #{message} contains an interior NUL byte"
  | missingReservedOffset => "string pool must begin with the reserved NUL byte"
  | invalidUtf8 offset => s!"string pool holds invalid UTF-8 at byte {offset}"
  | poolTooLarge length => s!"string pool of {length} bytes exceeds the 32-bit offset range"
  | offsetOutOfRange message offset => s!"message #{message} references invalid offset {offset}"
  | unterminatedString message offset =>
    s!"message #{message} references an unterminated string at {offset}"

/-- Why a request to a catalog fails. -/
inductive RequestError where
  | invalidMessageId (id count : Nat)
  | localeNotFound (locale : String)
  deriving DecidableEq

def RequestError.message : RequestError → String
  | invalidMessageId id count => s!"message id {id} is not in the catalog ({count} messages)"
  | localeNotFound locale => s!"locale `{locale}` is not in the catalog"

end Catalog

end ScriptLint
