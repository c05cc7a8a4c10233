import ScriptLint.Catalog.Error
import ScriptLint.Locale.Name
import ScriptLint.Locale.Tag
import ScriptLint.Text.Utf8

/-! The locales of a catalog, in order.

A locale table lists them as bytes, each name closed by a NUL, the list closed by
an empty name; what follows is ignored.  A name is looked up exactly (`find?`)
or by its candidates (`closest?`). -/

namespace ScriptLint.Locale

/-- The locale names of a catalog; a locale's index is its place here. -/
structure Directory where
  names : List String
  deriving DecidableEq

namespace Directory

/-! ## Algorithm -/

/-- Reads a locale table from the entry after `names`, which are latest first. -/
def readFrom (names : List String) (table : Bytes) : Except Catalog.Error Directory :=
  match _h : table.cutAtNul? with
  | none => .error .unterminatedLocaleTable
  | some ([], _) => .ok ⟨names.reverse⟩
  | some (entry, rest) =>
    match Utf8.decode? entry with
    | none => .error (.invalidLocaleName names.length)
    | some name =>
      if names.contains name then .error (.duplicateLocale name)
      else readFrom (name :: names) rest
termination_by table.length
decreasing_by exact Bytes.length_lt_of_cutAtNul? ‹_›

/-- Reads a locale table. -/
def ofTable (table : Bytes) : Except Catalog.Error Directory :=
  readFrom [] table

/-- Writes a locale table. -/
def toTable (d : Directory) : Bytes :=
  d.names.flatMap (fun name => Bytes.ofString name ++ [0]) ++ [0]

def size (d : Directory) : Nat :=
  d.names.length

def name? (d : Directory) (index : Nat) : Option String :=
  d.names[index]?

/-- Index of the locale with exactly this name. -/
def find? (d : Directory) (name : String) : Option Nat :=
  d.names.idxOf? name

/-- Index of the first of several names that is listed. -/
def firstListed? (d : Directory) (names : List String) : Option Nat :=
  names.findSome? d.find?

/-- The names that stand in for `name`, most specific first: its own candidates,
and then those of its spelling as a language tag. -/
def requests (name : String) : List String :=
  candidates name ++ ((tagSpelling? name).map candidates).getD []

/-- Index of the most specific locale that can stand in for `name`. -/
def closest? (d : Directory) (name : String) : Option Nat :=
  d.firstListed? (requests name)

end Directory

end ScriptLint.Locale
