import ScriptLint.Catalog.Builtin
import ScriptLint.Message.Format
import ScriptLint.Step

/-! The active locale of a catalog.

A translator is a catalog with the index of the active locale; the number of
locales stands for default text.  Only `activate` writes the index, and each
write is an event. -/

namespace ScriptLint

structure Translator where
  catalog : Catalog
  active : Nat

namespace Translator

/-! ## Algorithm -/

/-- Starts with default text. -/
def ofCatalog (c : Catalog) : Translator :=
  ⟨c, c.localeCount⟩

def activeLocale? (t : Translator) : Option String :=
  t.catalog.locales.name? t.active

def usesDefault (t : Translator) : Bool :=
  t.catalog.localeCount ≤ t.active

/-- Text of a message in the active locale; `none` for an unknown message. -/
def translate? (t : Translator) (id : Nat) : Option String :=
  t.catalog.lookup? id t.active

/-- Message in the active locale with its arguments written in. -/
def render? (t : Translator) (id : Nat) (args : List String) : Option String :=
  (t.translate? id).map fun template => Message.format template args

/-- Makes the locale at `index` the active one. -/
def activate {α : Type} (t : Translator) (index : Nat) (result : α) : Step Translator α :=
  ⟨result, { t with active := index }, [.localeActivated (t.catalog.locales.name? index)]⟩

/-- Reports a result and changes nothing. -/
def keep {α : Type} (t : Translator) (result : α) : Step Translator α :=
  ⟨result, t, []⟩

/-- Goes back to default text. -/
def useDefault {α : Type} (t : Translator) (result : α) : Step Translator α :=
  t.activate t.catalog.localeCount result

/-- Activates the locale with exactly this name. -/
def set (t : Translator) (name : String) : Step Translator (Except Catalog.RequestError Unit) :=
  match t.catalog.locales.find? name with
  | some index => t.activate index (.ok ())
  | none => t.keep (.error (.localeNotFound name))

/-- Activates the locale closest to this name, and says whether there is one. -/
def setClosest (t : Translator) (name : String) : Step Translator Bool :=
  match t.catalog.locales.closest? name with
  | some index => t.activate index true
  | none => t.keep false

/-- Names that ask for default text and end a search. -/
def untranslated : List String :=
  ["C", "POSIX"]

/-- Activates the first available locale of a list, and says whether there is
one.  A name that asks for default text ends the search. -/
def setBest (t : Translator) : List String → Step Translator Bool
  | [] => t.keep false
  | name :: rest =>
    if untranslated.contains name then ⟨false, t, [.searchStopped name]⟩
    else
      match t.catalog.locales.find? name with
      | some index => t.activate index true
      | none => t.setBest rest

end Translator

end ScriptLint
