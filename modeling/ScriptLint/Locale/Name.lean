/-! Locale names of the form `language[_territory][.codeset][@modifier]`.

`candidates name` lists the names that drop some of the optional parts, from
the most to the least specific.  A part that is empty counts as missing, and a
modifier outranks a territory, which outranks a codeset. -/

namespace ScriptLint.Locale

/-! ## Algorithm -/

/-- The parts of a locale name; a missing part is empty. -/
structure Name where
  language : List Char
  territory : List Char
  codeset : List Char
  modifier : List Char
  deriving DecidableEq

/-- The part that `separator` introduces at the head of `cs`, up to the first of
`stops`, and what follows it. -/
def Name.takePart (separator : Char) (stops : List Char) (cs : List Char) : List Char × List Char :=
  match cs with
  | [] => ([], [])
  | c :: rest => if c = separator then rest.span (! stops.contains ·) else ([], cs)

/-- Splits a name.  Each separator counts only where its part may still come. -/
def Name.ofChars (cs : List Char) : Name :=
  let (language, cs) := cs.span (! ['_', '.', '@'].contains ·)
  let (territory, cs) := takePart '_' ['.', '@'] cs
  let (codeset, cs) := takePart '.' ['@'] cs
  let (modifier, _) := takePart '@' [] cs
  ⟨language, territory, codeset, modifier⟩

/-- The ways to treat an optional part: with its separator, then left out. -/
def Name.choices (separator : Char) (part : List Char) : List (List Char) :=
  match part with
  | [] => [[]]
  | _ => [separator :: part, []]

/-- The names that keep the language and some of the other parts, most specific first. -/
def Name.candidates (n : Name) : List (List Char) :=
  (choices '@' n.modifier).flatMap fun modifier =>
    (choices '_' n.territory).flatMap fun territory =>
      (choices '.' n.codeset).map fun codeset =>
        n.language ++ territory ++ codeset ++ modifier

/-- The names to look for in place of `name`, most specific first. -/
def candidates (name : String) : List String :=
  (Name.ofChars name.toList).candidates.map String.ofList

end ScriptLint.Locale
