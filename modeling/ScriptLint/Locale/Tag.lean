/-! Language tags: `language[-script][-region](-variant)*`.

Subtags are divided by `-` or `_`.  Only language and region matter here; they
give a tag its spelling as a locale name (`Tag.spelling`). -/

namespace ScriptLint.Locale

/-! ## Algorithm -/

structure Tag where
  /-- In lower case. -/
  language : List Char
  /-- In upper case, or three digits. -/
  region : Option (List Char)
  deriving DecidableEq

namespace Tag

/-- The pieces between the dividers. -/
def subtags (cs : List Char) : List (List Char) :=
  cs.splitOnP fun c => c == '-' || c == '_'

def isLanguage (s : List Char) : Bool :=
  (s.length == 2 || s.length == 3 || (5 ≤ s.length && s.length ≤ 8)) && s.all Char.isAlpha

def isScript (s : List Char) : Bool :=
  s.length == 4 && s.all Char.isAlpha

def isRegion (s : List Char) : Bool :=
  (s.length == 2 && s.all Char.isAlpha) || (s.length == 3 && s.all Char.isDigit)

/-- Five to eight letters or digits; or four ASCII characters, none of them NUL,
of which the first is a digit or the last three are letters or digits. -/
def isVariant (s : List Char) : Bool :=
  (5 ≤ s.length && s.length ≤ 8 && s.all Char.isAlphanum) ||
  (s.length == 4 && s.all (fun c => c.toNat < 128 && c != '\x00') &&
    ((s.take 1).all Char.isDigit || (s.drop 1).all Char.isAlphanum))

/-- What follows language and script: at most one region, then variants only. -/
def regionOf? (rest : List (List Char)) : Option (Option (List Char)) :=
  match rest with
  | [] => some none
  | s :: variants =>
    if isRegion s then
      if variants.all isVariant then some (some (s.map Char.toUpper)) else none
    else if rest.all isVariant then some none
    else none

/-- Reads a tag; one subtag that does not fit spoils the whole. -/
def ofChars? (cs : List Char) : Option Tag :=
  match subtags cs with
  | [] => none
  | language :: rest =>
    if isLanguage language then
      let rest := match rest with
        | s :: after => if isScript s then after else rest
        | [] => []
      (regionOf? rest).map fun region => ⟨language.map Char.toLower, region⟩
    else none

/-- The locale name of a tag: `language` or `language_REGION`. -/
def spelling (t : Tag) : List Char :=
  match t.region with
  | none => t.language
  | some region => t.language ++ '_' :: region

end Tag

/-- The locale name that a tag written with at least one hyphen stands for. -/
def tagSpelling? (name : String) : Option String :=
  if name.toList.contains '-' then
    (Tag.ofChars? name.toList).map fun t => String.ofList t.spelling
  else none

end ScriptLint.Locale
