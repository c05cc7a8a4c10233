import ScriptLint.Toml.Layout

/-! TOML keys. -/

namespace ScriptLint.Toml

/-- A dotted key: the parts on the way, and the last one. -/
structure Key where
  path : List String
  last : String

/-- How deep arrays and inline tables may be nested, and how many parts a key may have. -/
def maxNesting : Nat := 80

def isBareKeyChar (c : Char) : Bool :=
  c.isAlphanum || c == '_' || c == '-'

/-- One part of a key: bare, or a string on one line. -/
def keyPart? (cs : List Char) : Option (String × List Char) :=
  match cs with
  | '"' :: rest => basicString? [] rest
  | '\'' :: rest => literalString? [] rest
  | _ =>
    let bare := cs.takeWhile isBareKeyChar
    if bare.isEmpty then none else some (String.ofList bare, cs.dropWhile isBareKeyChar)

/-- A dotted key of at most `fuel` parts, and what follows it and the blanks behind it. -/
def keyParts? : Nat → List Char → Option (List String × List Char)
  | 0, _ => none
  | fuel + 1, cs => do
    let (part, cs) ← keyPart? (skipBlanks cs)
    match skipBlanks cs with
    | '.' :: rest =>
      let (parts, rest) ← keyParts? fuel rest
      return (part :: parts, rest)
    | rest => return ([part], rest)

/-- A dotted key; its parts are limited like the nesting of values. -/
def key? (cs : List Char) : Option (Key × List Char) := do
  let (parts, rest) ← keyParts? maxNesting cs
  match parts.getLast? with
  | none => none
  | some last => return (⟨parts.dropLast, last⟩, rest)

end ScriptLint.Toml
