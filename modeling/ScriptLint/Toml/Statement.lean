import ScriptLint.Toml.Node
import ScriptLint.Toml.Scalar

/-! The values and lines of a TOML document. -/

namespace ScriptLint.Toml

/-- An assignment, or a header of a table or of one more element of an array of tables. -/
inductive Statement where
  | assign (key : Key) (value : Value)
  | table (key : Key)
  | element (key : Key)

/-! ## Values -/

/-- The items of an array behind its bracket, of which there are at most `fuel`. -/
def arrayItems? (element : List Char → Option (Value × List Char)) :
    Nat → List Char → Option (List Value × List Char)
  | 0, _ => none
  | fuel + 1, cs => do
    match ← skipLines? false cs with
    | ']' :: rest => return ([], rest)
    | cs =>
      let (v, cs) ← element cs
      match ← skipLines? false cs with
      | ']' :: rest => return ([v], rest)
      | ',' :: rest =>
        let (vs, rest) ← arrayItems? element fuel rest
        return (v :: vs, rest)
      | _ => none

/-- The assignments of an inline table behind its brace, of which there are at most `fuel`.
Lines may break anywhere but inside a key. -/
def inlineItems? (element : List Char → Option (Value × List Char)) :
    Nat → List Char → Option (List (Key × Value) × List Char)
  | 0, _ => none
  | fuel + 1, cs => do
    match ← skipLines? false cs with
    | '\x7d' :: rest => return ([], rest)
    | cs =>
      let (key, cs) ← key? cs
      let cs ← expect? '=' (← skipLines? false cs)
      let (v, cs) ← element (← skipLines? false cs)
      match ← skipLines? false cs with
      | '\x7d' :: rest => return ([(key, v)], rest)
      | ',' :: rest =>
        let (items, rest) ← inlineItems? element fuel rest
        return ((key, v) :: items, rest)
      | _ => none

/-- What an unquoted value ends before. -/
def endsBare (c : Char) : Bool :=
  c == ',' || c == '=' || c == '#' || c == '[' || c == ']' || c == '\x7b' || c == '\x7d'
    || c == '\r' || c == '\n'

def startsQuoted (cs : List Char) : Bool :=
  cs.head? == some '"' || cs.head? == some '\''

/-- Divides an unquoted value from what follows.  A quote behind a blank starts another
value; elsewhere it is a character like others. -/
def spanBare : List Char → List Char × List Char
  | [] => ([], [])
  | c :: rest =>
    if endsBare c || isBlank c && startsQuoted rest then ([], c :: rest)
    else
      let (bare, after) := spanBare rest
      (c :: bare, after)

/-- An unquoted value, with blanks inside but none at its end. -/
def bareValue? (cs : List Char) : Option (Value × List Char) :=
  let (bare, after) := spanBare cs
  (scalar? (bare.reverse.dropWhile isBlank).reverse).map (·, after)

/-- A value with at most `depth` arrays and inline tables around each other. -/
def value? (depth : Nat) (cs : List Char) : Option (Value × List Char) :=
  match depth, cs with
  | depth + 1, '[' :: rest =>
    (arrayItems? (value? depth) rest.length rest).map fun (vs, rest) => (.array vs, rest)
  | depth + 1, '\x7b' :: rest => do
    let (items, rest) ← inlineItems? (value? depth) rest.length rest
    let entries ← Nodes.assignAll [] items
    return (.table (entriesToTable entries), rest)
  | _, '"' :: _ => (string? cs).map fun (s, rest) => (.string s, rest)
  | _, '\'' :: _ => (string? cs).map fun (s, rest) => (.string s, rest)
  | _, _ => bareValue? cs

/-! ## Lines -/

/-- A header behind its opening brackets, closed by `brackets` brackets. -/
def header? (brackets : Nat) (cs : List Char) : Option (Key × List Char) := do
  let (key, cs) ← key? cs
  if cs.take brackets = List.replicate brackets ']' then
    return (key, cs.drop brackets)
  else none

/-- One statement, without the end of its line. -/
def statement? (cs : List Char) : Option (Statement × List Char) :=
  match cs with
  | '[' :: '[' :: rest => (header? 2 rest).map fun (key, rest) => (.element key, rest)
  | '[' :: rest => (header? 1 rest).map fun (key, rest) => (.table key, rest)
  | _ => do
    let (key, cs) ← key? cs
    let cs ← expect? '=' cs
    let (v, cs) ← value? maxNesting (skipBlanks cs)
    return (.assign key v, cs)

/-- The statements of a text, of which there are at most `fuel`. -/
def statements? : Nat → List Char → Option (List Statement)
  | 0, _ => none
  | fuel + 1, cs => do
    match ← skipLines? false cs with
    | [] => return []
    | cs =>
      let (statement, cs) ← statement? cs
      let cs ← endLine? false cs
      let rest ← statements? fuel cs
      return statement :: rest

end ScriptLint.Toml
