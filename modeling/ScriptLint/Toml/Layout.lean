import ScriptLint.Toml.Quoted

/-! What stands between the statements and values of a TOML document.

A carriage return counts only as part of a line break, which `hasLoneReturn`
checks once for the whole text; the readers then pass over it. -/

namespace ScriptLint.Toml

/-- Whether some carriage return stands without its line feed. -/
def hasLoneReturn : List Char → Bool
  | [] => false
  | '\r' :: '\n' :: rest => hasLoneReturn rest
  | '\r' :: _ => true
  | _ :: rest => hasLoneReturn rest

def isBlank (c : Char) : Bool :=
  c == ' ' || c == '\t'

def skipBlanks (cs : List Char) : List Char :=
  cs.dropWhile isBlank

/-- Passes over blanks, line breaks and comments. -/
def skipLines? (inComment : Bool) : List Char → Option (List Char)
  | [] => some []
  | c :: rest =>
    if c = '\n' then skipLines? false rest
    else if c = '\r' then skipLines? inComment rest
    else if inComment then if isLineChar c then skipLines? true rest else none
    else if isBlank c then skipLines? false rest
    else if c = '#' then skipLines? true rest
    else some (c :: rest)

/-- Passes over what may still stand in a line, through its end. -/
def endLine? (inComment : Bool) : List Char → Option (List Char)
  | [] => some []
  | c :: rest =>
    if c = '\n' then some rest
    else if c = '\r' then endLine? inComment rest
    else if inComment then if isLineChar c then endLine? true rest else none
    else if isBlank c then endLine? false rest
    else if c = '#' then endLine? true rest
    else none

end ScriptLint.Toml
