import ScriptLint.Text.Digits

/-! TOML strings.

A string is basic (double quotes, with escapes) or literal (single quotes,
nothing escaped), on one line or, with three quotes at each end, on several.
Each reader starts behind the opening quotes and gives the text and what
follows the closing ones. -/

namespace ScriptLint.Toml

/-- What may stand in a line: tabs, and anything that is no control character. -/
def isLineChar (c : Char) : Bool :=
  c == '\t' || (0x20 ≤ c.toNat && c.toNat != 0x7F)

/-- What may stand in a string of several lines. -/
def isTextChar (c : Char) : Bool :=
  isLineChar c || c == '\n' || c == '\r'

/-! ## Escapes -/

/-- The character with the number that exactly `n` hexadecimal digits spell, if it is a scalar value. -/
def codePoint? (n : Nat) (cs : List Char) : Option Char :=
  let digits := cs.take n
  let value := Text.ofDigits 16 digits
  if digits.length = n ∧ digits.all (Text.isDigitIn 16) ∧ value.isValidChar then
    some (Char.ofNat value)
  else none

/-- The character that an escape stands for, and its length behind the backslash. -/
def escape? (cs : List Char) : Option (Char × Nat) :=
  match cs with
  | 'b' :: _ => some ('\x08', 1)
  | 't' :: _ => some ('\t', 1)
  | 'n' :: _ => some ('\n', 1)
  | 'f' :: _ => some ('\x0c', 1)
  | 'r' :: _ => some ('\r', 1)
  | 'e' :: _ => some ('\x1b', 1)
  | '"' :: _ => some ('"', 1)
  | '\\' :: _ => some ('\\', 1)
  | 'x' :: rest => (codePoint? 2 rest).map (·, 3)
  | 'u' :: rest => (codePoint? 4 rest).map (·, 5)
  | 'U' :: rest => (codePoint? 8 rest).map (·, 9)
  | _ => none

/-! ## Strings -/

/-- A basic string on one line; `text` is what was read so far, latest first. -/
def basicString? (text : List Char) : List Char → Option (String × List Char)
  | [] => none
  | '"' :: rest => some (String.ofList text.reverse, rest)
  | '\\' :: rest =>
    match escape? rest with
    | none => none
    | some (c, n) => basicString? (c :: text) (rest.drop n)
  | c :: rest => if isLineChar c then basicString? (c :: text) rest else none
termination_by cs => cs.length
decreasing_by all_goals simp only [List.length_drop, List.length_cons]; omega

/-- A literal string on one line. -/
def literalString? (text : List Char) : List Char → Option (String × List Char)
  | [] => none
  | '\'' :: rest => some (String.ofList text.reverse, rest)
  | c :: rest => if isLineChar c then literalString? (c :: text) rest else none

/-- A line break right behind the opening quotes does not count. -/
def dropFirstBreak (cs : List Char) : List Char :=
  match cs with
  | '\n' :: rest => rest
  | '\r' :: '\n' :: rest => rest
  | _ => cs

/-- At a run of quotes inside a string of several lines: how many of them belong
to the text, and what follows the closing three; `none` if fewer than three stand there. -/
def closing? (quote : Char) (cs : List Char) : Option (Nat × List Char) :=
  let run := min 5 (cs.takeWhile (· == quote)).length
  if run < 3 then none else some (run - 3, cs.drop run)

/-- What a backslash at the end of a line skips: blanks and line breaks, the
first of them only blanks before a break. -/
def continuation? (cs : List Char) : Option (List Char) :=
  match cs.dropWhile (fun c => c == ' ' || c == '\t') with
  | '\n' :: rest => some (rest.dropWhile fun c => c == ' ' || c == '\t' || c == '\n' || c == '\r')
  | '\r' :: rest => some (rest.dropWhile fun c => c == ' ' || c == '\t' || c == '\n' || c == '\r')
  | _ => none

theorem length_continuation?_le {cs rest : List Char} (h : continuation? cs = some rest) :
    rest.length ≤ cs.length := by
  unfold continuation? at h
  have h0 := (List.dropWhile_sublist (l := cs) (fun c => c == ' ' || c == '\t')).length_le
  split at h
  all_goals first
    | (simp at h; done)
    | (next tail ht =>
        have h1 := (List.dropWhile_sublist (l := tail)
          (fun c => c == ' ' || c == '\t' || c == '\n' || c == '\r')).length_le
        simp only [Option.some.injEq] at h
        rw [ht, List.length_cons] at h0
        rw [h] at h1
        omega)

/-- A basic string of several lines. -/
def basicLines? (text : List Char) : List Char → Option (String × List Char)
  | [] => none
  | '"' :: rest =>
    match closing? '"' ('"' :: rest) with
    | some (extra, after) =>
      some (String.ofList (List.replicate extra '"' ++ text).reverse, after)
    | none => basicLines? ('"' :: text) rest
  | '\\' :: rest =>
    match _h : continuation? rest with
    | some after => basicLines? text after
    | none =>
      match escape? rest with
      | none => none
      | some (c, n) => basicLines? (c :: text) (rest.drop n)
  | c :: rest => if isTextChar c then basicLines? (c :: text) rest else none
termination_by cs => cs.length
decreasing_by
  all_goals simp only [List.length_drop, List.length_cons]
  all_goals first | omega | (have h := length_continuation?_le ‹_›; omega)

/-- A literal string of several lines. -/
def literalLines? (text : List Char) : List Char → Option (String × List Char)
  | [] => none
  | '\'' :: rest =>
    match closing? '\'' ('\'' :: rest) with
    | some (extra, after) =>
      some (String.ofList (List.replicate extra '\'' ++ text).reverse, after)
    | none => literalLines? ('\'' :: text) rest
  | c :: rest => if isTextChar c then literalLines? (c :: text) rest else none

/-- The string that begins at the head of `cs`, if one does. -/
def string? (cs : List Char) : Option (String × List Char) :=
  match cs with
  | '"' :: '"' :: '"' :: rest => basicLines? [] (dropFirstBreak rest)
  | '"' :: rest => basicString? [] rest
  | '\'' :: '\'' :: '\'' :: rest => literalLines? [] (dropFirstBreak rest)
  | '\'' :: rest => literalString? [] rest
  | _ => none

end ScriptLint.Toml
