import ScriptLint.Diagnostic
import ScriptLint.Lexer.Mark

/-! The items of a script, each read from its first mark on.

`Lexeme.read m rest` says what stands at the head of `m :: rest` when the
scanner is in code.  All lengths count the bytes of `rest`, so every item is at
least one byte long.

* Strings (`stringEnd`) end at their own quote.  A string that meets a line
  break is unclosed; when the next line holds its quote exactly once, the
  literal is taken to reach to that quote, and otherwise to the break.
* Templates (`templateEnd`) end at a backtick or are interrupted by a substitution.
* Block comments end at the first `*/`, line comments before the next break. -/

namespace ScriptLint.Lexer

/-! ## Algorithm -/

/-- How the part of a string after its opening quote ends. -/
inductive StringEnd where
  /-- The closing quote is the last of `n` bytes. -/
  | closed (n : Nat)
  /-- A line break stands after `n` bytes; `next` follows the break, which is `width` bytes long. -/
  | broken (n : Nat) (width : Nat) (next : List Mark)
  /-- The text ends after `n` bytes. -/
  | cut (n : Nat)

/-- Reads a string after its opening quote, `n` bytes of which are behind. -/
def stringEnd (q : Quote) (n : Nat) : List Mark → StringEnd
  | [] => .cut n
  | [.backslash] => .cut (n + 1)
  | .backslash :: .carriageReturn :: .lineFeed :: rest => stringEnd q (n + 3) rest
  | .backslash :: _ :: rest => stringEnd q (n + 2) rest
  | .quote p :: rest => if p = q then .closed (n + 1) else stringEnd q (n + 1) rest
  | .carriageReturn :: .lineFeed :: rest => .broken n 2 rest
  | .carriageReturn :: rest => .broken n 1 rest
  | .lineFeed :: rest => .broken n 1 rest
  | _ :: rest => stringEnd q (n + 1) rest

/-- Extent of a string that a line break interrupts after `n` bytes: up to the
only quote of its kind on the next line, else up to the break.  Backslashes on
the next line are plain. -/
def brokenExtent (q : Quote) (n width : Nat) (next : List Mark) : Nat :=
  if (line next).count (.quote q) = 1 then n + width + (line next).idxOf (.quote q) + 1 else n

/-- Length of what is left of a block comment, through its closing `*/`. -/
def commentEnd? (n : Nat) : List Mark → Option Nat
  | [] => none
  | .star :: .slash :: _ => some (n + 2)
  | _ :: rest => commentEnd? (n + 1) rest

/-- How a stretch of template text ends. -/
inductive TemplateEnd where
  /-- The closing backtick is the last of `n` bytes. -/
  | closed (n : Nat)
  /-- A dollar and its opening brace are the last of `n` bytes. -/
  | substitution (n : Nat)
  | cut

/-- Reads template text, `n` bytes of which are behind. -/
def templateEnd (n : Nat) : List Mark → TemplateEnd
  | [] => .cut
  | [.backslash] => .cut
  | .backslash :: _ :: rest => templateEnd (n + 2) rest
  | .backtick :: _ => .closed (n + 1)
  | .dollar :: .braceOpen :: _ => .substitution (n + 2)
  | _ :: rest => templateEnd (n + 1) rest

/-- An item of code; `n` counts its bytes after the first. -/
inductive Lexeme where
  /-- Nothing to report. -/
  | plain (n : Nat)
  /-- A fault whose range covers the first byte and `width` more. -/
  | fault (kind : Kind) (width : Nat) (n : Nat)
  | backtick
  | braceOpen
  | braceClose

/-- The string whose opening quote stands before `rest`. -/
def Lexeme.string (q : Quote) (rest : List Mark) : Lexeme :=
  match stringEnd q 0 rest with
  | .closed n => .plain n
  | .broken n width next =>
    let extent := brokenExtent q n width next
    .fault .unclosedString extent extent
  | .cut n => .fault .unclosedString n n

/-- The block comment whose slash stands before `rest`. -/
def Lexeme.blockComment (rest : List Mark) : Lexeme :=
  match commentEnd? 1 (rest.drop 1) with
  | some n => .plain n
  | none => .fault .unclosedBlockComment 1 rest.length

/-- The item at the head of `m :: rest`. -/
def Lexeme.read (m : Mark) (rest : List Mark) : Lexeme :=
  match m, rest with
  | .quote q, rest => .string q rest
  | .backtick, _ => .backtick
  | .slash, .star :: rest => .blockComment (.star :: rest)
  | .slash, .slash :: rest => .plain (line (.slash :: rest)).length
  | .star, .slash :: _ => .fault .unopenedBlockComment 1 1
  | .at, _ => .fault .strayAt 0 0
  | .hash, [] => .fault .strayHash 0 0
  | .hash, next :: _ => if next.startsIdentifier then .plain 1 else .fault .strayHash 0 0
  | .braceOpen, _ => .braceOpen
  | .braceClose, _ => .braceClose
  | _, _ => .plain 0

end ScriptLint.Lexer
