import ScriptLint.Text.Bytes

/-! The classes of bytes that scanning tells apart.

A byte has one `Mark`.  The scanner compares bytes, but nothing that it does
depends on more than their marks. -/

namespace ScriptLint.Lexer

inductive Quote where
  | single
  | double
  deriving DecidableEq

/-- What a byte means to the scanner. -/
inductive Mark where
  | quote (q : Quote)
  | backtick
  | slash
  | star
  | at
  | hash
  | braceOpen
  | braceClose
  | dollar
  | backslash
  | bang
  | lineFeed
  | carriageReturn
  /-- An ASCII letter, `_`, or a byte of a character outside ASCII. -/
  | letter
  | other
  deriving DecidableEq

namespace Mark

def ofByte (b : UInt8) : Mark :=
  if b = 0x27 then .quote .single
  else if b = 0x22 then .quote .double
  else if b = 0x60 then .backtick
  else if b = 0x2F then .slash
  else if b = 0x2A then .star
  else if b = 0x40 then .at
  else if b = 0x23 then .hash
  else if b = 0x7B then .braceOpen
  else if b = 0x7D then .braceClose
  else if b = 0x24 then .dollar
  else if b = 0x5C then .backslash
  else if b = 0x21 then .bang
  else if b = 0x0A then .lineFeed
  else if b = 0x0D then .carriageReturn
  else if 0x80 ≤ b ∨ b = 0x5F ∨ (0x41 ≤ b ∧ b ≤ 0x5A) ∨ (0x61 ≤ b ∧ b ≤ 0x7A) then .letter
  else .other

def isBreak : Mark → Bool
  | lineFeed => true
  | carriageReturn => true
  | _ => false

/-- What may follow `#` in a private name. -/
def startsIdentifier : Mark → Bool
  | letter => true
  | dollar => true
  | backslash => true
  | _ => false

end Mark

/-- The bytes up to the next line break, or to the end. -/
def line (ms : List Mark) : List Mark :=
  ms.takeWhile (! ·.isBreak)

end ScriptLint.Lexer
