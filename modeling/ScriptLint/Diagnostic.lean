import ScriptLint.Span

/-! What the linter reports.

A `Finding` says where a lexical fault lies and which parts of the script its
message quotes; a `Diagnostic` is a finding with its message written out. -/

namespace ScriptLint

/-- The faults a script can have. -/
inductive Kind where
  | unclosedBlockComment
  | unopenedBlockComment
  | unclosedString
  | unclosedTemplate
  | strayAt
  | strayHash
  deriving DecidableEq

namespace Kind

def all : List Kind :=
  [unclosedBlockComment, unopenedBlockComment, unclosedString, unclosedTemplate, strayAt, strayHash]

/-- The stable code under which tools know a fault. -/
def code : Kind → String
  | unclosedBlockComment => "E0037"
  | unopenedBlockComment => "E0039"
  | unclosedString => "E0040"
  | unclosedTemplate => "E0041"
  | strayAt => "E0042"
  | strayHash => "E0052"

/-- The catalog's number for the fault's message; both stray characters share one. -/
def messageId : Kind → Nat
  | unclosedBlockComment => 0
  | unopenedBlockComment => 1
  | unclosedString => 2
  | unclosedTemplate => 3
  | strayAt => 4
  | strayHash => 4

end Kind

/-- A fault, where it lies, and the ranges its message quotes. -/
structure Finding where
  kind : Kind
  span : Span
  args : List Span
  deriving DecidableEq

/-- A finding as it is stored. -/
def Finding.stored (f : Finding) : Finding :=
  ⟨f.kind, .stored f.span.first f.span.stop, f.args.map fun arg => .stored arg.first arg.stop⟩

/-- A finding as shown to the user. -/
structure Diagnostic where
  kind : Kind
  span : Span
  message : String
  deriving DecidableEq

end ScriptLint
