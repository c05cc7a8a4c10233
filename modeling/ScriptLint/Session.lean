import ScriptLint.Engine
import ScriptLint.Translator

/-! One document: its text and the diagnostics of its latest lint.

Setting the text discards the diagnostics.  A lint renders every finding in the
locale that is active at that moment, or leaves no diagnostics at all: when the
engine fails, and when the catalog lacks a message. -/

namespace ScriptLint

/-- How far a session has come. -/
inductive Phase where
  | empty
  | textSet
  | linted
  deriving DecidableEq

structure Session where
  engine : Engine
  text : Bytes
  diagnostics : List Diagnostic
  phase : Phase
  /-- The texts of the lints so far, latest first. -/
  calls : List Bytes

namespace Session

/-- Why a lint gives no diagnostics. -/
inductive LintError where
  | engine (fault : Fault)
  /-- The catalog has no message with this number. -/
  | unknownMessage (id : Nat)
  deriving DecidableEq

/-! ## Algorithm -/

def ofEngine (engine : Engine) : Session :=
  ⟨engine, [], [], .empty, []⟩

def setText (s : Session) (text : Bytes) : Session :=
  { s with text, diagnostics := [], phase := .textSet }

/-- The part of a text that a message quotes; nothing, if it reaches past the end. -/
def quotation (text : Bytes) (span : Span) : String :=
  match span.slice? text with
  | some bytes => Utf8.decodeLossy bytes
  | none => ""

/-- Writes a finding's message in the active locale. -/
def render (t : Translator) (text : Bytes) (f : Finding) : Except LintError Diagnostic :=
  match t.render? f.kind.messageId (f.args.map (quotation text)) with
  | some message => .ok ⟨f.kind, f.span, message⟩
  | none => .error (.unknownMessage f.kind.messageId)

/-- Analyses the text and renders what was found. -/
def lint (s : Session) (t : Translator) :
    Step Session (Except LintError (List Diagnostic)) :=
  let answer := s.engine.answer s.calls.reverse s.text
  let cleared := { s with diagnostics := [], calls := s.text :: s.calls }
  match answer.outcome with
  | .error fault =>
    let phase := if s.phase = .linted then .textSet else s.phase
    ⟨.error (.engine fault), { cleared with phase }, answer.events ++ [.engineFailed fault]⟩
  | .ok findings =>
    match findings.mapM (render t s.text) with
    | .error e => ⟨.error e, cleared, answer.events⟩
    | .ok diagnostics =>
      ⟨.ok diagnostics, { cleared with diagnostics, phase := .linted },
        answer.events ++ [.linted s.text.length t.activeLocale? diagnostics.length]⟩

end Session

end ScriptLint
