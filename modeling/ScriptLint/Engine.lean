import ScriptLint.Event
import ScriptLint.Lexer.Analyze

/-! Analysers that a session can use.

An engine answers a call from the text it is given and from the texts of its
earlier calls, so an engine with a memory is still a function. -/

namespace ScriptLint

/-- What an analysis gives back, and the events it causes. -/
structure Engine.Answer where
  outcome : Except Fault (List Finding)
  events : List Event

/-- Answers a call; the texts of the calls before it come first, oldest first. -/
structure Engine where
  answer : (earlier : List Bytes) → (text : Bytes) → Engine.Answer

namespace Engine

/-- Files the size of a successful scan. -/
def report (length : Nat) (outcome : Except Fault (List Finding)) : Answer :=
  match outcome with
  | .ok findings => ⟨outcome, [.scanned length findings.length]⟩
  | .error _ => ⟨outcome, []⟩

/-- The scanner. -/
def lexer : Engine where
  answer _ text := report text.length (Lexer.analyze text)

/-- The scanner's answer for `n` NUL bytes. -/
def lexerZeros (n : Nat) : Answer :=
  report n (Lexer.analyzeZeros n)

/-- Reports the same findings for every text. -/
def scripted (findings : List Finding) : Engine where
  answer _ _ := ⟨.ok findings, []⟩

/-- Never succeeds. -/
def failing (fault : Fault) : Engine where
  answer _ _ := ⟨.error fault, []⟩

/-- Leaves the first call to the first engine, the second to the second, and so
on; the last one answers all further calls. -/
def sequence (first : Engine) : List Engine → Engine
  | [] => first
  | second :: rest => {
      answer := fun earlier text =>
        match earlier with
        | [] => first.answer [] text
        | _ :: since => (sequence second rest).answer since text }

end Engine

end ScriptLint
