import ScriptLint.Lexer.Lexeme
import ScriptLint.Lexer.Scanner

/-! The scanner on marks.

`Scan.step` reads one item of code.  A template that a substitution interrupts
waits on a stack with the number of braces open inside the substitution; the
first brace that closes none of them resumes the template.  Each step shortens
what is left (`Scan.length_step_lt`), so `Scan.finish` ends.

Scripts are scanned byte by byte (`Scanner`).  What that scanner does depends on
the marks of the bytes only, and on these it does what `Scan` does; here an item
of code is a value of its own (`Lexeme`), which the theory of scripts builds on. -/

namespace ScriptLint.Lexer

/-- A scan under way: the offset, what is left from there on, the interrupted
templates (innermost first) and the findings so far (latest first). -/
structure Scan where
  pos : Nat
  rest : List Mark
  waiting : List Substitution
  found : List Finding

namespace Scan

/-! ## Algorithm -/

/-- Offset of the end of the text. -/
def stop (s : Scan) : Nat :=
  s.pos + s.rest.length

/-- Moves on by `n` bytes. -/
def skip (s : Scan) (n : Nat) : Scan :=
  { s with pos := s.pos + n, rest := s.rest.drop n }

def report (s : Scan) (f : Finding) : Scan :=
  { s with found := f :: s.found }

/-- The finding of a template from `start` that the end of the text at `stop` leaves open. -/
def unclosedTemplate (start stop : Nat) : Finding :=
  ⟨.unclosedTemplate, .ofLength start (stop - start), []⟩

/-- A stray character is quoted by its message; nothing else is. -/
def faultAt (kind : Kind) (span : Span) : Finding :=
  match kind with
  | .strayAt => ⟨kind, span, [span]⟩
  | .strayHash => ⟨kind, span, [span]⟩
  | _ => ⟨kind, span, []⟩

/-- Reads text of the template that begins at `start`. -/
def template (s : Scan) (start : Nat) : Scan :=
  match templateEnd 0 s.rest with
  | .closed n => s.skip n
  | .substitution n => { s.skip n with waiting := ⟨start, 0⟩ :: s.waiting }
  | .cut => (s.report (unclosedTemplate start s.stop)).skip s.rest.length

/-- A brace opens inside the innermost substitution, if there is one. -/
def openBrace (s : Scan) : Scan :=
  match s.waiting with
  | [] => s
  | sub :: outer => { s with waiting := { sub with braces := sub.braces + 1 } :: outer }

/-- A brace closes inside the innermost substitution, or closes the substitution
itself and resumes its template. -/
def closeBrace (s : Scan) : Scan :=
  match s.waiting with
  | [] => s
  | ⟨start, 0⟩ :: outer => { s with waiting := outer }.template start
  | ⟨start, braces + 1⟩ :: outer => { s with waiting := ⟨start, braces⟩ :: outer }

/-- Reads one item of code. -/
def step (s : Scan) : Scan :=
  match s.rest with
  | [] => s
  | m :: rest =>
    match Lexeme.read m rest with
    | .plain n => s.skip (n + 1)
    | .fault kind width n =>
      (s.report (faultAt kind (.ofLength s.pos (width + 1)))).skip (n + 1)
    | .backtick => (s.skip 1).template s.pos
    | .braceOpen => (s.skip 1).openBrace
    | .braceClose => (s.skip 1).closeBrace

/-! ## Lemmas -/

theorem stop_unclosedTemplate {start stop : Nat} (h : start ≤ stop) :
    (unclosedTemplate start stop).span.stop = stop :=
  Nat.add_sub_of_le h

@[simp]
theorem kind_faultAt (kind : Kind) (span : Span) : (faultAt kind span).kind = kind := by
  cases kind <;> rfl

@[simp]
theorem span_faultAt (kind : Kind) (span : Span) : (faultAt kind span).span = span := by
  cases kind <;> rfl

@[simp]
theorem rest_skip (s : Scan) (n : Nat) : (s.skip n).rest = s.rest.drop n := rfl

@[simp]
theorem rest_report (s : Scan) (f : Finding) : (s.report f).rest = s.rest := rfl

theorem length_template_le (s : Scan) (start : Nat) :
    (s.template start).rest.length ≤ s.rest.length := by
  unfold template
  split <;> simp

@[simp]
theorem rest_openBrace (s : Scan) : s.openBrace.rest = s.rest := by
  unfold openBrace
  split <;> rfl

theorem length_closeBrace_le (s : Scan) : s.closeBrace.rest.length ≤ s.rest.length := by
  unfold closeBrace
  split
  next => exact Nat.le_refl _
  next start outer _ => exact length_template_le { s with waiting := outer } start
  next => exact Nat.le_refl _

/-- Progress: a step leaves less than there was. -/
theorem length_step_lt (s : Scan) (h : s.rest ≠ []) : s.step.rest.length < s.rest.length := by
  unfold step
  split
  next h0 => exact absurd h0 h
  next m rest hr =>
    have hlt : (s.skip 1).rest.length < s.rest.length := by simp [hr]
    split
    next => rw [rest_skip, List.length_drop, hr, List.length_cons]; omega
    next => rw [rest_skip, rest_report, List.length_drop, hr, List.length_cons]; omega
    next => exact Nat.lt_of_le_of_lt (length_template_le _ _) hlt
    next => simpa using hlt
    next => exact Nat.lt_of_le_of_lt (length_closeBrace_le _) hlt

/-! ## Whole scans -/

/-- Steps until nothing is left. -/
def finish (s : Scan) : Scan :=
  if _h : s.rest = [] then s else s.step.finish
termination_by s.rest.length
decreasing_by exact length_step_lt s ‹_›

/-- The scan of a script that is about to begin: a first line that starts with `#!` is behind. -/
def start (ms : List Mark) : Scan :=
  match ms with
  | .hash :: .bang :: _ => (⟨0, ms, [], []⟩ : Scan).skip (line ms).length
  | _ => ⟨0, ms, [], []⟩

/-- The findings in the order in which they arose; templates that still wait at
the end come last, outermost first. -/
def findings (s : Scan) : List Finding :=
  s.found.reverse ++ s.waiting.reverse.map fun sub => unclosedTemplate sub.template s.stop

end Scan

/-- The findings of a script, given by its marks, in order of their first byte. -/
def scan (ms : List Mark) : List Finding :=
  (Scan.start ms).finish.findings.mergeSort fun f g => f.span.first ≤ g.span.first

end ScriptLint.Lexer
