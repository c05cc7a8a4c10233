import ScriptLint.Diagnostic

/-! The scanner: one pass over the bytes of a script.

`Scanner.step` reads one item of code, which the bytes at its head decide.  A template that
a substitution interrupts waits on a stack with the number of braces open inside the
substitution; the first brace that closes none of them resumes the template.  Each step
shortens what is left (`Scanner.length_step_lt`), so `Scanner.finish` ends.

* Strings (`Scanner.string`) end at their own quote.  A string that meets a line break is
  unclosed; when the next line holds its quote exactly once, the literal is taken to reach to
  that quote, and otherwise to the break.
* Templates (`Scanner.templateBody`) end at a backtick or are interrupted by a substitution.
* Block comments end at the first `*/`, line comments before the next break. -/

namespace ScriptLint.Lexer

/-- A template that waits for the end of one of its substitutions. -/
structure Substitution where
  /-- Offset of the template's opening backtick. -/
  template : Nat
  /-- Braces open inside the substitution. -/
  braces : Nat
  deriving DecidableEq

/-- A scan under way: the offset, what is left from there on, the interrupted
templates (innermost first) and the findings so far (latest first). -/
structure Scanner where
  pos : Nat
  rest : Bytes
  waiting : List Substitution
  found : List Finding

/-! ## Bytes -/

def isLineBreak (b : UInt8) : Bool :=
  b == 0x0A || b == 0x0D

/-- What may follow `#` in a private name. -/
def isIdentifierStart (b : UInt8) : Bool :=
  (0x41 ≤ b && b ≤ 0x5A) || (0x61 ≤ b && b ≤ 0x7A) || b == 0x5F || b == 0x24 || b == 0x5C || 0x80 ≤ b

/-- Length of the line break at the head of the bytes. -/
def lineBreakLength (bs : Bytes) : Nat :=
  if bs[0]? = some 0x0D ∧ bs[1]? = some 0x0A then 2
  else if bs[0]?.any isLineBreak then 1
  else 0

/-- The number of bytes before the next line break, or before the end. -/
def lineLength (bs : Bytes) : Nat :=
  (bs.takeWhile (! isLineBreak ·)).length

/-- The offsets of a quote on the line that begins at offset `cursor`. -/
def quotesOnLine (quote : UInt8) (cursor : Nat) : Bytes → List Nat
  | [] => []
  | b :: rest =>
    if isLineBreak b then []
    else if b = quote then cursor :: quotesOnLine quote (cursor + 1) rest
    else quotesOnLine quote (cursor + 1) rest

/-- The number of bytes before the first `*/`, with `n` of them behind. -/
def commentClose? (n : Nat) : Bytes → Option Nat
  | [] => none
  | b :: rest =>
    if b = 0x2A ∧ rest[0]? = some 0x2F then some n else commentClose? (n + 1) rest

namespace Scanner

/-! ## Algorithm -/

/-- Offset of the end of the text. -/
def stop (s : Scanner) : Nat :=
  s.pos + s.rest.length

def peekAt (s : Scanner) (n : Nat) : Option UInt8 :=
  s.rest[n]?

/-- Moves on by `n` bytes. -/
def skip (s : Scanner) (n : Nat) : Scanner :=
  { s with pos := s.pos + n, rest := s.rest.drop n }

/-- Moves on by `n` bytes, or to the end of the text when fewer are left. -/
def advance (s : Scanner) (n : Nat) : Scanner :=
  s.skip (min n s.rest.length)

def report (s : Scanner) (kind : Kind) (first stop : Nat) : Scanner :=
  { s with found := ⟨kind, .ofEnds first stop, []⟩ :: s.found }

/-- A stray character, which its message quotes. -/
def unexpected (s : Scanner) (kind : Kind) : Scanner :=
  let span := Span.ofEnds s.pos (s.pos + 1)
  { s with found := ⟨kind, span, [span]⟩ :: s.found }.skip 1

/-- A substitution begins in the template from `start`, which waits for its end. -/
def wait (s : Scanner) (start : Nat) : Scanner :=
  { s with waiting := ⟨start, 0⟩ :: s.waiting }

def skipLine (s : Scanner) : Scanner :=
  s.skip (lineLength s.rest)

/-- Moves past a backslash and what it escapes; a line break of two bytes is escaped as one. -/
def skipEscape (s : Scanner) : Scanner :=
  if s.peekAt 1 = some 0x0D ∧ s.peekAt 2 = some 0x0A then s.skip 3 else s.advance 2

/-- Where a string ends that the line break at the head of the text interrupts: with the only
quote of its kind on the next line, else before the break.  Backslashes on the next line are
plain. -/
def brokenStop (s : Scanner) (quote : UInt8) : Nat :=
  let width := lineBreakLength s.rest
  match quotesOnLine quote (s.pos + width) (s.rest.drop width) with
  | [closing] => closing + 1
  | _ => s.pos

/-- A string from `start` ran into a line break. -/
def unclosedAtLineEnd (s : Scanner) (quote : UInt8) (start : Nat) : Scanner :=
  (s.report .unclosedString start (s.brokenStop quote)).skip (s.brokenStop quote - s.pos)

/-- Moves past a block comment. -/
def blockComment (s : Scanner) : Scanner :=
  match commentClose? 2 (s.rest.drop 2) with
  | some n => s.skip (n + 2)
  | none => (s.report .unclosedBlockComment s.pos (s.pos + 2)).skip s.rest.length

theorem length_skip_lt {s : Scanner} {n : Nat} (hs : s.rest ≠ []) (hn : n ≠ 0) :
    (s.skip n).rest.length < s.rest.length := by
  have hpos := List.length_pos_iff.mpr hs
  rw [skip, List.length_drop]
  omega

theorem length_advance_lt {s : Scanner} {n : Nat} (hs : s.rest ≠ []) (hn : n ≠ 0) :
    (s.advance n).rest.length < s.rest.length := by
  have hpos := List.length_pos_iff.mpr hs
  exact length_skip_lt hs (by omega)

theorem length_skipEscape_lt {s : Scanner} (hs : s.rest ≠ []) :
    s.skipEscape.rest.length < s.rest.length := by
  unfold skipEscape
  split
  next => exact length_skip_lt hs (by omega)
  next => exact length_advance_lt hs (by omega)

/-- Reads the rest of a string that begins at `start`. -/
def stringBody (s : Scanner) (quote : UInt8) (start : Nat) : Scanner :=
  match _h : s.rest with
  | [] => s.report .unclosedString start s.stop
  | b :: _ =>
    if b = 0x5C then s.skipEscape.stringBody quote start
    else if b = quote then s.skip 1
    else if isLineBreak b then s.unclosedAtLineEnd quote start
    else (s.skip 1).stringBody quote start
termination_by s.rest.length
decreasing_by
  · exact length_skipEscape_lt (by simp [_h])
  · exact length_skip_lt (by simp [_h]) (by omega)

/-- Reads text of the template that begins at `start`. -/
def templateBody (s : Scanner) (start : Nat) : Scanner :=
  match _h : s.rest with
  | [] => s.report .unclosedTemplate start s.stop
  | b :: _ =>
    if b = 0x5C then (s.advance 2).templateBody start
    else if b = 0x60 then s.skip 1
    else if b = 0x24 ∧ s.peekAt 1 = some 0x7B then (s.skip 2).wait start
    else (s.skip 1).templateBody start
termination_by s.rest.length
decreasing_by
  · exact length_advance_lt (by simp [_h]) (by omega)
  · exact length_skip_lt (by simp [_h]) (by omega)

/-- A brace opens inside the innermost substitution, if there is one. -/
def openBrace (s : Scanner) : Scanner :=
  match s.waiting with
  | [] => s
  | sub :: outer => { s with waiting := { sub with braces := sub.braces + 1 } :: outer }

/-- A brace closes inside the innermost substitution, or closes the substitution
itself and resumes its template. -/
def closeBrace (s : Scanner) : Scanner :=
  match s.waiting with
  | [] => s
  | sub :: outer =>
    if 0 < sub.braces then { s with waiting := { sub with braces := sub.braces - 1 } :: outer }
    else { s with waiting := outer }.templateBody sub.template

/-- Reads the item of code that begins with byte `b`. -/
def scanCode (s : Scanner) (b : UInt8) : Scanner :=
  if b = 0x27 ∨ b = 0x22 then (s.skip 1).stringBody b s.pos
  else if b = 0x60 then (s.skip 1).templateBody s.pos
  else if b = 0x2F ∧ s.peekAt 1 = some 0x2A then s.blockComment
  else if b = 0x2F ∧ s.peekAt 1 = some 0x2F then s.skipLine
  else if b = 0x2A ∧ s.peekAt 1 = some 0x2F then
    (s.report .unopenedBlockComment s.pos (s.pos + 2)).skip 2
  else if b = 0x40 then s.unexpected .strayAt
  else if b = 0x23 ∧ (s.peekAt 1).any isIdentifierStart then s.skip 2
  else if b = 0x23 then s.unexpected .strayHash
  else if b = 0x7B then (s.skip 1).openBrace
  else if b = 0x7D then (s.skip 1).closeBrace
  else s.skip 1

/-- Reads one item of code. -/
def step (s : Scanner) : Scanner :=
  match s.rest with
  | [] => s
  | b :: _ => s.scanCode b

/-! ## Lemmas -/

theorem length_skip_le (s : Scanner) (n : Nat) : (s.skip n).rest.length ≤ s.rest.length := by
  rw [skip, List.length_drop]
  omega

theorem length_stringBody_le (s : Scanner) (quote : UInt8) (start : Nat) :
    (s.stringBody quote start).rest.length ≤ s.rest.length := by
  fun_induction stringBody s quote start with
  | case1 s hs => exact Nat.le_refl _
  | case2 s rest hs ih =>
    exact Nat.le_trans ih (Nat.le_of_lt (length_skipEscape_lt (by simp [hs])))
  | case3 s rest hs hb => exact length_skip_le s 1
  | case4 s b rest hs hb hquote hbreak => exact length_skip_le _ _
  | case5 s b rest hs hb hquote hbreak ih => exact Nat.le_trans ih (length_skip_le s 1)

theorem length_templateBody_le (s : Scanner) (start : Nat) :
    (s.templateBody start).rest.length ≤ s.rest.length := by
  fun_induction templateBody s start with
  | case1 s hs => exact Nat.le_refl _
  | case2 s rest hs ih => exact Nat.le_trans ih (length_skip_le s _)
  | case3 s rest hs hb => exact length_skip_le s 1
  | case4 s b rest hs hb hbacktick hdollar => exact length_skip_le s 2
  | case5 s b rest hs hb hbacktick hdollar ih => exact Nat.le_trans ih (length_skip_le s 1)

theorem rest_openBrace (s : Scanner) : s.openBrace.rest = s.rest := by
  unfold openBrace
  split <;> rfl

theorem length_closeBrace_le (s : Scanner) : s.closeBrace.rest.length ≤ s.rest.length := by
  unfold closeBrace
  split
  next => exact Nat.le_refl _
  next sub outer _ =>
    split
    next => exact Nat.le_refl _
    next => exact length_templateBody_le { s with waiting := outer } sub.template

theorem length_blockComment_lt {s : Scanner} (hs : s.rest ≠ []) :
    s.blockComment.rest.length < s.rest.length := by
  unfold blockComment
  split
  next => exact length_skip_lt hs (by omega)
  next => exact length_skip_lt hs (Nat.ne_of_gt (List.length_pos_iff.mpr hs))

/-- Progress: an item of code leaves less than there was. -/
theorem length_scanCode_lt {s : Scanner} {b : UInt8} {rest : Bytes} (h : s.rest = b :: rest) :
    (s.scanCode b).rest.length < s.rest.length := by
  have hs : s.rest ≠ [] := by simp [h]
  have hone : (s.skip 1).rest.length < s.rest.length := length_skip_lt hs (by omega)
  have htwo : (s.skip 2).rest.length < s.rest.length := length_skip_lt hs (by omega)
  let Shorter : Scanner → Prop := fun s' => s'.rest.length < s.rest.length
  show Shorter (s.scanCode b)
  unfold scanCode
  refine iteInduction (fun _ => ?_) fun _ => ?_
  · exact Nat.lt_of_le_of_lt (length_stringBody_le _ _ _) hone
  refine iteInduction (fun _ => ?_) fun _ => ?_
  · exact Nat.lt_of_le_of_lt (length_templateBody_le _ _) hone
  refine iteInduction (fun _ => length_blockComment_lt hs) fun _ => ?_
  refine iteInduction (fun hb => ?_) fun _ => ?_
  · -- the first slash is part of the line
    obtain ⟨rfl, -⟩ := hb
    exact length_skip_lt hs (by simp [h, lineLength, isLineBreak])
  refine iteInduction (fun _ => htwo) fun _ => ?_
  refine iteInduction (fun _ => hone) fun _ => ?_
  refine iteInduction (fun _ => htwo) fun _ => ?_
  refine iteInduction (fun _ => hone) fun _ => ?_
  refine iteInduction (fun _ => ?_) fun _ => ?_
  · show (s.skip 1).openBrace.rest.length < s.rest.length
    rwa [rest_openBrace]
  refine iteInduction (fun _ => ?_) fun _ => hone
  exact Nat.lt_of_le_of_lt (length_closeBrace_le _) hone

theorem length_step_lt (s : Scanner) (hs : s.rest ≠ []) : s.step.rest.length < s.rest.length := by
  unfold step
  split
  next hnil => exact absurd hnil hs
  next b rest hcons => exact length_scanCode_lt hcons

/-! ## Whole scans -/

/-- Steps until nothing is left. -/
def finish (s : Scanner) : Scanner :=
  if _h : s.rest = [] then s else s.step.finish
termination_by s.rest.length
decreasing_by exact length_step_lt s ‹_›

/-- The scan of a script that is about to begin: a first line that starts with `#!` is behind. -/
def start (text : Bytes) : Scanner :=
  let s : Scanner := ⟨0, text, [], []⟩
  if [0x23, 0x21].isPrefixOf text then s.skipLine else s

/-- The findings in the order in which they arose; templates that still wait at
the end come last, outermost first. -/
def findings (s : Scanner) : List Finding :=
  s.found.reverse ++
    s.waiting.reverse.map fun sub => ⟨.unclosedTemplate, .ofEnds sub.template s.stop, []⟩

/-- The findings of a whole script as they are stored, in order of their first byte. -/
def run (text : Bytes) : List Finding :=
  ((start text).finish.findings.map Finding.stored).mergeSort
    fun f g => f.span.first ≤ g.span.first

end Scanner

end ScriptLint.Lexer
