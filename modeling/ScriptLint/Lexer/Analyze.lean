import ScriptLint.Fault
import ScriptLint.Lexer.Scanner

/-! Analysis of a script given as bytes. -/

namespace ScriptLint.Lexer

/-- The findings of a script; one that offsets cannot reach is refused. -/
def analyze (text : Bytes) : Except Fault (List Finding) :=
  if text.length ≤ maxOffset then .ok (Scanner.run text) else .error (.textTooLarge text.length)

/-- Analysis of `n` NUL bytes, without writing them out. -/
def analyzeZeros (n : Nat) : Except Fault (List Finding) :=
  if n ≤ maxOffset then .ok [] else .error (.textTooLarge n)

/-! ## Lemmas -/

theorem Scanner.step_replicate_zero (pos n : Nat) :
    (⟨pos, List.replicate (n + 1) 0, [], []⟩ : Scanner).step =
      ⟨pos + 1, List.replicate n 0, [], []⟩ := by
  simp [Scanner.step, List.replicate_succ, Scanner.scanCode, Scanner.skip]

theorem Scanner.finish_replicate_zero (pos n : Nat) :
    (⟨pos, List.replicate n 0, [], []⟩ : Scanner).finish = ⟨pos + n, [], [], []⟩ := by
  induction n generalizing pos with
  | zero => rw [Scanner.finish]; simp
  | succ n ih =>
    rw [Scanner.finish, dif_neg (by simp [List.replicate_succ]), Scanner.step_replicate_zero, ih]
    congr 1
    omega

theorem Scanner.run_replicate_zero (n : Nat) : Scanner.run (List.replicate n 0) = [] := by
  have hs : Scanner.start (List.replicate n 0) = ⟨0, List.replicate n 0, [], []⟩ := by
    cases n with
    | zero => rfl
    | succ n => simp [Scanner.start, List.replicate_succ]
  simp [Scanner.run, hs, Scanner.finish_replicate_zero, Scanner.findings]

/-! ## Top theorems -/

/-- NUL bytes mean nothing to the scanner, so their number decides. -/
theorem analyze_replicate_zero (n : Nat) : analyze (List.replicate n 0) = analyzeZeros n := by
  simp [analyze, analyzeZeros, Scanner.run_replicate_zero]

end ScriptLint.Lexer
