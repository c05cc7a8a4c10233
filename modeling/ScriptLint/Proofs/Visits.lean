import Mathlib.Logic.Function.Iterate
import ScriptLint.Proofs.Grammar
import ScriptLint.Proofs.Laminar

/-! The places where a scan reads code.

A scan visits one state after the other (`Scan.Visits`), and each of them stands before an
item of code.  From one state to the next the text is only shortened from the front, and
findings are only added (`Scan.Onward`).  So the visited offsets grow, and a finding that is
no open template is the fault of an item at one of them (`Scan.exists_visit`). -/

namespace ScriptLint.Lexer

namespace Scan

/-! ## Going on -/

theorem step_of_rest_nil {s : Scan} (hs : s.rest = []) : s.step = s := by
  unfold step
  rw [hs]

/-- `s'` has read some of the text that `s` has left, and has kept its findings. -/
structure Onward (s s' : Scan) : Prop where
  ahead : ∃ n, n ≤ s.rest.length ∧ s'.pos = s.pos + n ∧ s'.rest = s.rest.drop n
  found : s.found <:+ s'.found

namespace Onward

variable {s s' s'' : Scan}

theorem refl (s : Scan) : Onward s s :=
  ⟨⟨0, Nat.zero_le _, rfl, rfl⟩, List.suffix_refl _⟩

theorem trans (h : Onward s s') (h' : Onward s' s'') : Onward s s'' := by
  obtain ⟨n, hn, hpos, hrest⟩ := h.ahead
  obtain ⟨n', hn', hpos', hrest'⟩ := h'.ahead
  refine ⟨⟨n + n', ?_, ?_, ?_⟩, h.found.trans h'.found⟩
  · rw [hrest, List.length_drop] at hn'
    omega
  · omega
  · rw [hrest', hrest, List.drop_drop]

theorem skip {n : Nat} (h : n ≤ s.rest.length) : Onward s (s.skip n) :=
  ⟨⟨n, h, rfl, rfl⟩, List.suffix_refl _⟩

theorem report (s : Scan) (f : Finding) : Onward s (s.report f) :=
  ⟨⟨0, Nat.zero_le _, rfl, rfl⟩, List.suffix_cons _ _⟩

theorem template (s : Scan) (start : Nat) : Onward s (s.template start) := by
  have hfits := templateEnd_fits 0 s.rest
  rw [Nat.zero_add] at hfits
  unfold Scan.template
  split
  next n hn =>
    rw [hn] at hfits
    exact skip hfits
  next n hn =>
    rw [hn] at hfits
    exact ⟨⟨n, hfits, rfl, rfl⟩, List.suffix_refl _⟩
  next => exact (report s _).trans (skip (Nat.le_refl _))

theorem openBrace (s : Scan) : Onward s s.openBrace := by
  unfold Scan.openBrace
  split
  next => exact refl s
  next => exact ⟨⟨0, Nat.zero_le _, rfl, rfl⟩, List.suffix_refl _⟩

theorem closeBrace (s : Scan) : Onward s s.closeBrace := by
  unfold Scan.closeBrace
  split
  next => exact refl s
  next start outer _ =>
    obtain ⟨hahead, hfound⟩ := template { s with waiting := outer } start
    exact ⟨hahead, hfound⟩
  next => exact ⟨⟨0, Nat.zero_le _, rfl, rfl⟩, List.suffix_refl _⟩

theorem step (s : Scan) : Onward s s.step := by
  unfold Scan.step
  split
  next => exact refl s
  next m rest hs =>
    have hfits := Lexeme.read_fits m rest
    have hlen : s.rest.length = rest.length + 1 := by rw [hs]; rfl
    have hone : Onward s (s.skip 1) := skip (by omega)
    split
    next n hm =>
      rw [hm] at hfits
      exact skip (by rw [hlen]; exact Nat.succ_le_succ hfits)
    next kind width n hm =>
      rw [hm] at hfits
      refine (report s _).trans (skip ?_)
      rw [rest_report, hlen]
      exact Nat.succ_le_succ hfits.2
    next => exact hone.trans (template _ _)
    next => exact hone.trans (openBrace _)
    next => exact hone.trans (closeBrace _)

theorem finish (s : Scan) : Onward s s.finish := by
  fun_induction Scan.finish s with
  | case1 s hs => exact refl s
  | case2 s hs ih => exact (step s).trans ih

theorem pos_le (h : Onward s s') : s.pos ≤ s'.pos := by
  obtain ⟨n, -, hpos, -⟩ := h.ahead
  omega

theorem rest_eq (h : Onward s s') : s'.rest = s.rest.drop (s'.pos - s.pos) := by
  obtain ⟨n, -, hpos, hrest⟩ := h.ahead
  rw [hrest, hpos, Nat.add_sub_cancel_left]

end Onward

/-! ## Visited states -/

/-- The scan from `s` comes to `s'`, where it reads its next item of code or is at the end. -/
inductive Visits (s : Scan) : Scan → Prop
  | refl : Visits s s
  | step {s' : Scan} : Visits s s' → s'.rest ≠ [] → Visits s s'.step

namespace Visits

variable {s s' s'' : Scan}

theorem trans (h : Visits s s') (h' : Visits s' s'') : Visits s s'' := by
  induction h' with
  | refl => exact h
  | step _ hne ih => exact ih.step hne

theorem onward (h : Visits s s') : Onward s s' := by
  induction h with
  | refl => exact .refl s
  | step _ _ ih => exact ih.trans (.step _)

theorem laminar (h : Visits s s') (hs : s.Laminar) : s'.Laminar := by
  induction h with
  | refl => exact hs
  | step _ hne ih => exact ih.step hne

/-- A state that is visited later is the next one or visited after it. -/
theorem eq_or_after (h : Visits s s') : s' = s ∨ s.rest ≠ [] ∧ Visits s.step s' := by
  induction h with
  | refl => exact .inl rfl
  | step _ hne ih =>
    right
    rcases ih with rfl | ⟨hs, hvisits⟩
    · exact ⟨hne, .refl⟩
    · exact ⟨hs, hvisits.step hne⟩

/-- Of two visited states one is visited from the other. -/
theorem total (h' : Visits s s') (h'' : Visits s s'') : Visits s' s'' ∨ Visits s'' s' := by
  induction h'' with
  | refl => exact .inr h'
  | @step t _ hne ih =>
    rcases ih with hfrom | hback
    · exact .inl (hfrom.step hne)
    · rcases hback.eq_or_after with rfl | ⟨-, hafter⟩
      · exact .inl (Visits.refl.step hne)
      · exact .inr hafter

/-- The states that a scan visits are those after some number of steps. -/
theorem exists_iterate (h : Visits s s') : ∃ k, s' = Scan.step^[k] s := by
  induction h with
  | refl => exact ⟨0, rfl⟩
  | step _ _ ih =>
    obtain ⟨k, rfl⟩ := ih
    exact ⟨k + 1, (Function.iterate_succ_apply' Scan.step k s).symm⟩

end Visits

theorem visits_iterate (s : Scan) (k : Nat) : s.Visits (step^[k] s) := by
  induction k with
  | zero => exact .refl
  | succ k ih =>
    rw [Function.iterate_succ_apply']
    by_cases hs : (step^[k] s).rest = []
    · rw [step_of_rest_nil hs]
      exact ih
    · exact ih.step hs

/-! ## Findings and the states they come from -/

/-- Template text reports nothing but an open template. -/
theorem mem_of_mem_template {s : Scan} {start : Nat} {f : Finding}
    (hf : f ∈ (s.template start).findings) (hkind : f.kind ≠ .unclosedTemplate) :
    f ∈ s.findings := by
  rcases findings_template s start with heq | hperm
  · rwa [heq] at hf
  · rcases List.mem_cons.mp (hperm.mem_iff.mp hf) with rfl | hmem
    · exact absurd rfl hkind
    · exact hmem

/-- What a step reports is a fault of the item it reads, or an open template. -/
theorem read_of_new {s : Scan} {f : Finding} (hf : f ∈ s.step.findings) (hnew : f ∉ s.findings)
    (hkind : f.kind ≠ .unclosedTemplate) :
    ∃ m rest kind width n, s.rest = m :: rest ∧ Lexeme.read m rest = .fault kind width n ∧
      f = faultAt kind (.ofLength s.pos (width + 1)) ∧ s.step.pos = s.pos + (n + 1) := by
  cases hs : s.rest with
  | nil =>
    rw [step_of_rest_nil hs] at hf
    exact absurd hf hnew
  | cons m rest =>
    have hfits := Lexeme.read_fits m rest
    have hlen : s.rest.length = rest.length + 1 := by rw [hs]; rfl
    have hone : (s.skip 1).findings = s.findings := findings_skip (by omega)
    have hstep := step_eq_consume hs
    rw [hstep] at hf
    rw [← hone] at hnew
    cases hm : Lexeme.read m rest with
    | plain n =>
      rw [hm] at hfits hf
      rw [consume, findings_skip (by rw [hlen]; exact Nat.succ_le_succ hfits), ← hone] at hf
      exact absurd hf hnew
    | fault kind width n =>
      rw [hm] at hfits hf hstep
      rw [consume, findings_skip (by rw [rest_report, hlen]; exact Nat.succ_le_succ hfits.2)] at hf
      rcases List.mem_cons.mp ((findings_report s _).mem_iff.mp hf) with heq | hmem
      · exact ⟨m, rest, kind, width, n, rfl, hm, heq, by rw [hstep]; rfl⟩
      · exact absurd (hone ▸ hmem) hnew
    | backtick =>
      rw [hm] at hf
      exact absurd (mem_of_mem_template hf hkind) hnew
    | braceOpen =>
      rw [hm, consume, findings_openBrace] at hf
      exact absurd hf hnew
    | braceClose =>
      rw [hm] at hf
      exact absurd ((findings_closeBrace _).subset hf) hnew

/-- A finding other than an open template is the fault of an item that was read as code. -/
theorem exists_visit {s : Scan} {f : Finding} (hf : f ∈ s.finish.findings) (hnew : f ∉ s.findings)
    (hkind : f.kind ≠ .unclosedTemplate) :
    ∃ s' m rest kind width n, s.Visits s' ∧ s'.rest = m :: rest ∧
      Lexeme.read m rest = .fault kind width n ∧
      f = faultAt kind (.ofLength s'.pos (width + 1)) ∧ s'.step.pos = s'.pos + (n + 1) := by
  fun_induction finish s with
  | case1 s hs => exact absurd hf hnew
  | case2 s hs ih =>
    by_cases hstep : f ∈ s.step.findings
    · obtain ⟨m, rest, kind, width, n, h⟩ := read_of_new hstep hnew hkind
      exact ⟨s, m, rest, kind, width, n, .refl, h⟩
    · obtain ⟨s', m, rest, kind, width, n, hvisits, h⟩ := ih hf hstep
      exact ⟨s', m, rest, kind, width, n, (Visits.refl.step hs).trans hvisits, h⟩

end Scan

/-! ## Offsets of code -/

open Grammar (marks)

theorem scan_of_analyze {text : Bytes} {findings : List Finding} (h : analyze text = .ok findings) :
    scan (marks text) = findings := by
  rw [analyze_eq_scan] at h
  split at h
  · exact Except.ok.inj h
  · cases h

/-- What is left of a script at the place to which its scan has come. -/
theorem rest_of_visits {ms : List Mark} {s : Scan} (h : (Scan.start ms).Visits s) :
    s.rest = ms.drop s.pos ∧ s.pos ≤ ms.length := by
  have hstart : (⟨0, ms, [], []⟩ : Scan).Onward (Scan.start ms) := by
    unfold Scan.start
    split
    next => exact .skip (length_line_le _)
    next => exact .refl _
  have honward := hstart.trans h.onward
  obtain ⟨n, hn, hpos, -⟩ := honward.ahead
  refine ⟨honward.rest_eq, ?_⟩
  rw [hpos, Nat.zero_add]
  exact hn

theorem rest_eq_marks_of_visits {text : Bytes} {s : Scan}
    (h : (Scan.start (marks text)).Visits s) : s.rest = marks (text.drop s.pos) := by
  rw [(rest_of_visits h).1, marks, marks, List.map_drop]

/-! ## The states of a script's scan -/

namespace Scanner

/-- The scan of a script after `k` items of code; at the end of the text it stays as it is. -/
def after (text : Bytes) (k : Nat) : Scanner :=
  step^[k] (start text)

theorem after_succ (text : Bytes) (k : Nat) : after text (k + 1) = (after text k).step :=
  Function.iterate_succ_apply' step k _

/-- On bytes and on marks a scan has the same states. -/
theorem marked_after (text : Bytes) (k : Nat) :
    (after text k).marked = Scan.step^[k] (Scan.start (marks text)) ∧
    (after text k).marked.Placed := by
  induction k with
  | zero => exact ⟨marked_start text, placed_start text⟩
  | succ k ih =>
    obtain ⟨heq, hplaced⟩ := ih
    rw [after_succ, marked_step hplaced, Function.iterate_succ_apply', heq]
    exact ⟨rfl, by rw [← heq]; exact hplaced.step⟩

theorem visits_after (text : Bytes) (k : Nat) :
    (Scan.start (marks text)).Visits (after text k).marked := by
  rw [(marked_after text k).1]
  exact Scan.visits_iterate _ k

theorem marked_step_after (text : Bytes) (k : Nat) :
    (after text (k + 1)).marked = (after text k).marked.step := by
  rw [after_succ, marked_step (marked_after text k).2]

end Scanner

/-- The scan of a script reads code from offset `i` on. -/
def CodeAt (text : Bytes) (i : Nat) : Prop :=
  ∃ k, (Scanner.after text k).pos = i

theorem codeAt_iff {text : Bytes} {i : Nat} :
    CodeAt text i ↔ ∃ s, (Scan.start (marks text)).Visits s ∧ s.pos = i := by
  constructor
  · rintro ⟨k, hpos⟩
    exact ⟨_, Scanner.visits_after text k, hpos⟩
  · rintro ⟨s, hvisits, hpos⟩
    obtain ⟨k, rfl⟩ := hvisits.exists_iterate
    rw [← (Scanner.marked_after text k).1] at hpos
    exact ⟨k, hpos⟩

/-- Between two states that follow each other there is no code. -/
theorem not_codeAt_between {text : Bytes} {s : Scan} {i : Nat}
    (h : (Scan.start (marks text)).Visits s) (hne : s.rest ≠ []) (hlo : s.pos < i)
    (hhi : i < s.step.pos) : ¬ CodeAt text i := by
  rw [codeAt_iff]
  rintro ⟨t, ht, rfl⟩
  rcases h.total ht with hfrom | hback
  · rcases hfrom.eq_or_after with rfl | ⟨-, hafter⟩
    · omega
    · have := hafter.onward.pos_le
      omega
  · have := hback.onward.pos_le
    omega

end ScriptLint.Lexer
