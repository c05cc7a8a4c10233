import ScriptLint.Lexer.Scan
import ScriptLint.Proofs.Lexemes

/-! What a step of a scan keeps.

A step moves past the item that stands at the head of the text (`Scan.step_eq_consume`).  It
never moves the end of the text (`Scan.stop_step`), and what it reports or leaves to wait lies
inside the text (`Scan.Placed.step`). -/

namespace ScriptLint.Lexer

namespace Scan

/-! ## Items -/

/-- Moves past an item that stands at the head of the text. -/
def consume (s : Scan) : Lexeme → Scan
  | .plain n => s.skip (n + 1)
  | .fault kind width n =>
    (s.report (faultAt kind (.ofLength s.pos (width + 1)))).skip (n + 1)
  | .backtick => (s.skip 1).template s.pos
  | .braceOpen => (s.skip 1).openBrace
  | .braceClose => (s.skip 1).closeBrace

theorem step_eq_consume {s : Scan} {m : Mark} {rest : List Mark} (hs : s.rest = m :: rest) :
    s.step = s.consume (Lexeme.read m rest) := by
  unfold step
  simp only [hs]
  cases Lexeme.read m rest <;> rfl

/-- Moves past a stretch of text of the template from `start`, which ends as told. -/
def endText (s : Scan) (start : Nat) : TemplateEnd → Scan
  | .closed n => s.skip n
  | .substitution n => { s.skip n with waiting := ⟨start, 0⟩ :: s.waiting }
  | .cut => (s.report (unclosedTemplate start s.stop)).skip s.rest.length

theorem template_eq_endText (s : Scan) (start : Nat) :
    s.template start = s.endText start (templateEnd 0 s.rest) := by
  unfold template
  cases templateEnd 0 s.rest <;> rfl

/-! ## The end of the text -/

theorem stop_skip {s : Scan} {n : Nat} (h : n ≤ s.rest.length) : (s.skip n).stop = s.stop := by
  show s.pos + n + (s.rest.drop n).length = s.pos + s.rest.length
  rw [List.length_drop]
  omega

theorem stop_template (s : Scan) (start : Nat) : (s.template start).stop = s.stop := by
  have hfits := templateEnd_fits 0 s.rest
  rw [Nat.zero_add] at hfits
  unfold template
  split
  next n hn =>
    rw [hn] at hfits
    exact stop_skip hfits
  next n hn =>
    rw [hn] at hfits
    exact stop_skip hfits
  next => exact stop_skip (s := s.report _) (Nat.le_refl _)

theorem stop_openBrace (s : Scan) : s.openBrace.stop = s.stop := by
  unfold openBrace
  split <;> rfl

theorem stop_closeBrace (s : Scan) : s.closeBrace.stop = s.stop := by
  unfold closeBrace
  split
  next => rfl
  next => exact stop_template _ _
  next => rfl

theorem stop_step (s : Scan) : s.step.stop = s.stop := by
  unfold step
  split
  next => rfl
  next m rest hs =>
    have hfits := Lexeme.read_fits m rest
    have hlen : s.rest.length = rest.length + 1 := by rw [hs]; rfl
    have hone : (s.skip 1).stop = s.stop := stop_skip (by omega)
    split
    next n hm =>
      rw [hm] at hfits
      exact stop_skip (by rw [hlen]; exact Nat.succ_le_succ hfits)
    next kind width n hm =>
      rw [hm] at hfits
      exact stop_skip (s := s.report _) (by rw [rest_report, hlen]; exact Nat.succ_le_succ hfits.2)
    next => rw [stop_template, hone]
    next => rw [stop_openBrace, hone]
    next => rw [stop_closeBrace, hone]

theorem stop_finish (s : Scan) : s.finish.stop = s.stop := by
  fun_induction finish s with
  | case1 s hs => rfl
  | case2 s hs ih => rw [ih, stop_step]

theorem start_of_shebang {ms : List Mark} (h : [.hash, .bang] <+: ms) :
    start ms = (⟨0, ms, [], []⟩ : Scan).skip (line ms).length := by
  obtain ⟨rest, rfl⟩ := h
  rfl

theorem start_of_not_shebang {ms : List Mark} (h : ¬ [.hash, .bang] <+: ms) :
    start ms = ⟨0, ms, [], []⟩ := by
  unfold start
  split
  next rest => exact absurd ⟨rest, rfl⟩ h
  next => rfl

theorem stop_start (ms : List Mark) : (start ms).stop = ms.length := by
  unfold start
  split
  next => exact (stop_skip (length_line_le _)).trans (Nat.zero_add _)
  next => exact Nat.zero_add _

/-! ## Places -/

theorem mem_ranges_faultAt {kind : Kind} {span span' : Span}
    (h : span' ∈ (faultAt kind span).span :: (faultAt kind span).args) : span' = span := by
  cases kind <;> simpa [faultAt] using h

/-- Templates that wait have begun, and no range that was reported reaches past the text. -/
structure Placed (s : Scan) : Prop where
  begun : ∀ sub ∈ s.waiting, sub.template ≤ s.pos
  inside : ∀ f ∈ s.found, ∀ span ∈ f.span :: f.args, span.stop ≤ s.stop

namespace Placed

variable {s : Scan}

theorem skip {n : Nat} (h : s.Placed) (hn : n ≤ s.rest.length) : (s.skip n).Placed where
  begun sub hsub := Nat.le_trans (h.begun sub hsub) (Nat.le_add_right _ _)
  inside := by
    rw [stop_skip hn]
    exact h.inside

theorem report {f : Finding} (h : s.Placed) (hf : ∀ span ∈ f.span :: f.args, span.stop ≤ s.stop) :
    (s.report f).Placed :=
  ⟨h.begun, List.forall_mem_cons.mpr ⟨hf, h.inside⟩⟩

theorem wait {start : Nat} (h : s.Placed) (hstart : start ≤ s.pos) :
    ({ s with waiting := ⟨start, 0⟩ :: s.waiting } : Scan).Placed :=
  ⟨List.forall_mem_cons.mpr ⟨hstart, h.begun⟩, h.inside⟩

/-- A template that is left open reaches to the end of the text. -/
theorem unclosed_inside {start : Nat} (hstart : start ≤ s.pos) :
    ∀ span ∈ (unclosedTemplate start s.stop).span :: (unclosedTemplate start s.stop).args,
      span.stop ≤ s.stop := by
  intro span hspan
  have hle : start ≤ s.stop := Nat.le_trans hstart (Nat.le_add_right _ _)
  rw [List.mem_singleton.mp hspan]
  exact Nat.le_of_eq (stop_unclosedTemplate hle)

theorem template {start : Nat} (h : s.Placed) (hstart : start ≤ s.pos) :
    (s.template start).Placed := by
  have hfits := templateEnd_fits 0 s.rest
  rw [Nat.zero_add] at hfits
  unfold Scan.template
  split
  next n hn =>
    rw [hn] at hfits
    exact h.skip hfits
  next n hn =>
    rw [hn] at hfits
    exact (h.skip hfits).wait (Nat.le_trans hstart (Nat.le_add_right _ _))
  next => exact (h.report (unclosed_inside hstart)).skip (Nat.le_refl _)

theorem openBrace (h : s.Placed) : s.openBrace.Placed := by
  obtain ⟨pos, rest, waiting, found⟩ := s
  match waiting with
  | [] => exact h
  | sub :: outer => exact ⟨List.forall_mem_cons.mpr (List.forall_mem_cons.mp h.begun), h.inside⟩

theorem closeBrace (h : s.Placed) : s.closeBrace.Placed := by
  obtain ⟨pos, rest, waiting, found⟩ := s
  match waiting with
  | [] => exact h
  | ⟨start, 0⟩ :: outer =>
    obtain ⟨hstart, houter⟩ := List.forall_mem_cons.mp h.begun
    exact template (s := ⟨pos, rest, outer, found⟩) ⟨houter, h.inside⟩ hstart
  | ⟨start, braces + 1⟩ :: outer =>
    exact ⟨List.forall_mem_cons.mpr (List.forall_mem_cons.mp h.begun), h.inside⟩

theorem step (h : s.Placed) : s.step.Placed := by
  unfold Scan.step
  split
  next => exact h
  next m rest hs =>
    have hfits := Lexeme.read_fits m rest
    have hlen : s.rest.length = rest.length + 1 := by rw [hs]; rfl
    have hone : (s.skip 1).Placed := h.skip (by omega)
    split
    next n hm =>
      rw [hm] at hfits
      exact h.skip (by rw [hlen]; exact Nat.succ_le_succ hfits)
    next kind width n hm =>
      rw [hm] at hfits
      obtain ⟨hwidth, hn⟩ := hfits
      refine (h.report fun span hspan => ?_).skip (by rw [rest_report]; omega)
      rw [mem_ranges_faultAt hspan]
      show s.pos + (width + 1) ≤ s.pos + s.rest.length
      omega
    next => exact hone.template (Nat.le_add_right _ _)
    next => exact hone.openBrace
    next => exact hone.closeBrace

theorem finish (h : s.Placed) : s.finish.Placed := by
  fun_induction Scan.finish s with
  | case1 s hs => exact h
  | case2 s hs ih => exact ih h.step

theorem start (ms : List Mark) : (Scan.start ms).Placed := by
  unfold Scan.start
  split <;> exact ⟨nofun, nofun⟩

/-- No finding reaches past the text, whether it was reported or still waits. -/
theorem stop_le (h : s.Placed) {f : Finding} (hf : f ∈ s.findings) :
    ∀ span ∈ f.span :: f.args, span.stop ≤ s.stop := by
  rcases List.mem_append.mp hf with hfound | hwaiting
  · exact h.inside f (List.mem_reverse.mp hfound)
  · obtain ⟨sub, hsub, rfl⟩ := List.mem_map.mp hwaiting
    exact unclosed_inside (h.begun sub (List.mem_reverse.mp hsub))

end Placed

end Scan

end ScriptLint.Lexer
