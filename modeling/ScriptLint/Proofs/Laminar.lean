import Mathlib.Data.List.Perm.Subperm
import ScriptLint.Proofs.Unwinding

/-! How the findings of a script lie to each other.

Of two findings the first ends before the other begins, or it is a template that the end
of the text leaves open, and so lies around the other (`Before`).  A comment that is left
open comes last.

A scan under way has its findings in sight (`Scan.findings`), a template that waits among
them as if the text ended inside it.  A step adds at most one finding, at the place where
it begins, and drops a template when it is closed:

    s.rest ≠ [] → Change s s.step                                  (Scan.change_step)
    s.Laminar → s.rest ≠ [] → s.step.Laminar                       (Scan.Laminar.step)

All that holds of the findings follows from the first of these. -/

namespace ScriptLint.Lexer

/-- A template that the end of the text, at `stop`, leaves open. -/
def Reaches (stop : Nat) (f : Finding) : Prop :=
  f.kind = .unclosedTemplate ∧ f.span.stop = stop

/-- `f` begins before `g`; it also ends before `g` begins, or is an open template around `g`. -/
def Before (stop : Nat) (f g : Finding) : Prop :=
  f.span.first < g.span.first ∧
    (f.span.stop ≤ g.span.first ∨ Reaches stop f ∧ g.span.stop ≤ f.span.stop)

/-- One of two findings is before the other. -/
def Apart (stop : Nat) (f g : Finding) : Prop :=
  Before stop f g ∨ Before stop g f

namespace Scan

/-! ## Findings in sight -/

theorem findings_skip {s : Scan} {n : Nat} (h : n ≤ s.rest.length) :
    (s.skip n).findings = s.findings := by
  unfold findings
  rw [stop_skip h]
  rfl

theorem findings_report (s : Scan) (f : Finding) : (s.report f).findings.Perm (f :: s.findings) := by
  unfold findings report
  rw [List.reverse_cons, List.append_assoc]
  exact List.perm_middle

/-- A template that begins to wait comes into sight. -/
theorem findings_wait (s : Scan) (sub : Substitution) :
    ({ s with waiting := sub :: s.waiting } : Scan).findings.Perm
      (unclosedTemplate sub.template s.stop :: s.findings) := by
  unfold findings
  rw [List.reverse_cons, List.map_append, ← List.append_assoc]
  exact List.perm_append_singleton _ _

/-- The template is closed, or it is in sight as one that may be left open. -/
theorem findings_template (s : Scan) (start : Nat) :
    (s.template start).findings = s.findings ∨
    (s.template start).findings.Perm (unclosedTemplate start s.stop :: s.findings) := by
  have hfits := templateEnd_fits 0 s.rest
  rw [Nat.zero_add] at hfits
  unfold template
  split
  next n hn =>
    rw [hn] at hfits
    exact .inl (findings_skip hfits)
  next n hn =>
    rw [hn] at hfits
    have hwait := findings_wait (s.skip n) ⟨start, 0⟩
    rw [stop_skip hfits, findings_skip hfits] at hwait
    exact .inr hwait
  next =>
    rw [findings_skip (Nat.le_of_eq (by rw [rest_report]))]
    exact .inr (findings_report s _)

theorem findings_openBrace (s : Scan) : s.openBrace.findings = s.findings := by
  unfold openBrace
  split
  next => rfl
  next sub outer hw => simp [findings, hw, stop]

/-- A template that is read on stays in sight until it is closed. -/
theorem findings_closeBrace (s : Scan) : s.closeBrace.findings.Subperm s.findings := by
  unfold closeBrace
  split
  next => exact .refl _
  next start outer hw =>
    have hwait := findings_wait { s with waiting := outer } ⟨start, 0⟩
    have hs : ({ s with waiting := ⟨start, 0⟩ :: outer } : Scan) = s := by rw [← hw]
    rw [hs] at hwait
    rcases findings_template { s with waiting := outer } start with heq | hperm
    · rw [heq]
      exact (List.sublist_cons_self _ _).subperm.trans hwait.symm.subperm
    · exact (hperm.trans hwait.symm).subperm
  next start braces outer hw =>
    have heq : ({ s with waiting := ⟨start, braces⟩ :: outer } : Scan).findings = s.findings := by
      simp [findings, hw, stop]
    rw [heq]

/-! ## One step -/

/-- A finding that a step from `s` to `s'` adds: it begins where the step does, and the
step leaves it behind unless it is a template. -/
structure Adds (s s' : Scan) (f : Finding) : Prop where
  first_eq : f.span.first = s.pos
  stop_le : f.span.stop ≤ s.stop
  behind : f.span.stop ≤ s'.pos ∨ Reaches s.stop f
  comment : f.kind = .unclosedBlockComment → s'.rest = []

/-- What a step does to the findings in sight. -/
inductive Change (s s' : Scan) : Prop
  | kept : s'.findings.Subperm s.findings → Change s s'
  | added {f : Finding} : Adds s s' f → s'.findings.Perm (f :: s.findings) → Change s s'

section
variable {s : Scan} {m : Mark} {rest : List Mark} {kind : Kind} {width n : Nat}

theorem change_fault (hs : s.rest = m :: rest) (hm : Lexeme.read m rest = .fault kind width n) :
    Change s ((s.report (faultAt kind (.ofLength s.pos (width + 1)))).skip (n + 1)) := by
  have hfits := Lexeme.read_fits m rest
  rw [hm] at hfits
  obtain ⟨hwidth, hn⟩ := hfits
  have hlen : s.rest.length = rest.length + 1 := by rw [hs]; rfl
  refine .added (f := faultAt kind (.ofLength s.pos (width + 1))) ?_ ?_
  · refine ⟨?_, ?_, .inl ?_, ?_⟩
    · rw [span_faultAt]
      rfl
    · rw [span_faultAt]
      show s.pos + (width + 1) ≤ s.pos + s.rest.length
      omega
    · rw [span_faultAt]
      show s.pos + (width + 1) ≤ s.pos + (n + 1)
      omega
    · rw [kind_faultAt]
      rintro rfl
      cases Lexeme.fault_of_read hm
      rw [rest_skip, rest_report, hs]
      exact List.drop_eq_nil_of_le (Nat.le_refl _)
  · rw [findings_skip (by rw [rest_report]; omega)]
    exact findings_report s _

theorem change_backtick (hs : s.rest = m :: rest) : Change s ((s.skip 1).template s.pos) := by
  have hone : 1 ≤ s.rest.length := by simp [hs]
  have hfindings := findings_template (s.skip 1) s.pos
  rw [stop_skip hone, findings_skip hone] at hfindings
  rcases hfindings with heq | hperm
  · exact .kept (by rw [heq])
  · have hle : s.pos ≤ s.stop := Nat.le_add_right _ _
    have hstop := stop_unclosedTemplate hle
    exact .added ⟨rfl, Nat.le_of_eq hstop, .inr ⟨rfl, hstop⟩, nofun⟩ hperm

end

theorem pos_step_lt {s : Scan} (h : s.rest ≠ []) : s.pos < s.step.pos := by
  have hlen := length_step_lt s h
  have hstop : s.step.pos + s.step.rest.length = s.pos + s.rest.length := stop_step s
  omega

/-- A step adds at most one finding, at the place where it begins. -/
theorem change_step {s : Scan} (h : s.rest ≠ []) : Change s s.step := by
  unfold step
  split
  next hs => exact absurd hs h
  next m rest hs =>
    have hfits := Lexeme.read_fits m rest
    have hlen : s.rest.length = rest.length + 1 := by rw [hs]; rfl
    have hone : (s.skip 1).findings = s.findings := findings_skip (by omega)
    split
    next n hm =>
      rw [hm] at hfits
      have heq := findings_skip (s := s) (n := n + 1) (by rw [hlen]; exact Nat.succ_le_succ hfits)
      exact .kept (by rw [heq])
    next kind width n hm => exact change_fault hs hm
    next => exact change_backtick hs
    next => exact .kept (by rw [findings_openBrace, hone])
    next => exact .kept (hone ▸ findings_closeBrace (s.skip 1))

/-! ## Whole scans -/

/-- How the findings in sight lie to each other, and to the place the scan has come to. -/
structure Laminar (s : Scan) : Prop where
  begun : ∀ f ∈ s.findings, f.span.first < s.pos
  behind : ∀ f ∈ s.findings, f.span.stop ≤ s.pos ∨ Reaches s.stop f
  apart : s.findings.Pairwise (Apart s.stop)
  comment : ∀ f ∈ s.findings, f.kind = .unclosedBlockComment →
    s.rest = [] ∧ ∀ g ∈ s.findings, g.span.first ≤ f.span.first

theorem laminar_of_nil {s : Scan} (h : s.findings = []) : s.Laminar := by
  constructor <;> simp [h]

theorem pairwise_apart {stop : Nat} {fs gs : List Finding} (hsub : fs.Subperm gs)
    (h : gs.Pairwise (Apart stop)) : fs.Pairwise (Apart stop) := by
  obtain ⟨ms, hperm, hsublist⟩ := hsub
  exact hperm.pairwise (h.sublist hsublist) Or.symm

section
variable {s s' : Scan}

/-- As long as there is text left, no comment is left open. -/
theorem Laminar.kind_ne (h : s.Laminar) (hs : s.rest ≠ []) :
    ∀ f ∈ s.findings, f.kind ≠ .unclosedBlockComment :=
  fun f hf hkind => hs (h.comment f hf hkind).1

theorem Laminar.behind_of_le (h : s.Laminar) (hpos : s.pos < s'.pos) :
    ∀ f ∈ s.findings, f.span.stop ≤ s'.pos ∨ Reaches s.stop f :=
  fun f hf => (h.behind f hf).imp_left fun hle => Nat.le_trans hle (Nat.le_of_lt hpos)

theorem Laminar.of_subperm (h : s.Laminar) (hs : s.rest ≠ []) (hpos : s.pos < s'.pos)
    (hstop : s'.stop = s.stop) (hsub : s'.findings.Subperm s.findings) : s'.Laminar := by
  refine ⟨fun f hf => ?_, fun f hf => ?_, ?_, fun f hf hkind => ?_⟩
  · exact Nat.lt_trans (h.begun f (hsub.subset hf)) hpos
  · rw [hstop]
    exact h.behind_of_le hpos f (hsub.subset hf)
  · rw [hstop]
    exact pairwise_apart hsub h.apart
  · exact absurd hkind (h.kind_ne hs f (hsub.subset hf))

/-- What is in sight began before the new finding, and is behind it or open to the end. -/
theorem Laminar.before_new {f new : Finding} (h : s.Laminar) (hnew : Adds s s' new)
    (hf : f ∈ s.findings) : Before s.stop f new := by
  refine ⟨?_, ?_⟩
  · rw [hnew.first_eq]
    exact h.begun f hf
  · rw [hnew.first_eq]
    refine (h.behind f hf).imp_right fun hreach => ⟨hreach, ?_⟩
    rw [hreach.2]
    exact hnew.stop_le

theorem Laminar.of_adds {new : Finding} (h : s.Laminar) (hs : s.rest ≠ []) (hpos : s.pos < s'.pos)
    (hstop : s'.stop = s.stop) (hnew : Adds s s' new)
    (hperm : s'.findings.Perm (new :: s.findings)) : s'.Laminar := by
  have hmem : ∀ f ∈ s'.findings, f = new ∨ f ∈ s.findings := fun f hf =>
    List.mem_cons.mp (hperm.mem_iff.mp hf)
  have hbegun : ∀ f ∈ s'.findings, f.span.first ≤ s.pos := by
    intro f hf
    rcases hmem f hf with rfl | hf
    · exact Nat.le_of_eq hnew.first_eq
    · exact Nat.le_of_lt (h.begun f hf)
  refine ⟨fun f hf => ?_, fun f hf => ?_, ?_, fun f hf hkind => ?_⟩
  · exact Nat.lt_of_le_of_lt (hbegun f hf) hpos
  · rw [hstop]
    rcases hmem f hf with rfl | hf
    · exact hnew.behind
    · exact h.behind_of_le hpos f hf
  · rw [hstop]
    refine pairwise_apart hperm.subperm (List.pairwise_cons.mpr ⟨fun f hf => ?_, h.apart⟩)
    exact .inr (h.before_new hnew hf)
  · rcases hmem f hf with rfl | hf
    · exact ⟨hnew.comment hkind, fun g hg => hnew.first_eq ▸ hbegun g hg⟩
    · exact absurd hkind (h.kind_ne hs f hf)

theorem Laminar.step (h : s.Laminar) (hs : s.rest ≠ []) : s.step.Laminar := by
  have hpos := pos_step_lt hs
  have hstop := stop_step s
  cases change_step hs with
  | kept hsub => exact h.of_subperm hs hpos hstop hsub
  | added hnew hperm => exact h.of_adds hs hpos hstop hnew hperm

end

theorem Laminar.finish {s : Scan} (h : s.Laminar) : s.finish.Laminar := by
  fun_induction Scan.finish s with
  | case1 s hs => exact h
  | case2 s hs ih => exact ih (h.step hs)

theorem findings_start (ms : List Mark) : (start ms).findings = [] := by
  unfold start
  split <;> rfl

end Scan

/-! ## Top theorems -/

theorem mem_scan_iff {ms : List Mark} {f : Finding} :
    f ∈ scan ms ↔ f ∈ (Scan.start ms).finish.findings :=
  (List.mergeSort_perm _ _).mem_iff

theorem laminar_scan (ms : List Mark) : (Scan.start ms).finish.Laminar :=
  (Scan.laminar_of_nil (Scan.findings_start ms)).finish

theorem pairwise_scan (ms : List Mark) : (scan ms).Pairwise (Before ms.length) := by
  have hstop : (Scan.start ms).finish.stop = ms.length := by rw [Scan.stop_finish, Scan.stop_start]
  have hapart := (laminar_scan ms).apart
  rw [hstop] at hapart
  have hsorted : (scan ms).Pairwise (Apart ms.length) :=
    Scan.pairwise_apart (List.mergeSort_perm _ _).subperm hapart
  refine (hsorted.and (pairwise_mergeSort_first _)).imp ?_
  rintro f g ⟨hbefore | hafter, hle⟩
  · exact hbefore
  · exact absurd hafter.1 (Nat.not_lt.mpr hle)

/-- A comment that is left open comes last. -/
theorem getLast?_of_comment {ms : List Mark} {f : Finding} (hf : f ∈ scan ms)
    (hkind : f.kind = .unclosedBlockComment) : (scan ms).getLast? = some f := by
  have hle := ((laminar_scan ms).comment f (mem_scan_iff.mp hf) hkind).2
  obtain ⟨before, after, hsplit⟩ := List.append_of_mem hf
  have hpairs := pairwise_scan ms
  rw [hsplit] at hpairs
  cases after with
  | nil => rw [hsplit, List.getLast?_concat]
  | cons g after =>
    have hlt := List.rel_of_pairwise_cons (List.pairwise_append.mp hpairs).2.1 List.mem_cons_self
    have hg : g ∈ scan ms := by rw [hsplit]; simp
    exact absurd (hle g (mem_scan_iff.mp hg)) (Nat.not_le.mpr hlt.1)

theorem countP_comment_le (ms : List Mark) :
    (scan ms).countP (fun f => f.kind = .unclosedBlockComment) ≤ 1 := by
  rcases List.eq_nil_or_concat' (scan ms) with hnil | ⟨init, last, hlast⟩
  · rw [hnil]
    exact Nat.zero_le _
  · have hpairs := pairwise_scan ms
    rw [hlast] at hpairs
    have hnone : init.countP (fun f => f.kind = .unclosedBlockComment) = 0 := by
      rw [List.countP_eq_zero]
      intro f hf hkind
      have hmem : f ∈ scan ms := by rw [hlast]; exact List.mem_append_left _ hf
      have heq := getLast?_of_comment hmem (of_decide_eq_true hkind)
      rw [hlast, List.getLast?_concat] at heq
      cases heq
      have hlt := (List.pairwise_append.mp hpairs).2.2 last hf last List.mem_cons_self
      exact Nat.lt_irrefl _ hlt.1
    rw [hlast, List.countP_append, hnone, Nat.zero_add]
    exact List.countP_le_length

/-- The findings of a script begin one after the other; only a template that is left open
has others inside it, and only the last finding can be an open comment. -/
theorem analyze_laminar (text : Bytes) (h : text.length ≤ maxOffset) :
    ∃ findings, analyze text = .ok findings ∧
      findings.Pairwise (Before text.length) ∧
      findings.countP (fun f => f.kind = .unclosedBlockComment) ≤ 1 ∧
      ∀ f ∈ findings, f.kind = .unclosedBlockComment → findings.getLast? = some f := by
  refine ⟨scan (text.map Mark.ofByte), analyze_of_length_le h, ?_, countP_comment_le _, ?_⟩
  · rw [← List.length_map (f := Mark.ofByte)]
    exact pairwise_scan _
  · exact fun f hf hkind => getLast?_of_comment hf hkind

/-- A template with a stray `@` and an open comment inside its substitution. -/
def openTemplate : Bytes :=
  [0x60, 0x24, 0x7B, 0x40, 0x2F, 0x2A]

def openComment : Finding :=
  ⟨.unclosedBlockComment, .ofLength 4 2, []⟩

theorem analyze_openTemplate : analyze openTemplate = .ok
    [⟨.unclosedTemplate, .ofLength 0 6, []⟩, ⟨.strayAt, .ofLength 3 1, [.ofLength 3 1]⟩,
      openComment] :=
  analyze_of_perm (by decide) (by decide +kernel) (by decide)

theorem laminar_openTemplate :
    openTemplate.length ≤ maxOffset ∧ openComment.kind = .unclosedBlockComment ∧
    ∃ findings, analyze openTemplate = .ok findings ∧ openComment ∈ findings ∧
      findings.Pairwise (Before 6) ∧
      findings.countP (fun f => f.kind = .unclosedBlockComment) ≤ 1 ∧
      findings.getLast? = some openComment := by
  have hlen : openTemplate.length ≤ maxOffset := by decide
  obtain ⟨findings, hfindings, hpairs, hcount, hlast⟩ := analyze_laminar openTemplate hlen
  have hmem : openComment ∈ findings := by
    rw [analyze_openTemplate] at hfindings
    cases hfindings
    simp
  exact ⟨hlen, rfl, findings, hfindings, hmem, hpairs, hcount, hlast openComment hmem rfl⟩

end ScriptLint.Lexer
