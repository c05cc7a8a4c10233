import ScriptLint.Proofs.Descent
import ScriptLint.Proofs.Simulation

/-! Why the stack of `Scan` does what recursion does.

    scan ms = Descent.scan ms                                      (scan_eq_descent)

`Scan.unwound` reads a scan under way as the nested calls that are still to be
finished, one frame for each template that waits.  A step keeps it
(`Scan.unwound_step`), and at the end of the text it lists what the scan lists,
up to order (`Scan.findings_perm_unwound`).  No two findings begin at the same
byte, so sorting settles the order. -/

namespace ScriptLint.Lexer

namespace Descent

/-! ## Template text without its substitutions -/

/-- What a call of `template` makes of text that ends as `e`, `k` bytes of
which were behind when the reading of `e` began. -/
def EndsAs (start pos k : Nat) (ms : List Mark) : TemplateEnd → Prop
  | .closed n => ∃ j, n = k + j ∧ template start pos ms = skip j
  | .substitution n => ∃ j, n = k + j ∧
      template start pos ms =
        ((skip j).andThen (code (some 0) (pos + j) (ms.drop j))).andThen
          (template start (pos + (j + (code (some 0) (pos + j) (ms.drop j)).read))
            ((ms.drop j).drop (code (some 0) (pos + j) (ms.drop j)).read))
  | .cut => template start pos ms = ⟨[Scan.unclosedTemplate start (pos + ms.length)], ms.length⟩

theorem EndsAs.skip {start pos k j : Nat} {ms : List Mark} {e : TemplateEnd}
    (hj : j ≤ ms.length)
    (ht : template start pos ms = (Descent.skip j).andThen (template start (pos + j) (ms.drop j)))
    (h : EndsAs start (pos + j) (k + j) (ms.drop j) e) : EndsAs start pos k ms e := by
  cases e with
  | closed n =>
    obtain ⟨i, hn, hi⟩ := h
    refine ⟨j + i, by omega, ?_⟩
    rw [ht, hi]
    simp [Outcome.andThen, Descent.skip]
  | substitution n =>
    obtain ⟨i, hn, hi⟩ := h
    refine ⟨j + i, by omega, ?_⟩
    rw [ht, hi]
    simp [Outcome.andThen, Descent.skip, Nat.add_assoc, List.drop_drop]
  | cut =>
    have hi : template start (pos + j) (ms.drop j) = _ := h
    show template start pos ms = _
    have hpos : pos + j + (ms.length - j) = pos + ms.length := by omega
    have hread : j + (ms.length - j) = ms.length := by omega
    rw [ht, hi, List.length_drop, hpos]
    simp [Outcome.andThen, Descent.skip, hread]

theorem endsAs_templateEnd (start pos k : Nat) (ms : List Mark) :
    EndsAs start pos k ms (templateEnd k ms) := by
  fun_induction templateEnd k ms generalizing pos with
  | case1 k => simp [EndsAs, template]
  | case2 k => simp [EndsAs, template]
  | case3 k m rest ih =>
    exact EndsAs.skip (j := 2) (by simp) (by rw [template]; simp) (ih (pos + 2))
  | case4 k rest => exact ⟨1, rfl, by rw [template]⟩
  | case5 k rest => exact ⟨2, rfl, by rw [template]; rfl⟩
  | case6 k m rest h1 h2 h3 h4 ih =>
    have hb : m ≠ .backslash := by
      intro hm
      cases rest with
      | nil => exact h1 hm rfl
      | cons m' rest => exact h2 m' rest hm rfl
    exact EndsAs.skip (j := 1) (by simp) (template_other hb h3 h4) (ih (pos + 1))

/-! ## The stack as calls under way -/

/-- The open braces of the innermost substitution that waits. -/
def level (waiting : List Substitution) : Option Nat :=
  waiting.head?.map (·.braces)

/-- What is still found from the end of the innermost substitution on: its
template is read on, then the code around that template, and so on outwards. -/
def resume (pos : Nat) (ms : List Mark) : List Substitution → List Finding
  | [] => []
  | sub :: outer =>
    let t := template sub.template pos ms
    let o := code (level outer) (pos + t.read) (ms.drop t.read)
    t.found ++ (o.found ++ resume (pos + t.read + o.read) ((ms.drop t.read).drop o.read) outer)

/-- What is still found from code inside the innermost substitution on. -/
def unwind (pos : Nat) (ms : List Mark) (waiting : List Substitution) : List Finding :=
  let o := code (level waiting) pos ms
  o.found ++ resume (pos + o.read) (ms.drop o.read) waiting

theorem resume_cons (pos : Nat) (ms : List Mark) (sub : Substitution) (outer : List Substitution) :
    resume pos ms (sub :: outer) =
      (template sub.template pos ms).found ++
        unwind (pos + (template sub.template pos ms).read)
          (ms.drop (template sub.template pos ms).read) outer := rfl

/-- A stretch that code reads in one go can be split off. -/
theorem unwind_of_code (pos : Nat) {ms : List Mark} (w v : List Substitution) (o : Outcome)
    (h : code (level w) pos ms =
      o.andThen (code (level v) (pos + o.read) (ms.drop o.read)))
    (hr : ∀ p l, resume p l w = resume p l v) :
    unwind pos ms w = o.found ++ unwind (pos + o.read) (ms.drop o.read) v := by
  simp only [unwind, h, Outcome.andThen, hr, List.append_assoc, Nat.add_assoc, List.drop_drop]

theorem unwind_nil (pos : Nat) (waiting : List Substitution) :
    unwind pos [] waiting =
      waiting.map fun sub => Scan.unclosedTemplate sub.template pos := by
  induction waiting with
  | nil => simp [unwind, resume, skip]
  | cons sub outer ih =>
    have hu : unwind pos [] (sub :: outer) = resume pos [] (sub :: outer) := by
      simp [unwind, skip]
    have ht : template sub.template pos [] = ⟨[Scan.unclosedTemplate sub.template pos], 0⟩ := by
      rw [template]
    rw [hu, resume_cons, ht, List.map_cons, ← ih]
    rfl

end Descent

namespace Scan

open Descent

/-- The findings so far and those of the calls under way. -/
def unwound (s : Scan) : List Finding :=
  s.found.reverse ++ unwind s.pos s.rest s.waiting

theorem unwound_skip {s : Scan} {n : Nat}
    (h : code (level s.waiting) s.pos s.rest =
      (Descent.skip n).andThen (code (level s.waiting) (s.pos + n) (s.rest.drop n))) :
    (s.skip n).unwound = s.unwound := by
  have hu := unwind_of_code s.pos s.waiting s.waiting (Descent.skip n) h fun _ _ => rfl
  simp only [unwound, hu]
  rfl

theorem unwound_report {s : Scan} {f : Finding} {n : Nat}
    (h : code (level s.waiting) s.pos s.rest =
      (⟨[f], n⟩ : Outcome).andThen (code (level s.waiting) (s.pos + n) (s.rest.drop n))) :
    ((s.report f).skip n).unwound = s.unwound := by
  have hu := unwind_of_code s.pos s.waiting s.waiting ⟨[f], n⟩ h fun _ _ => rfl
  simp only [unwound, hu]
  simp [skip, report]

/-- Reading on in a template is the call of `Descent.template`, and what follows its return. -/
theorem unwound_template (s : Scan) (start braces : Nat) :
    (s.template start).unwound =
      s.found.reverse ++ resume s.pos s.rest (⟨start, braces⟩ :: s.waiting) := by
  have he := endsAs_templateEnd start s.pos 0 s.rest
  rw [resume_cons]
  unfold template
  split
  next n hn =>
    rw [hn] at he
    obtain ⟨j, hj, ht⟩ := he
    rw [Nat.zero_add] at hj
    subst hj
    rw [ht]
    rfl
  next n hn =>
    rw [hn] at he
    obtain ⟨j, hj, ht⟩ := he
    rw [Nat.zero_add] at hj
    subst hj
    rw [ht]
    simp only [unwound, unwind, skip, resume_cons, Outcome.andThen, Descent.skip,
      List.nil_append, List.append_assoc, Nat.add_assoc, List.drop_drop]
    rfl
  next hn =>
    rw [hn] at he
    have ht : Descent.template start s.pos s.rest = _ := he
    rw [ht]
    simp [unwound, stop, skip, report]

/-- An opening brace is counted by the call it stands in. -/
theorem unwound_openBrace {s : Scan} {m : Mark} {rest : List Mark} (hs : s.rest = m :: rest)
    (hm : Lexeme.read m rest = .braceOpen) : (s.skip 1).openBrace.unwound = s.unwound := by
  obtain ⟨pos, ms, waiting, found⟩ := s
  subst hs
  cases waiting with
  | nil => exact unwound_skip (code_braceOpen hm)
  | cons sub outer =>
    have hu := unwind_of_code pos (sub :: outer)
      ({ sub with braces := sub.braces + 1 } :: outer) (Descent.skip 1)
      (code_braceOpen hm) fun _ _ => rfl
    simp only [unwound, hu]
    rfl

/-- A closing brace is counted, or it ends the call and the template is read on. -/
theorem unwound_closeBrace {s : Scan} {m : Mark} {rest : List Mark} (hs : s.rest = m :: rest)
    (hm : Lexeme.read m rest = .braceClose) : (s.skip 1).closeBrace.unwound = s.unwound := by
  obtain ⟨pos, ms, waiting, found⟩ := s
  subst hs
  match waiting with
  | [] => exact unwound_skip (code_braceClose_none hm)
  | ⟨start, 0⟩ :: outer =>
    have hc : code (level (⟨start, 0⟩ :: outer)) pos (m :: rest) = Descent.skip 1 :=
      code_braceClose_zero hm
    refine (unwound_template ⟨pos + 1, rest, outer, found⟩ start 0).trans ?_
    simp only [unwound, unwind, hc]
    rfl
  | ⟨start, braces + 1⟩ :: outer =>
    have hu := unwind_of_code pos (⟨start, braces + 1⟩ :: outer) (⟨start, braces⟩ :: outer)
      (Descent.skip 1) (code_braceClose_succ hm) fun _ _ => rfl
    simp only [unwound, hu]
    rfl

/-- A backtick is a call of `Descent.template` from code. -/
theorem unwound_backtick {s : Scan} {m : Mark} {rest : List Mark} (hs : s.rest = m :: rest)
    (hm : Lexeme.read m rest = .backtick) : ((s.skip 1).template s.pos).unwound = s.unwound := by
  obtain ⟨pos, ms, waiting, found⟩ := s
  subst hs
  have hu := unwind_of_code pos waiting waiting
    ((Descent.skip 1).andThen (Descent.template pos (pos + 1) rest))
    (code_backtick hm) fun _ _ => rfl
  refine (unwound_template ⟨pos + 1, rest, waiting, found⟩ pos 0).trans ?_
  simp only [unwound, hu, resume_cons, Outcome.andThen, Descent.skip, List.nil_append]
  rw [Nat.add_assoc, Nat.add_comm 1, List.drop_succ_cons]

/-- The simulation: a step of the scan keeps what the calls under way will find. -/
theorem unwound_step (s : Scan) : s.step.unwound = s.unwound := by
  unfold step
  split
  next => rfl
  next m rest hs =>
    split
    next n hm => exact unwound_skip (by rw [hs]; exact code_plain hm)
    next kind width n hm => exact unwound_report (by rw [hs]; exact code_fault hm)
    next hm => exact unwound_backtick hs hm
    next hm => exact unwound_openBrace hs hm
    next hm => exact unwound_closeBrace hs hm

theorem unwound_finish (s : Scan) : s.finish.unwound = s.unwound := by
  fun_induction finish s with
  | case1 s h => rfl
  | case2 s h ih => rw [ih, unwound_step]

theorem rest_finish (s : Scan) : s.finish.rest = [] := by
  fun_induction finish s with
  | case1 s h => exact h
  | case2 s h ih => exact ih

/-- At the end of the text each template that waits is left open by its own call. -/
theorem findings_perm_unwound {s : Scan} (h : s.rest = []) : s.findings.Perm s.unwound := by
  unfold findings unwound
  rw [h, unwind_nil]
  simp only [stop, h, List.length_nil, Nat.add_zero]
  exact List.Perm.append_left _ (List.Perm.map _ (List.reverse_perm _))

theorem unwound_start (ms : List Mark) : (start ms).unwound = Descent.findings ms := by
  unfold start Descent.findings shebang
  split
  next rest => simp [unwound, skip, unwind, resume, level, List.isPrefixOf]
  next h =>
    have hp : ([.hash, .bang] : List Mark).isPrefixOf ms = false := by
      rw [Bool.eq_false_iff]
      intro hpre
      obtain ⟨tail, ht⟩ := List.isPrefixOf_iff_prefix.mp hpre
      exact h tail ht.symm
    simp [hp, unwound, unwind, resume, level]

end Scan

/-! ## Top theorems -/

theorem pairwise_mergeSort_first (fs : List Finding) :
    (fs.mergeSort fun f g => f.span.first ≤ g.span.first).Pairwise
      fun f g => f.span.first ≤ g.span.first := by
  refine (List.pairwise_mergeSort ?_ ?_ fs).imp of_decide_eq_true
  · intro f g h hfg hgh
    exact decide_eq_true (Nat.le_trans (of_decide_eq_true hfg) (of_decide_eq_true hgh))
  · intro f g
    rw [Bool.or_eq_true, decide_eq_true_eq, decide_eq_true_eq]
    exact Nat.le_total _ _

/-- Sorting by first byte leaves no choice when all first bytes differ. -/
theorem mergeSort_eq_of_perm {fs gs : List Finding} (hp : fs.Perm gs)
    (hd : gs.Pairwise fun f g => f.span.first ≠ g.span.first) :
    (fs.mergeSort fun f g => f.span.first ≤ g.span.first) =
      gs.mergeSort fun f g => f.span.first ≤ g.span.first := by
  let le : Finding → Finding → Bool := fun f g => f.span.first ≤ g.span.first
  have hperm := ((List.mergeSort_perm fs le).trans hp).trans (List.mergeSort_perm gs le).symm
  refine hperm.eq_of_pairwise ?_ (pairwise_mergeSort_first fs) (pairwise_mergeSort_first gs)
  intro f g hf hg hfg hgf
  have hf := ((List.mergeSort_perm fs le).trans hp).mem_iff.mp hf
  have hg := (List.mergeSort_perm gs le).mem_iff.mp hg
  -- the order is that of first bytes only, but these tell the findings apart
  have hinj : ∀ f ∈ gs, ∀ g ∈ gs, f.span.first = g.span.first → f = g :=
    List.Pairwise.forall_of_forall_of_flip (fun _ _ _ => rfl)
      (hd.imp fun h e => absurd e h) (hd.imp fun h e => absurd e.symm h)
  exact hinj f hf g hg (Nat.le_antisymm hfg hgf)

/-- Findings that are in order already are those of the script. -/
theorem analyze_of_perm {text : Bytes} {fs : List Finding} (hlen : text.length ≤ maxOffset)
    (hp : (Scan.start (text.map Mark.ofByte)).finish.findings.Perm fs)
    (hs : fs.Pairwise fun f g => f.span.first < g.span.first) : analyze text = .ok fs := by
  have hsort : (fs.mergeSort fun f g => f.span.first ≤ g.span.first) = fs :=
    List.mergeSort_of_pairwise (hs.imp fun hlt => decide_eq_true (Nat.le_of_lt hlt))
  rw [analyze_eq_scan, if_pos hlen, scan, mergeSort_eq_of_perm hp (hs.imp Nat.ne_of_lt), hsort]

theorem scan_eq_descent (ms : List Mark) : scan ms = Descent.scan ms := by
  have hp : (Scan.start ms).finish.findings.Perm (Descent.findings ms) := by
    have := Scan.findings_perm_unwound (Scan.rest_finish (Scan.start ms))
    rwa [Scan.unwound_finish, Scan.unwound_start] at this
  exact mergeSort_eq_of_perm hp (Descent.findings_distinct ms)

/-- The analysis of a script is its scan by recursive descent: the stack of
interrupted templates stands for the calls under way. -/
theorem analyze_eq_descent (text : Bytes) :
    analyze text =
      if text.length ≤ maxOffset then .ok (Descent.scan (text.map Mark.ofByte))
      else .error (.textTooLarge text.length) := by
  rw [analyze_eq_scan, scan_eq_descent]

end ScriptLint.Lexer
