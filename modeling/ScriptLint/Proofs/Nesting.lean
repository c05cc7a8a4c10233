import Mathlib.Order.Interval.Finset.Nat
import ScriptLint.Proofs.Locality
import ScriptLint.Proofs.Strings

/-! How substitutions nest while a script is scanned, and why every scan ends.

`Scanner.after text k` is the scan of a script after `k` items of code.  What an item does to
the templates that wait is said once (`Turn`): a backtick may push one, a brace counts in the
innermost substitution or ends it, and nothing else touches them.  From this follow

    (after text k).Standing text                                    (Scanner.standing_after)
    (after text k).waiting = inner ++ sub :: outer →
      ∃ p, Counted text p k sub outer                               (Scanner.counted_after)

where `Standing` says how the templates that wait lie in the text, and `Counted` says that the
counter of a substitution is the balance of the braces met on top of it, at every moment since
item `p` pushed it.  Each step goes on in the text, so the loop is left after one step for each
byte at most (`Scanner.exists_finish_eq_iterate`). -/

namespace ScriptLint.Lexer

open Grammar (marks)

/-! ## What an item does to the templates that wait -/

/-- The effect of the item at offset `pos` on the templates that wait. -/
inductive Turn (text : Bytes) (pos : Nat) : List Substitution → List Substitution → Prop
  | kept {waiting : List Substitution} :
      (waiting ≠ [] → text[pos]? ≠ some 0x7B ∧ text[pos]? ≠ some 0x7D) →
      Turn text pos waiting waiting
  | pushed {waiting : List Substitution} : text[pos]? = some 0x60 →
      Turn text pos waiting (⟨pos, 0⟩ :: waiting)
  | opened {start braces : Nat} {outer : List Substitution} : text[pos]? = some 0x7B →
      Turn text pos (⟨start, braces⟩ :: outer) (⟨start, braces + 1⟩ :: outer)
  | closed {start braces : Nat} {outer : List Substitution} : text[pos]? = some 0x7D →
      Turn text pos (⟨start, braces + 1⟩ :: outer) (⟨start, braces⟩ :: outer)
  | resumed {start : Nat} {outer : List Substitution} : text[pos]? = some 0x7D →
      Turn text pos (⟨start, 0⟩ :: outer) (⟨start, 0⟩ :: outer)
  | ended {start : Nat} {outer : List Substitution} : text[pos]? = some 0x7D →
      Turn text pos (⟨start, 0⟩ :: outer) outer

namespace Scan

variable {text : Bytes} {s : Scan}

theorem waiting_template (s : Scan) (start : Nat) :
    (s.template start).waiting = s.waiting ∨
    (s.template start).waiting = ⟨start, 0⟩ :: s.waiting := by
  unfold template
  split
  next => exact .inl rfl
  next => exact .inr rfl
  next => exact .inl rfl

/-- An item that is no delimiter does not begin with a brace. -/
theorem ne_brace_of_read {i : Nat} {m : Mark} {rest : List Mark}
    (hm : marks (text.drop i) = m :: rest) (hd : (Lexeme.read m rest).delimiter? = none) :
    text[i]? ≠ some 0x7B ∧ text[i]? ≠ some 0x7D := by
  constructor
  · intro hb
    rw [marks_of_byte hb] at hm
    cases hm
    cases hd
  · intro hb
    rw [marks_of_byte hb] at hm
    cases hm
    cases hd

theorem turn_openBrace (hb : text[s.pos]? = some 0x7B) :
    Turn text s.pos s.waiting (s.skip 1).openBrace.waiting := by
  obtain ⟨pos, ms, waiting, found⟩ := s
  cases waiting with
  | nil => exact .kept fun hne => absurd rfl hne
  | cons sub outer => exact .opened hb

theorem turn_closeBrace (hb : text[s.pos]? = some 0x7D) :
    Turn text s.pos s.waiting (s.skip 1).closeBrace.waiting := by
  obtain ⟨pos, ms, waiting, found⟩ := s
  match waiting with
  | [] => exact .kept fun hne => absurd rfl hne
  | ⟨start, 0⟩ :: outer =>
    have hwaiting := waiting_template ⟨pos + 1, ms.drop 1, outer, found⟩ start
    show Turn text pos _ (template ⟨pos + 1, ms.drop 1, outer, found⟩ start).waiting
    rcases hwaiting with hended | hresumed
    · rw [hended]
      exact .ended hb
    · rw [hresumed]
      exact .resumed hb
  | ⟨start, braces + 1⟩ :: outer => exact .closed hb

/-- Only backticks and braces change what waits. -/
theorem turn_of_rest (h : s.rest = marks (text.drop s.pos)) :
    Turn text s.pos s.waiting s.step.waiting := by
  cases hs : s.rest with
  | nil =>
    have hnone := getElem?_eq_none_of_marks (h.symm.trans hs)
    rw [step_of_rest_nil hs]
    exact .kept fun _ => by simp [hnone]
  | cons m rest =>
    have hmarks := h.symm.trans hs
    rw [step_eq_consume hs]
    cases hm : Lexeme.read m rest with
    | plain n => exact .kept fun _ => ne_brace_of_read hmarks (by rw [hm]; rfl)
    | fault kind width n => exact .kept fun _ => ne_brace_of_read hmarks (by rw [hm]; rfl)
    | backtick =>
      obtain rfl := Lexeme.eq_of_delimiter?_read (d := .backtick) (by rw [hm]; rfl)
      have hb := (byte_of_marks hmarks rfl).1
      show Turn text s.pos s.waiting ((s.skip 1).template s.pos).waiting
      rcases waiting_template (s.skip 1) s.pos with hclosed | hpushed
      · rw [hclosed]
        exact .kept fun _ => by simp [hb]
      · rw [hpushed]
        exact .pushed hb
    | braceOpen =>
      obtain rfl := Lexeme.eq_of_delimiter?_read (d := .braceOpen) (by rw [hm]; rfl)
      exact turn_openBrace (byte_of_marks hmarks rfl).1
    | braceClose =>
      obtain rfl := Lexeme.eq_of_delimiter?_read (d := .braceClose) (by rw [hm]; rfl)
      exact turn_closeBrace (byte_of_marks hmarks rfl).1

end Scan

namespace Scanner

variable {text : Bytes} {s : Scanner}

/-! ## The states of a scan -/

/-- `s'` has read some of the text that `s` has left. -/
def Onward (s s' : Scanner) : Prop :=
  ∃ n, s'.pos = s.pos + n ∧ s'.rest = s.rest.drop n

namespace Onward

theorem refl (s : Scanner) : Onward s s :=
  ⟨0, rfl, rfl⟩

theorem trans {s' s'' : Scanner} (h : Onward s s') (h' : Onward s' s'') : Onward s s'' := by
  obtain ⟨n, hpos, hrest⟩ := h
  obtain ⟨n', hpos', hrest'⟩ := h'
  exact ⟨n + n', by omega, by rw [hrest', hrest, List.drop_drop]⟩

theorem skip (s : Scanner) (n : Nat) : Onward s (s.skip n) :=
  ⟨n, rfl, rfl⟩

theorem skipEscape (s : Scanner) : Onward s s.skipEscape := by
  unfold Scanner.skipEscape
  split
  next => exact skip s 3
  next => exact skip s _

theorem stringBody (s : Scanner) (quote : UInt8) (start : Nat) :
    Onward s (s.stringBody quote start) := by
  fun_induction Scanner.stringBody s quote start with
  | case1 s hs => exact refl s
  | case2 s rest hs ih => exact (skipEscape s).trans ih
  | case3 s rest hs hb => exact skip s 1
  | case4 s b rest hs hb hquote hbreak => exact skip s _
  | case5 s b rest hs hb hquote hbreak ih => exact (skip s 1).trans ih

theorem templateBody (s : Scanner) (start : Nat) : Onward s (s.templateBody start) := by
  fun_induction Scanner.templateBody s start with
  | case1 s hs => exact refl s
  | case2 s rest hs ih => exact (skip s _).trans ih
  | case3 s rest hs hb => exact skip s 1
  | case4 s b rest hs hb hbacktick hdollar => exact skip s 2
  | case5 s b rest hs hb hbacktick hdollar ih => exact (skip s 1).trans ih

theorem blockComment (s : Scanner) : Onward s s.blockComment := by
  unfold Scanner.blockComment
  split
  next => exact skip s _
  next => exact skip s _

theorem openBrace (s : Scanner) : Onward s s.openBrace := by
  unfold Scanner.openBrace
  split
  next => exact refl s
  next => exact refl s

theorem closeBrace (s : Scanner) : Onward s s.closeBrace := by
  unfold Scanner.closeBrace
  split
  next => exact refl s
  next sub outer _ =>
    split
    next => exact refl s
    next => exact templateBody { s with waiting := outer } sub.template

theorem scanCode (s : Scanner) (b : UInt8) : Onward s (s.scanCode b) := by
  have hone : Onward s (s.skip 1) := skip s 1
  unfold Scanner.scanCode
  refine iteInduction (fun _ => hone.trans (stringBody _ _ _)) fun _ => ?_
  refine iteInduction (fun _ => hone.trans (templateBody _ _)) fun _ => ?_
  refine iteInduction (fun _ => blockComment s) fun _ => ?_
  refine iteInduction (fun _ => skip s _) fun _ => ?_
  refine iteInduction (fun _ => skip s 2) fun _ => ?_
  refine iteInduction (fun _ => skip s 1) fun _ => ?_
  refine iteInduction (fun _ => skip s 2) fun _ => ?_
  refine iteInduction (fun _ => skip s 1) fun _ => ?_
  refine iteInduction (fun _ => hone.trans (openBrace _)) fun _ => ?_
  exact iteInduction (fun _ => hone.trans (closeBrace _)) fun _ => hone

theorem step (s : Scanner) : Onward s s.step := by
  unfold Scanner.step
  split
  next => exact refl s
  next b _ _ => exact scanCode s b

theorem start (text : Bytes) : Onward ⟨0, text, [], []⟩ (Scanner.start text) := by
  unfold Scanner.start
  split
  next => exact skip _ _
  next => exact refl _

theorem after (text : Bytes) (k : Nat) : Onward ⟨0, text, [], []⟩ (Scanner.after text k) := by
  induction k with
  | zero => exact start text
  | succ k ih =>
    rw [after_succ]
    exact ih.trans (step _)

end Onward

theorem rest_after (text : Bytes) (k : Nat) :
    (after text k).rest = text.drop (after text k).pos := by
  obtain ⟨n, hpos, hrest⟩ := Onward.after text k
  rw [hrest, hpos, Nat.zero_add]

theorem pos_after_le (text : Bytes) (k : Nat) : (after text k).pos ≤ text.length := by
  have hle := (rest_of_visits (visits_after text k)).2
  rwa [marks, List.length_map] at hle

theorem rest_after_ne_nil_iff {k : Nat} :
    (after text k).rest ≠ [] ↔ (after text k).pos < text.length := by
  rw [rest_after, Ne, List.drop_eq_nil_iff, Nat.not_le]

theorem pos_after_lt {k : Nat} (h : (after text k).pos < text.length) :
    (after text k).pos < (after text (k + 1)).pos := by
  have hlt := Scan.pos_step_lt (mt rest_marked_eq_nil_iff.mp (rest_after_ne_nil_iff.mpr h))
  rwa [← marked_step_after] at hlt

theorem laminar_after (text : Bytes) (k : Nat) : (after text k).marked.Laminar :=
  (visits_after text k).laminar (Scan.laminar_of_nil (Scan.findings_start _))

theorem turn_after (text : Bytes) (k : Nat) :
    Turn text (after text k).pos (after text k).waiting (after text k).step.waiting := by
  have hturn := Scan.turn_of_rest (rest_eq_marks_of_visits (visits_after text k))
  rwa [← marked_step (marked_after text k).2] at hturn

/-- The loop is left after one step for each byte at most. -/
theorem exists_finish_eq_iterate (s : Scanner) :
    ∃ n ≤ s.rest.length, s.finish = step^[n] s ∧ ∀ j < n, (step^[j] s).rest ≠ [] := by
  fun_induction finish s with
  | case1 s hs => exact ⟨0, Nat.zero_le _, rfl, fun j hj => absurd hj (Nat.not_lt_zero j)⟩
  | case2 s hs ih =>
    obtain ⟨n, hn, hfinish, hbefore⟩ := ih
    refine ⟨n + 1, Nat.lt_of_le_of_lt hn (length_step_lt s hs), hfinish, fun j hj => ?_⟩
    cases j with
    | zero => exact hs
    | succ j => exact hbefore j (Nat.lt_of_succ_lt_succ hj)

theorem rest_finish (s : Scanner) : s.finish.rest = [] := by
  fun_induction finish s with
  | case1 s hs => exact hs
  | case2 s hs ih => exact ih

/-! ## Where templates wait -/

/-- First bytes of the templates that wait, innermost first. -/
def templates (s : Scanner) : List Nat :=
  s.waiting.map (·.template)

/-- How a scan under way lies in its text. -/
structure Standing (text : Bytes) (s : Scanner) : Prop where
  pos_le : s.pos ≤ text.length
  rest_eq : s.rest = text.drop s.pos
  nested : s.templates.Pairwise fun inner outer => outer < inner
  backtick : ∀ t ∈ s.templates, text[t]? = some 0x60
  behind : ∀ t ∈ s.templates, t < s.pos
  unreported : ∀ t ∈ s.templates, ∀ f ∈ s.found, f.span.first ≠ t

theorem templates_step (h : Turn text s.pos s.waiting s.step.waiting) :
    s.step.templates.Sublist s.templates ∨
    text[s.pos]? = some 0x60 ∧ s.step.templates = s.pos :: s.templates := by
  unfold templates
  generalize s.waiting = waiting at h ⊢
  generalize s.step.waiting = waiting' at h ⊢
  cases h with
  | kept => exact .inl (.refl _)
  | pushed hb => exact .inr ⟨hb, rfl⟩
  | opened => exact .inl (.refl _)
  | closed => exact .inl (.refl _)
  | resumed => exact .inl (.refl _)
  | ended => exact .inl (List.sublist_cons_self _ _)

/-- A template that waits is in sight as a finding. -/
theorem exists_finding_of_template {t : Nat} (h : t ∈ s.templates) :
    ∃ g ∈ s.waiting.reverse.map fun sub => Scan.unclosedTemplate sub.template s.marked.stop,
      g.span.first = t := by
  obtain ⟨sub, hsub, rfl⟩ := List.mem_map.mp h
  exact ⟨_, List.mem_map_of_mem (List.mem_reverse.mpr hsub), rfl⟩

theorem template_lt (h : s.marked.Laminar) {t : Nat} (ht : t ∈ s.templates) : t < s.pos := by
  obtain ⟨g, hg, rfl⟩ := exists_finding_of_template ht
  exact h.begun g (List.mem_append_right _ hg)

theorem first_ne_template (h : s.marked.Laminar) {t : Nat} (ht : t ∈ s.templates) {f : Finding}
    (hf : f ∈ s.found) : f.span.first ≠ t := by
  obtain ⟨g, hg, rfl⟩ := exists_finding_of_template ht
  rcases (List.pairwise_append.mp h.apart).2.2 f (List.mem_reverse.mpr hf) g hg with hlt | hlt
  · exact Nat.ne_of_lt hlt.1
  · exact Nat.ne_of_gt hlt.1

theorem waiting_start (text : Bytes) : (start text).waiting = [] := by
  unfold start
  split <;> rfl

/-- Templates begin one inside the other, each with its backtick. -/
theorem nested_after (text : Bytes) (k : Nat) :
    (after text k).templates.Pairwise (fun inner outer => outer < inner) ∧
    ∀ t ∈ (after text k).templates, text[t]? = some 0x60 := by
  induction k with
  | zero =>
    show ((start text).waiting.map (·.template)).Pairwise _ ∧
      ∀ t ∈ (start text).waiting.map (·.template), _
    rw [waiting_start]
    exact ⟨.nil, nofun⟩
  | succ k ih =>
    obtain ⟨hnested, hbacktick⟩ := ih
    rw [after_succ]
    rcases templates_step (turn_after text k) with hsub | ⟨hb, heq⟩
    · exact ⟨hnested.sublist hsub, fun t ht => hbacktick t (hsub.subset ht)⟩
    · rw [heq]
      refine ⟨List.pairwise_cons.mpr ⟨fun t ht => ?_, hnested⟩, fun t ht => ?_⟩
      -- the new template begins where the step does, and all that waits began before
      · exact template_lt (laminar_after text k) ht
      · rcases List.mem_cons.mp ht with rfl | ht
        · exact hb
        · exact hbacktick t ht

theorem standing_after (text : Bytes) (k : Nat) : (after text k).Standing text where
  pos_le := pos_after_le text k
  rest_eq := rest_after text k
  nested := (nested_after text k).1
  backtick := (nested_after text k).2
  behind _ ht := template_lt (laminar_after text k) ht
  unreported _ ht _ hf := first_ne_template (laminar_after text k) ht hf

/-! ## Braces met on top of a substitution -/

/-- The scan stands before byte `b`, and the stack is `depth` high. -/
def Meets (text : Bytes) (depth : Nat) (b : UInt8) (s : Scanner) : Prop :=
  s.waiting.length = depth ∧ text[s.pos]? = some b

instance (text : Bytes) (depth : Nat) (b : UInt8) (s : Scanner) : Decidable (s.Meets text depth b) :=
  inferInstanceAs (Decidable (_ ∧ _))

/-- How often byte `b` is met in code under a stack of this depth, from item `p` on and before
item `k`. -/
def met (text : Bytes) (depth : Nat) (b : UInt8) (p k : Nat) : Nat :=
  ((Finset.Ico p k).filter fun i => (after text i).Meets text depth b).card

/-- Opening braces less closing braces. -/
def balance (text : Bytes) (depth p k : Nat) : Int :=
  met text depth 0x7B p k - met text depth 0x7D p k

/-- What the item before which the scan stands adds to the balance. -/
def weight (text : Bytes) (depth : Nat) (s : Scanner) : Int :=
  (if s.Meets text depth 0x7B then 1 else 0) - if s.Meets text depth 0x7D then 1 else 0

theorem met_succ (text : Bytes) (depth : Nat) (b : UInt8) {p k : Nat} (h : p ≤ k) :
    met text depth b p (k + 1) =
      met text depth b p k + if (after text k).Meets text depth b then 1 else 0 := by
  unfold met
  rw [Nat.Ico_succ_right_eq_insert_Ico h, Finset.filter_insert]
  split
  next => rw [Finset.card_insert_of_notMem (by simp)]
  next => rfl

theorem balance_self (text : Bytes) (depth p : Nat) : balance text depth p p = 0 := by
  simp [balance, met]

theorem balance_succ (text : Bytes) (depth : Nat) {p k : Nat} (h : p ≤ k) :
    balance text depth p (k + 1) = balance text depth p k + (after text k).weight text depth := by
  unfold balance weight
  rw [met_succ text depth 0x7B h, met_succ text depth 0x7D h]
  split <;> split <;> omega

section
variable {depth : Nat}

theorem weight_of_length_ne (h : s.waiting.length ≠ depth) : s.weight text depth = 0 := by
  simp [weight, Meets, h]

theorem weight_of_ne_brace (h : text[s.pos]? ≠ some 0x7B ∧ text[s.pos]? ≠ some 0x7D) :
    s.weight text depth = 0 := by
  simp [weight, Meets, h]

theorem weight_open (hs : s.waiting.length = depth) (h : text[s.pos]? = some 0x7B) :
    s.weight text depth = 1 := by
  simp [weight, Meets, h, hs]

theorem weight_close (hs : s.waiting.length = depth) (h : text[s.pos]? = some 0x7D) :
    s.weight text depth = -1 := by
  simp [weight, Meets, h, hs]

end

/-- The item before which the scan stands pushes a substitution of the template from `start` on
the stack `outer`: the template begins there, or goes on behind its last substitution. -/
structure Pushes (text : Bytes) (s : Scanner) (start : Nat) (outer : List Substitution) : Prop where
  pushed : s.step.waiting = ⟨start, 0⟩ :: outer
  cause : (text[s.pos]? = some 0x60 ∧ s.pos = start ∧ s.waiting = outer) ∨
    (text[s.pos]? = some 0x7D ∧ s.waiting = ⟨start, 0⟩ :: outer)

/-- The counter of substitution `sub`, which item `p` was the last to push on `outer` and which
is on the stack up to item `k`.  At every moment in between it is the balance of the braces met
while `sub` was on top, that is, while the stack was one higher than `outer`; it is a natural
number, so the balance never falls below zero. -/
structure Counted (text : Bytes) (p k : Nat) (sub : Substitution) (outer : List Substitution) :
    Prop where
  lt : p < k
  pushes : Pushes text (after text p) sub.template outer
  last : ∀ j, p < j → j < k → ¬ Pushes text (after text j) sub.template outer
  braces_eq : sub.braces = balance text (outer.length + 1) (p + 1) k
  counts : ∀ j, p < j → j ≤ k → ∃ inner braces,
    (after text j).waiting = inner ++ ⟨sub.template, braces⟩ :: outer ∧
    (braces : Int) = balance text (outer.length + 1) (p + 1) j

section
variable {inner outer : List Substitution} {sub : Substitution}

/-- A substitution below the top of the stack was there before, and counts nothing. -/
theorem entry_of_covered {top : Substitution} (hs : s.waiting = top :: (inner ++ sub :: outer)) :
    ∃ inner' braces, s.waiting = inner' ++ ⟨sub.template, braces⟩ :: outer ∧
      (sub.braces : Int) = braces + s.weight text (outer.length + 1) := by
  have hlen : s.waiting.length ≠ outer.length + 1 := by
    rw [hs, List.length_cons, List.length_append, List.length_cons]
    omega
  refine ⟨top :: inner, sub.braces, hs, ?_⟩
  rw [weight_of_length_ne hlen, Int.add_zero]

/-- A substitution on the stack after a step was pushed by it, or was there before and has
counted the brace that was met on top of it. -/
theorem entry_of_turn (h : Turn text s.pos s.waiting s.step.waiting)
    (hs : s.step.waiting = inner ++ sub :: outer) :
    (sub.braces = 0 ∧ Pushes text s sub.template outer) ∨
    ∃ inner' braces, s.waiting = inner' ++ ⟨sub.template, braces⟩ :: outer ∧
      (sub.braces : Int) = braces + s.weight text (outer.length + 1) := by
  generalize hw : s.waiting = waiting at h
  generalize hstep : s.step.waiting = waiting' at h
  rw [hstep] at hs
  rw [← hw]
  -- a turn concerns the top of the stack only, so `inner` decides whether it concerns `sub`
  cases h with
  | kept hbyte =>
    subst hs
    refine .inr ⟨inner, sub.braces, hw, ?_⟩
    rw [weight_of_ne_brace (hbyte (by simp)), Int.add_zero]
  | pushed hb =>
    cases inner with
    | nil =>
      cases hs
      exact .inl ⟨rfl, hstep, .inl ⟨hb, rfl, hw⟩⟩
    | cons top inner =>
      refine .inr ⟨inner, sub.braces, hw.trans (List.cons.inj hs).2, ?_⟩
      rw [weight_of_ne_brace (by simp [hb]), Int.add_zero]
  | @opened start braces outer' hb =>
    cases inner with
    | nil =>
      cases hs
      refine .inr ⟨[], braces, hw, ?_⟩
      rw [weight_open (by rw [hw]; rfl) hb]
      rfl
    | cons top inner =>
      cases hs
      exact .inr (entry_of_covered hw)
  | @closed start braces outer' hb =>
    cases inner with
    | nil =>
      cases hs
      refine .inr ⟨[], braces + 1, hw, ?_⟩
      rw [weight_close (by rw [hw]; rfl) hb]
      show (braces : Int) = (braces + 1 : Nat) + -1
      omega
    | cons top inner =>
      cases hs
      exact .inr (entry_of_covered hw)
  | resumed hb =>
    cases inner with
    | nil =>
      cases hs
      exact .inl ⟨rfl, hstep, .inr ⟨hb, hw⟩⟩
    | cons top inner =>
      cases hs
      exact .inr (entry_of_covered hw)
  | ended _ =>
    subst hs
    exact .inr (entry_of_covered hw)

/-- As long as its counter does not fall below zero, a substitution is not pushed again. -/
theorem not_pushes_of_weight {start braces : Nat}
    (hs : s.waiting = inner ++ ⟨start, braces⟩ :: outer)
    (hnonneg : 0 ≤ braces + s.weight text (outer.length + 1)) : ¬ Pushes text s start outer := by
  rintro ⟨-, ⟨-, -, hw⟩ | ⟨hb, hw⟩⟩
  · have hlen := congrArg List.length (hw.symm.trans hs)
    rw [List.length_append, List.length_cons] at hlen
    omega
  · have heq := hw.symm.trans hs
    have hlen := congrArg List.length heq
    rw [List.length_append, List.length_cons, List.length_cons] at hlen
    obtain rfl : inner = [] := List.eq_nil_of_length_eq_zero (by omega)
    cases heq
    -- the brace that ends a substitution would take its counter from zero to minus one
    rw [weight_close (by rw [hw]; rfl) hb] at hnonneg
    omega

theorem Counted.of_pushes {p : Nat} (hbraces : sub.braces = 0)
    (h : Pushes text (after text p) sub.template outer) : Counted text p (p + 1) sub outer where
  lt := Nat.lt_succ_self p
  pushes := h
  last j hp hk := by omega
  braces_eq := by rw [hbraces, balance_self]; rfl
  counts j hp hk := by
    obtain rfl : j = p + 1 := by omega
    refine ⟨[], 0, ?_, by rw [balance_self]; rfl⟩
    rw [after_succ]
    exact h.pushed

theorem Counted.succ {p k start braces : Nat} (h : Counted text p k ⟨start, braces⟩ outer)
    {inner' : List Substitution} {braces' : Nat}
    (hs : (after text k).waiting = inner ++ ⟨start, braces⟩ :: outer)
    (hs' : (after text (k + 1)).waiting = inner' ++ ⟨start, braces'⟩ :: outer)
    (hbraces : (braces' : Int) = braces + (after text k).weight text (outer.length + 1)) :
    Counted text p (k + 1) ⟨start, braces'⟩ outer := by
  have heq : (braces' : Int) = balance text (outer.length + 1) (p + 1) (k + 1) := by
    rw [balance_succ _ _ h.lt, ← h.braces_eq]
    exact hbraces
  refine ⟨Nat.lt_succ_of_lt h.lt, h.pushes, fun j hp hk => ?_, heq, fun j hp hk => ?_⟩
  · rcases Nat.lt_succ_iff_lt_or_eq.mp hk with hk | rfl
    · exact h.last j hp hk
    · exact not_pushes_of_weight hs (by omega)
  · rcases Nat.le_succ_iff.mp hk with hk | rfl
    · exact h.counts j hp hk
    · exact ⟨inner', braces', hs', heq⟩

end

/-- The counter of every substitution under way is the balance of its braces. -/
theorem counted_after {k : Nat} {inner outer : List Substitution} {sub : Substitution}
    (h : (after text k).waiting = inner ++ sub :: outer) : ∃ p, Counted text p k sub outer := by
  induction k generalizing inner sub with
  | zero =>
    have hcons := (waiting_start text).symm.trans h
    simp at hcons
  | succ k ih =>
    have hstep := h
    rw [after_succ] at hstep
    rcases entry_of_turn (turn_after text k) hstep with ⟨hzero, hpushes⟩ | ⟨inner', braces, hs, hbraces⟩
    · exact ⟨k, .of_pushes hzero hpushes⟩
    · obtain ⟨p, hcounted⟩ := ih hs
      exact ⟨p, hcounted.succ hs h hbraces⟩

end Scanner

/-! ## Top theorem -/

/-- In every state of a scan the templates that wait lie one inside the other, each from its
backtick on, and their braces are counted; every step goes on in the text, so the scan ends
after at most as many steps as there are bytes. -/
theorem scan_standing (text : Bytes) :
    (∀ k, (Scanner.after text k).Standing text) ∧
    (∀ k inner sub outer, (Scanner.after text k).waiting = inner ++ sub :: outer →
      ∃ p, Scanner.Counted text p k sub outer) ∧
    (∀ k, (Scanner.after text k).pos < text.length →
      (Scanner.after text k).pos < (Scanner.after text (k + 1)).pos) ∧
    ∃ n ≤ text.length, (Scanner.start text).finish = Scanner.after text n ∧
      (Scanner.after text n).pos = text.length ∧
      ∀ j < n, (Scanner.after text j).pos < text.length := by
  refine ⟨Scanner.standing_after text, fun k inner sub outer h => Scanner.counted_after h,
    fun k hk => Scanner.pos_after_lt hk, ?_⟩
  obtain ⟨n, hn, hfinish, hbefore⟩ := Scanner.exists_finish_eq_iterate (Scanner.start text)
  have hfinish : (Scanner.start text).finish = Scanner.after text n := hfinish
  refine ⟨n, ?_, hfinish, ?_, fun j hj => Scanner.rest_after_ne_nil_iff.mp (hbefore j hj)⟩
  · obtain ⟨m, -, hrest⟩ := Scanner.Onward.start text
    rw [hrest, List.length_drop] at hn
    exact Nat.le_trans hn (Nat.sub_le _ _)
  · have hrest := Scanner.rest_finish (Scanner.start text)
    rw [hfinish] at hrest
    have hle := Scanner.pos_after_le text n
    have hge := mt Scanner.rest_after_ne_nil_iff.mpr (not_not.mpr hrest)
    omega

/-- A template that goes on behind its first substitution, and another one inside its second. -/
def nestedTemplates : Bytes :=
  [0x60, 0x24, 0x7B, 0x7D, 0x24, 0x7B, 0x7B, 0x60, 0x24, 0x7B, 0x7B, 0x7B, 0x7D]

theorem standing_nestedTemplates :
    (Scanner.after nestedTemplates 6).waiting = [⟨7, 2⟩, ⟨0, 1⟩] ∧
    (Scanner.after nestedTemplates 7).waiting = [⟨7, 1⟩, ⟨0, 1⟩] ∧
    (Scanner.after nestedTemplates 7).Standing nestedTemplates ∧
    (∃ p, Scanner.Counted nestedTemplates p 7 ⟨7, 1⟩ [⟨0, 1⟩]) ∧
    ∃ p, Scanner.Counted nestedTemplates p 7 ⟨0, 1⟩ [] := by
  have hwaiting : (Scanner.after nestedTemplates 7).waiting = [⟨7, 1⟩, ⟨0, 1⟩] := by decide +kernel
  obtain ⟨hstanding, hcounted, -⟩ := scan_standing nestedTemplates
  refine ⟨by decide +kernel, hwaiting, hstanding 7, ?_, ?_⟩
  · exact hcounted 7 [] _ _ hwaiting
  · exact hcounted 7 [⟨7, 1⟩] _ _ hwaiting

end ScriptLint.Lexer
