import Mathlib.Order.Hom.Basic
import ScriptLint.Proofs.Visits

/-! The same scan at other offsets.

A text is respelled by writing `g m` in place of each of its marks `m`; offsets then move,
by a map `φ` that keeps their order (`Measures`).  Where respelling changes nothing but
lengths (`Faithful`), the scan of the new text is that of the old one with all offsets moved:

    (s.moved g φ old).finish = s.finish.moved g φ old                        (Scan.finish_moved)

Both a text that stands further back and one with other line breaks are of this kind. -/

namespace ScriptLint

/-- The range with both ends moved. -/
def Span.map (φ : Nat ↪o Nat) (s : Span) : Span :=
  ⟨φ s.first, φ s.stop, φ.monotone s.first_le_stop⟩

/-- The finding with all its offsets moved. -/
def Finding.map (φ : Nat ↪o Nat) (f : Finding) : Finding :=
  ⟨f.kind, f.span.map φ, f.args.map (Span.map φ)⟩

theorem Finding.map_refl : Finding.map (RelEmbedding.refl (· ≤ ·)) = id := by
  have hspan : Span.map (RelEmbedding.refl (· ≤ ·)) = id := rfl
  funext f
  unfold Finding.map
  rw [hspan, List.map_id]
  rfl

theorem Span.map_ofLength {φ : Nat ↪o Nat} {first n n' : Nat} (h : φ (first + n) = φ first + n') :
    (Span.ofLength first n).map φ = .ofLength (φ first) n' := by
  unfold Span.map Span.ofLength
  simp only [h]

namespace Lexer

/-! ## Offsets of a respelled text -/

/-- How far `n` bytes from offset `k` on reach when offsets are moved by `φ`. -/
def past (φ : Nat → Nat) (k n : Nat) : Nat :=
  φ (k + n) - φ k

/-- `φ` moves the offsets of `ms`, which stands at offset `k`, as writing `g m` for each of its
marks `m` does. -/
def Measures (g : Mark → List Mark) (φ : Nat → Nat) (k : Nat) : List Mark → Prop
  | [] => True
  | m :: rest => φ (k + 1) = φ k + (g m).length ∧ Measures g φ (k + 1) rest

theorem past_zero (φ : Nat → Nat) (k : Nat) : past φ k 0 = 0 :=
  Nat.sub_self _

theorem add_past (φ : Nat ↪o Nat) (k n : Nat) : φ k + past φ k n = φ (k + n) :=
  Nat.add_sub_of_le (φ.monotone (Nat.le_add_right k n))

theorem past_succ (φ : Nat ↪o Nat) {k : Nat} (n : Nat) (h : φ (k + 1) = φ k + 1) :
    past φ k (n + 1) = past φ (k + 1) n + 1 := by
  have h1 := add_past φ k (n + 1)
  have h2 := add_past φ (k + 1) n
  rw [show k + (n + 1) = k + 1 + n by omega] at h1
  omega

namespace Measures

variable {g : Mark → List Mark} {φ : Nat → Nat} {k n : Nat} {ms : List Mark}

theorem of_getElem? (h : ∀ i m, ms[i]? = some m → φ (k + i + 1) = φ (k + i) + (g m).length) :
    Measures g φ k ms := by
  induction ms generalizing k with
  | nil => trivial
  | cons m rest ih =>
    refine ⟨h 0 m rfl, ih fun i m' hm' => ?_⟩
    rw [show k + 1 + i = k + (i + 1) by omega]
    exact h (i + 1) m' hm'

theorem drop (h : Measures g φ k ms) (n : Nat) : Measures g φ (k + n) (ms.drop n) := by
  induction n generalizing k ms with
  | zero => exact h
  | succ n ih =>
    cases ms with
    | nil => trivial
    | cons m rest =>
      rw [show k + (n + 1) = k + 1 + n by omega]
      exact ih h.2

theorem apply_add (h : Measures g φ k ms) (hn : n ≤ ms.length) :
    φ (k + n) = φ k + ((ms.take n).flatMap g).length := by
  induction n generalizing k ms with
  | zero => simp
  | succ n ih =>
    cases ms with
    | nil => simp at hn
    | cons m rest =>
      have hrest := ih h.2 (by simpa using hn)
      rw [show k + 1 + n = k + (n + 1) by omega] at hrest
      rw [hrest, h.1, List.take_succ_cons, List.flatMap_cons, List.length_append]
      omega

theorem past_eq (h : Measures g φ k ms) (hn : n ≤ ms.length) :
    past φ k n = ((ms.take n).flatMap g).length := by
  unfold past
  rw [h.apply_add hn, Nat.add_sub_cancel_left]

/-- The respelled text behind the first `n` bytes. -/
theorem drop_flatMap (h : Measures g φ k ms) (hn : n ≤ ms.length) :
    (ms.flatMap g).drop (past φ k n) = (ms.drop n).flatMap g := by
  have hsplit : ms.flatMap g = (ms.take n).flatMap g ++ (ms.drop n).flatMap g := by
    rw [← List.flatMap_append, List.take_append_drop]
  rw [hsplit, h.past_eq hn]
  exact List.drop_left

/-- Counted from an earlier offset, a text is measured just as well. -/
theorem past {φ : Nat ↪o Nat} {j : Nat} (h : Measures g φ (k + j) ms) :
    Measures g (past φ k) j ms := by
  induction ms generalizing j with
  | nil => trivial
  | cons m rest ih =>
    refine ⟨?_, ih h.2⟩
    have h1 := add_past φ k j
    have h2 := add_past φ k (j + 1)
    have h3 : φ (k + (j + 1)) = φ (k + j) + (g m).length := h.1
    omega

end Measures

/-! ## What stays the same -/

def TemplateEnd.map (ψ : Nat → Nat) : TemplateEnd → TemplateEnd
  | .closed n => .closed (ψ n)
  | .substitution n => .substitution (ψ n)
  | .cut => .cut

def Lexeme.map (ψ : Nat → Nat) : Lexeme → Lexeme
  | .plain n => .plain (ψ n)
  | .fault kind width n => .fault kind (ψ width) (ψ n)
  | .backtick => .backtick
  | .braceOpen => .braceOpen
  | .braceClose => .braceClose

/-- Respelling `ms` by `g` changes only the lengths of what is read from it: a mark is kept,
or it is a line break and becomes line breaks. -/
structure Faithful (g : Mark → List Mark) (ms : List Mark) : Prop where
  item : ∀ {m rest}, m :: rest <:+ ms → g m = [m] → ∀ {ψ : Nat → Nat}, ψ 0 = 0 →
    Measures g ψ 0 rest → Lexeme.read m (rest.flatMap g) = (Lexeme.read m rest).map ψ
  text : ∀ {rest}, rest <:+ ms → ∀ {ψ : Nat → Nat}, ψ 0 = 0 →
    Measures g ψ 0 rest → templateEnd 0 (rest.flatMap g) = (templateEnd 0 rest).map ψ
  spelled : ∀ m ∈ ms, g m = [m] ∨ m.isBreak = true ∧ ∀ b ∈ g m, b.isBreak = true

theorem Faithful.of_suffix {g : Mark → List Mark} {ms ms' : List Mark} (h : Faithful g ms)
    (hs : ms' <:+ ms) : Faithful g ms' :=
  ⟨fun hsuffix => h.item (hsuffix.trans hs), fun hsuffix => h.text (hsuffix.trans hs),
    fun m hm => h.spelled m (hs.subset hm)⟩

theorem Lexeme.read_of_isBreak {m : Mark} (h : m.isBreak = true) (rest : List Mark) :
    Lexeme.read m rest = .plain 0 := by
  cases m with
  | lineFeed => rfl
  | carriageReturn => rfl
  | _ => cases h

/-! ## Scans -/

def Substitution.map (φ : Nat ↪o Nat) (sub : Substitution) : Substitution :=
  ⟨φ sub.template, sub.braces⟩

namespace Scan

/-- The scan on the respelled text, with all offsets moved and the findings `old` before its own. -/
def moved (g : Mark → List Mark) (φ : Nat ↪o Nat) (old : List Finding) (s : Scan) : Scan :=
  ⟨φ s.pos, s.rest.flatMap g, s.waiting.map (Substitution.map φ),
    s.found.map (Finding.map φ) ++ old⟩

section
variable {g : Mark → List Mark} {φ : Nat ↪o Nat} (old : List Finding) {s : Scan}

theorem map_faultAt (kind : Kind) (span : Span) :
    (faultAt kind span).map φ = faultAt kind (span.map φ) := by
  cases kind <;> rfl

theorem map_unclosedTemplate (start stop : Nat) :
    (unclosedTemplate start stop).map φ = unclosedTemplate (φ start) (φ stop) := by
  have hspan : (Span.ofLength start (stop - start)).map φ =
      .ofLength (φ start) (φ stop - φ start) := by
    apply Span.map_ofLength
    rcases Nat.le_total start stop with hle | hle
    · have := φ.monotone hle
      rw [Nat.add_sub_of_le hle]
      omega
    · have := φ.monotone hle
      rw [Nat.sub_eq_zero_of_le hle, Nat.sub_eq_zero_of_le this, Nat.add_zero, Nat.add_zero]
  unfold unclosedTemplate Finding.map
  rw [hspan]
  rfl

theorem moved_skip (hm : Measures g φ s.pos s.rest) {n : Nat} (hn : n ≤ s.rest.length) :
    (s.skip n).moved g φ old = (s.moved g φ old).skip (past φ s.pos n) := by
  unfold moved skip
  simp only [add_past, hm.drop_flatMap hn]

theorem moved_report (f : Finding) :
    (s.report f).moved g φ old = (s.moved g φ old).report (f.map φ) := rfl

theorem stop_moved (hm : Measures g φ s.pos s.rest) : (s.moved g φ old).stop = φ s.stop := by
  unfold stop
  rw [hm.apply_add (Nat.le_refl _), List.take_length]
  rfl

theorem moved_template (hm : Measures g φ s.pos s.rest)
    (ht : templateEnd 0 (s.rest.flatMap g) = (templateEnd 0 s.rest).map (past φ s.pos))
    (start : Nat) :
    (s.template start).moved g φ old = (s.moved g φ old).template (φ start) := by
  have hfits := templateEnd_fits 0 s.rest
  rw [Nat.zero_add] at hfits
  have hrest : (s.moved g φ old).rest = s.rest.flatMap g := rfl
  unfold template
  rw [hrest, ht]
  cases he : templateEnd 0 s.rest with
  | closed n =>
    rw [he] at hfits
    exact moved_skip old hm hfits
  | substitution n =>
    rw [he] at hfits
    have hskip := moved_skip old hm hfits
    simp only [TemplateEnd.map]
    rw [← hskip]
    rfl
  | cut =>
    have hlen : past φ s.pos s.rest.length = (s.rest.flatMap g).length := by
      rw [hm.past_eq (Nat.le_refl _), List.take_length]
    simp only [TemplateEnd.map]
    rw [stop_moved old hm, ← map_unclosedTemplate, ← moved_report, ← hlen]
    exact moved_skip (s := s.report _) old hm (Nat.le_refl _)

theorem moved_openBrace : s.openBrace.moved g φ old = (s.moved g φ old).openBrace := by
  obtain ⟨pos, rest, waiting, found⟩ := s
  cases waiting with
  | nil => rfl
  | cons sub outer => rfl

theorem moved_closeBrace (hm : Measures g φ s.pos s.rest)
    (ht : templateEnd 0 (s.rest.flatMap g) = (templateEnd 0 s.rest).map (past φ s.pos)) :
    s.closeBrace.moved g φ old = (s.moved g φ old).closeBrace := by
  obtain ⟨pos, rest, waiting, found⟩ := s
  match waiting with
  | [] => rfl
  | ⟨start, 0⟩ :: outer => exact moved_template (s := ⟨pos, rest, outer, found⟩) old hm ht start
  | ⟨start, braces + 1⟩ :: outer => rfl

/-- Moving past an item and moving offsets can be done in either order. -/
theorem moved_consume {m : Mark} {rest : List Mark} {item : Lexeme}
    (hm : Measures g φ s.pos s.rest) (hs : s.rest = m :: rest) (hg : g m = [m])
    (hfits : item.Fits rest.length)
    (ht : templateEnd 0 (rest.flatMap g) = (templateEnd 0 rest).map (past φ (s.pos + 1))) :
    (s.consume item).moved g φ old =
      (s.moved g φ old).consume (item.map (past φ (s.pos + 1))) := by
  have hlen : s.rest.length = rest.length + 1 := by rw [hs]; rfl
  have hone : φ (s.pos + 1) = φ s.pos + 1 := by
    rw [hs] at hm
    rw [hm.1, hg]
    rfl
  have hpast : ∀ n, past φ (s.pos + 1) n + 1 = past φ s.pos (n + 1) := fun n =>
    (past_succ φ n hone).symm
  have hskip : (s.skip 1).moved g φ old = (s.moved g φ old).skip 1 := by
    rw [moved_skip old hm (by omega), past_succ φ 0 hone, past_zero]
  have hrest : (s.skip 1).rest = rest := by rw [rest_skip, hs]; rfl
  have hm1 : Measures g φ (s.skip 1).pos (s.skip 1).rest := hm.drop 1
  rw [← hrest] at ht
  cases item with
  | plain n =>
    have hn : n + 1 ≤ s.rest.length := by rw [hlen]; exact Nat.succ_le_succ hfits
    simp only [consume, Lexeme.map, hpast]
    exact moved_skip old hm hn
  | fault kind width n =>
    have hn : n + 1 ≤ s.rest.length := by rw [hlen]; exact Nat.succ_le_succ hfits.2
    have hspan : (Span.ofLength s.pos (width + 1)).map φ =
        .ofLength (φ s.pos) (past φ s.pos (width + 1)) :=
      Span.map_ofLength (add_past φ s.pos (width + 1)).symm
    simp only [consume, Lexeme.map, hpast]
    rw [moved_skip (s := s.report _) old hm hn, moved_report, map_faultAt, hspan]
    rfl
  | backtick =>
    simp only [consume, Lexeme.map]
    rw [moved_template old hm1 ht, hskip]
    rfl
  | braceOpen =>
    simp only [consume, Lexeme.map]
    rw [moved_openBrace, hskip]
  | braceClose =>
    simp only [consume, Lexeme.map]
    rw [moved_closeBrace old hm1 ht, hskip]

theorem moved_step {m : Mark} {rest : List Mark} (h : Faithful g s.rest)
    (hm : Measures g φ s.pos s.rest) (hs : s.rest = m :: rest) (hg : g m = [m]) :
    s.step.moved g φ old = (s.moved g φ old).step := by
  have hmoved : (s.moved g φ old).rest = m :: rest.flatMap g := by
    show s.rest.flatMap g = _
    rw [hs, List.flatMap_cons, hg]
    rfl
  have hrest : Measures g (past φ (s.pos + 1)) 0 rest := by
    rw [hs] at hm
    exact Measures.past hm.2
  have hsuffix : m :: rest <:+ s.rest := ⟨[], hs.symm⟩
  have hzero := past_zero φ (s.pos + 1)
  rw [step_eq_consume hs, step_eq_consume hmoved, h.item hsuffix hg hzero hrest]
  refine moved_consume old hm hs hg (Lexeme.read_fits m rest) ?_
  exact h.text ((List.suffix_cons m rest).trans hsuffix) hzero hrest

/-- Line breaks in code are passed over one by one. -/
theorem finish_breaks {bs : List Mark} (h : ∀ b ∈ bs, b.isBreak = true) (pos : Nat)
    (rest : List Mark) (waiting : List Substitution) (found : List Finding) :
    (⟨pos, bs ++ rest, waiting, found⟩ : Scan).finish =
      (⟨pos + bs.length, rest, waiting, found⟩ : Scan).finish := by
  induction bs generalizing pos with
  | nil => rfl
  | cons b bs ih =>
    obtain ⟨hb, hbs⟩ := List.forall_mem_cons.mp h
    have hstep : (⟨pos, b :: bs ++ rest, waiting, found⟩ : Scan).step =
        ⟨pos + 1, bs ++ rest, waiting, found⟩ := by
      rw [step_eq_consume (List.cons_append ..), Lexeme.read_of_isBreak hb]
      rfl
    rw [finish, dif_neg (by simp), hstep, ih hbs, List.length_cons]
    congr 2
    omega

theorem finish_moved (h : Faithful g s.rest) (hm : Measures g φ s.pos s.rest) :
    (s.moved g φ old).finish = s.finish.moved g φ old := by
  fun_induction finish s with
  | case1 s hs =>
    have hnil : (s.moved g φ old).rest = [] := by
      show s.rest.flatMap g = []
      rw [hs]
      rfl
    rw [finish, dif_pos hnil]
  | case2 s hs ih =>
    obtain ⟨n, -, hpos, hrest⟩ := (Onward.step s).ahead
    have hnext : (s.step.moved g φ old).finish = s.step.finish.moved g φ old := by
      apply ih
      · rw [hrest]
        exact h.of_suffix (List.drop_suffix n s.rest)
      · rw [hpos, hrest]
        exact hm.drop n
    rw [← hnext]
    obtain ⟨m, rest, hcons⟩ := List.exists_cons_of_ne_nil hs
    rcases h.spelled m (by rw [hcons]; exact List.mem_cons_self) with hg | ⟨hbreak, hbreaks⟩
    · have hne : (s.moved g φ old).rest ≠ [] := by
        show s.rest.flatMap g ≠ []
        rw [hcons, List.flatMap_cons, hg]
        simp
      rw [moved_step old h hm hcons hg, finish, dif_neg hne]
    · -- one break may have become two, which take a step each
      have hstep : s.step = s.skip 1 := by
        rw [step_eq_consume hcons, Lexeme.read_of_isBreak hbreak]
        rfl
      have hone : φ (s.pos + 1) = φ s.pos + (g m).length := by
        rw [hcons] at hm
        exact hm.1
      have hmoved : (s.step.moved g φ old) = ⟨φ s.pos + (g m).length, rest.flatMap g,
          s.waiting.map (Substitution.map φ), s.found.map (Finding.map φ) ++ old⟩ := by
        rw [hstep]
        simp only [moved, skip, hone, hcons, List.drop_succ_cons, List.drop_zero]
      rw [hmoved, ← finish_breaks hbreaks]
      unfold moved
      rw [hcons, List.flatMap_cons]

/-- The findings of the moved scan: those from before, and its own at their new offsets. -/
theorem findings_finish_moved (h : Faithful g s.rest) (hm : Measures g φ s.pos s.rest) :
    (s.moved g φ old).finish.findings =
      old.reverse ++ s.finish.findings.map (Finding.map φ) := by
  have hstop : (s.finish.moved g φ old).stop = φ s.finish.stop := by
    apply stop_moved
    rw [rest_finish]
    trivial
  rw [finish_moved old h hm]
  unfold findings
  rw [hstop]
  simp only [moved, List.reverse_append, List.map_append, List.map_reverse, List.map_map,
    List.append_assoc]
  congr 3
  apply List.map_congr_left
  intro sub _
  exact (map_unclosedTemplate sub.template s.finish.stop).symm

end

end Scan

/-- Findings stay in order when their offsets are moved. -/
theorem pairwise_map_scan (φ : Nat ↪o Nat) (ms : List Mark) :
    ((scan ms).map (Finding.map φ)).Pairwise fun f g => f.span.first < g.span.first := by
  refine List.pairwise_map.mpr ((pairwise_scan ms).imp fun h => ?_)
  exact φ.strictMono h.1

end Lexer

end ScriptLint
