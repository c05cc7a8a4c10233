import ScriptLint.Proofs.Relocation

/-! Scripts with other line breaks.

A script whose lines end with a line feed may have a carriage return, or a return and a
feed, in its place.  A single return changes nothing, and the pair moves every offset by the
number of line feeds before it:

    analyze (rebreak [0x0D] text) = analyze text
    analyze (rebreak [0x0D, 0x0A] text) =
      .ok (findings.map (Finding.map (widened text)))             (analyze_rebreak)

Each reader is followed with a map of offsets `φ` that measures the text (`Measures`), so that
its count goes from `φ k` where it went from `k`.  Only strings see that a pair is one break;
template text, comments and code pass over its two bytes one by one. -/

namespace ScriptLint.Lexer

open Grammar (marks)

/-! ## Respelling -/

/-- What may stand in place of a line feed. -/
inductive Newline where
  | single
  | pair

def Newline.marks : Newline → List Mark
  | .single => [.carriageReturn]
  | .pair => [.carriageReturn, .lineFeed]

/-- A text with `brk` in place of each line feed. -/
def rebreak (brk text : Bytes) : Bytes :=
  text.flatMap fun b => if b = 0x0A then brk else [b]

/-- Offsets when each line feed before them takes one byte more. -/
def widened (text : Bytes) : Nat ↪o Nat :=
  OrderEmbedding.ofStrictMono (fun i => i + (text.take i).count 0x0A) <| by
    intro i j hij
    have hle := (List.take_sublist_take_left (l := text) (Nat.le_of_lt hij)).count_le 0x0A
    show i + (text.take i).count 0x0A < j + (text.take j).count 0x0A
    omega

/-- The spelling of a mark with other line breaks. -/
def respell (e : Newline) (m : Mark) : List Mark :=
  if m = .lineFeed then e.marks else [m]

theorem respell_lineFeed (e : Newline) : respell e .lineFeed = e.marks :=
  if_pos rfl

theorem respell_of_ne {e : Newline} {m : Mark} (h : m ≠ .lineFeed) : respell e m = [m] :=
  if_neg h

theorem startsIdentifier_of_isBreak {m : Mark} (h : m.isBreak = true) :
    m.startsIdentifier = false := by
  cases m with
  | lineFeed => rfl
  | carriageReturn => rfl
  | _ => cases h

section
variable {e : Newline} {m : Mark} {ms rest tail : List Mark} {k : Nat} {φ : Nat → Nat}

theorem flatMap_lineFeed :
    (.lineFeed :: rest).flatMap (respell e) = e.marks ++ rest.flatMap (respell e) := rfl

theorem flatMap_of_ne (hm : m ≠ .lineFeed) :
    (m :: rest).flatMap (respell e) = m :: rest.flatMap (respell e) := by
  rw [List.flatMap_cons, respell_of_ne hm]
  rfl

/-- A mark that is part of no break comes from itself. -/
theorem exists_of_respelled (hm : m.isBreak = false)
    (h : ms.flatMap (respell e) = m :: tail) : ∃ tail', ms = m :: tail' := by
  cases ms with
  | nil => cases h
  | cons x ms =>
    by_cases hx : x = .lineFeed
    · rw [hx, flatMap_lineFeed] at h
      cases e <;> cases h <;> cases hm
    · rw [flatMap_of_ne hx] at h
      exact ⟨ms, by rw [(List.cons.inj h).1]⟩

/-- Behind a respelled mark no line feed comes first. -/
theorem head_ne_lineFeed : ms.flatMap (respell e) ≠ .lineFeed :: tail := by
  cases ms with
  | nil => nofun
  | cons x ms =>
    intro h
    by_cases hx : x = .lineFeed
    · rw [hx, flatMap_lineFeed] at h
      cases e <;> cases h
    · rw [flatMap_of_ne hx] at h
      exact hx (List.cons.inj h).1

theorem measures_cons (h : Measures (respell e) φ k (m :: rest)) (hm : m ≠ .lineFeed) :
    φ (k + 1) = φ k + 1 := by
  rw [h.1, respell_of_ne hm]
  rfl

/-! ## Template text and comments -/

theorem templateEnd_newline (e : Newline) (k : Nat) (ms : List Mark) :
    templateEnd k (e.marks ++ ms) = templateEnd (k + e.marks.length) ms := by
  cases e <;> simp [Newline.marks, templateEnd]

theorem templateEnd_escape (k : Nat) (m : Mark) (ms : List Mark) :
    templateEnd k (.backslash :: (respell e m ++ ms)) =
      templateEnd (k + 1 + (respell e m).length) ms := by
  by_cases hm : m = .lineFeed
  · subst hm
    rw [respell_lineFeed]
    cases e <;> simp [Newline.marks, templateEnd]
  · rw [respell_of_ne hm]
    simp [templateEnd]

theorem templateEnd_respell (hm : Measures (respell e) φ k ms) :
    templateEnd (φ k) (ms.flatMap (respell e)) = (templateEnd k ms).map φ := by
  fun_induction templateEnd k ms with
  | case1 k => rfl
  | case2 k => rfl
  | case3 k m rest ih =>
    have hone := measures_cons hm (by simp)
    have htwo : φ (k + 1 + 1) = φ (k + 1) + (respell e m).length := hm.2.1
    rw [← ih hm.2.2, htwo, hone]
    exact templateEnd_escape (φ k) m _
  | case4 k rest =>
    rw [TemplateEnd.map, measures_cons hm (by simp)]
    rfl
  | case5 k rest =>
    rw [TemplateEnd.map, measures_cons hm.2 (by simp), measures_cons hm (by simp)]
    rfl
  | case6 k m rest h1 h2 h3 h4 ih =>
    rw [← ih hm.2]
    by_cases hfeed : m = .lineFeed
    · rw [hm.1, hfeed, respell_lineFeed, flatMap_lineFeed, templateEnd_newline]
    · rw [measures_cons hm hfeed, flatMap_of_ne hfeed]
      refine templateEnd_other (ne_of_cases h1 h2) h3 ?_
      intro tail hdollar htail
      obtain ⟨tail', htail'⟩ := exists_of_respelled rfl htail
      exact h4 tail' hdollar htail'

theorem commentEnd?_newline (e : Newline) (k : Nat) (ms : List Mark) :
    commentEnd? k (e.marks ++ ms) = commentEnd? (k + e.marks.length) ms := by
  cases e <;> simp [Newline.marks, commentEnd?]

theorem commentEnd?_respell (hm : Measures (respell e) φ k ms) :
    commentEnd? (φ k) (ms.flatMap (respell e)) = (commentEnd? k ms).map φ := by
  fun_induction commentEnd? k ms with
  | case1 k => rfl
  | case2 k rest =>
    rw [Option.map_some, measures_cons hm.2 (by simp), measures_cons hm (by simp)]
    rfl
  | case3 k m rest hne ih =>
    rw [← ih hm.2]
    by_cases hfeed : m = .lineFeed
    · rw [hm.1, hfeed, respell_lineFeed, flatMap_lineFeed, commentEnd?_newline]
    · rw [measures_cons hm hfeed, flatMap_of_ne hfeed]
      refine commentEnd?_other ?_
      intro tail hstar htail
      obtain ⟨tail', htail'⟩ := exists_of_respelled rfl htail
      exact hne tail' hstar htail'

/-! ## Lines -/

theorem line_respell (ms : List Mark) : line (ms.flatMap (respell e)) = line ms := by
  unfold line
  induction ms with
  | nil => rfl
  | cons m ms ih =>
    by_cases hfeed : m = .lineFeed
    · rw [hfeed, flatMap_lineFeed]
      cases e <;> rfl
    · rw [flatMap_of_ne hfeed, List.takeWhile_cons, List.takeWhile_cons, ih]

/-- Inside a line offsets move alike. -/
theorem apply_add_line (hm : Measures (respell e) φ k ms) {i : Nat} (hi : i ≤ (line ms).length) :
    φ (k + i) = φ k + i := by
  induction i generalizing k ms with
  | zero => rfl
  | succ i ih =>
    cases ms with
    | nil => simp [line] at hi
    | cons m rest =>
      unfold line at hi
      by_cases hbreak : m.isBreak = true
      · simp [hbreak] at hi
      · have hfeed : m ≠ .lineFeed := by
          rintro rfl
          exact hbreak rfl
        have hrest := ih hm.2 (by simpa [hbreak, line] using hi)
        rw [show k + 1 + i = k + (i + 1) by omega, measures_cons hm hfeed] at hrest
        omega

/-! ## Strings -/

theorem stringEnd_newline {q : Quote} (h : ∀ tail, rest ≠ .lineFeed :: tail) (k : Nat) :
    stringEnd q k (e.marks ++ rest) = .broken k e.marks.length rest := by
  cases e with
  | single =>
    show stringEnd q k (.carriageReturn :: rest) = _
    rw [stringEnd]
    · rfl
    · exact h
  | pair => rfl

theorem stringEnd_escaped_newline {q : Quote} (h : ∀ tail, rest ≠ .lineFeed :: tail) (k : Nat) :
    stringEnd q k (.backslash :: (e.marks ++ rest)) =
      stringEnd q (k + 1 + e.marks.length) rest := by
  cases e with
  | single => exact stringEnd_escape fun tail _ htail => h tail htail
  | pair => rfl

/-- How a string ends on both sides. -/
inductive EndsAlike (e : Newline) (φ : Nat → Nat) : StringEnd → StringEnd → Prop
  | closed {n : Nat} : EndsAlike e φ (.closed n) (.closed (φ n))
  | broken {n : Nat} {next : List Mark} : Measures (respell e) φ n (.lineFeed :: next) →
      EndsAlike e φ (.broken n 1 next)
        (.broken (φ n) e.marks.length (next.flatMap (respell e)))
  | cut {n : Nat} : EndsAlike e φ (.cut n) (.cut (φ n))

theorem endsAlike_stringEnd {q : Quote} (hm : Measures (respell e) φ k ms)
    (hreturn : .carriageReturn ∉ ms) :
    EndsAlike e φ (stringEnd q k ms) (stringEnd q (φ k) (ms.flatMap (respell e))) := by
  fun_induction stringEnd q k ms with
  | case1 k => exact .cut
  | case2 k =>
    have halike := EndsAlike.cut (e := e) (φ := φ) (n := k + 1)
    rw [measures_cons hm (by simp)] at halike
    exact halike
  | case3 => simp at hreturn
  | case4 k m rest hne ih =>
    have hone := measures_cons hm (by simp)
    have htwo : φ (k + 1 + 1) = φ (k + 1) + (respell e m).length := hm.2.1
    have hrest := ih hm.2.2 (by simp_all)
    rw [htwo, hone] at hrest
    rw [flatMap_of_ne (by decide)]
    by_cases hfeed : m = .lineFeed
    · subst hfeed
      rw [respell_lineFeed] at hrest
      rw [flatMap_lineFeed, stringEnd_escaped_newline fun _ => head_ne_lineFeed]
      exact hrest
    · rw [respell_of_ne hfeed] at hrest
      rw [flatMap_of_ne hfeed, stringEnd_escape fun _ _ => head_ne_lineFeed]
      exact hrest
  | case5 k rest =>
    have halike := EndsAlike.closed (e := e) (φ := φ) (n := k + 1)
    rw [measures_cons hm (by simp)] at halike
    rw [flatMap_of_ne (by simp)]
    simpa [stringEnd] using halike
  | case6 k p rest hp ih =>
    have hrest := ih hm.2 (by simp_all)
    rw [measures_cons hm (by simp)] at hrest
    rw [flatMap_of_ne (by simp)]
    simpa [stringEnd, hp] using hrest
  | case7 => simp at hreturn
  | case8 => simp at hreturn
  | case9 k rest =>
    rw [flatMap_lineFeed, stringEnd_newline fun _ => head_ne_lineFeed]
    exact .broken hm
  | case10 k m rest h1 h2 h3 h4 h5 h6 h7 ih =>
    have hrest := ih hm.2 (by simp_all)
    rw [measures_cons hm h7] at hrest
    rw [flatMap_of_ne h7, stringEnd_other (ne_of_cases h1 h3) (h4 q) h7 h6]
    exact hrest

theorem brokenExtent_respell {q : Quote} {n : Nat} {next : List Mark}
    (hm : Measures (respell e) φ n (.lineFeed :: next)) :
    brokenExtent q (φ n) e.marks.length (next.flatMap (respell e)) =
      φ (brokenExtent q n 1 next) := by
  have hone : φ (n + 1) = φ n + e.marks.length := by
    rw [hm.1, respell_lineFeed]
  unfold brokenExtent
  rw [line_respell]
  split
  next h =>
    have hmem : .quote q ∈ line next := List.count_pos_iff.mp (by omega)
    have hlt := List.idxOf_lt_length_of_mem hmem
    have hadd := apply_add_line hm.2 (i := (line next).idxOf (.quote q) + 1) (by omega)
    rw [hone] at hadd
    rw [← Nat.add_assoc, ← Nat.add_assoc] at hadd
    exact hadd.symm
  next => rfl

/-! ## Items -/

theorem string_respell {q : Quote} (h0 : φ 0 = 0) (hm : Measures (respell e) φ 0 rest)
    (hreturn : .carriageReturn ∉ rest) :
    Lexeme.string q (rest.flatMap (respell e)) = (Lexeme.string q rest).map φ := by
  have halike := endsAlike_stringEnd (q := q) hm hreturn
  rw [h0] at halike
  unfold Lexeme.string
  generalize stringEnd q 0 rest = s at halike
  generalize stringEnd q 0 (rest.flatMap (respell e)) = s' at halike
  cases halike with
  | closed => rfl
  | broken hm => simp only [Lexeme.map, brokenExtent_respell hm]
  | cut => rfl

theorem blockComment_respell (h0 : φ 0 = 0) (hm : Measures (respell e) φ 0 (.star :: tail)) :
    Lexeme.blockComment ((.star :: tail).flatMap (respell e)) =
      (Lexeme.blockComment (.star :: tail)).map φ := by
  have hone : φ 1 = 1 := by
    rw [measures_cons hm (by simp), h0]
  have hcomment := commentEnd?_respell hm.2
  rw [Nat.zero_add, hone] at hcomment
  have hlen : φ (Mark.star :: tail).length = ((Mark.star :: tail).flatMap (respell e)).length := by
    have hadd := hm.apply_add (Nat.le_refl _)
    rwa [Nat.zero_add, h0, Nat.zero_add, List.take_length] at hadd
  unfold Lexeme.blockComment
  rw [show ((Mark.star :: tail).flatMap (respell e)).drop 1 = tail.flatMap (respell e) from rfl,
    show (Mark.star :: tail).drop 1 = tail from rfl, hcomment]
  cases commentEnd? 1 tail with
  | some n => rfl
  | none => simp only [Option.map_none, Lexeme.map, hone, hlen]

/-- What follows an item's first byte starts alike, line breaks apart. -/
theorem head_respell (next : Mark) (tail : List Mark) :
    ∃ next' tail', (next :: tail).flatMap (respell e) = next' :: tail' ∧
      (next' = next ∨ next'.isBreak = true ∧ next.isBreak = true) := by
  by_cases hfeed : next = .lineFeed
  · subst hfeed
    cases e <;> exact ⟨_, _, rfl, .inr ⟨rfl, rfl⟩⟩
  · exact ⟨next, _, flatMap_of_ne hfeed, .inl rfl⟩

theorem read_respell (hreturn : .carriageReturn ∉ rest) (h0 : φ 0 = 0)
    (hm : Measures (respell e) φ 0 rest) :
    Lexeme.read m (rest.flatMap (respell e)) = (Lexeme.read m rest).map φ := by
  cases m with
  | quote q => exact string_respell h0 hm hreturn
  | slash =>
    cases rest with
    | nil => simp [Lexeme.read, Lexeme.map, h0]
    | cons next tail =>
      by_cases hstar : next = .star
      · subst hstar
        exact blockComment_respell h0 hm
      · by_cases hslash : next = .slash
        · subst hslash
          have hline := apply_add_line hm (Nat.le_refl _)
          rw [Nat.zero_add, h0, Nat.zero_add] at hline
          show Lexeme.plain (line ((.slash :: tail).flatMap (respell e))).length = _
          rw [line_respell]
          simp only [Lexeme.read, Lexeme.map, hline]
        · obtain ⟨next', tail', hhead, hnext⟩ := head_respell (e := e) next tail
          rw [hhead]
          have hstar' : next' ≠ .star := by grind [Mark.isBreak]
          have hslash' : next' ≠ .slash := by grind [Mark.isBreak]
          simp [Lexeme.read, Lexeme.map, h0, hstar, hslash, hstar', hslash']
  | star =>
    cases rest with
    | nil => simp [Lexeme.read, Lexeme.map, h0]
    | cons next tail =>
      by_cases hslash : next = .slash
      · subst hslash
        have hone := measures_cons hm (by simp)
        rw [Nat.zero_add, h0] at hone
        simp [Lexeme.read, Lexeme.map, hone, respell]
      · obtain ⟨next', tail', hhead, hnext⟩ := head_respell (e := e) next tail
        rw [hhead]
        have hslash' : next' ≠ .slash := by grind [Mark.isBreak]
        simp [Lexeme.read, Lexeme.map, h0, hslash, hslash']
  | hash =>
    cases rest with
    | nil => simp [Lexeme.read, Lexeme.map, h0]
    | cons next tail =>
      obtain ⟨next', tail', hhead, hnext⟩ := head_respell (e := e) next tail
      rw [hhead]
      have hstarts : next'.startsIdentifier = next.startsIdentifier := by
        rcases hnext with rfl | ⟨h1, h2⟩
        · rfl
        · rw [startsIdentifier_of_isBreak h1, startsIdentifier_of_isBreak h2]
      simp only [Lexeme.read, hstarts]
      split
      next hid =>
        have hfeed : next ≠ .lineFeed := by
          rintro rfl
          cases hid
        have hone := measures_cons hm hfeed
        rw [Nat.zero_add, h0] at hone
        simp [Lexeme.map, hone]
      next => simp [Lexeme.map, h0]
  | _ => simp [Lexeme.read, Lexeme.map, h0]

theorem faithful_respell (h : .carriageReturn ∉ ms) : Faithful (respell e) ms := by
  refine ⟨?_, ?_, ?_⟩
  · intro m rest hsuffix _ ψ h0 hm
    refine read_respell (fun hmem => h ?_) h0 hm
    exact hsuffix.subset (List.mem_cons_of_mem m hmem)
  · intro rest _ ψ h0 hm
    have htext := templateEnd_respell hm
    rwa [h0] at htext
  · intro m _
    by_cases hfeed : m = .lineFeed
    · subst hfeed
      refine .inr ⟨rfl, ?_⟩
      cases e <;> decide
    · exact .inl (respell_of_ne hfeed)

/-! ## The whole scan -/

theorem shebang_respell : [.hash, .bang] <+: ms.flatMap (respell e) ↔ [.hash, .bang] <+: ms := by
  constructor
  · rintro ⟨tail, htail⟩
    obtain ⟨ms, rfl⟩ := exists_of_respelled rfl htail.symm
    rw [flatMap_of_ne (by decide)] at htail
    obtain ⟨ms, rfl⟩ := exists_of_respelled rfl (List.cons.inj htail).2.symm
    exact ⟨ms, rfl⟩
  · rintro ⟨tail, rfl⟩
    exact ⟨tail.flatMap (respell e), rfl⟩

theorem start_respell {φ : Nat ↪o Nat} (h0 : φ 0 = 0) (hm : Measures (respell e) φ 0 ms) :
    Scan.start (ms.flatMap (respell e)) = (Scan.start ms).moved (respell e) φ [] := by
  have hmoved : (⟨0, ms, [], []⟩ : Scan).moved (respell e) φ [] =
      ⟨0, ms.flatMap (respell e), [], []⟩ := by
    simp [Scan.moved, h0]
  by_cases hshebang : [.hash, .bang] <+: ms
  · have hline := apply_add_line hm (Nat.le_refl _)
    have hpast : past φ 0 (line ms).length = (line ms).length := by
      unfold past
      omega
    rw [Scan.start_of_shebang hshebang, Scan.start_of_shebang (shebang_respell.mpr hshebang),
      line_respell, Scan.moved_skip (s := ⟨0, ms, [], []⟩) [] hm (length_line_le ms), hmoved, hpast]
  · rw [Scan.start_of_not_shebang hshebang, hmoved]
    exact Scan.start_of_not_shebang (mt shebang_respell.mp hshebang)

theorem findings_respell {φ : Nat ↪o Nat} (h : .carriageReturn ∉ ms) (h0 : φ 0 = 0)
    (hm : Measures (respell e) φ 0 ms) :
    (Scan.start (ms.flatMap (respell e))).finish.findings =
      (Scan.start ms).finish.findings.map (Finding.map φ) := by
  have hrest := (rest_of_visits (.refl (s := Scan.start ms))).1
  have hfaithful : Faithful (respell e) (Scan.start ms).rest := by
    rw [hrest]
    exact (faithful_respell h).of_suffix (List.drop_suffix _ _)
  have hmeasures : Measures (respell e) φ (Scan.start ms).pos (Scan.start ms).rest := by
    have hdrop := hm.drop (Scan.start ms).pos
    rwa [Nat.zero_add, ← hrest] at hdrop
  rw [start_respell h0 hm, Scan.findings_finish_moved [] hfaithful hmeasures]
  rfl

end

/-! ## Bytes -/

section
variable {e : Newline} {brk text : Bytes}

theorem ofByte_eq_lineFeed {b : UInt8} : Mark.ofByte b = .lineFeed ↔ b = 0x0A :=
  ⟨fun h => eq_of_ofByte h rfl, fun h => by rw [h]; rfl⟩

theorem marks_rebreak (h : marks brk = e.marks) :
    marks (rebreak brk text) = (marks text).flatMap (respell e) := by
  unfold marks rebreak at *
  rw [List.map_flatMap, List.flatMap_map]
  congr 1
  funext b
  by_cases hb : b = 0x0A
  · rw [if_pos hb, h, hb]
    rfl
  · rw [if_neg hb, respell_of_ne (mt ofByte_eq_lineFeed.mp hb)]
    rfl

theorem carriageReturn_not_mem_marks (h : 0x0D ∉ text) : .carriageReturn ∉ marks text := by
  intro hmem
  obtain ⟨b, hb, hmark⟩ := List.mem_map.mp hmem
  rw [eq_of_ofByte hmark rfl] at hb
  exact h hb

theorem length_rebreak (b : UInt8) (brk text : Bytes) :
    (rebreak (b :: brk) text).length = text.length + text.count 0x0A * brk.length := by
  induction text with
  | nil => simp [rebreak]
  | cons c text ih =>
    unfold rebreak at ih ⊢
    rw [List.flatMap_cons, List.length_append, ih, List.count_cons, Nat.add_mul]
    by_cases hc : c = 0x0A
    · rw [if_pos hc, if_pos (beq_iff_eq.mpr hc), List.length_cons, List.length_cons]
      omega
    · rw [if_neg hc, if_neg (mt beq_iff_eq.mp hc), List.length_singleton, List.length_cons]
      omega

theorem measures_single (text : Bytes) :
    Measures (respell .single) (RelEmbedding.refl (· ≤ ·) : Nat ↪o Nat) 0 (marks text) := by
  refine .of_getElem? fun i m _ => ?_
  have hone : (respell .single m).length = 1 := by
    unfold respell
    split <;> rfl
  rw [hone]
  rfl

theorem measures_widened (text : Bytes) :
    Measures (respell .pair) (widened text) 0 (marks text) := by
  refine .of_getElem? fun i m hm => ?_
  obtain ⟨b, hb, rfl⟩ : ∃ b, text[i]? = some b ∧ Mark.ofByte b = m := by
    simpa [marks] using hm
  rw [Nat.zero_add]
  show i + 1 + (text.take (i + 1)).count 0x0A = i + (text.take i).count 0x0A + _
  rw [List.take_add_one, List.count_append, hb, Option.toList_some]
  by_cases hfeed : b = 0x0A
  · subst hfeed
    show i + 1 + (_ + 1) = _ + 2
    omega
  · rw [respell_of_ne (mt ofByte_eq_lineFeed.mp hfeed), List.count_singleton,
      if_neg (mt beq_iff_eq.mp hfeed), List.length_singleton]
    omega

/-- The analysis of the respelled text, for any map that measures it. -/
theorem analyze_rebreak_eq {φ : Nat ↪o Nat} (h : 0x0D ∉ text) (h0 : φ 0 = 0)
    (hm : Measures (respell e) φ 0 (marks text)) (hbrk : marks brk = e.marks)
    (hlen : (rebreak brk text).length ≤ maxOffset) :
    analyze (rebreak brk text) = .ok ((scan (marks text)).map (Finding.map φ)) := by
  refine analyze_of_perm hlen ?_ (pairwise_map_scan φ _)
  show (Scan.start (marks (rebreak brk text))).finish.findings.Perm _
  rw [marks_rebreak hbrk, findings_respell (carriageReturn_not_mem_marks h) h0 hm]
  exact (List.mergeSort_perm _ _).symm.map _

/-! ## Top theorems -/

/-- Lines may end with a return in place of a feed, or with both. -/
theorem analyze_rebreak (h : 0x0D ∉ text) :
    analyze (rebreak [0x0D] text) = analyze text ∧
    ((rebreak [0x0D, 0x0A] text).length ≤ maxOffset →
      ∃ findings, analyze text = .ok findings ∧
        analyze (rebreak [0x0D, 0x0A] text) =
          .ok (findings.map (Finding.map (widened text)))) := by
  constructor
  · have hlength : (rebreak [0x0D] text).length = text.length := length_rebreak _ [] text
    by_cases hlen : text.length ≤ maxOffset
    · rw [analyze_rebreak_eq h rfl (measures_single text) rfl (by omega), Finding.map_refl,
        List.map_id]
      exact (analyze_of_length_le hlen).symm
    · rw [analyze_eq_scan, analyze_eq_scan]
      rw [if_neg hlen, hlength, if_neg hlen]
  · intro hlen
    have hlength := length_rebreak 0x0D [0x0A] text
    refine ⟨scan (marks text), analyze_of_length_le (by omega), ?_⟩
    exact analyze_rebreak_eq h rfl (measures_widened text) rfl hlen

end

/-- A first line to pass over, a string that ends on the next line, a template with an
escaped break and a comment in its substitution, and more left open behind it. -/
def fiveBreaks : Bytes :=
  [0x23, 0x21, 0x27, 0x0A, 0x27, 0x61, 0x0A, 0x62, 0x27, 0x60, 0x5C, 0x0A, 0x24, 0x7B,
    0x2F, 0x2F, 0x40, 0x0A, 0x23, 0x0A, 0x2F, 0x2A]

theorem analyze_fiveBreaks : analyze fiveBreaks = .ok
    [⟨.unclosedString, .ofLength 4 5, []⟩, ⟨.unclosedTemplate, .ofLength 9 13, []⟩,
      ⟨.strayHash, .ofLength 18 1, [.ofLength 18 1]⟩,
      ⟨.unclosedBlockComment, .ofLength 20 2, []⟩] :=
  analyze_of_perm (by decide) (by decide +kernel) (by decide)

theorem analyze_rebreak_fiveBreaks :
    0x0D ∉ fiveBreaks ∧ (rebreak [0x0D, 0x0A] fiveBreaks).length ≤ maxOffset ∧
    analyze (rebreak [0x0D] fiveBreaks) = analyze fiveBreaks ∧
    analyze (rebreak [0x0D, 0x0A] fiveBreaks) = .ok
      [⟨.unclosedString, .ofLength 5 6, []⟩, ⟨.unclosedTemplate, .ofLength 11 16, []⟩,
        ⟨.strayHash, .ofLength 22 1, [.ofLength 22 1]⟩,
        ⟨.unclosedBlockComment, .ofLength 25 2, []⟩] := by
  have hreturn : 0x0D ∉ fiveBreaks := by decide
  have hlen : (rebreak [0x0D, 0x0A] fiveBreaks).length ≤ maxOffset := by decide
  obtain ⟨hsingle, hpair⟩ := analyze_rebreak hreturn
  obtain ⟨findings, hfindings, hwidened⟩ := hpair hlen
  rw [analyze_fiveBreaks] at hfindings
  cases hfindings
  exact ⟨hreturn, hlen, hsingle, hwidened⟩

end ScriptLint.Lexer
