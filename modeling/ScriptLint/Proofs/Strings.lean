import ScriptLint.Proofs.Pointing
import ScriptLint.Proofs.Visits

/-! How far an unclosed string reaches.

The text of a string is read from its opening quote up to the first quote, line break or end
of the text that no backslash escapes (`StopsAt`).  Where that is no quote, the string is
unclosed.  It then ends there, unless the line behind the break holds the quote exactly once,
in which case it ends with that quote (`Extent`).

    f ∈ findings → f.kind = .unclosedString → UnclosedString text findings f
                                                        (analyze_unclosedString)

Backslashes are read on the first line only; on the next one quotes are just counted. -/

namespace ScriptLint.Lexer

open Grammar (LineBreak marks)

/-! ## The text of a string -/

/-- From offset `i` on, the text of a string in quotes `q` is read up to `n`, where it first
comes to a quote, a line break or the end of the text without a backslash before it. -/
inductive StopsAt (q : UInt8) (text : Bytes) : Nat → Nat → Prop
  | quote {i : Nat} : text[i]? = some q → StopsAt q text i i
  | lineBreak {i : Nat} {b : UInt8} : text[i]? = some b → LineBreak b → StopsAt q text i i
  | stop : StopsAt q text text.length text.length
  | escapedBreak {i n : Nat} : text[i]? = some 0x5C → text[i + 1]? = some 0x0D →
      text[i + 2]? = some 0x0A → StopsAt q text (i + 3) n → StopsAt q text i n
  | escape {i n : Nat} {b : UInt8} : text[i]? = some 0x5C → text[i + 1]? = some b →
      ¬ (b = 0x0D ∧ text[i + 2]? = some 0x0A) → StopsAt q text (i + 2) n → StopsAt q text i n
  | lastBackslash {i n : Nat} : text[i]? = some 0x5C → text[i + 1]? = none →
      StopsAt q text (i + 1) n → StopsAt q text i n
  | byte {i n : Nat} {b : UInt8} : text[i]? = some b → b ≠ 0x5C → b ≠ q → ¬ LineBreak b →
      StopsAt q text (i + 1) n → StopsAt q text i n

/-- Length of the line break at offset `n`. -/
def breakWidth (text : Bytes) (n : Nat) : Nat :=
  if text[n]? = some 0x0D ∧ text[n + 1]? = some 0x0A then 2 else 1

/-- The line behind the line break at offset `n`. -/
def nextLine (text : Bytes) (n : Nat) : Bytes :=
  (text.drop (n + breakWidth text n)).takeWhile fun b => ¬ LineBreak b

/-- Where a string in quotes `q` ends whose text stops at `n` without a quote. -/
structure Extent (q : UInt8) (text : Bytes) (n stop : Nat) : Prop where
  atEnd : n = text.length → stop = n
  onNextLine : n ≠ text.length → (nextLine text n).count q = 1 →
    ∃ j, (nextLine text n)[j]? = some q ∧ stop = n + breakWidth text n + j + 1
  atBreak : n ≠ text.length → (nextLine text n).count q ≠ 1 → stop = n

/-- All there is to say of an unclosed string: its quote, where its text stops, how far it
reaches, and that code goes on behind it and nowhere inside. -/
structure UnclosedString (text : Bytes) (findings : List Finding) (f : Finding) : Prop where
  extent : ∃ q n, (q = 0x27 ∨ q = 0x22) ∧ text[f.span.first]? = some q ∧
    (∀ i, StopsAt q text (f.span.first + 1) i ↔ i = n) ∧ text[n]? ≠ some q ∧
    Extent q text n f.span.stop
  alone : ∀ g ∈ findings, f.span.first ≤ g.span.first → g.span.first < f.span.stop → g = f
  codeAt_first : CodeAt text f.span.first
  codeAt_stop : CodeAt text f.span.stop
  not_codeAt : ∀ i, f.span.first < i → i < f.span.stop → ¬ CodeAt text i

/-! ## Reading it -/

variable {text : Bytes} {i : Nat}

/-- The byte that a mark of the text is read from. -/
theorem exists_byte {m : Mark} {rest : List Mark} (h : marks (text.drop i) = m :: rest) :
    ∃ b, text[i]? = some b ∧ Mark.ofByte b = m ∧ marks (text.drop (i + 1)) = rest := by
  obtain ⟨b, s, hs, hb, hrest⟩ := List.map_eq_cons_iff.mp h
  refine ⟨b, getElem?_of_drop hs, hb, ?_⟩
  rw [← hrest, ← List.drop_drop, hs]
  rfl

theorem byte_of_marks {m : Mark} {rest : List Mark} {c : UInt8}
    (h : marks (text.drop i) = m :: rest) (hm : m.byte? = some c) :
    text[i]? = some c ∧ marks (text.drop (i + 1)) = rest := by
  obtain ⟨b, hb, hmark, hrest⟩ := exists_byte h
  rw [eq_of_ofByte hmark hm] at hb
  exact ⟨hb, hrest⟩

theorem marks_of_byte {b : UInt8} (h : text[i]? = some b) :
    marks (text.drop i) = Mark.ofByte b :: marks (text.drop (i + 1)) := by
  obtain ⟨hi, rfl⟩ := List.getElem?_eq_some_iff.mp h
  rw [List.drop_eq_getElem_cons hi]
  rfl

theorem getElem?_eq_none_of_marks (h : marks (text.drop i) = []) : text[i]? = none := by
  have hdrop : text.drop i = [] := List.map_eq_nil_iff.mp h
  exact List.getElem?_eq_none (List.drop_eq_nil_iff.mp hdrop)

/-- Where a string with its text at offset `base` stops, as its reader tells it. -/
inductive Told (q : Quote) (text : Bytes) (base j : Nat) : StringEnd → Prop
  | closed : text[base + j]? = some q.byte → Told q text base j (.closed (j + 1))
  | broken {b : UInt8} : text[base + j]? = some b → LineBreak b →
      Told q text base j (.broken j (breakWidth text (base + j))
        (marks (text.drop (base + j + breakWidth text (base + j)))))
  | cut : base + j = text.length → Told q text base j (.cut j)

theorem told_break {q : Quote} {base k width : Nat} {b : UInt8} {rest : List Mark}
    (hb : text[base + k]? = some b) (hbreak : LineBreak b) (hwidth : breakWidth text (base + k) = width)
    (hrest : marks (text.drop (base + k + width)) = rest) :
    ∃ j, StopsAt q.byte text (base + k) (base + j) ∧ Told q text base j (.broken k width rest) := by
  subst hwidth hrest
  exact ⟨k, .lineBreak hb hbreak, .broken hb hbreak⟩

theorem told_stringEnd (q : Quote) (base k : Nat) (hk : base + k ≤ text.length) :
    ∃ j, StopsAt q.byte text (base + k) (base + j) ∧
      Told q text base j (stringEnd q k (marks (text.drop (base + k)))) := by
  generalize hms : marks (text.drop (base + k)) = ms
  fun_induction stringEnd q k ms with
  | case1 k =>
    have hnone := getElem?_eq_none_of_marks hms
    have hend : base + k = text.length := by
      have := List.getElem?_eq_none_iff.mp hnone
      omega
    refine ⟨k, ?_, .cut hend⟩
    rw [hend]
    exact .stop
  | case2 k =>
    obtain ⟨hslash, hrest⟩ := byte_of_marks hms rfl
    have hnone := getElem?_eq_none_of_marks hrest
    have hend : base + (k + 1) = text.length := by
      have := List.getElem?_eq_none_iff.mp hnone
      have := (List.getElem?_eq_some_iff.mp hslash).1
      omega
    refine ⟨k + 1, .lastBackslash hslash hnone ?_, .cut hend⟩
    rw [hend, show base + k + 1 = text.length from hend]
    exact .stop
  | case3 k rest ih =>
    obtain ⟨hslash, hreturn⟩ := byte_of_marks hms rfl
    obtain ⟨hreturn, hfeed⟩ := byte_of_marks hreturn rfl
    obtain ⟨hfeed, hrest⟩ := byte_of_marks hfeed rfl
    have hlt := (List.getElem?_eq_some_iff.mp hfeed).1
    obtain ⟨j, hstops, htold⟩ := ih (by omega) hrest
    exact ⟨j, .escapedBreak hslash hreturn hfeed hstops, htold⟩
  | case4 k m rest hne ih =>
    obtain ⟨hslash, hescaped⟩ := byte_of_marks hms rfl
    obtain ⟨b, hescaped, hb, hrest⟩ := exists_byte hescaped
    have hlt := (List.getElem?_eq_some_iff.mp hescaped).1
    obtain ⟨j, hstops, htold⟩ := ih (by omega) hrest
    refine ⟨j, .escape hslash hescaped ?_ hstops, htold⟩
    -- the three bytes would have been read as one
    rintro ⟨rfl, hfeed⟩
    exact hne _ hb.symm (hrest.symm.trans (marks_of_byte hfeed))
  | case5 k rest =>
    obtain ⟨hquote, -⟩ := byte_of_marks hms rfl
    exact ⟨k, .quote hquote, .closed hquote⟩
  | case6 k p rest hp ih =>
    obtain ⟨hquote, hrest⟩ := byte_of_marks hms rfl
    have hlt := (List.getElem?_eq_some_iff.mp hquote).1
    obtain ⟨j, hstops, htold⟩ := ih (by omega) hrest
    refine ⟨j, .byte hquote ?_ ?_ ?_ hstops, htold⟩
    · cases p <;> decide
    · revert hp
      cases p <;> cases q <;> decide
    · cases p <;> decide
  | case7 k rest =>
    obtain ⟨hreturn, hfeed⟩ := byte_of_marks hms rfl
    obtain ⟨hfeed, hrest⟩ := byte_of_marks hfeed rfl
    exact told_break hreturn (.inr rfl) (if_pos ⟨hreturn, hfeed⟩) hrest
  | case8 k rest hne =>
    obtain ⟨hreturn, hrest⟩ := byte_of_marks hms rfl
    refine told_break hreturn (.inr rfl) (if_neg ?_) hrest
    rintro ⟨-, hfeed⟩
    exact hne _ (hrest.symm.trans (marks_of_byte hfeed))
  | case9 k rest =>
    obtain ⟨hfeed, hrest⟩ := byte_of_marks hms rfl
    refine told_break hfeed (.inl rfl) (if_neg ?_) hrest
    rintro ⟨hreturn, -⟩
    rw [hfeed] at hreturn
    cases hreturn
  | case10 k m rest h1 h2 h3 h4 h5 h6 h7 ih =>
    obtain ⟨b, hb, hm, hrest⟩ := exists_byte hms
    have hlt := (List.getElem?_eq_some_iff.mp hb).1
    obtain ⟨j, hstops, htold⟩ := ih (by omega) hrest
    subst hm
    refine ⟨j, .byte hb ?_ ?_ ?_ hstops, htold⟩
    · rintro rfl
      exact ne_of_cases h1 h3 rfl
    · rintro rfl
      exact h4 q (ofByte_of_byte? rfl)
    · rintro (rfl | rfl)
      · exact h7 rfl
      · exact h6 rfl

theorem not_lineBreak_backslash : ¬ LineBreak 0x5C := by
  decide

namespace StopsAt

variable {q b : UInt8} {i n : Nat}

/-- A quote, a line break or the end of the text stops a string at once. -/
theorem eq_of_ends (hq : q ≠ 0x5C) (h : StopsAt q text i n)
    (hends : ∀ b, text[i]? = some b → b = q ∨ LineBreak b) : n = i := by
  have hslash : text[i]? ≠ some 0x5C := by
    intro hi
    rcases hends _ hi with heq | hbreak
    · exact hq heq.symm
    · exact not_lineBreak_backslash hbreak
  cases h with
  | quote => rfl
  | lineBreak => rfl
  | stop => rfl
  | escapedBreak hi => exact absurd hi hslash
  | escape hi => exact absurd hi hslash
  | lastBackslash hi => exact absurd hi hslash
  | byte hi _ hnq hnb =>
    rcases hends _ hi with heq | hbreak
    · exact absurd heq hnq
    · exact absurd hbreak hnb

/-- Behind a backslash a string goes on after what is escaped. -/
theorem of_backslash (hq : q ≠ 0x5C) (h : StopsAt q text i n) (hi : text[i]? = some 0x5C) :
    (text[i + 1]? = some 0x0D ∧ text[i + 2]? = some 0x0A ∧ StopsAt q text (i + 3) n) ∨
    (∃ b, text[i + 1]? = some b ∧ ¬ (b = 0x0D ∧ text[i + 2]? = some 0x0A) ∧
      StopsAt q text (i + 2) n) ∨
    (text[i + 1]? = none ∧ StopsAt q text (i + 1) n) := by
  cases h with
  | quote hi' => exact absurd (Option.some.inj (hi'.symm.trans hi)) hq
  | lineBreak hi' hbreak =>
    rw [Option.some.inj (hi'.symm.trans hi)] at hbreak
    exact absurd hbreak not_lineBreak_backslash
  | stop =>
    rw [List.getElem?_eq_none (Nat.le_refl _)] at hi
    cases hi
  | escapedBreak _ hreturn hfeed h => exact .inl ⟨hreturn, hfeed, h⟩
  | escape _ hb hnot h => exact .inr (.inl ⟨_, hb, hnot, h⟩)
  | lastBackslash _ hnone h => exact .inr (.inr ⟨hnone, h⟩)
  | byte hi' hne => exact absurd (Option.some.inj (hi'.symm.trans hi)) hne

/-- Any other byte is passed over. -/
theorem of_byte (h : StopsAt q text i n) (hi : text[i]? = some b) (hne : b ≠ 0x5C) (hnq : b ≠ q)
    (hnb : ¬ LineBreak b) : StopsAt q text (i + 1) n := by
  have hslash : text[i]? ≠ some 0x5C := fun hi' => hne (Option.some.inj (hi.symm.trans hi'))
  cases h with
  | quote hi' => exact absurd (Option.some.inj (hi.symm.trans hi')) hnq
  | lineBreak hi' hbreak =>
    rw [Option.some.inj (hi'.symm.trans hi)] at hbreak
    exact absurd hbreak hnb
  | stop =>
    rw [List.getElem?_eq_none (Nat.le_refl _)] at hi
    cases hi
  | escapedBreak hi' => exact absurd hi' hslash
  | escape hi' => exact absurd hi' hslash
  | lastBackslash hi' => exact absurd hi' hslash
  | byte _ _ _ _ h => exact h

/-- Only one offset is the first to stop a string. -/
theorem unique {n' : Nat} (hq : q ≠ 0x5C) (h : StopsAt q text i n) (h' : StopsAt q text i n') :
    n = n' := by
  induction h with
  | quote hi =>
    exact (h'.eq_of_ends hq fun b hb => .inl (Option.some.inj (hb.symm.trans hi))).symm
  | lineBreak hi hbreak =>
    refine (h'.eq_of_ends hq fun b hb => .inr ?_).symm
    rwa [Option.some.inj (hb.symm.trans hi)]
  | stop =>
    refine (h'.eq_of_ends hq fun b hb => ?_).symm
    rw [List.getElem?_eq_none (Nat.le_refl _)] at hb
    cases hb
  | escapedBreak hi hreturn hfeed _ ih =>
    rcases h'.of_backslash hq hi with ⟨-, -, hrest⟩ | ⟨b, hb, hnot, -⟩ | ⟨hnone, -⟩
    · exact ih hrest
    · exact absurd ⟨Option.some.inj (hb.symm.trans hreturn), hfeed⟩ hnot
    · cases hreturn.symm.trans hnone
  | escape hi hb hnot _ ih =>
    rcases h'.of_backslash hq hi with ⟨hreturn, hfeed, -⟩ | ⟨b, -, -, hrest⟩ | ⟨hnone, -⟩
    · exact absurd ⟨Option.some.inj (hb.symm.trans hreturn), hfeed⟩ hnot
    · exact ih hrest
    · cases hb.symm.trans hnone
  | lastBackslash hi hnone _ ih =>
    rcases h'.of_backslash hq hi with ⟨hreturn, -, -⟩ | ⟨b, hb, -, -⟩ | ⟨-, hrest⟩
    · cases hreturn.symm.trans hnone
    · cases hb.symm.trans hnone
    · exact ih hrest
  | byte hi hne hnq hnb _ ih => exact ih (h'.of_byte hi hne hnq hnb)

end StopsAt

/-! ## The next line -/

theorem count_marks (q : Quote) (s : Bytes) : (marks s).count (.quote q) = s.count q.byte := by
  unfold marks List.count
  rw [List.countP_map]
  congr 1
  funext b
  rw [Function.comp_apply, Bool.eq_iff_iff, beq_iff_eq, beq_iff_eq, ofByte_eq_iff rfl]

theorem idxOf_marks (q : Quote) (s : Bytes) : (marks s).idxOf (.quote q) = s.idxOf q.byte := by
  unfold marks List.idxOf
  rw [List.findIdx_map]
  congr 1
  funext b
  rw [Function.comp_apply, Bool.eq_iff_iff, beq_iff_eq, beq_iff_eq, ofByte_eq_iff rfl]

/-- A string that a break at `n` interrupts reaches as far as the next line says. -/
theorem extent_of_break {q : Quote} {base j : Nat} {b : UInt8} (hb : text[base + j]? = some b) :
    Extent q.byte text (base + j)
      (base + brokenExtent q j (breakWidth text (base + j))
        (marks (text.drop (base + j + breakWidth text (base + j))))) := by
  have hne : base + j ≠ text.length := by
    have := (List.getElem?_eq_some_iff.mp hb).1
    omega
  have hline : line (marks (text.drop (base + j + breakWidth text (base + j)))) =
      marks (nextLine text (base + j)) := Grammar.line_marks _
  unfold brokenExtent
  rw [hline, count_marks, idxOf_marks]
  refine ⟨fun h => absurd h hne, fun _ hcount => ?_, fun _ hcount => ?_⟩
  · have hmem : q.byte ∈ nextLine text (base + j) := List.count_pos_iff.mp (by omega)
    have hlt := List.idxOf_lt_length_of_mem hmem
    refine ⟨(nextLine text (base + j)).idxOf q.byte, ?_, ?_⟩
    · rw [List.getElem?_eq_getElem hlt, List.getElem_idxOf hlt]
    · rw [if_pos hcount]
      omega
  · rw [if_neg hcount]

/-- An unclosed string stops before its quote comes, and reaches as far as it should. -/
theorem extent_of_string {q : Quote} {base width n : Nat} {kind : Kind}
    (hbase : base ≤ text.length)
    (h : Lexeme.string q (marks (text.drop base)) = .fault kind width n) :
    ∃ i, StopsAt q.byte text base i ∧ text[i]? ≠ some q.byte ∧
      Extent q.byte text i (base + width) := by
  obtain ⟨j, hstops, htold⟩ := told_stringEnd q base 0 hbase
  rw [Nat.add_zero] at hstops htold
  refine ⟨base + j, hstops, ?_⟩
  unfold Lexeme.string at h
  generalize stringEnd q 0 (marks (text.drop base)) = e at h htold
  cases htold with
  | closed hquote => cases h
  | @broken b hb hbreak =>
    cases h
    refine ⟨?_, extent_of_break hb⟩
    rw [hb]
    rintro heq
    cases heq
    revert hbreak
    cases q <;> decide
  | cut hend =>
    cases h
    refine ⟨?_, fun _ => rfl, fun hne => absurd hend hne, fun hne => absurd hend hne⟩
    rw [hend, List.getElem?_eq_none (Nat.le_refl _)]
    nofun

/-! ## Top theorems -/

/-- Nothing begins inside a finding that is no open template. -/
theorem eq_of_first_inside {ms : List Mark} {f g : Finding} (hf : f ∈ scan ms) (hg : g ∈ scan ms)
    (hkind : f.kind ≠ .unclosedTemplate) (hlo : f.span.first ≤ g.span.first)
    (hhi : g.span.first < f.span.stop) : g = f := by
  have hpairs := pairwise_scan ms
  have hapart : ∀ f ∈ scan ms, ∀ g ∈ scan ms, g = f ∨ Apart ms.length f g :=
    List.Pairwise.forall_of_forall_of_flip (fun _ _ => .inl rfl)
      (hpairs.imp fun h => .inr (.inl h)) (hpairs.imp fun h => .inr (.inr h))
  rcases hapart f hf g hg with heq | hbefore | hafter
  · exact heq
  · rcases hbefore.2 with hstop | hreach
    · omega
    · exact absurd hreach.1.1 hkind
  · have := hafter.1
    omega

/-- An unclosed string was read as code at its first byte, and the scan went on at its end. -/
theorem exists_string_visit {f : Finding} (hf : f ∈ scan (marks text))
    (hkind : f.kind = .unclosedString) :
    ∃ s q n, (Scan.start (marks text)).Visits s ∧ s.rest ≠ [] ∧ s.pos = f.span.first ∧
      s.step.pos = f.span.stop ∧ text[f.span.first]? = some q.byte ∧
      f.span.stop = f.span.first + 1 + n ∧
      Lexeme.string q (marks (text.drop (f.span.first + 1))) = .fault .unclosedString n n := by
  obtain ⟨s, m, rest, kind, width, n, hvisits, hs, hread, hfault, hstep⟩ :=
    Scan.exists_visit (mem_scan_iff.mp hf) (by rw [Scan.findings_start]; simp)
      (by rw [hkind]; nofun)
  have hfirst : f.span.first = s.pos := by rw [hfault, Scan.span_faultAt]; rfl
  have hstop : f.span.stop = s.pos + (width + 1) := by rw [hfault, Scan.span_faultAt]; rfl
  rw [hfault, Scan.kind_faultAt] at hkind
  subst hkind
  rw [hfirst, hstop]
  cases Lexeme.fault_of_read hread with
  | @string q =>
    have hmarks : marks (text.drop s.pos) = .quote q :: rest := by
      rw [← rest_eq_marks_of_visits hvisits, hs]
    obtain ⟨hquote, hbody⟩ := byte_of_marks hmarks rfl
    refine ⟨s, q, width, hvisits, by rw [hs]; simp, rfl, hstep, hquote, by omega, ?_⟩
    rw [hbody]
    exact hread

/-- Every unclosed string of a script ends where its text stops, or on the next line with the
only quote there, and code goes on behind it. -/
theorem analyze_unclosedString {findings : List Finding} (h : analyze text = .ok findings)
    (f : Finding) (hf : f ∈ findings) (hkind : f.kind = .unclosedString) :
    UnclosedString text findings f := by
  obtain rfl := scan_of_analyze h
  obtain ⟨s, q, n, hvisits, hne, hfirst, hstop, hquote, hn, hstring⟩ :=
    exists_string_visit hf hkind
  have hlt := (List.getElem?_eq_some_iff.mp hquote).1
  obtain ⟨i, hi, hopen, hextent⟩ := extent_of_string hlt hstring
  rw [← hn] at hextent
  have hstops : ∀ i', StopsAt q.byte text (f.span.first + 1) i' ↔ i' = i := by
    intro i'
    constructor
    · intro hi'
      exact hi'.unique (by cases q <;> decide) hi
    · rintro rfl
      exact hi
  refine ⟨⟨q.byte, i, by cases q <;> decide, hquote, hstops, hopen, hextent⟩, ?_, ?_, ?_, ?_⟩
  · exact fun g hg hlo hhi => eq_of_first_inside hf hg (by rw [hkind]; nofun) hlo hhi
  · exact codeAt_iff.mpr ⟨s, hvisits, hfirst⟩
  · exact codeAt_iff.mpr ⟨s.step, hvisits.step hne, hstop⟩
  · intro i' hlo hhi
    rw [← hfirst] at hlo
    rw [← hstop] at hhi
    exact not_codeAt_between hvisits hne hlo hhi

/-- A string over an escaped and a plain line break, with its quote once on the next line
behind a backslash, and a stray `@` after it. -/
def twoLines : Bytes :=
  [0x27, 0x5C, 0x0D, 0x0A, 0x61, 0x0D, 0x0A, 0x22, 0x5C, 0x27, 0x40]

def twoLinesString : Finding :=
  ⟨.unclosedString, .ofLength 0 10, []⟩

def twoLinesFindings : List Finding :=
  [twoLinesString, ⟨.strayAt, .ofLength 10 1, [.ofLength 10 1]⟩]

theorem analyze_twoLines : analyze twoLines = .ok twoLinesFindings :=
  analyze_of_perm (by decide) (by decide +kernel) (by decide)

theorem unclosedString_twoLines :
    analyze twoLines = .ok twoLinesFindings ∧ twoLinesString ∈ twoLinesFindings ∧
    twoLinesString.kind = .unclosedString ∧
    UnclosedString twoLines twoLinesFindings twoLinesString := by
  have hmem : twoLinesString ∈ twoLinesFindings := by decide
  exact ⟨analyze_twoLines, hmem, rfl,
    analyze_unclosedString analyze_twoLines twoLinesString hmem rfl⟩

end ScriptLint.Lexer
