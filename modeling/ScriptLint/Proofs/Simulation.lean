import ScriptLint.Lexer.Analyze
import ScriptLint.Proofs.Scanning

/-! The scanner on bytes does what the scanner on marks does.

`s.marked` is a scan under way with each byte that is left replaced by its mark.  For every
function of the scanner there is one lemma that says that it commutes with `marked`; those of
the loops follow the loop.  So one step on bytes is one step on marks, and a whole scan too:

    s.marked.Placed → s.step.marked = s.marked.step                            (marked_step)
    text.length ≤ maxOffset → Scanner.run text = scan (text.map Mark.ofByte)   (run_eq_scan)

The findings of a scan are stored in 32 bits (`Finding.stored`).  Nothing is lost by that when
the end of the text is in reach, since no finding reaches past it (`Scan.Placed.stop_le`). -/

namespace ScriptLint.Lexer

/-! ## Bytes -/

theorem isLineBreak_eq : ∀ b, isLineBreak b = (Mark.ofByte b).isBreak :=
  forall_byte (by decide +kernel)

theorem isIdentifierStart_eq : ∀ b, isIdentifierStart b = (Mark.ofByte b).startsIdentifier :=
  forall_byte (by decide +kernel)

theorem isQuote_iff {b : UInt8} : b = 0x27 ∨ b = 0x22 ↔ ∃ q : Quote, b = q.byte := by
  constructor
  · rintro (rfl | rfl)
    · exact ⟨.single, rfl⟩
    · exact ⟨.double, rfl⟩
  · rintro ⟨q, rfl⟩
    cases q <;> decide

theorem ofByte_byte (q : Quote) : Mark.ofByte q.byte = .quote q :=
  ofByte_of_byte? rfl

theorem lineLength_eq (bs : Bytes) : lineLength bs = (line (bs.map Mark.ofByte)).length := by
  unfold lineLength line
  rw [List.takeWhile_map, List.length_map]
  congr 2
  funext b
  rw [Function.comp_apply, isLineBreak_eq]

theorem line_cons_of_break {m : Mark} (hm : m.isBreak = true) (ms : List Mark) :
    line (m :: ms) = [] :=
  List.takeWhile_cons_of_neg (by simp [hm])

theorem line_cons_of_not_break {m : Mark} (hm : m.isBreak = false) (ms : List Mark) :
    line (m :: ms) = m :: line ms :=
  List.takeWhile_cons_of_pos (by simp [hm])

theorem exists_cons_of_head {b : UInt8} {bs : Bytes} (h : bs[0]? = some b) : ∃ tail, bs = b :: tail := by
  match bs with
  | [] => cases h
  | _ :: tail =>
    cases h
    exact ⟨tail, rfl⟩

/-- A mark of one byte only tells the byte at the head of a text. -/
theorem head_of_marks {bs : Bytes} {m : Mark} {ms : List Mark} {c : UInt8}
    (h : bs.map Mark.ofByte = m :: ms) (hm : m.byte? = some c) : bs[0]? = some c := by
  obtain ⟨b, bs, rfl, hb, -⟩ := List.map_eq_cons_iff.mp h
  exact congrArg some (eq_of_ofByte hb hm)

/-- The quotes on a line are as many as their marks, and the first of them stands where its
mark does. -/
theorem quotesOnLine_spec (q : Quote) (cursor : Nat) (bs : Bytes) :
    (quotesOnLine q.byte cursor bs).length = (line (bs.map Mark.ofByte)).count (.quote q) ∧
    ∀ c ∈ (quotesOnLine q.byte cursor bs).head?,
      c = cursor + (line (bs.map Mark.ofByte)).idxOf (.quote q) := by
  induction bs generalizing cursor with
  | nil => exact ⟨rfl, nofun⟩
  | cons b bs ih =>
    rw [List.map_cons, quotesOnLine, isLineBreak_eq]
    cases hbreak : (Mark.ofByte b).isBreak with
    | true =>
      rw [line_cons_of_break hbreak]
      exact ⟨rfl, nofun⟩
    | false =>
      rw [line_cons_of_not_break hbreak, if_neg (by simp)]
      obtain ⟨hlength, hhead⟩ := ih (cursor + 1)
      by_cases hb : b = q.byte
      · rw [if_pos hb, hb, ofByte_byte, List.count_cons_self, List.idxOf_cons_self,
          List.length_cons, hlength]
        exact ⟨rfl, fun c hc => (Option.some.inj hc).symm⟩
      · have hne : Mark.ofByte b ≠ .quote q := fun h => hb (eq_of_ofByte h rfl)
        rw [if_neg hb, List.count_cons_of_ne hne, List.idxOf_cons, beq_false_of_ne hne, cond_false]
        refine ⟨hlength, fun c hc => ?_⟩
        have := hhead c hc
        omega

theorem commentEnd?_map (n : Nat) (bs : Bytes) :
    commentEnd? n (bs.map Mark.ofByte) = (commentClose? (n + 1) bs).map (· + 1) := by
  induction bs generalizing n with
  | nil => rfl
  | cons b bs ih =>
    rw [commentClose?]
    split
    next h =>
      obtain ⟨rfl, hslash⟩ := h
      obtain ⟨bs, rfl⟩ := exists_cons_of_head hslash
      rfl
    next h =>
      rw [← ih, List.map_cons]
      exact commentEnd?_other fun tail hstar hslash =>
        h ⟨eq_of_ofByte hstar rfl, head_of_marks hslash rfl⟩

/-! ## States -/

/-- The item that a string is whose text ends as told. -/
def StringEnd.lexeme (q : Quote) : StringEnd → Lexeme
  | .closed n => .plain n
  | .broken n width next =>
    .fault .unclosedString (brokenExtent q n width next) (brokenExtent q n width next)
  | .cut n => .fault .unclosedString n n

theorem Lexeme.string_eq (q : Quote) (rest : List Mark) :
    Lexeme.string q rest = (stringEnd q 0 rest).lexeme q := by
  unfold Lexeme.string
  cases stringEnd q 0 rest <;> rfl

namespace Scanner

variable {s : Scanner}

/-- The same scan on marks. -/
def marked (s : Scanner) : Scan :=
  ⟨s.pos, s.rest.map Mark.ofByte, s.waiting, s.found⟩

theorem stop_marked (s : Scanner) : s.marked.stop = s.stop := by
  simp [marked, stop, Scan.stop]

theorem marked_skip (s : Scanner) (n : Nat) : (s.skip n).marked = s.marked.skip n := by
  simp [marked, skip, Scan.skip, List.map_drop]

theorem skip_skip (s : Scanner) (m n : Nat) : (s.skip m).skip n = s.skip (m + n) := by
  simp [skip, Nat.add_assoc]

theorem rest_marked_cons {b : UInt8} {rest : Bytes} (hs : s.rest = b :: rest) :
    s.marked.rest = Mark.ofByte b :: rest.map Mark.ofByte := by
  simp [marked, hs]

theorem marked_report (s : Scanner) (kind : Kind) (first n : Nat) :
    (s.report kind first (first + n)).marked = s.marked.report ⟨kind, .ofLength first n, []⟩ := by
  unfold report
  rw [Span.ofEnds_of_le (Nat.le_add_right _ _)]
  rfl

theorem stop_skip {n : Nat} (h : n ≤ s.rest.length) : (s.skip n).stop = s.stop := by
  show s.pos + n + (s.rest.drop n).length = s.pos + s.rest.length
  rw [List.length_drop]
  omega

/-! ## Strings -/

/-- A backslash is passed with what it escapes, as the reader of marks does. -/
theorem exists_skipEscape {rest : Bytes} (hs : s.rest = 0x5C :: rest) :
    ∃ n, s.skipEscape = s.skip n ∧ ∀ q k, stringEnd q k (s.rest.map Mark.ofByte) =
      stringEnd q (k + n) ((s.rest.drop n).map Mark.ofByte) := by
  unfold skipEscape peekAt
  rw [hs]
  split
  next h =>
    obtain ⟨hreturn, hfeed⟩ := h
    match rest with
    | [] => cases hreturn
    | [_] => cases hfeed
    | _ :: _ :: rest =>
      cases hreturn
      cases hfeed
      exact ⟨3, rfl, fun q k => rfl⟩
  next h =>
    unfold advance
    rw [hs]
    match rest with
    | [] => exact ⟨1, rfl, fun q k => rfl⟩
    | b :: rest =>
      have hle : 2 ≤ (0x5C :: b :: rest : Bytes).length := by simp
      rw [Nat.min_eq_left hle]
      exact ⟨2, rfl, fun q k => stringEnd_escape fun tail hb hrest =>
        h ⟨congrArg some (eq_of_ofByte hb rfl), head_of_marks hrest rfl⟩⟩

/-- A string that comes to a line break is broken there. -/
theorem stringEnd_lineBreak (q : Quote) (k : Nat) {b : UInt8} (rest : Bytes)
    (hb : isLineBreak b = true) :
    stringEnd q k ((b :: rest).map Mark.ofByte) = .broken k (lineBreakLength (b :: rest))
      (((b :: rest).drop (lineBreakLength (b :: rest))).map Mark.ofByte) := by
  have hany : (b :: rest)[0]?.any isLineBreak = true := hb
  have hb : b = 0x0A ∨ b = 0x0D := by simpa [isLineBreak] using hb
  unfold lineBreakLength
  rw [if_pos hany]
  rcases hb with rfl | rfl
  · rw [if_neg (by simp)]
    rfl
  · split
    next h =>
      obtain ⟨-, hfeed⟩ := h
      obtain ⟨rest, rfl⟩ := exists_cons_of_head hfeed
      rfl
    next h =>
      show stringEnd q k (.carriageReturn :: rest.map Mark.ofByte) = _
      rw [stringEnd]
      · rfl
      · exact fun tail htail => h ⟨rfl, head_of_marks htail rfl⟩

/-- The end of a broken string, counted from the quote that opens it. -/
theorem brokenStop_eq (s : Scanner) (q : Quote) (k : Nat) :
    s.brokenStop q.byte + k = s.pos + brokenExtent q k (lineBreakLength s.rest)
      ((s.rest.drop (lineBreakLength s.rest)).map Mark.ofByte) := by
  obtain ⟨hlength, hhead⟩ := quotesOnLine_spec q (s.pos + lineBreakLength s.rest)
    (s.rest.drop (lineBreakLength s.rest))
  unfold brokenStop brokenExtent
  rw [← hlength]
  dsimp only
  split
  next closing hquotes =>
    rw [hquotes] at hhead ⊢
    have := hhead closing rfl
    rw [List.length_singleton, if_pos rfl]
    omega
  next hquotes =>
    rw [if_neg]
    intro hone
    obtain ⟨closing, hclosing⟩ := List.length_eq_one_iff.mp hone
    exact hquotes closing hclosing

theorem le_brokenExtent (q : Quote) (n width : Nat) (next : List Mark) :
    n ≤ brokenExtent q n width next := by
  unfold brokenExtent
  split <;> omega

/-- A line break ends the text of a string where its marks say. -/
theorem marked_unclosedAtLineEnd {s₀ : Scanner} {q : Quote} {k : Nat} {b : UInt8} {rest : Bytes}
    (hs : s₀.skip (1 + k) = s) (hrest : s.rest = b :: rest) (hb : isLineBreak b = true) :
    (s.unclosedAtLineEnd q.byte s₀.pos).marked =
      s₀.marked.consume ((stringEnd q k (s.rest.map Mark.ofByte)).lexeme q) := by
  have hend : stringEnd q k (s.rest.map Mark.ofByte) = .broken k (lineBreakLength s.rest)
      ((s.rest.drop (lineBreakLength s.rest)).map Mark.ofByte) := by
    rw [hrest]
    exact stringEnd_lineBreak q k rest hb
  have hbroken := s.brokenStop_eq q k
  have hge := le_brokenExtent q k (lineBreakLength s.rest)
    ((s.rest.drop (lineBreakLength s.rest)).map Mark.ofByte)
  rw [hend, StringEnd.lexeme]
  generalize brokenExtent q k (lineBreakLength s.rest)
    ((s.rest.drop (lineBreakLength s.rest)).map Mark.ofByte) = extent at *
  have hpos : s.pos = s₀.pos + (1 + k) := by rw [← hs]; rfl
  have hstops : s.brokenStop q.byte = s₀.pos + (extent + 1) := by omega
  have hskip : s₀.pos + (extent + 1) - s.pos = extent - k := by omega
  have hadd : 1 + k + (extent - k) = extent + 1 := by omega
  unfold unclosedAtLineEnd
  rw [hstops, hskip, ← hs]
  show (((s₀.report .unclosedString s₀.pos _).skip (1 + k)).skip (extent - k)).marked = _
  rw [skip_skip, hadd, marked_skip, marked_report]
  rfl

/-- The text of a string is read as its marks are, from its byte `k` on. -/
theorem marked_stringBody {s₀ : Scanner} {q : Quote} {k : Nat} (hs : s₀.skip (1 + k) = s) :
    (s.stringBody q.byte s₀.pos).marked =
      s₀.marked.consume ((stringEnd q k (s.rest.map Mark.ofByte)).lexeme q) := by
  generalize hq : q.byte = quote
  generalize hstart : s₀.pos = start
  fun_induction stringBody s quote start generalizing k with
  | case1 s hrest =>
    subst hstart
    have hend : s.stop = s₀.pos + (k + 1) := by
      rw [stop, hrest, ← hs, Nat.add_comm k 1]
      rfl
    rw [hend, marked_report, hrest, ← hs, marked_skip, Nat.add_comm 1 k]
    rfl
  | case2 s rest hrest ih =>
    obtain ⟨n, hskip, hend⟩ := exists_skipEscape hrest
    rw [hskip] at ih ⊢
    rw [hend]
    exact ih (k := k + n) (by rw [← hs, skip_skip, Nat.add_assoc])
  | case3 s rest hrest hb =>
    have hend : stringEnd q k (s.rest.map Mark.ofByte) = .closed (k + 1) := by
      rw [hrest, List.map_cons, ← hq, ofByte_byte, stringEnd, if_pos rfl]
    rw [hend, ← hs, skip_skip, marked_skip, Nat.add_comm 1 k]
    rfl
  | case4 s b rest hrest hb hquote hbreak =>
    subst hq hstart
    exact marked_unclosedAtLineEnd hs hrest hbreak
  | case5 s b rest hrest hb hquote hbreak ih =>
    have hend : stringEnd q k (s.rest.map Mark.ofByte) =
        stringEnd q (k + 1) ((s.skip 1).rest.map Mark.ofByte) := by
      rw [skip, hrest]
      refine stringEnd_other ?_ ?_ ?_ ?_
      · exact fun h => hb (eq_of_ofByte h rfl)
      · exact fun h => hquote (hq ▸ eq_of_ofByte h rfl)
      · exact fun h => hbreak (by rw [isLineBreak_eq, h]; rfl)
      · exact fun h => hbreak (by rw [isLineBreak_eq, h]; rfl)
    rw [hend]
    exact ih (k := k + 1) (by rw [← hs, skip_skip, Nat.add_assoc])

/-! ## Templates and comments -/

theorem templateEnd_advance (k : Nat) (bs : Bytes) :
    templateEnd k ((0x5C :: bs).map Mark.ofByte) =
      templateEnd (k + min 2 (0x5C :: bs).length)
        (((0x5C :: bs).drop (min 2 (0x5C :: bs).length)).map Mark.ofByte) := by
  match bs with
  | [] => rfl
  | b :: bs =>
    have hle : 2 ≤ (0x5C :: b :: bs : Bytes).length := by simp
    rw [Nat.min_eq_left hle]
    rfl

/-- Text of a template is read as its marks are, from its byte `k` on. -/
theorem marked_templateBody {s₀ : Scanner} {k start : Nat} (hs : s₀.skip k = s)
    (hk : k ≤ s₀.rest.length) (hstart : start ≤ s.pos) :
    (s.templateBody start).marked =
      s₀.marked.endText start (templateEnd k (s.rest.map Mark.ofByte)) := by
  have hlen : s.rest.length = s₀.rest.length - k := by rw [← hs, skip, List.length_drop]
  fun_induction templateBody s start generalizing k with
  | case1 s hrest =>
    have hend : k = s₀.rest.length := by
      rw [hrest, List.length_nil] at hlen
      omega
    have hle : start ≤ s.stop := Nat.le_trans hstart (Nat.le_add_right _ _)
    have hreport := s.marked_report .unclosedTemplate start (s.stop - start)
    rw [Nat.add_sub_of_le hle] at hreport
    rw [hreport, hrest, ← hs, stop_skip hk, marked_skip, hend, ← stop_marked]
    show _ = (s₀.marked.report _).skip s₀.marked.rest.length
    rw [marked, List.length_map]
    rfl
  | case2 s rest hrest ih =>
    have hmin : min 2 s.rest.length ≤ s.rest.length := Nat.min_le_right _ _
    have hend := templateEnd_advance k rest
    rw [← hrest] at hend
    rw [hend]
    refine ih (by rw [← hs, advance, skip_skip, hs]) (by omega)
      (Nat.le_trans hstart (Nat.le_add_right _ _)) ?_
    rw [advance, skip, List.length_drop]
    omega
  | case3 s rest hrest hb =>
    rw [hrest, ← hs, skip_skip, marked_skip]
    rfl
  | case4 s b rest hrest hb hbacktick hdollar =>
    obtain ⟨rfl, hbrace⟩ := hdollar
    unfold peekAt at hbrace
    rw [hrest] at hbrace
    obtain ⟨rest, rfl⟩ := exists_cons_of_head hbrace
    rw [hrest, ← hs, skip_skip]
    show { (s₀.skip (k + 2)).marked with waiting := ⟨start, 0⟩ :: s₀.waiting } = _
    rw [marked_skip]
    rfl
  | case5 s b rest hrest hb hbacktick hdollar ih =>
    have hone : 1 ≤ s.rest.length := by simp [hrest]
    have hend : templateEnd k (s.rest.map Mark.ofByte) =
        templateEnd (k + 1) ((s.skip 1).rest.map Mark.ofByte) := by
      rw [skip, hrest]
      refine templateEnd_other ?_ ?_ ?_
      · exact fun h => hb (eq_of_ofByte h rfl)
      · exact fun h => hbacktick (eq_of_ofByte h rfl)
      · intro tail hm htail
        refine hdollar ⟨eq_of_ofByte hm rfl, ?_⟩
        rw [peekAt, hrest]
        exact head_of_marks htail rfl
    rw [hend]
    refine ih (by rw [← hs, skip_skip]) (by omega) (Nat.le_trans hstart (Nat.le_add_right _ _)) ?_
    rw [skip, List.length_drop]
    omega

/-- Template text that lies ahead is read as its marks are. -/
theorem marked_templateBody_ahead {start : Nat} (hstart : start ≤ s.pos) :
    (s.templateBody start).marked = s.marked.template start := by
  have hs : s.skip 0 = s := rfl
  rw [marked_templateBody hs (Nat.zero_le _) hstart, Scan.template_eq_endText]
  rfl

theorem marked_blockComment {rest : Bytes} (hs : s.rest = 0x2F :: 0x2A :: rest) :
    s.blockComment.marked =
      s.marked.consume (Lexeme.blockComment (.star :: rest.map Mark.ofByte)) := by
  have hrest : s.rest.drop 2 = rest := congrArg (List.drop 2) hs
  unfold blockComment Lexeme.blockComment
  rw [hrest, List.drop_one, List.tail_cons, commentEnd?_map, hs]
  cases commentClose? 2 rest with
  | some n => exact marked_skip s (n + 2)
  | none =>
    show ((s.report _ _ _).skip _).marked = (s.marked.report _).skip (_ + 1)
    rw [marked_skip, marked_report]
    simp
    rfl

theorem marked_skipLine {rest : Bytes} (hs : s.rest = 0x2F :: 0x2F :: rest) :
    s.skipLine.marked =
      s.marked.consume (.plain (line (.slash :: rest.map Mark.ofByte)).length) := by
  unfold skipLine
  rw [lineLength_eq, hs]
  exact marked_skip s _

/-- A stray character is reported with itself as its argument. -/
theorem marked_unexpected {kind : Kind} (hkind : kind = .strayAt ∨ kind = .strayHash) :
    (s.unexpected kind).marked = s.marked.consume (.fault kind 0 0) := by
  unfold unexpected
  rw [marked_skip, Span.ofEnds_of_le (Nat.le_add_right _ _)]
  rcases hkind with rfl | rfl <;> rfl

theorem marked_openBrace (s : Scanner) : s.openBrace.marked = s.marked.openBrace := by
  obtain ⟨pos, rest, waiting, found⟩ := s
  cases waiting <;> rfl

theorem marked_closeBrace (h : s.marked.Placed) : s.closeBrace.marked = s.marked.closeBrace := by
  obtain ⟨pos, rest, waiting, found⟩ := s
  match waiting with
  | [] => rfl
  | ⟨start, 0⟩ :: outer =>
    exact marked_templateBody_ahead (s := ⟨pos, rest, outer, found⟩)
      (h.begun ⟨start, 0⟩ List.mem_cons_self)
  | ⟨start, braces + 1⟩ :: outer => rfl

/-! ## Steps -/

theorem marked_string {q : Quote} {rest : Bytes} (hs : s.rest = q.byte :: rest) :
    ((s.skip 1).stringBody q.byte s.pos).marked =
      s.marked.consume (Lexeme.string q (rest.map Mark.ofByte)) := by
  have hskip : s.skip (1 + 0) = s.skip 1 := rfl
  have hrest : (s.skip 1).rest = rest := by rw [skip, hs]; rfl
  rw [marked_stringBody hskip, hrest, Lexeme.string_eq]

theorem read_hash (rest : Bytes) :
    Lexeme.read .hash (rest.map Mark.ofByte) =
      if rest[0]?.any isIdentifierStart then .plain 1 else .fault .strayHash 0 0 := by
  match rest with
  | [] => rfl
  | b :: rest =>
    show _ = if isIdentifierStart b = true then _ else _
    rw [isIdentifierStart_eq]
    rfl

/-- Any other byte is an item of its own. -/
theorem read_other {b : UInt8} {rest : Bytes} (hquote : ¬(b = 0x27 ∨ b = 0x22)) (hbacktick : b ≠ 0x60)
    (hcomment : ¬(b = 0x2F ∧ rest[0]? = some 0x2A)) (hline : ¬(b = 0x2F ∧ rest[0]? = some 0x2F))
    (hclose : ¬(b = 0x2A ∧ rest[0]? = some 0x2F)) (hat : b ≠ 0x40) (hhash : b ≠ 0x23)
    (hopen : b ≠ 0x7B) (hclosing : b ≠ 0x7D) :
    Lexeme.read (Mark.ofByte b) (rest.map Mark.ofByte) = .plain 0 := by
  generalize hm : Mark.ofByte b = m
  generalize hms : rest.map Mark.ofByte = ms
  unfold Lexeme.read
  split
  next q => exact absurd (isQuote_iff.mpr ⟨q, eq_of_ofByte hm rfl⟩) hquote
  next => exact absurd (eq_of_ofByte hm rfl) hbacktick
  next => exact absurd ⟨eq_of_ofByte hm rfl, head_of_marks hms rfl⟩ hcomment
  next => exact absurd ⟨eq_of_ofByte hm rfl, head_of_marks hms rfl⟩ hline
  next => exact absurd ⟨eq_of_ofByte hm rfl, head_of_marks hms rfl⟩ hclose
  next => exact absurd (eq_of_ofByte hm rfl) hat
  next => exact absurd (eq_of_ofByte hm rfl) hhash
  next => exact absurd (eq_of_ofByte hm rfl) hhash
  next => exact absurd (eq_of_ofByte hm rfl) hopen
  next => exact absurd (eq_of_ofByte hm rfl) hclosing
  next => rfl

/-- What the byte at the head of the text begins is read as its mark says. -/
theorem marked_scanCode {b : UInt8} {rest : Bytes} (h : s.marked.Placed) (hs : s.rest = b :: rest) :
    (s.scanCode b).marked =
      s.marked.consume (Lexeme.read (Mark.ofByte b) (rest.map Mark.ofByte)) := by
  have hskip : (s.skip 1).marked.Placed := by
    rw [marked_skip]
    exact h.skip (by rw [rest_marked_cons hs]; exact Nat.succ_pos _)
  have hpeek : s.peekAt 1 = rest[0]? := by rw [peekAt, hs]; rfl
  unfold scanCode
  rw [hpeek]
  by_cases hquote : b = 0x27 ∨ b = 0x22
  · rw [if_pos hquote]
    obtain ⟨q, rfl⟩ := isQuote_iff.mp hquote
    rw [ofByte_byte]
    exact marked_string hs
  rw [if_neg hquote]
  by_cases hbacktick : b = 0x60
  · rw [if_pos hbacktick, marked_templateBody_ahead (Nat.le_add_right _ _),
      marked_skip, hbacktick]
    rfl
  rw [if_neg hbacktick]
  by_cases hcomment : b = 0x2F ∧ rest[0]? = some 0x2A
  · rw [if_pos hcomment]
    obtain ⟨rfl, hstar⟩ := hcomment
    obtain ⟨tail, rfl⟩ := exists_cons_of_head hstar
    exact marked_blockComment hs
  rw [if_neg hcomment]
  by_cases hline : b = 0x2F ∧ rest[0]? = some 0x2F
  · rw [if_pos hline]
    obtain ⟨rfl, hslash⟩ := hline
    obtain ⟨tail, rfl⟩ := exists_cons_of_head hslash
    exact marked_skipLine hs
  rw [if_neg hline]
  by_cases hclose : b = 0x2A ∧ rest[0]? = some 0x2F
  · rw [if_pos hclose]
    obtain ⟨rfl, hslash⟩ := hclose
    obtain ⟨tail, rfl⟩ := exists_cons_of_head hslash
    rw [marked_skip, marked_report]
    rfl
  rw [if_neg hclose]
  by_cases hat : b = 0x40
  · rw [if_pos hat, marked_unexpected (.inl rfl), hat]
    rfl
  rw [if_neg hat]
  by_cases hname : b = 0x23 ∧ rest[0]?.any isIdentifierStart = true
  · rw [if_pos hname, hname.1]
    show _ = s.marked.consume (Lexeme.read .hash _)
    rw [read_hash, if_pos hname.2]
    exact marked_skip s 2
  rw [if_neg hname]
  by_cases hhash : b = 0x23
  · rw [if_pos hhash, marked_unexpected (.inr rfl), hhash]
    show _ = s.marked.consume (Lexeme.read .hash _)
    rw [read_hash, if_neg fun hstart => hname ⟨hhash, hstart⟩]
  rw [if_neg hhash]
  by_cases hopen : b = 0x7B
  · rw [if_pos hopen, marked_openBrace, marked_skip, hopen]
    rfl
  rw [if_neg hopen]
  by_cases hclosing : b = 0x7D
  · rw [if_pos hclosing, marked_closeBrace hskip, marked_skip, hclosing]
    rfl
  rw [if_neg hclosing, marked_skip,
    read_other hquote hbacktick hcomment hline hclose hat hhash hopen hclosing]
  rfl

/-- One item of code is read as its marks are. -/
theorem marked_step (h : s.marked.Placed) : s.step.marked = s.marked.step := by
  unfold step
  split
  next hs =>
    rw [Scan.step, marked, hs]
    rfl
  next b rest hs =>
    rw [Scan.step_eq_consume (rest_marked_cons hs)]
    exact marked_scanCode h hs

theorem rest_marked_eq_nil_iff : s.marked.rest = [] ↔ s.rest = [] :=
  List.map_eq_nil_iff

/-- A whole scan reads the text as its marks are. -/
theorem marked_finish (h : s.marked.Placed) : s.finish.marked = s.marked.finish := by
  fun_induction finish s with
  | case1 s hs => rw [Scan.finish, dif_pos (rest_marked_eq_nil_iff.mpr hs)]
  | case2 s hs ih =>
    have hfinish : s.marked.finish = s.marked.step.finish := by
      rw [Scan.finish, dif_neg (mt rest_marked_eq_nil_iff.mp hs)]
    rw [ih (by rw [marked_step h]; exact h.step), marked_step h, hfinish]

/-! ## Whole scripts -/

theorem marked_start (text : Bytes) : (start text).marked = Scan.start (text.map Mark.ofByte) := by
  unfold start
  split
  next h =>
    obtain ⟨rest, rfl⟩ := List.isPrefixOf_iff_prefix.mp h
    rw [skipLine, lineLength_eq]
    exact marked_skip _ _
  next h =>
    refine (Scan.start_of_not_shebang fun hprefix => h ?_).symm
    obtain ⟨tail, hmap⟩ := hprefix
    obtain ⟨b, rest, rfl, hb, hrest⟩ := List.map_eq_cons_iff.mp hmap.symm
    obtain ⟨c, rest, rfl, hc, -⟩ := List.map_eq_cons_iff.mp hrest
    rw [eq_of_ofByte hb rfl, eq_of_ofByte hc rfl]
    exact List.isPrefixOf_iff_prefix.mpr ⟨rest, rfl⟩

theorem placed_start (text : Bytes) : (start text).marked.Placed := by
  rw [marked_start]
  exact .start _

theorem findings_marked (h : s.marked.Placed) : s.marked.findings = s.findings := by
  unfold findings Scan.findings
  congr 1
  refine List.map_congr_left fun sub hsub => ?_
  have hle : sub.template ≤ s.stop :=
    Nat.le_trans (h.begun sub (List.mem_reverse.mp hsub)) (Nat.le_add_right _ _)
  rw [Span.ofEnds_of_le hle, stop_marked, Scan.unclosedTemplate, Span.ofLength]
  simp only [Nat.add_sub_of_le hle]

end Scanner

theorem stored_of_stop_le {f : Finding} (h : ∀ span ∈ f.span :: f.args, span.stop ≤ maxOffset) :
    f.stored = f := by
  obtain ⟨hspan, hargs⟩ := List.forall_mem_cons.mp h
  have hmap : f.args.map (fun arg => Span.stored arg.first arg.stop) = f.args :=
    (List.map_congr_left fun arg harg => Span.stored_eq (hargs arg harg)).trans (List.map_id _)
  unfold Finding.stored
  rw [Span.stored_eq hspan, hmap]

/-- The findings of a script are those of its marks. -/
theorem run_eq_scan {text : Bytes} (h : text.length ≤ maxOffset) :
    Scanner.run text = scan (text.map Mark.ofByte) := by
  have hplaced := (Scanner.placed_start text).finish
  rw [← Scanner.marked_finish (Scanner.placed_start text)] at hplaced
  have hstop : (Scanner.start text).finish.marked.stop = text.length := by
    rw [Scanner.marked_finish (Scanner.placed_start text), Scanner.marked_start, Scan.stop_finish,
      Scan.stop_start, List.length_map]
  have hstored : (Scanner.start text).finish.findings.map Finding.stored =
      (Scanner.start text).finish.findings := by
    refine (List.map_congr_left fun f hf => stored_of_stop_le fun span hspan => ?_).trans
      (List.map_id _)
    rw [← Scanner.findings_marked hplaced] at hf
    have hle := hplaced.stop_le hf span hspan
    omega
  rw [Scanner.run, hstored, scan, ← Scanner.marked_start,
    ← Scanner.marked_finish (Scanner.placed_start text), Scanner.findings_marked hplaced]

theorem analyze_eq_scan (text : Bytes) :
    analyze text = if text.length ≤ maxOffset then .ok (scan (text.map Mark.ofByte))
      else .error (.textTooLarge text.length) := by
  unfold analyze
  split
  next h => rw [run_eq_scan h]
  next => rfl

theorem analyze_of_length_le {text : Bytes} (h : text.length ≤ maxOffset) :
    analyze text = .ok (scan (text.map Mark.ofByte)) := by
  rw [analyze_eq_scan, if_pos h]

end ScriptLint.Lexer
