import ScriptLint.Lexer.Lexeme
import ScriptLint.Proofs.Utf8

/-! What an item of code can be, and how far it reaches.

An item never reads past the end of the text, and the range that a fault reports
lies inside the item (`Lexeme.read_fits`):

    Lexeme.read m rest = .plain n             →  n ≤ rest.length
    Lexeme.read m rest = .fault kind width n  →  width ≤ n ≤ rest.length

Only backticks and braces are more than a stretch of text, and these are read
from the byte that they are (`Lexeme.eq_of_delimiter?_read`).  A fault is read from
what it names (`Lexeme.fault_of_read`). -/

namespace ScriptLint.Lexer

/-! ## Bytes and marks -/

def Quote.byte : Quote → UInt8
  | .single => 0x27
  | .double => 0x22

/-- The only byte with this mark, if there is only one. -/
def Mark.byte? : Mark → Option UInt8
  | .quote q => some q.byte
  | .backtick => some 0x60
  | .slash => some 0x2F
  | .star => some 0x2A
  | .at => some 0x40
  | .hash => some 0x23
  | .braceOpen => some 0x7B
  | .braceClose => some 0x7D
  | .dollar => some 0x24
  | .backslash => some 0x5C
  | .bang => some 0x21
  | .lineFeed => some 0x0A
  | .carriageReturn => some 0x0D
  | .letter => none
  | .other => none

theorem byte?_ofByte (b : UInt8) :
    (Mark.ofByte b).byte? = none ∨ (Mark.ofByte b).byte? = some b := by
  revert b
  exact forall_byte (by decide +kernel)

/-- A mark of one byte only tells that byte. -/
theorem eq_of_ofByte {b c : UInt8} {m : Mark} (h : Mark.ofByte b = m) (hm : m.byte? = some c) :
    b = c := by
  subst h
  rcases byte?_ofByte b with hn | hs
  · rw [hn] at hm
    cases hm
  · rw [hs] at hm
    exact Option.some.inj hm

theorem ofByte_of_byte? {m : Mark} {c : UInt8} (h : m.byte? = some c) : Mark.ofByte c = m := by
  cases m with
  | quote q => cases q <;> cases h <;> rfl
  | letter => cases h
  | other => cases h
  | _ => cases h; rfl

theorem ofByte_eq_iff {b c : UInt8} {m : Mark} (hm : m.byte? = some c) :
    Mark.ofByte b = m ↔ b = c := by
  constructor
  · intro h
    exact eq_of_ofByte h hm
  · rintro rfl
    exact ofByte_of_byte? hm

/-! ## Ranges -/

theorem length_of_drop {α : Type} {l rest : List α} {i : Nat} {a : α} (h : l.drop i = a :: rest) :
    l.length = i + rest.length + 1 := by
  have hlen := congrArg List.length h
  rw [List.length_drop, List.length_cons] at hlen
  omega

theorem slice?_ofLength {text s : Bytes} {i : Nat} {b : UInt8} (bs : Bytes)
    (h : text.drop i = b :: (bs ++ s)) :
    (Span.ofLength i (bs.length + 1)).slice? text = some (b :: bs) := by
  have hlen := length_of_drop h
  rw [List.length_append] at hlen
  have hstop : (Span.ofLength i (bs.length + 1)).stop ≤ text.length := by
    show i + (bs.length + 1) ≤ text.length
    omega
  rw [Span.slice?, if_pos hstop]
  show some ((text.drop i).take (i + (bs.length + 1) - i)) = _
  rw [h, Nat.add_sub_cancel_left, List.take_succ_cons, List.take_left]

/-! ## Strings, comments and templates -/

theorem stringEnd_escape {p : Quote} {k : Nat} {m : Mark} {rest : List Mark}
    (h : ∀ tail, m = .carriageReturn → rest = .lineFeed :: tail → False) :
    stringEnd p k (.backslash :: m :: rest) = stringEnd p (k + 2) rest := by
  rw [stringEnd]
  exact h

theorem stringEnd_other {p : Quote} {k : Nat} {m : Mark} {rest : List Mark}
    (h1 : m ≠ .backslash) (h2 : m ≠ .quote p) (h3 : m ≠ .lineFeed) (h4 : m ≠ .carriageReturn) :
    stringEnd p k (m :: rest) = stringEnd p (k + 1) rest := by
  cases m with
  | quote r =>
    rw [stringEnd, if_neg]
    intro hr
    exact h2 (by rw [hr])
  | backslash => exact absurd rfl h1
  | lineFeed => exact absurd rfl h3
  | carriageReturn => exact absurd rfl h4
  | _ => simp [stringEnd]

/-- Where the reading of a string stops, against what was left of the text. -/
def StringEnd.Fits (total : Nat) : StringEnd → Prop
  | .closed n => n ≤ total
  | .broken n width next => n + width + next.length = total
  | .cut n => n = total

theorem stringEnd_fits (q : Quote) (k : Nat) (ms : List Mark) :
    (stringEnd q k ms).Fits (k + ms.length) := by
  fun_induction stringEnd q k ms with
  | case1 k => rfl
  | case2 k => rfl
  | case3 k rest ih =>
    simp only [List.length_cons]
    rwa [show k + (rest.length + 1 + 1 + 1) = k + 3 + rest.length by omega]
  | case4 k m rest h ih =>
    simp only [List.length_cons]
    rwa [show k + (rest.length + 1 + 1) = k + 2 + rest.length by omega]
  | case5 k rest => exact Nat.add_le_add_left (Nat.le_add_left 1 rest.length) k
  | case6 k p rest h ih =>
    simp only [List.length_cons]
    rwa [show k + (rest.length + 1) = k + 1 + rest.length by omega]
  | case7 k rest => simp only [StringEnd.Fits, List.length_cons]; omega
  | case8 k rest h => simp only [StringEnd.Fits, List.length_cons]; omega
  | case9 k rest => simp only [StringEnd.Fits, List.length_cons]; omega
  | case10 k m rest h1 h2 h3 h4 h5 h6 ih =>
    simp only [List.length_cons]
    rwa [show k + (rest.length + 1) = k + 1 + rest.length by omega]

theorem length_line_le (ms : List Mark) : (line ms).length ≤ ms.length :=
  (List.takeWhile_sublist _).length_le

/-- A string that a line break interrupts ends before the break or on the next line. -/
theorem brokenExtent_le (q : Quote) (n width : Nat) (next : List Mark) :
    brokenExtent q n width next ≤ n + width + next.length := by
  unfold brokenExtent
  split
  next h =>
    have hmem : .quote q ∈ line next := List.count_pos_iff.mp (by omega)
    have hlt := List.idxOf_lt_length_of_mem hmem
    have hle := length_line_le next
    omega
  next => omega

theorem le_of_commentEnd? {k n : Nat} {ms : List Mark} (h : commentEnd? k ms = some n) :
    n ≤ k + ms.length := by
  fun_induction commentEnd? k ms with
  | case1 => cases h
  | case2 k rest =>
    simp only [Option.some.injEq] at h
    simp only [List.length_cons]
    omega
  | case3 k m rest hne ih =>
    have := ih h
    simp only [List.length_cons]
    omega

theorem commentEnd?_other {k : Nat} {m : Mark} {rest : List Mark}
    (h : ∀ tail, m = .star → rest = .slash :: tail → False) :
    commentEnd? k (m :: rest) = commentEnd? (k + 1) rest := by
  rw [commentEnd?]
  exact h

/-- A mark is not `x` when `x` is read both at the end of the text and before another mark. -/
theorem ne_of_cases {m x : Mark} {rest : List Mark} (hlast : m = x → rest = [] → False)
    (hnext : ∀ m' tail, m = x → rest = m' :: tail → False) : m ≠ x := by
  intro hm
  cases rest with
  | nil => exact hlast hm rfl
  | cons m' tail => exact hnext m' tail hm rfl

theorem templateEnd_other {k : Nat} {m : Mark} {rest : List Mark} (h1 : m ≠ .backslash)
    (h2 : m ≠ .backtick) (h3 : ∀ tail, m = .dollar → rest = .braceOpen :: tail → False) :
    templateEnd k (m :: rest) = templateEnd (k + 1) rest := by
  rw [templateEnd]
  · exact fun h => absurd h h1
  · exact fun _ _ h => absurd h h1
  · exact fun h => absurd h h2
  · exact h3

/-- Where the reading of template text stops, against what was left of the text. -/
def TemplateEnd.Fits (total : Nat) : TemplateEnd → Prop
  | .closed n => n ≤ total
  | .substitution n => n ≤ total
  | .cut => True

theorem templateEnd_fits (k : Nat) (ms : List Mark) :
    (templateEnd k ms).Fits (k + ms.length) := by
  fun_induction templateEnd k ms with
  | case1 k => trivial
  | case2 k => trivial
  | case3 k m rest ih =>
    simp only [List.length_cons]
    rwa [show k + (rest.length + 1 + 1) = k + 2 + rest.length by omega]
  | case4 k rest => simp only [TemplateEnd.Fits, List.length_cons]; omega
  | case5 k rest => simp only [TemplateEnd.Fits, List.length_cons]; omega
  | case6 k m rest h1 h2 h3 h4 ih =>
    simp only [List.length_cons]
    rwa [show k + (rest.length + 1) = k + 1 + rest.length by omega]

/-! ## Items -/

/-- An item's length, and that of the range it reports, against the text after its first byte. -/
def Lexeme.Fits (total : Nat) : Lexeme → Prop
  | .plain n => n ≤ total
  | .fault _ width n => width ≤ n ∧ n ≤ total
  | _ => True

theorem Lexeme.string_fits (q : Quote) (rest : List Mark) :
    (Lexeme.string q rest).Fits rest.length := by
  have hs := stringEnd_fits q 0 rest
  rw [Nat.zero_add] at hs
  unfold Lexeme.string
  split
  next n hn => rw [hn] at hs; exact hs
  next n width next hn =>
    rw [hn] at hs
    have hle := brokenExtent_le q n width next
    exact ⟨Nat.le_refl _, Nat.le_trans hle (Nat.le_of_eq hs)⟩
  next n hn => rw [hn] at hs; exact ⟨Nat.le_refl _, Nat.le_of_eq hs⟩

theorem Lexeme.blockComment_fits (rest : List Mark) :
    (Lexeme.blockComment (.star :: rest)).Fits (rest.length + 1) := by
  unfold Lexeme.blockComment
  split
  next n hn =>
    have := le_of_commentEnd? hn
    show n ≤ rest.length + 1
    simp only [List.drop_succ_cons, List.drop_zero] at this
    omega
  next => exact ⟨by simp, Nat.le_refl _⟩

/-- An item stays inside the text, and so does the range it reports. -/
theorem Lexeme.read_fits (m : Mark) (rest : List Mark) : (Lexeme.read m rest).Fits rest.length := by
  unfold Lexeme.read
  split
  next q => exact string_fits q _
  next => trivial
  next rest => exact blockComment_fits rest
  next rest => exact length_line_le (.slash :: rest)
  next => exact ⟨Nat.le_refl _, by simp⟩
  next => exact ⟨Nat.le_refl _, Nat.zero_le _⟩
  next => exact ⟨Nat.le_refl _, Nat.zero_le _⟩
  next => split <;> simp [Lexeme.Fits]
  next => trivial
  next => trivial
  next => exact Nat.zero_le _

/-! ## Faults -/

/-- What stands at the head of `m :: rest` when the item there is at fault. -/
inductive Lexeme.Fault : Mark → List Mark → Kind → Nat → Nat → Prop
  | string {q : Quote} {rest : List Mark} {n : Nat} : Fault (.quote q) rest .unclosedString n n
  | unclosed {rest : List Mark} : commentEnd? 1 rest = none →
      Fault .slash (.star :: rest) .unclosedBlockComment 1 (rest.length + 1)
  | unopened {rest : List Mark} : Fault .star (.slash :: rest) .unopenedBlockComment 1 1
  | strayAt {rest : List Mark} : Fault .at rest .strayAt 0 0
  | strayHash {rest : List Mark} : (∀ m ∈ rest.head?, m.startsIdentifier = false) →
      Fault .hash rest .strayHash 0 0

theorem Lexeme.fault_of_string {q : Quote} {rest : List Mark} {kind : Kind} {width n : Nat}
    (h : Lexeme.string q rest = .fault kind width n) : Fault (.quote q) rest kind width n := by
  unfold Lexeme.string at h
  split at h <;> cases h
  · exact .string
  · exact .string

theorem Lexeme.fault_of_blockComment {rest : List Mark} {kind : Kind} {width n : Nat}
    (h : Lexeme.blockComment (.star :: rest) = .fault kind width n) :
    Fault .slash (.star :: rest) kind width n := by
  unfold Lexeme.blockComment at h
  split at h
  next => cases h
  next hend =>
    cases h
    exact .unclosed hend

/-- A fault is read from what it names. -/
theorem Lexeme.fault_of_read {m : Mark} {rest : List Mark} {kind : Kind} {width n : Nat}
    (h : Lexeme.read m rest = .fault kind width n) : Fault m rest kind width n := by
  unfold Lexeme.read at h
  split at h
  next => exact fault_of_string h
  next => cases h
  next => exact fault_of_blockComment h
  next => cases h
  next => cases h; exact .unopened
  next => cases h; exact .strayAt
  next => cases h; exact .strayHash nofun
  next next _ =>
    split at h
    next => cases h
    next hnext =>
      cases h
      refine .strayHash fun m hm => ?_
      cases hm
      exact Bool.eq_false_iff.mpr hnext
  next => cases h
  next => cases h
  next => cases h

/-! ## Delimiters -/

/-- The items that change what the text around them is: template quotes and braces. -/
def Lexeme.delimiter? : Lexeme → Option Mark
  | .backtick => some .backtick
  | .braceOpen => some .braceOpen
  | .braceClose => some .braceClose
  | _ => none

theorem Lexeme.delimiter?_string (q : Quote) (rest : List Mark) :
    (Lexeme.string q rest).delimiter? = none := by
  unfold Lexeme.string
  split <;> rfl

theorem Lexeme.delimiter?_blockComment (rest : List Mark) :
    (Lexeme.blockComment rest).delimiter? = none := by
  unfold Lexeme.blockComment
  split <;> rfl

/-- A delimiter is the byte it is read from. -/
theorem Lexeme.eq_of_delimiter?_read {m d : Mark} {rest : List Mark}
    (h : (Lexeme.read m rest).delimiter? = some d) : m = d := by
  unfold Lexeme.read at h
  split at h
  next => rw [delimiter?_string] at h; cases h
  next => exact Option.some.inj h
  next => rw [delimiter?_blockComment] at h; cases h
  next => cases h
  next => cases h
  next => cases h
  next => cases h
  next => split at h <;> cases h
  next => exact Option.some.inj h
  next => exact Option.some.inj h
  next => cases h

end ScriptLint.Lexer
