import ScriptLint.Proofs.Unwinding

/-! The scripts without faults, as a grammar.

A script without faults is a sequence of items: closed strings and templates,
comments, private names, and single bytes that open none of these.  A relation
`R s t` of the grammar says that `s` begins with such a piece of text and that
`t` follows it; the items need `t` to be in sight, as some of them end where the
next byte says so.

    analyze text = .ok []  ↔  text.length ≤ maxOffset ∧ Grammar.Clean text    (analyze_eq_nil_iff)

The items are related to their readers first (`Ordinary.read_eq`, `item_of_read`).
Then the recursive descent follows every derivation (`Sequence.follows`,
`Template.closes`), and what it reads without findings has one (`derived`). -/

namespace ScriptLint.Lexer.Grammar

/-! ## The grammar -/

def LineBreak (b : UInt8) : Prop :=
  b = 0x0A ∨ b = 0x0D

instance (b : UInt8) : Decidable (LineBreak b) :=
  inferInstanceAs (Decidable (_ ∨ _))

/-- What may follow `#`: a letter, `_`, `$`, a backslash, or a byte outside ASCII. -/
def IdentifierStart (b : UInt8) : Prop :=
  (0x41 ≤ b ∧ b ≤ 0x5A) ∨ (0x61 ≤ b ∧ b ≤ 0x7A) ∨ b = 0x5F ∨ b = 0x24 ∨ b = 0x5C ∨ 0x80 ≤ b

instance (b : UInt8) : Decidable (IdentifierStart b) :=
  inferInstanceAs (Decidable (_ ∨ _))

/-- A byte that stands for itself before `t`: it is no quote, no backtick, `@` or
`#`, and it neither opens nor closes a comment. -/
def Ordinary (b : UInt8) (t : Bytes) : Prop :=
  b ≠ 0x27 ∧ b ≠ 0x22 ∧ b ≠ 0x60 ∧ b ≠ 0x40 ∧ b ≠ 0x23 ∧
  ¬ (b = 0x2F ∧ (t.head? = some 0x2A ∨ t.head? = some 0x2F)) ∧
  ¬ (b = 0x2A ∧ t.head? = some 0x2F)

inductive Brace where
  | opening
  | closing
  deriving DecidableEq

def Brace.ofByte? (b : UInt8) : Option Brace :=
  if b = 0x7B then some .opening else if b = 0x7D then some .closing else none

/-- The braces still open after `bs`, when `n` are open before; `none` if some
brace closes nothing. -/
def depth? : Nat → List Brace → Option Nat
  | n, [] => some n
  | n, .opening :: bs => depth? (n + 1) bs
  | 0, .closing :: _ => none
  | n + 1, .closing :: bs => depth? n bs

/-- Every brace has its partner. -/
def Balanced (bs : List Brace) : Prop :=
  depth? 0 bs = some 0

/-- The rest of a string after its opening quote `q`, through its closing quote. -/
inductive Quoted (q : UInt8) : Bytes → Bytes → Prop
  | close {t : Bytes} : Quoted q (q :: t) t
  | escapedBreak {s t : Bytes} : Quoted q s t → Quoted q (0x5C :: 0x0D :: 0x0A :: s) t
  | escape {b : UInt8} {s t : Bytes} : Quoted q s t → Quoted q (0x5C :: b :: s) t
  | byte {b : UInt8} {s t : Bytes} :
      b ≠ 0x5C → b ≠ q → ¬ LineBreak b → Quoted q s t → Quoted q (b :: s) t

mutual

/-- One item of code, with the brace that it is, if it is one. -/
inductive Item : Option Brace → Bytes → Bytes → Prop
  | string {q : UInt8} {s t : Bytes} : q = 0x27 ∨ q = 0x22 → Quoted q s t → Item none (q :: s) t
  | template {s t : Bytes} : Template s t → Item none (0x60 :: s) t
  /-- No `*/` comes before the one that closes the comment. -/
  | blockComment {body t : Bytes} : ¬ [0x2A, 0x2F] <:+: body ++ [0x2A] →
      Item none (0x2F :: 0x2A :: (body ++ 0x2A :: 0x2F :: t)) t
  | lineComment {body t : Bytes} : (∀ b ∈ body, ¬ LineBreak b) → (∀ b ∈ t.head?, LineBreak b) →
      Item none (0x2F :: 0x2F :: (body ++ t)) t
  | privateName {b : UInt8} {t : Bytes} : IdentifierStart b → Item none (0x23 :: b :: t) t
  | byte {b : UInt8} {t : Bytes} : Ordinary b t → Item (Brace.ofByte? b) (b :: t) t

/-- Items one after the other, with the braces among them. -/
inductive Sequence : List Brace → Bytes → Bytes → Prop
  | nil {s : Bytes} : Sequence [] s s
  | cons {brace : Option Brace} {bs : List Brace} {s t u : Bytes} :
      Item brace s t → Sequence bs t u → Sequence (brace.toList ++ bs) s u

/-- The rest of a template after its opening backtick, through its closing backtick. -/
inductive Template : Bytes → Bytes → Prop
  | close {t : Bytes} : Template (0x60 :: t) t
  | escape {b : UInt8} {s t : Bytes} : Template s t → Template (0x5C :: b :: s) t
  | substitution {bs : List Brace} {s t u : Bytes} :
      Sequence bs s (0x7D :: t) → Balanced bs → Template t u → Template (0x24 :: 0x7B :: s) u
  | byte {b : UInt8} {s t : Bytes} : b ≠ 0x5C → b ≠ 0x60 →
      ¬ (b = 0x24 ∧ s.head? = some 0x7B) → Template s t → Template (b :: s) t

end

/-- A script without its first line if that starts with `#!`; the line break stays. -/
def withoutShebang (text : Bytes) : Bytes :=
  if [0x23, 0x21] <+: text then text.dropWhile fun b => ¬ LineBreak b else text

/-- A script that the grammar derives; outside of templates braces need no partners. -/
def Clean (text : Bytes) : Prop :=
  ∃ bs, Sequence bs (withoutShebang text) []

/-! ## Strings -/

/-- The marks of a script. -/
def marks (s : Bytes) : List Mark :=
  s.map Mark.ofByte

theorem exists_of_marks {s : Bytes} {m : Mark} {rest : List Mark} {c : UInt8}
    (h : marks s = m :: rest) (hm : m.byte? = some c) : ∃ t, s = c :: t ∧ marks t = rest := by
  obtain ⟨b, t, rfl, hb, ht⟩ := List.map_eq_cons_iff.mp h
  exact ⟨t, by rw [eq_of_ofByte hb hm], ht⟩

theorem closed_after {p : Quote} {k j : Nat} {s s' t : Bytes} (hd : s'.drop j = s)
    (he : stringEnd p k (marks s') = stringEnd p (k + j) (marks s))
    (h : ∃ n, stringEnd p (k + j) (marks s) = .closed (k + j + n) ∧ t = s.drop n) :
    ∃ n, stringEnd p k (marks s') = .closed (k + n) ∧ t = s'.drop n := by
  obtain ⟨n, hn, ht⟩ := h
  exact ⟨j + n, by rw [he, hn, Nat.add_assoc], by rw [ht, ← hd, List.drop_drop]⟩

/-- A closed string is read through its closing quote. -/
theorem Quoted.stringEnd_eq {p : Quote} {s t : Bytes} (h : Quoted p.byte s t) (k : Nat) :
    ∃ n, stringEnd p k (marks s) = .closed (k + n) ∧ t = s.drop n := by
  induction h generalizing k with
  | close => exact ⟨1, by cases p <;> rfl, rfl⟩
  | escapedBreak _ ih => exact closed_after (j := 3) rfl rfl (ih (k + 3))
  | @escape b s t hs ih =>
    refine closed_after (j := 2) rfl (stringEnd_escape fun tail hb hrest => ?_) (ih (k + 2))
    -- a line feed right after the escape would have to be a byte of the string
    obtain ⟨s, rfl, -⟩ := exists_of_marks hrest rfl
    generalize hl : (0x0A :: s : Bytes) = l at hs
    cases hs with
    | close => cases p <;> cases hl
    | escapedBreak => cases hl
    | escape => cases hl
    | byte _ _ h3 _ =>
      cases hl
      exact h3 (.inl rfl)
  | @byte b s t h1 h2 h3 _ ih =>
    refine closed_after (j := 1) rfl (stringEnd_other ?_ ?_ ?_ ?_) (ih (k + 1))
    · exact fun hb => h1 (eq_of_ofByte hb rfl)
    · exact fun hb => h2 (eq_of_ofByte hb rfl)
    · exact fun hb => h3 (.inl (eq_of_ofByte hb rfl))
    · exact fun hb => h3 (.inr (eq_of_ofByte hb rfl))

/-- What is read up to a closing quote is a closed string. -/
theorem quoted_of_stringEnd {p : Quote} {s : Bytes} {k N : Nat}
    (h : stringEnd p k (marks s) = .closed N) : ∃ n, N = k + n ∧ Quoted p.byte s (s.drop n) := by
  generalize hms : marks s = ms at h
  fun_induction stringEnd p k ms generalizing s with
  | case1 => cases h
  | case2 => cases h
  | case3 k rest ih =>
    obtain ⟨s, rfl, hreturn⟩ := exists_of_marks hms rfl
    obtain ⟨s, rfl, hfeed⟩ := exists_of_marks hreturn rfl
    obtain ⟨s, rfl, hs⟩ := exists_of_marks hfeed rfl
    obtain ⟨n, rfl, hn⟩ := ih hs h
    exact ⟨n + 3, by omega, .escapedBreak hn⟩
  | case4 k m rest _ ih =>
    obtain ⟨s, rfl, hescaped⟩ := exists_of_marks hms rfl
    obtain ⟨b, s, rfl, -, hs⟩ := List.map_eq_cons_iff.mp hescaped
    obtain ⟨n, rfl, hn⟩ := ih hs h
    exact ⟨n + 2, by omega, .escape hn⟩
  | case5 k rest =>
    obtain ⟨s, rfl, -⟩ := exists_of_marks hms rfl
    cases h
    exact ⟨1, rfl, .close⟩
  | case6 k r rest hr ih =>
    obtain ⟨s, rfl, hs⟩ := exists_of_marks hms rfl
    obtain ⟨n, rfl, hn⟩ := ih hs h
    refine ⟨n + 1, by omega, .byte ?_ ?_ ?_ hn⟩
    · cases r <;> decide
    · revert hr; cases r <;> cases p <;> decide
    · rintro (hb | hb) <;> revert hb <;> cases r <;> decide
  | case7 => cases h
  | case8 => cases h
  | case9 => cases h
  | case10 k m rest h1 h2 h3 h4 h5 h6 h7 ih =>
    obtain ⟨b, s, rfl, rfl, hs⟩ := List.map_eq_cons_iff.mp hms
    obtain ⟨n, rfl, hn⟩ := ih hs h
    refine ⟨n + 1, by omega, .byte ?_ ?_ ?_ hn⟩
    · rintro rfl
      cases rest with
      | nil => exact h1 rfl rfl
      | cons m rest => exact h3 m rest rfl rfl
    · rintro rfl
      exact h4 p (by cases p <;> rfl)
    · rintro (rfl | rfl)
      · exact h7 rfl
      · exact h6 rfl

/-! ## Comments -/

/-- A block comment is read through the first `*/`. -/
theorem commentEnd?_eq {body : Bytes} (h : ¬ [0x2A, 0x2F] <:+: body ++ [0x2A]) (t : Bytes)
    (k : Nat) :
    commentEnd? k (marks (body ++ 0x2A :: 0x2F :: t)) = some (k + (body.length + 2)) := by
  induction body generalizing k with
  | nil => rfl
  | cons b body ih =>
    have hbody : ¬ [0x2A, 0x2F] <:+: body ++ [0x2A] := fun hi => h (List.infix_cons hi)
    have hne : ∀ tail, Mark.ofByte b = .star →
        marks (body ++ 0x2A :: 0x2F :: t) = .slash :: tail → False := by
      intro tail hb hrest
      have hb : b = 0x2A := eq_of_ofByte hb rfl
      cases body with
      | nil => cases hrest
      | cons c body =>
        have hc : Mark.ofByte c = .slash := (List.cons.inj hrest).1
        have hc : c = 0x2F := eq_of_ofByte hc rfl
        subst hb hc
        exact h (List.IsPrefix.isInfix ⟨body ++ [0x2A], rfl⟩)
    refine (commentEnd?_other hne).trans ?_
    rw [ih hbody, List.length_cons]
    congr 1
    omega

/-- What is read as a block comment ends with its first `*/`. -/
theorem exists_of_commentEnd? {s : Bytes} {k N : Nat} (h : commentEnd? k (marks s) = some N) :
    ∃ body t, s = body ++ 0x2A :: 0x2F :: t ∧ N = k + (body.length + 2) ∧
      ¬ [0x2A, 0x2F] <:+: body ++ [0x2A] := by
  generalize hms : marks s = ms at h
  fun_induction commentEnd? k ms generalizing s with
  | case1 => cases h
  | case2 k rest =>
    obtain ⟨s, rfl, hslash⟩ := exists_of_marks hms rfl
    obtain ⟨s, rfl, -⟩ := exists_of_marks hslash rfl
    cases h
    exact ⟨[], s, rfl, rfl, by decide⟩
  | case3 k m rest hne ih =>
    obtain ⟨b, s, rfl, rfl, rfl⟩ := List.map_eq_cons_iff.mp hms
    obtain ⟨body, t, rfl, rfl, hbody⟩ := ih rfl h
    refine ⟨b :: body, t, rfl, by rw [List.length_cons]; omega, fun hi => ?_⟩
    rcases List.infix_cons_iff.mp hi with hp | hi
    · obtain ⟨tail, ht⟩ := hp
      obtain ⟨hb, htail⟩ := List.cons.inj ht
      cases body with
      | nil => cases htail
      | cons c body =>
        obtain ⟨hc, -⟩ := List.cons.inj htail
        subst hb hc
        exact hne _ rfl rfl
    · exact hbody hi

theorem isBreak_ofByte (b : UInt8) : (Mark.ofByte b).isBreak = decide (LineBreak b) := by
  revert b
  exact forall_byte (by decide +kernel)

theorem line_marks (s : Bytes) : line (marks s) = marks (s.takeWhile fun b => ¬ LineBreak b) := by
  unfold line marks
  rw [List.takeWhile_map]
  congr 2
  funext b
  rw [Function.comp_apply, isBreak_ofByte, decide_not]

theorem takeWhile_line {body t : Bytes} (hbody : ∀ b ∈ body, ¬ LineBreak b)
    (ht : ∀ b ∈ t.head?, LineBreak b) :
    (body ++ t).takeWhile (fun b => ¬ LineBreak b) = body := by
  have htake : t.takeWhile (fun b => ¬ LineBreak b) = [] := by
    cases t with
    | nil => rfl
    | cons b t =>
      rw [List.takeWhile_cons_of_neg]
      rw [decide_eq_true_eq]
      exact not_not_intro (ht b rfl)
  rw [List.takeWhile_append_of_pos, htake, List.append_nil]
  intro b hb
  exact decide_eq_true (hbody b hb)

theorem dropWhile_line (s : Bytes) :
    s.dropWhile (fun b => ¬ LineBreak b) = s.drop (line (marks s)).length := by
  have hs := List.takeWhile_append_dropWhile (p := fun b => decide (¬ LineBreak b)) (l := s)
  rw [line_marks, marks, List.length_map]
  conv => rhs; arg 2; rw [← hs]
  exact List.drop_left.symm

/-- A line ends before a line break or with the text. -/
theorem exists_line (s : Bytes) : ∃ body t, s = body ++ t ∧ (∀ b ∈ body, ¬ LineBreak b) ∧
    (∀ b ∈ t.head?, LineBreak b) ∧ (line (marks s)).length = body.length := by
  refine ⟨s.takeWhile fun b => ¬ LineBreak b, s.dropWhile fun b => ¬ LineBreak b,
    List.takeWhile_append_dropWhile.symm, ?_, ?_, ?_⟩
  · intro b hb
    exact of_decide_eq_true (List.all_eq_true.mp List.all_takeWhile b hb)
  · intro b hb
    have hhead := List.head?_dropWhile_not (fun b => decide (¬ LineBreak b)) s
    rw [Option.mem_def.mp hb] at hhead
    exact Decidable.not_not.mp (of_decide_eq_false hhead)
  · rw [line_marks, marks, List.length_map]

/-! ## Items -/

theorem startsIdentifier_ofByte (b : UInt8) :
    (Mark.ofByte b).startsIdentifier = true ↔ IdentifierStart b := by
  revert b
  exact forall_byte (by decide +kernel)

theorem quoted_of_string {p : Quote} {s : Bytes} {n : Nat}
    (h : Lexeme.string p (marks s) = .plain n) : Quoted p.byte s (s.drop n) := by
  unfold Lexeme.string at h
  split at h
  next k hk =>
    cases h
    obtain ⟨j, rfl, hj⟩ := quoted_of_stringEnd hk
    rwa [Nat.zero_add]
  next => cases h
  next => cases h

theorem Quoted.string_eq {p : Quote} {s t : Bytes} (h : Quoted p.byte s t) :
    ∃ n, Lexeme.string p (marks s) = .plain n ∧ t = s.drop n := by
  obtain ⟨n, hn, ht⟩ := h.stringEnd_eq 0
  rw [Nat.zero_add] at hn
  exact ⟨n, by unfold Lexeme.string; rw [hn], ht⟩

/-- The label of a brace that is read as such. -/
def readAs : Option Brace → Lexeme
  | none => .plain 0
  | some .opening => .braceOpen
  | some .closing => .braceClose

theorem Brace.ofByte?_eq_none {b : UInt8} (hopen : Mark.ofByte b ≠ .braceOpen)
    (hclose : Mark.ofByte b ≠ .braceClose) : Brace.ofByte? b = none := by
  unfold Brace.ofByte?
  rw [if_neg, if_neg]
  · rintro rfl
    exact hclose rfl
  · rintro rfl
    exact hopen rfl

/-- An ordinary byte is read as itself. -/
theorem Ordinary.read_eq {b : UInt8} {t : Bytes} (h : Ordinary b t) :
    Lexeme.read (Mark.ofByte b) (marks t) = readAs (Brace.ofByte? b) := by
  obtain ⟨h1, h2, h3, h4, h5, h6, h7⟩ := h
  generalize hm : Mark.ofByte b = m
  generalize hrest : marks t = rest
  unfold Lexeme.read
  split
  next q =>
    have hb : b = q.byte := eq_of_ofByte hm rfl
    cases q with
    | single => exact absurd hb h1
    | double => exact absurd hb h2
  next => exact absurd (eq_of_ofByte hm rfl) h3
  next rest =>
    obtain ⟨t, rfl, -⟩ := exists_of_marks hrest rfl
    exact absurd ⟨eq_of_ofByte hm rfl, .inl rfl⟩ h6
  next rest =>
    obtain ⟨t, rfl, -⟩ := exists_of_marks hrest rfl
    exact absurd ⟨eq_of_ofByte hm rfl, .inr rfl⟩ h6
  next rest =>
    obtain ⟨t, rfl, -⟩ := exists_of_marks hrest rfl
    exact absurd ⟨eq_of_ofByte hm rfl, rfl⟩ h7
  next => exact absurd (eq_of_ofByte hm rfl) h4
  next => exact absurd (eq_of_ofByte hm rfl) h5
  next => exact absurd (eq_of_ofByte hm rfl) h5
  next =>
    have hb : b = 0x7B := eq_of_ofByte hm rfl
    rw [hb]
    rfl
  next =>
    have hb : b = 0x7D := eq_of_ofByte hm rfl
    rw [hb]
    rfl
  next hopen hclose _ _ _ _ _ =>
    rw [Brace.ofByte?_eq_none (hm ▸ hopen) (hm ▸ hclose)]
    rfl

theorem item_of_blockComment {s : Bytes} {n : Nat}
    (h : Lexeme.blockComment (.star :: marks s) = .plain n) :
    Item none (0x2F :: 0x2A :: s) ((0x2A :: s).drop n) := by
  unfold Lexeme.blockComment at h
  split at h
  next k hk =>
    cases h
    obtain ⟨body, t, rfl, rfl, hbody⟩ := exists_of_commentEnd? hk
    have hdrop : (0x2A :: (body ++ 0x2A :: 0x2F :: t)).drop (1 + (body.length + 2)) = t := by
      rw [Nat.add_comm, List.drop_succ_cons]
      exact List.drop_length_add_append 2
    rw [hdrop]
    exact .blockComment hbody
  next => cases h

theorem item_of_line (s : Bytes) :
    Item none (0x2F :: 0x2F :: s) ((0x2F :: s).drop (line (.slash :: marks s)).length) := by
  obtain ⟨body, t, rfl, hbody, ht, hlen⟩ := exists_line s
  have hline : (line (.slash :: marks (body ++ t))).length = body.length + 1 := by
    rw [← hlen]
    rfl
  rw [hline, List.drop_succ_cons, List.drop_left]
  exact .lineComment hbody ht

/-- An item that is read without a finding, and is no delimiter, is an item of the grammar. -/
theorem item_of_read {b : UInt8} {s : Bytes} {n : Nat}
    (h : Lexeme.read (Mark.ofByte b) (marks s) = .plain n) : Item none (b :: s) (s.drop n) := by
  generalize hm : Mark.ofByte b = m at h
  generalize hrest : marks s = rest at h
  unfold Lexeme.read at h
  split at h
  next q =>
    have hb : b = q.byte := eq_of_ofByte hm rfl
    subst hb hrest
    exact .string (by cases q <;> decide) (quoted_of_string h)
  next => cases h
  next rest =>
    obtain rfl : b = 0x2F := eq_of_ofByte hm rfl
    obtain ⟨s, rfl, rfl⟩ := exists_of_marks hrest rfl
    exact item_of_blockComment h
  next rest =>
    obtain rfl : b = 0x2F := eq_of_ofByte hm rfl
    obtain ⟨s, rfl, rfl⟩ := exists_of_marks hrest rfl
    cases h
    exact item_of_line s
  next => cases h
  next => cases h
  next => cases h
  next next rest =>
    obtain rfl : b = 0x23 := eq_of_ofByte hm rfl
    obtain ⟨c, s, rfl, rfl, rfl⟩ := List.map_eq_cons_iff.mp hrest
    split at h
    next hc =>
      cases h
      exact .privateName ((startsIdentifier_ofByte c).mp hc)
    next => cases h
  next => cases h
  next => cases h
  next hq hback hat hopen hclose hblock hline hstar hhash hhash' =>
    cases h
    subst hm hrest
    have hord : Ordinary b s := by
      refine ⟨?_, ?_, ?_, ?_, ?_, ?_, ?_⟩
      · rintro rfl; exact hq .single rfl
      · rintro rfl; exact hq .double rfl
      · rintro rfl; exact hback rfl
      · rintro rfl; exact hat rfl
      · rintro rfl
        cases s with
        | nil => exact hhash rfl rfl
        | cons c s => exact hhash' _ _ rfl rfl
      · rintro ⟨rfl, hs | hs⟩
        · obtain ⟨t, rfl⟩ := List.head?_eq_some_iff.mp hs
          exact hblock _ rfl rfl
        · obtain ⟨t, rfl⟩ := List.head?_eq_some_iff.mp hs
          exact hline _ rfl rfl
      · rintro ⟨rfl, hs⟩
        obtain ⟨t, rfl⟩ := List.head?_eq_some_iff.mp hs
        exact hstar _ rfl rfl
    exact Brace.ofByte?_eq_none hopen hclose ▸ .byte hord

/-! ## Derivations are read without findings -/

open Descent

/-- The count of open braces after `bs`, for the call of `code` that counts
them; `none` if the call does not get that far. -/
def levelAfter : Option Nat → List Brace → Option (Option Nat)
  | none, _ => some none
  | some n, bs => (depth? n bs).map some

theorem depth?_append (n : Nat) (bs cs : List Brace) :
    depth? n (bs ++ cs) = (depth? n bs).bind (depth? · cs) := by
  fun_induction depth? n bs with
  | case1 n => rfl
  | case2 n bs ih => exact ih
  | case3 bs => rfl
  | case4 n bs ih => exact ih

theorem levelAfter_append (level : Option Nat) (bs cs : List Brace) :
    levelAfter level (bs ++ cs) = (levelAfter level bs).bind (levelAfter · cs) := by
  cases level with
  | none => rfl
  | some n =>
    simp only [levelAfter, depth?_append]
    cases depth? n bs <;> rfl

theorem levelAfter_nil (level : Option Nat) : levelAfter level [] = some level := by
  cases level <;> rfl

theorem marks_drop (s : Bytes) (n : Nat) : marks (s.drop n) = (marks s).drop n :=
  List.map_drop

theorem skip_andThen_skip (n k : Nat) : (skip n).andThen (skip k) = skip (n + k) := rfl

theorem skip_andThen (n k : Nat) (o : Outcome) :
    (skip n).andThen ((skip k).andThen o) = (skip (n + k)).andThen o := by
  simp [skip, Outcome.andThen, Nat.add_assoc]

/-- Code read from `s` on goes on at `t` without a finding. -/
def Follows (level : Option Nat) (s : Bytes) (level' : Option Nat) (t : Bytes) : Prop :=
  ∀ pos, ∃ n, t = s.drop n ∧
    code level pos (marks s) = (skip n).andThen (code level' (pos + n) (marks t))

theorem Follows.refl (level : Option Nat) (s : Bytes) : Follows level s level s :=
  fun _ => ⟨0, rfl, by simp [skip, Outcome.andThen]⟩

theorem Follows.trans {l l' l'' : Option Nat} {s t u : Bytes} (h : Follows l s l' t)
    (h' : Follows l' t l'' u) : Follows l s l'' u := by
  intro pos
  obtain ⟨n, hn, hcode⟩ := h pos
  obtain ⟨k, hk, hcode'⟩ := h' (pos + n)
  refine ⟨n + k, by rw [hk, hn, List.drop_drop], ?_⟩
  rw [hcode, hcode', skip_andThen, Nat.add_assoc]

theorem follows_of_plain {level : Option Nat} {b : UInt8} {s : Bytes} {n : Nat}
    (h : Lexeme.read (Mark.ofByte b) (marks s) = .plain n) :
    Follows level (b :: s) level (s.drop n) := by
  intro pos
  refine ⟨n + 1, rfl, ?_⟩
  rw [marks_drop]
  exact code_plain h

/-- A template is read without a finding, whatever it is part of. -/
def Closes (s t : Bytes) : Prop :=
  ∀ start pos, ∃ n, t = s.drop n ∧ template start pos (marks s) = skip n

theorem Closes.follows {level : Option Nat} {s t : Bytes} (h : Closes s t) :
    Follows level (0x60 :: s) level t := by
  intro pos
  obtain ⟨n, rfl, ht⟩ := h pos (pos + 1)
  have hcode : code level pos (.backtick :: marks s) = _ := code_backtick rfl
  rw [ht, skip_andThen_skip, read_skip, Nat.add_comm 1 n, List.drop_succ_cons,
    ← marks_drop] at hcode
  exact ⟨n + 1, rfl, hcode⟩

theorem Ordinary.follows {b : UInt8} {t : Bytes} (h : Ordinary b t) {level level' : Option Nat}
    (hl : levelAfter level (Brace.ofByte? b).toList = some level') :
    Follows level (b :: t) level' t := by
  have hread := h.read_eq
  cases hb : Brace.ofByte? b with
  | none =>
    rw [hb] at hread hl
    cases (levelAfter_nil level).symm.trans hl
    exact follows_of_plain hread
  | some brace =>
    rw [hb] at hread hl
    refine fun pos => ⟨1, rfl, ?_⟩
    cases brace with
    | opening =>
      refine (code_braceOpen hread).trans ?_
      cases level <;> cases hl <;> rfl
    | closing =>
      cases level with
      | none =>
        cases hl
        exact code_braceClose_none hread
      | some n =>
        cases n with
        | zero => cases hl
        | succ n =>
          cases hl
          exact code_braceClose_succ hread

theorem read_blockComment {body : Bytes} (h : ¬ [0x2A, 0x2F] <:+: body ++ [0x2A]) (t : Bytes) :
    Lexeme.read .slash (marks (0x2A :: (body ++ 0x2A :: 0x2F :: t))) =
      .plain (body.length + 2 + 1) := by
  show Lexeme.blockComment (.star :: marks (body ++ 0x2A :: 0x2F :: t)) = _
  unfold Lexeme.blockComment
  rw [List.drop_succ_cons, List.drop_zero, commentEnd?_eq h, Nat.add_comm 1]

theorem read_lineComment {body t : Bytes} (hbody : ∀ b ∈ body, ¬ LineBreak b)
    (ht : ∀ b ∈ t.head?, LineBreak b) :
    Lexeme.read .slash (marks (0x2F :: (body ++ t))) = .plain (body.length + 1) := by
  show Lexeme.plain ((line (marks (body ++ t))).length + 1) = _
  rw [line_marks, takeWhile_line hbody ht, marks, List.length_map]

theorem read_privateName {b : UInt8} (h : IdentifierStart b) (t : Bytes) :
    Lexeme.read .hash (marks (b :: t)) = .plain 1 :=
  if_pos ((startsIdentifier_ofByte b).mpr h)

theorem read_string {q : UInt8} (hq : q = 0x27 ∨ q = 0x22) {s t : Bytes} (h : Quoted q s t) :
    ∃ n, Lexeme.read (Mark.ofByte q) (marks s) = .plain n ∧ t = s.drop n := by
  rcases hq with rfl | rfl
  · exact Quoted.string_eq (p := .single) h
  · exact Quoted.string_eq (p := .double) h

theorem closes_backtick (t : Bytes) : Closes (0x60 :: t) t := by
  intro start pos
  refine ⟨1, rfl, ?_⟩
  show template start pos (.backtick :: marks t) = _
  rw [template]

theorem closes_escape {b : UInt8} {s t : Bytes} (h : Closes s t) : Closes (0x5C :: b :: s) t := by
  intro start pos
  obtain ⟨n, rfl, hn⟩ := h start (pos + 2)
  refine ⟨n + 2, rfl, ?_⟩
  show template start pos (.backslash :: Mark.ofByte b :: marks s) = _
  rw [template, hn, skip_andThen_skip, Nat.add_comm]

theorem template_byte {b : UInt8} {s : Bytes} (h1 : b ≠ 0x5C) (h2 : b ≠ 0x60)
    (h3 : ¬ (b = 0x24 ∧ s.head? = some 0x7B)) {start pos : Nat} :
    template start pos (Mark.ofByte b :: marks s) =
      (skip 1).andThen (template start (pos + 1) (marks s)) := by
  apply template_other
  · exact fun hb => h1 (eq_of_ofByte hb rfl)
  · exact fun hb => h2 (eq_of_ofByte hb rfl)
  · intro tail hb hrest
    obtain ⟨s, rfl, -⟩ := exists_of_marks hrest rfl
    exact h3 ⟨eq_of_ofByte hb rfl, rfl⟩

theorem closes_byte {b : UInt8} {s t : Bytes} (h1 : b ≠ 0x5C) (h2 : b ≠ 0x60)
    (h3 : ¬ (b = 0x24 ∧ s.head? = some 0x7B)) (h : Closes s t) : Closes (b :: s) t := by
  intro start pos
  obtain ⟨n, rfl, hn⟩ := h start (pos + 1)
  refine ⟨n + 1, rfl, (template_byte h1 h2 h3).trans ?_⟩
  rw [hn, skip_andThen_skip, Nat.add_comm]

/-- A substitution ends with the brace that its own braces do not close. -/
theorem closes_substitution {s t u : Bytes} (hs : Follows (some 0) s (some 0) (0x7D :: t))
    (h : Closes t u) : Closes (0x24 :: 0x7B :: s) u := by
  intro start pos
  obtain ⟨n, hn, hcode⟩ := hs (pos + 2)
  have hend : code (some 0) (pos + 2 + n) (marks (0x7D :: t)) = skip 1 :=
    code_braceClose_zero (m := .braceClose) rfl
  rw [hend, skip_andThen_skip] at hcode
  have ht : t = s.drop (n + 1) := by rw [← List.drop_drop, ← hn]; rfl
  obtain ⟨k, rfl, hk⟩ := h start (pos + (2 + (n + 1)))
  refine ⟨n + 1 + k + 2, by rw [ht, List.drop_drop]; rfl, ?_⟩
  have htemplate : template start pos (.dollar :: .braceOpen :: marks s) = _ :=
    template_substitution
  have hdrop : (.dollar :: .braceOpen :: marks s : List Mark).drop (2 + (n + 1)) = marks t := by
    rw [ht, marks_drop, Nat.add_comm]
    rfl
  rw [hcode, skip_andThen_skip, read_skip, hdrop, hk, skip_andThen_skip] at htemplate
  refine htemplate.trans (congrArg skip ?_)
  omega

mutual

theorem Item.follows : ∀ {brace s t}, Item brace s t → ∀ {level level'},
    levelAfter level brace.toList = some level' → Follows level s level' t
  | _, _, _, .string hq hs, level, _, hl => by
    cases (levelAfter_nil level).symm.trans hl
    obtain ⟨n, hn, rfl⟩ := read_string hq hs
    exact follows_of_plain hn
  | _, _, _, .template ht, level, _, hl => by
    cases (levelAfter_nil level).symm.trans hl
    exact ht.closes.follows
  | _, _, _, @Item.blockComment body t hbody, level, _, hl => by
    cases (levelAfter_nil level).symm.trans hl
    have hfollows : Follows level _ level _ := follows_of_plain (b := 0x2F) (read_blockComment hbody t)
    rwa [List.drop_succ_cons, List.drop_length_add_append] at hfollows
  | _, _, _, .lineComment hbody ht, level, _, hl => by
    cases (levelAfter_nil level).symm.trans hl
    have hfollows : Follows level _ level _ := follows_of_plain (b := 0x2F) (read_lineComment hbody ht)
    rwa [List.drop_succ_cons, List.drop_left] at hfollows
  | _, _, _, @Item.privateName b t hb, level, _, hl => by
    cases (levelAfter_nil level).symm.trans hl
    exact follows_of_plain (b := 0x23) (read_privateName hb t)
  | _, _, _, .byte hb, _, _, hl => hb.follows hl

theorem Sequence.follows : ∀ {bs s t}, Sequence bs s t → ∀ {level level'},
    levelAfter level bs = some level' → Follows level s level' t
  | _, s, _, .nil, level, _, hl => by
    cases (levelAfter_nil level).symm.trans hl
    exact .refl level s
  | _, _, _, .cons hi hs, _, _, hl => by
    rw [levelAfter_append] at hl
    obtain ⟨mid, hmid, hend⟩ := Option.bind_eq_some_iff.mp hl
    exact (hi.follows hmid).trans (hs.follows hend)

theorem Template.closes : ∀ {s t}, Template s t → Closes s t
  | _, _, .close => closes_backtick _
  | _, _, .escape hs => closes_escape hs.closes
  | _, _, .substitution hseq hbal ht =>
    closes_substitution (hseq.follows (congrArg (Option.map some) hbal)) ht.closes
  | _, _, .byte h1 h2 h3 hs => closes_byte h1 h2 h3 hs.closes

end

/-! ## What is read without findings is derived -/

/-- A call of `code` reads items from `s` on, and `u` is what it leaves: nothing
after the end of the text, or what follows the brace that closes no brace of its own. -/
def Derives (level : Option Nat) (s u : Bytes) : Prop :=
  ∃ bs t, Sequence bs s t ∧
    ((t = [] ∧ u = []) ∨ (levelAfter level bs = some (some 0) ∧ t = 0x7D :: u))

theorem Derives.cons {level mid : Option Nat} {brace : Option Brace} {s t u : Bytes}
    (hi : Item brace s t) (hl : levelAfter level brace.toList = some mid) (h : Derives mid t u) :
    Derives level s u := by
  obtain ⟨bs, v, hs, hend⟩ := h
  refine ⟨brace.toList ++ bs, v, .cons hi hs, hend.imp_right fun ⟨h1, h2⟩ => ⟨?_, h2⟩⟩
  rw [levelAfter_append, hl]
  exact h1

theorem item_opening (t : Bytes) : Item (some .opening) (0x7B :: t) t := by
  have hord : Ordinary 0x7B t := by simp [Ordinary]
  exact .byte hord

theorem item_closing (t : Bytes) : Item (some .closing) (0x7D :: t) t := by
  have hord : Ordinary 0x7D t := by simp [Ordinary]
  exact .byte hord

/-- Text that the descent reads without findings, as code or as the rest of a
template, is derived as such. -/
structure Derived (s : Bytes) : Prop where
  code : ∀ level pos, (code level pos (marks s)).found = [] →
    Derives level s (s.drop (code level pos (marks s)).read)
  template : ∀ start pos, (template start pos (marks s)).found = [] →
    Template s (s.drop (template start pos (marks s)).read)

theorem derived_code {b : UInt8} {s : Bytes} (ih : ∀ u, u.length ≤ s.length → Derived u)
    {level : Option Nat} {pos : Nat} (h : (code level pos (Mark.ofByte b :: marks s)).found = []) :
    Derives level (b :: s) ((b :: s).drop (code level pos (Mark.ofByte b :: marks s)).read) := by
  have hs : Derived s := ih s (Nat.le_refl _)
  have hdrop : ∀ n, Derived (s.drop n) := fun n => ih _ ((List.drop_sublist n s).length_le)
  cases hm : Lexeme.read (Mark.ofByte b) (marks s) with
  | plain n =>
    rw [code_plain hm, ← marks_drop] at h ⊢
    rw [read_andThen, ← List.drop_drop]
    exact .cons (item_of_read hm) (levelAfter_nil level) ((hdrop n).code level _ h)
  | fault kind width n =>
    rw [code_fault hm] at h
    cases h
  | backtick =>
    obtain rfl : b = 0x60 :=
      eq_of_ofByte (m := .backtick) (Lexeme.eq_of_delimiter?_read (by rw [hm]; rfl)) rfl
    generalize hr : (template pos (pos + 1) (marks s)).read = r
    have hrest : (Mark.ofByte 0x60 :: marks s).drop (1 + r) = marks (s.drop r) := by
      rw [Nat.add_comm, marks_drop, List.drop_succ_cons]
    have hstop : (0x60 :: s).drop (1 + r) = s.drop r := by
      rw [Nat.add_comm, List.drop_succ_cons]
    rw [code_backtick hm, read_andThen (skip 1), read_skip, hr, hrest] at h ⊢
    obtain ⟨ht, hc⟩ := List.append_eq_nil_iff.mp h
    have htemplate := hs.template pos (pos + 1) ht
    rw [hr] at htemplate
    rw [read_andThen, read_andThen, read_skip, hr, ← List.drop_drop, hstop]
    exact .cons (.template htemplate) (levelAfter_nil level) ((hdrop r).code level _ hc)
  | braceOpen =>
    obtain rfl : b = 0x7B :=
      eq_of_ofByte (m := .braceOpen) (Lexeme.eq_of_delimiter?_read (by rw [hm]; rfl)) rfl
    rw [code_braceOpen hm] at h ⊢
    rw [read_andThen, ← List.drop_drop]
    refine .cons (item_opening s) ?_ (hs.code (level.map (· + 1)) _ h)
    cases level <;> rfl
  | braceClose =>
    obtain rfl : b = 0x7D :=
      eq_of_ofByte (m := .braceClose) (Lexeme.eq_of_delimiter?_read (by rw [hm]; rfl)) rfl
    match level with
    | none =>
      rw [code_braceClose_none hm] at h ⊢
      rw [read_andThen, ← List.drop_drop]
      exact .cons (item_closing s) rfl (hs.code none _ h)
    | some 0 =>
      rw [code_braceClose_zero hm]
      exact ⟨[], _, .nil, .inr ⟨rfl, rfl⟩⟩
    | some (n + 1) =>
      rw [code_braceClose_succ hm] at h ⊢
      rw [read_andThen, ← List.drop_drop]
      exact .cons (item_closing s) rfl (hs.code (some n) _ h)

theorem found_template_nil (start pos : Nat) : (template start pos []).found ≠ [] := by
  rw [template]
  exact List.cons_ne_nil _ _

theorem derived_substitution {s : Bytes} (ih : ∀ u, u.length ≤ s.length → Derived u)
    {start pos : Nat}
    (h : (template start pos (.dollar :: .braceOpen :: marks s)).found = []) :
    Template (0x24 :: 0x7B :: s)
      ((0x24 :: 0x7B :: s).drop (template start pos (.dollar :: .braceOpen :: marks s)).read) := by
  generalize hr : (code (some 0) (pos + 2) (marks s)).read = r
  have hrest : (.dollar :: .braceOpen :: marks s : List Mark).drop (2 + r) = marks (s.drop r) := by
    rw [Nat.add_comm, marks_drop, List.drop_succ_cons, List.drop_succ_cons]
  have hstop : (0x24 :: 0x7B :: s).drop (2 + r) = s.drop r := by
    rw [Nat.add_comm, List.drop_succ_cons, List.drop_succ_cons]
  rw [template_substitution, read_andThen (skip 2), read_skip, hr, hrest] at h ⊢
  obtain ⟨hc, ht⟩ := List.append_eq_nil_iff.mp h
  have hsub := (ih s (Nat.le_refl _)).code (some 0) (pos + 2) hc
  have htemplate := (ih _ ((List.drop_sublist r s).length_le)).template start _ ht
  rw [hr] at hsub
  rw [read_andThen, read_andThen, read_skip, hr, ← List.drop_drop, hstop]
  obtain ⟨bs, t, hseq, ⟨-, hend⟩ | ⟨hbal, rfl⟩⟩ := hsub
  · -- the text ends in the substitution, so its template is open
    rw [hend] at ht
    exact absurd ht (found_template_nil _ _)
  · refine .substitution hseq ?_ htemplate
    obtain ⟨n, hn, hzero⟩ := Option.map_eq_some_iff.mp hbal
    cases hzero
    exact hn

theorem derived_template {b : UInt8} {s : Bytes} (ih : ∀ u, u.length ≤ s.length → Derived u)
    {start pos : Nat} (h : (template start pos (Mark.ofByte b :: marks s)).found = []) :
    Template (b :: s) ((b :: s).drop (template start pos (Mark.ofByte b :: marks s)).read) := by
  by_cases hback : b = 0x5C
  · subst hback
    cases s with
    | nil =>
      change (template start pos [.backslash]).found = [] at h
      rw [template] at h
      cases h
    | cons c s =>
      change (template start pos (.backslash :: Mark.ofByte c :: marks s)).found = [] at h
      show Template _ (List.drop (template start pos (.backslash :: Mark.ofByte c :: marks s)).read _)
      rw [template] at h ⊢
      rw [read_andThen, ← List.drop_drop]
      exact .escape ((ih s (Nat.le_succ _)).template start (pos + 2) h)
  by_cases htick : b = 0x60
  · subst htick
    show Template _ (List.drop (template start pos (.backtick :: marks s)).read _)
    rw [template]
    exact .close
  by_cases hsub : b = 0x24 ∧ s.head? = some 0x7B
  · obtain ⟨rfl, hs⟩ := hsub
    obtain ⟨s, rfl⟩ := List.head?_eq_some_iff.mp hs
    exact derived_substitution (fun u hu => ih u (Nat.le_succ_of_le hu)) h
  · rw [template_byte hback htick hsub] at h ⊢
    rw [read_andThen, ← List.drop_drop]
    exact .byte hback htick hsub ((ih s (Nat.le_refl _)).template start (pos + 1) h)

theorem derived (s : Bytes) : Derived s := by
  match s with
  | [] =>
    refine ⟨fun level pos _ => ⟨[], [], .nil, .inl ⟨rfl, List.drop_nil⟩⟩, fun start pos h => ?_⟩
    exact absurd h (found_template_nil start pos)
  | b :: s =>
    have ih : ∀ u : Bytes, u.length ≤ s.length → Derived u := fun u hu => derived u
    exact ⟨fun _ _ h => derived_code ih h, fun _ _ h => derived_template ih h⟩
termination_by s.length

/-! ## Top theorems -/

/-- Code outside of templates is read without findings iff it is a sequence of items. -/
theorem found_code_eq_nil_iff (pos : Nat) (s : Bytes) :
    (code none pos (marks s)).found = [] ↔ ∃ bs, Sequence bs s [] := by
  constructor
  · intro h
    obtain ⟨bs, t, hseq, ⟨rfl, -⟩ | ⟨hlevel, -⟩⟩ := (derived s).code none pos h
    · exact ⟨bs, hseq⟩
    · cases hlevel
  · rintro ⟨bs, hseq⟩
    have hfollows : Follows none s none [] := hseq.follows rfl
    obtain ⟨n, -, hcode⟩ := hfollows pos
    rw [hcode, found_andThen]
    show [] ++ (code none (pos + n) []).found = []
    rw [code_nil]
    rfl

theorem shebang_marks (text : Bytes) :
    [Mark.hash, .bang].isPrefixOf (marks text) = true ↔ [0x23, 0x21] <+: text := by
  rw [List.isPrefixOf_iff_prefix]
  constructor
  · rintro ⟨rest, hrest⟩
    obtain ⟨s, rfl, hbang⟩ := exists_of_marks hrest.symm rfl
    obtain ⟨s, rfl, -⟩ := exists_of_marks hbang rfl
    exact ⟨s, rfl⟩
  · rintro ⟨rest, rfl⟩
    exact ⟨marks rest, rfl⟩

theorem marks_withoutShebang (text : Bytes) :
    marks (withoutShebang text) = (marks text).drop (shebang (marks text)) := by
  unfold withoutShebang shebang
  by_cases h : [0x23, 0x21] <+: text
  · rw [if_pos h, if_pos ((shebang_marks text).mpr h), dropWhile_line, marks_drop]
  · rw [if_neg h, if_neg (mt (shebang_marks text).mp h)]
    rfl

theorem findings_eq_nil_iff (text : Bytes) : findings (marks text) = [] ↔ Clean text := by
  unfold findings
  rw [← marks_withoutShebang]
  exact found_code_eq_nil_iff _ _

theorem scan_eq_nil_iff (ms : List Mark) : Lexer.scan ms = [] ↔ findings ms = [] := by
  rw [scan_eq_descent]
  have hperm := List.mergeSort_perm (findings ms) fun f g => f.span.first ≤ g.span.first
  exact ⟨fun h => List.nil_perm.mp (h ▸ hperm), fun h => List.perm_nil.mp (h ▸ hperm)⟩

/-- The analysis finds nothing exactly in the scripts that the grammar derives. -/
theorem analyze_eq_nil_iff (text : Bytes) :
    analyze text = .ok [] ↔ text.length ≤ maxOffset ∧ Clean text := by
  rw [analyze_eq_scan]
  by_cases h : text.length ≤ maxOffset
  · rw [if_pos h]
    refine ⟨fun he => ⟨h, ?_⟩, fun hc => congrArg Except.ok ?_⟩
    · exact (findings_eq_nil_iff text).mp ((scan_eq_nil_iff _).mp (Except.ok.inj he))
    · exact (scan_eq_nil_iff _).mpr ((findings_eq_nil_iff text).mpr hc.2)
  · rw [if_neg h]
    exact ⟨nofun, fun hc => absurd hc.1 h⟩

end ScriptLint.Lexer.Grammar
