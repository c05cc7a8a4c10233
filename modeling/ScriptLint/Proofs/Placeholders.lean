import Mathlib.Data.Nat.Digits.Defs
import ScriptLint.Message.Format

/-! What a well-formed message template says.

A template is put together from tokens: text without braces, doubled braces and
numbers in braces.  Each token has a meaning of its own, and a template means what
its tokens mean, one after the other, whichever of them stand side by side:

    format (join (tokens.map text)) args = join (tokens.map (meaning args))    (format_tokens)

Braces are read in pairs from the left, so a token may lose its last brace to the
next one: behind a placeholder without an argument, the pairs of `}}}` are not
those of the tokens.  `WritesOut` therefore speaks of a template alone and behind one
more closing brace; each token keeps both (`Token.writesOut_append`). -/

namespace ScriptLint.Message

/-! ## Tokens -/

def BraceFree (s : String) : Prop :=
  ∀ x ∈ s.toList, x ≠ '\x7b' ∧ x ≠ '\x7d'

/-- At least one digit, and digits only. -/
def Numeral (s : String) : Prop :=
  s ≠ "" ∧ ∀ x ∈ s.toList, x.isDigit = true

/-- The number that a numeral denotes, in base ten. -/
def number (numeral : String) : Nat :=
  Nat.ofDigits 10 (numeral.toList.reverse.map fun x => x.toNat - '0'.toNat)

/-- The argument with a number, if the number can be read. -/
def argumentAt? {α : Type} (args : List α) (n : Nat) : Option α :=
  if n < indexLimit then args[n]? else none

/-- The pieces of a well-formed template. -/
inductive Token where
  | literal (text : String) (braceFree : BraceFree text)
  | openBrace
  | closeBrace
  | placeholder (index : String) (numeral : Numeral index)

namespace Token

def text : Token → String
  | literal text _ => text
  | openBrace => "\x7b\x7b"
  | closeBrace => "\x7d\x7d"
  | placeholder index _ => "\x7b" ++ index ++ "\x7d"

/-- What a token stands for; a placeholder without an argument stands for itself,
and so does one whose number is too large to be read. -/
def meaning (args : List String) : Token → String
  | literal text _ => text
  | openBrace => "\x7b"
  | closeBrace => "\x7d"
  | placeholder index _ => (argumentAt? args (number index)).getD ("\x7b" ++ index ++ "\x7d")

end Token

/-- A text with every brace doubled. -/
def doubled (s : String) : String :=
  String.ofList (s.toList.flatMap fun x => if x = '\x7b' ∨ x = '\x7d' then [x, x] else [x])

/-! ## Numbers -/

theorem digitValue?_of_isDigit {x : Char} (h : x.isDigit = true) :
    Text.digitValue? x = some (x.toNat - '0'.toNat) :=
  if_pos h

theorem ofDigits_eq_number {index : String} (h : Numeral index) :
    Text.ofDigits 10 index.toList = number index := by
  have hrev : ∀ x ∈ index.toList.reverse, x.isDigit = true := by
    intro x hx
    exact h.2 x (List.mem_reverse.mp hx)
  unfold Text.ofDigits number
  rw [List.foldl_eq_foldr_reverse]
  generalize index.toList.reverse = cs at hrev
  induction cs with
  | nil => rfl
  | cons x cs ih =>
    obtain ⟨hx, hcs⟩ := List.forall_mem_cons.mp hrev
    rw [List.foldr_cons, ih hcs, digitValue?_of_isDigit hx, List.map_cons, Nat.ofDigits_cons]
    simp only [Option.getD_some]
    omega

/-- A numeral has no sign, so all of it is read as digits. -/
theorem index?_of_numeral {index : String} (h : Numeral index) :
    index? index.toList = if number index < indexLimit then some (number index) else none := by
  have hall : index.toList.all Char.isDigit = true := List.all_eq_true.mpr h.2
  rw [← ofDigits_eq_number h]
  cases hcs : index.toList with
  | nil => exact absurd (String.toList_eq_nil_iff.mp hcs) h.1
  | cons x cs =>
    rw [hcs] at hall
    have hsign : x ≠ '+' := by
      rintro rfl
      exact absurd (List.all_eq_true.mp hall '+' List.mem_cons_self) (by decide)
    simp [index?, hsign, hall]

/-- No list of arguments is so long that it has one whose number cannot be read. -/
theorem argumentAt?_eq {α : Type} {args : List α} (h : args.length ≤ indexLimit) (n : Nat) :
    argumentAt? args n = args[n]? := by
  unfold argumentAt?
  by_cases hn : n < indexLimit
  · rw [if_pos hn]
  · rw [if_neg hn, List.getElem?_eq_none (by omega)]

theorem argumentAt?_map {α β : Type} (f : α → β) (args : List α) (n : Nat) :
    argumentAt? (args.map f) n = (argumentAt? args n).map f := by
  unfold argumentAt?
  by_cases hn : n < indexLimit
  · rw [if_pos hn, if_pos hn, List.getElem?_map]
  · rw [if_neg hn, if_neg hn, Option.map_none]

theorem ne_closing_of_isDigit {x : Char} (h : x.isDigit = true) : (x != '\x7d') = true := by
  rw [bne_iff_ne]
  rintro rfl
  exact absurd h (by decide)

theorem placeholder?_of_numeral (args : List (List Char)) {index : String} (h : Numeral index)
    (after : List Char) :
    placeholder? args (index.toList ++ '\x7d' :: after) =
      (argumentAt? args (number index)).map fun arg => (arg, after) := by
  have hdigits : ∀ x ∈ index.toList, (x != '\x7d') = true := by
    intro x hx
    exact ne_closing_of_isDigit (h.2 x hx)
  have hdrop : (index.toList ++ '\x7d' :: after).dropWhile (· != '\x7d') = '\x7d' :: after := by
    rw [List.dropWhile_append_of_pos hdigits]
    rfl
  have htake : (index.toList ++ '\x7d' :: after).takeWhile (· != '\x7d') = index.toList := by
    rw [List.takeWhile_append_of_pos hdigits]
    simp
  unfold placeholder? argumentAt?
  rw [hdrop, htake, index?_of_numeral h]
  by_cases hlimit : number index < indexLimit
  · simp only [if_pos hlimit]
  · simp only [if_neg hlimit, Option.map_none]

/-! ## One token at a time -/

section
variable {args : List (List Char)} {x : Char} {rest : List Char}

theorem formatChars_nil : formatChars args [] = [] := by
  rw [formatChars]

theorem formatChars_other (h1 : x ≠ '\x7b') (h2 : x ≠ '\x7d') :
    formatChars args (x :: rest) = x :: formatChars args rest := by
  rw [formatChars]
  · exact fun _ h => absurd h h1
  · exact fun _ h => absurd h h2
  · exact fun h => absurd h h1

theorem formatChars_braceFree (args : List (List Char)) {cs : List Char}
    (h : ∀ x ∈ cs, x ≠ '\x7b' ∧ x ≠ '\x7d') (rest : List Char) :
    formatChars args (cs ++ rest) = cs ++ formatChars args rest := by
  induction cs with
  | nil => rfl
  | cons x cs ih =>
    obtain ⟨hx, hcs⟩ := List.forall_mem_cons.mp h
    rw [List.cons_append, formatChars_other hx.1 hx.2, ih hcs, List.cons_append]

/-- A closing brace without a second one stands for itself. -/
theorem formatChars_closing (h : rest.head? ≠ some '\x7d') :
    formatChars args ('\x7d' :: rest) = '\x7d' :: formatChars args rest := by
  rw [formatChars]
  · intro tail hopen
    simp at hopen
  · rintro tail - rfl
    exact h rfl
  · intro hopen
    simp at hopen

theorem formatChars_of_placeholder {arg after : List Char} (h2 : rest.head? ≠ some '\x7b')
    (h : placeholder? args rest = some (arg, after)) :
    formatChars args ('\x7b' :: rest) = arg ++ formatChars args after := by
  rw [formatChars]
  · split
    next arg' after' h' =>
      rw [h] at h'
      cases h'
      rfl
    next h' =>
      rw [h] at h'
      cases h'
  · rintro tail rfl
    exact h2 rfl

theorem formatChars_of_no_placeholder (h2 : rest.head? ≠ some '\x7b')
    (h : placeholder? args rest = none) :
    formatChars args ('\x7b' :: rest) = '\x7b' :: formatChars args rest := by
  rw [formatChars]
  · split
    next arg after h' =>
      rw [h] at h'
      cases h'
    next => rfl
  · rintro tail rfl
    exact h2 rfl

theorem braceFree_of_digits {digits : List Char} (h : ∀ x ∈ digits, x.isDigit = true) :
    ∀ x ∈ digits, x ≠ '\x7b' ∧ x ≠ '\x7d' := by
  intro x hx
  have hdigit := h x hx
  constructor
  · rintro rfl
    exact absurd hdigit (by decide)
  · rintro rfl
    exact absurd hdigit (by decide)

theorem head?_digits_ne {digits : List Char} (h : ∀ x ∈ digits, x.isDigit = true) :
    (digits ++ '\x7d' :: rest).head? ≠ some '\x7b' := by
  cases digits with
  | nil => simp
  | cons x digits =>
    intro hx
    exact (braceFree_of_digits h x List.mem_cons_self).1 (Option.some.inj hx)

/-- Only the opening brace is copied at once; the digits and the closing brace are read again. -/
theorem formatChars_unfilled {digits : List Char} (hdigits : ∀ x ∈ digits, x.isDigit = true)
    (h : placeholder? args (digits ++ '\x7d' :: rest) = none) :
    formatChars args ('\x7b' :: (digits ++ '\x7d' :: rest)) =
      '\x7b' :: (digits ++ formatChars args ('\x7d' :: rest)) := by
  rw [formatChars_of_no_placeholder (head?_digits_ne hdigits) h,
    formatChars_braceFree args (braceFree_of_digits hdigits)]

end

/-- A template is written out as `out`, also behind one more closing brace: that
brace and the first brace of the template may be read as a pair, but then the last
brace of the run is left over. -/
structure WritesOut (args : List (List Char)) (template out : List Char) : Prop where
  alone : formatChars args template = out
  behind : formatChars args ('\x7d' :: template) = '\x7d' :: out

namespace WritesOut

variable {args : List (List Char)} {template out : List Char}

/-- A template that does not go on with a closing brace is not touched by one before it. -/
theorem of_head (hhead : template.head? ≠ some '\x7d') (h : formatChars args template = out) :
    WritesOut args template out :=
  ⟨h, by rw [formatChars_closing hhead, h]⟩

theorem nil : WritesOut args [] [] :=
  of_head (by simp) formatChars_nil

theorem literal {s : String} (hs : BraceFree s) (h : WritesOut args template out) :
    WritesOut args (s.toList ++ template) (s.toList ++ out) := by
  have halone : formatChars args (s.toList ++ template) = s.toList ++ out := by
    rw [formatChars_braceFree args hs, h.alone]
  cases hcs : s.toList with
  | nil => exact h
  | cons x cs =>
    rw [hcs] at halone
    have hx := hs x (by rw [hcs]; exact List.mem_cons_self)
    refine of_head ?_ halone
    intro hhead
    exact hx.2 (Option.some.inj hhead)

theorem openBrace (h : WritesOut args template out) :
    WritesOut args ('\x7b' :: '\x7b' :: template) ('\x7b' :: out) := by
  refine of_head (by simp) ?_
  rw [formatChars, h.alone]

theorem closeBrace (h : WritesOut args template out) :
    WritesOut args ('\x7d' :: '\x7d' :: template) ('\x7d' :: out) := by
  constructor
  · rw [formatChars, h.alone]
  · -- the first two of three braces are a pair here, and the third goes on to the next token
    rw [formatChars, h.behind]

theorem placeholder {index : String} (hindex : Numeral index) (h : WritesOut args template out) :
    WritesOut args ('\x7b' :: (index.toList ++ '\x7d' :: template))
      ((argumentAt? args (number index)).getD ('\x7b' :: (index.toList ++ ['\x7d'])) ++ out) := by
  refine of_head (by simp) ?_
  have hplaceholder := placeholder?_of_numeral args hindex template
  cases harg : argumentAt? args (number index) with
  | some arg =>
    rw [harg] at hplaceholder
    rw [formatChars_of_placeholder (head?_digits_ne hindex.2) hplaceholder, h.alone]
    rfl
  | none =>
    rw [harg] at hplaceholder
    rw [formatChars_unfilled hindex.2 hplaceholder, h.behind]
    simp

end WritesOut

/-- Each token keeps what the rest of the template is written out as. -/
theorem Token.writesOut_append (token : Token) {args : List String} {template out : List Char}
    (h : WritesOut (args.map String.toList) template out) :
    WritesOut (args.map String.toList) (token.text.toList ++ template)
      ((token.meaning args).toList ++ out) := by
  cases token with
  | literal text hfree => exact h.literal hfree
  | openBrace => simpa [text, meaning] using h.openBrace
  | closeBrace => simpa [text, meaning] using h.closeBrace
  | placeholder index hindex =>
    have hplaceholder := h.placeholder hindex
    rw [argumentAt?_map] at hplaceholder
    cases harg : argumentAt? args (number index) with
    | some arg => simpa [text, meaning, harg] using hplaceholder
    | none => simpa [text, meaning, harg] using hplaceholder

theorem writesOut_tokens (tokens : List Token) (args : List String) :
    WritesOut (args.map String.toList) (String.join (tokens.map Token.text)).toList
      (String.join (tokens.map (Token.meaning args))).toList := by
  induction tokens with
  | nil => exact .nil
  | cons token tokens ih =>
    have hstep := token.writesOut_append ih
    simpa [String.join_cons] using hstep

/-! ## Top theorems -/

/-- The token that stands for one character. -/
def Token.ofChar (x : Char) : Token :=
  if h1 : x = '\x7b' then .openBrace
  else if h2 : x = '\x7d' then .closeBrace
  else .literal x.toString (by
    intro y hy
    have hxy : y = x := by simpa [Char.toString] using hy
    exact hxy ▸ ⟨h1, h2⟩)

theorem Token.text_ofChar (x : Char) : (Token.ofChar x).text.toList =
    if x = '\x7b' ∨ x = '\x7d' then [x, x] else [x] := by
  unfold Token.ofChar
  by_cases h1 : x = '\x7b'
  · simp [Token.text, h1]
  · by_cases h2 : x = '\x7d'
    · simp [Token.text, h2]
    · simp [Token.text, Char.toString, h1, h2]

theorem Token.meaning_ofChar (args : List String) (x : Char) :
    ((Token.ofChar x).meaning args).toList = [x] := by
  unfold Token.ofChar
  by_cases h1 : x = '\x7b'
  · simp [Token.meaning, h1]
  · by_cases h2 : x = '\x7d'
    · simp [Token.meaning, h2]
    · simp [Token.meaning, Char.toString, h1, h2]

theorem doubled_eq_join (s : String) :
    doubled s = String.join ((s.toList.map Token.ofChar).map Token.text) := by
  apply String.toList_inj.mp
  simp [doubled, String.toList_join, List.flatMap_map, Token.text_ofChar]

theorem join_meaning_ofChar (s : String) (args : List String) :
    String.join ((s.toList.map Token.ofChar).map (Token.meaning args)) = s := by
  apply String.toList_inj.mp
  simp [String.toList_join, List.flatMap_map, Token.meaning_ofChar]

theorem format_join (tokens : List Token) (args : List String) :
    format (String.join (tokens.map Token.text)) args =
      String.join (tokens.map (Token.meaning args)) := by
  unfold format
  rw [(writesOut_tokens tokens args).alone, String.ofList_toList]

/-- A well-formed template says what its tokens say; arguments are copied as they are, and the
limit on their numbers shuts none of them out.  So a text with its braces doubled says that text. -/
theorem format_tokens (args : List String) :
    (∀ tokens : List Token, format (String.join (tokens.map Token.text)) args =
      String.join (tokens.map (Token.meaning args))) ∧
    (args.length ≤ indexLimit → ∀ index numeral, (Token.placeholder index numeral).meaning args =
      args[number index]?.getD ("\x7b" ++ index ++ "\x7d")) ∧
    ∀ s : String, format (doubled s) args = s := by
  refine ⟨fun tokens => format_join tokens args, fun hargs index numeral => ?_, fun s => ?_⟩
  · rw [Token.meaning, argumentAt?_eq hargs]
  · rw [doubled_eq_join, format_join, join_meaning_ofChar]

/-- A number that is too large to be read stands for itself. -/
theorem format_largeNumber :
    format "\x7b0\x7d\x7b18446744073709551616\x7d\x7b\x7b" ["@"] =
      "@\x7b18446744073709551616\x7d\x7b" ∧
    format (doubled "\x7b0\x7d") ["@"] = "\x7b0\x7d" := by
  have hzero : Numeral "0" := ⟨by decide, by simp⟩
  have hlarge : Numeral "18446744073709551616" := ⟨by decide, by simp⟩
  obtain ⟨htokens, hlimit, hdoubled⟩ := format_tokens ["@"]
  have hjoin := htokens [.placeholder "0" hzero, .placeholder _ hlarge, .openBrace]
  simp only [List.map_cons, List.map_nil, hlimit (by decide)] at hjoin
  exact ⟨hjoin, hdoubled _⟩

end ScriptLint.Message
