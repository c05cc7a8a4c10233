import ScriptLint.Toml.Document

/-! Documents made of whole lines.

On a text that ends with a line, each reader fails, or it stops before that line's
end and reads the same whatever follows (`Local`).  Statements are read one by one,
so two texts of whole lines read, one behind the other, as the statements of the
first and then those of the second (`Reads.append`). -/

namespace ScriptLint.Toml

/-! ## Local readers -/

/-- On a text that ends with a line, the reader fails, or it stops before the end of
that line and does so whatever follows. -/
def Local {α : Type} (read : List Char → Option (α × List Char)) : Prop :=
  ∀ cs, read (cs ++ ['\n']) = none ∨
    ∃ a left, ∀ after, read (cs ++ '\n' :: after) = some (a, left ++ '\n' :: after)

/-- The same of what passes over characters, except that it may use up the text. -/
def Skips (skip : List Char → Option (List Char)) : Prop :=
  ∀ cs, (∀ after, skip (cs ++ '\n' :: after) = none) ∨ skip (cs ++ ['\n']) = some [] ∨
    ∃ left, ∀ after, skip (cs ++ '\n' :: after) = some (left ++ '\n' :: after)

section
variable {α β : Type} {read : List Char → Option (α × List Char)}

theorem Local.pure (a : α) : Local fun cs => some (a, cs) :=
  fun cs => .inr ⟨a, cs, fun _ => rfl⟩

theorem Local.none : Local fun _ => (none : Option (α × List Char)) :=
  fun _ => .inl rfl

theorem Local.bind {next : α → List Char → Option (β × List Char)} (h : Local read)
    (hnext : ∀ a, Local (next a)) : Local fun cs => (read cs).bind fun x => next x.1 x.2 := by
  intro cs
  rcases h cs with hread | ⟨a, left, hread⟩
  · exact .inl (by simp only [hread, Option.bind_none])
  · simp only [hread, Option.bind_some]
    exact hnext a left

theorem Local.map (h : Local read) (f : α → β) :
    Local fun cs => (read cs).map fun x => (f x.1, x.2) := by
  intro cs
  rcases h cs with hread | ⟨a, left, hread⟩
  · exact .inl (by simp only [hread, Option.map_none])
  · exact .inr ⟨f a, left, fun after => by simp only [hread, Option.map_some]⟩

/-- What reads nothing of nothing stays local behind what may use up the text. -/
theorem Local.skip {skip : List Char → Option (List Char)} (hskip : Skips skip) (h : Local read)
    (hnil : read [] = .none) : Local fun cs => (skip cs).bind read := by
  intro cs
  rcases hskip cs with hnone | hall | ⟨left, hleft⟩
  · exact .inl (by simp only [hnone, Option.bind_none])
  · exact .inl (by simp only [hall, Option.bind_some, hnil])
  · simp only [hleft, Option.bind_some]
    exact h left

/-- A reader that looks at the first character. -/
theorem Local.first (c : Char) (hc : c ≠ '\n') {ifFirst other : List Char → Option (α × List Char)}
    (hfirst : Local ifFirst) (hother : Local other) (heq : ∀ cs, read (c :: cs) = ifFirst cs)
    (hne : ∀ d cs, d ≠ c → read (d :: cs) = other (d :: cs)) : Local read := by
  intro cs
  cases cs with
  | nil =>
    have h := hother []
    simp only [List.nil_append, hne _ _ hc.symm] at h ⊢
    exact h
  | cons d cs =>
    by_cases hd : d = c
    · subst hd
      simp only [List.cons_append, heq]
      exact hfirst cs
    · have h := hother (d :: cs)
      simp only [List.cons_append, hne _ _ hd] at h ⊢
      exact h

/-- Reads with `ifFirst` behind a first character `c`, and with `other` where there is none. -/
def onFirst (c : Char) (ifFirst other : List Char → Option (α × List Char)) (cs : List Char) :
    Option (α × List Char) :=
  if cs.head? = some c then ifFirst cs.tail else other cs

section
variable {ifFirst other : List Char → Option (α × List Char)}

theorem onFirst_cons (c d : Char) (cs : List Char) :
    onFirst c ifFirst other (d :: cs) = if d = c then ifFirst cs else other (d :: cs) := by
  simp [onFirst]

theorem eq_onFirst {c : Char} (heq : ∀ cs, read (c :: cs) = ifFirst cs)
    (hne : ∀ cs, cs.head? ≠ some c → read cs = other cs) : read = onFirst c ifFirst other := by
  funext cs
  unfold onFirst
  split
  · next hc =>
    obtain ⟨rest, rfl⟩ := List.head?_eq_some_iff.mp hc
    exact heq rest
  · next hc => exact hne cs hc

theorem Local.onFirst (c : Char) (hc : c ≠ '\n') (hfirst : Local ifFirst) (hother : Local other) :
    Local (onFirst c ifFirst other) :=
  Local.first c hc hfirst hother (fun cs => if_pos rfl) fun d cs hd => if_neg (by simpa using hd)

end

/-- A reader with a bound that is at least the length of the text. -/
theorem Local.length {read : Nat → List Char → Option (α × List Char)}
    (h : ∀ fuel, Local (read fuel))
    (hmono : ∀ {fuel fuel' cs x}, fuel ≤ fuel' → read fuel cs = some x → read fuel' cs = some x) :
    Local fun cs => read cs.length cs := by
  intro cs
  rcases h (cs ++ ['\n']).length cs with hread | ⟨a, left, hread⟩
  · exact .inl hread
  · refine .inr ⟨a, left, fun after => hmono ?_ (hread after)⟩
    simp only [List.length_append, List.length_cons, List.length_nil]
    omega

end

/-! ## What stands between -/

section
variable {p : Char → Bool} (h : p '\n' = false) (cs after : List Char)
include h

theorem takeWhile_line : (cs ++ '\n' :: after).takeWhile p = cs.takeWhile p := by
  induction cs with
  | nil => simp [h]
  | cons c cs ih => by_cases hc : p c <;> simp [hc, ih]

theorem dropWhile_line : (cs ++ '\n' :: after).dropWhile p = cs.dropWhile p ++ '\n' :: after := by
  induction cs with
  | nil => simp [h]
  | cons c cs ih => by_cases hc : p c <;> simp [hc, ih]

end

theorem skipBlanks_line (cs after : List Char) :
    skipBlanks (cs ++ '\n' :: after) = skipBlanks cs ++ '\n' :: after :=
  dropWhile_line (by decide) cs after

theorem Local.blanks {α : Type} {read : List Char → Option (α × List Char)} (h : Local read) :
    Local fun cs => read (skipBlanks cs) := by
  intro cs
  simp only [skipBlanks_line]
  exact h (skipBlanks cs)

theorem skips_expect? {c : Char} (hc : c ≠ '\n') : Skips (expect? c) := by
  intro cs
  cases cs with
  | nil => exact .inl fun after => if_neg hc.symm
  | cons d cs =>
    by_cases hd : d = c
    · exact .inr (.inr ⟨cs, fun after => if_pos hd⟩)
    · exact .inl fun after => if_neg hd

/-- Blanks and comments up to the end of a line are passed over, and then what follows. -/
theorem skipLines?_cases (inComment : Bool) (cs : List Char) :
    (∀ after, skipLines? inComment (cs ++ '\n' :: after) = none) ∨
      (∀ after, skipLines? inComment (cs ++ '\n' :: after) = skipLines? false after) ∨
      ∃ left, ∀ after,
        skipLines? inComment (cs ++ '\n' :: after) = some (left ++ '\n' :: after) := by
  induction cs generalizing inComment with
  | nil => exact .inr (.inl fun after => rfl)
  | cons c cs ih =>
    simp only [List.cons_append, skipLines?]
    split
    · exact ih false
    split
    · exact ih inComment
    split
    · split
      · exact ih true
      · exact .inl fun _ => rfl
    split
    · exact ih false
    split
    · exact ih true
    · exact .inr (.inr ⟨c :: cs, fun after => rfl⟩)

theorem skips_skipLines? : Skips (skipLines? false) := by
  intro cs
  rcases skipLines?_cases false cs with h | h | h
  · exact .inl h
  · exact .inr (.inl (h []))
  · exact .inr (.inr h)

theorem endLine?_cases (inComment : Bool) (cs : List Char) :
    (∀ after, endLine? inComment (cs ++ '\n' :: after) = none) ∨
      (∀ after, endLine? inComment (cs ++ '\n' :: after) = some after) ∨
      ∃ left, ∀ after, endLine? inComment (cs ++ '\n' :: after) = some (left ++ '\n' :: after) := by
  induction cs generalizing inComment with
  | nil => exact .inr (.inl fun after => rfl)
  | cons c cs ih =>
    simp only [List.cons_append, endLine?]
    split
    · exact .inr (.inr ⟨cs, fun after => rfl⟩)
    split
    · exact ih inComment
    split
    · split
      · exact ih true
      · exact .inl fun _ => rfl
    split
    · exact ih false
    split
    · exact ih true
    · exact .inl fun _ => rfl

/-! ## Strings -/

theorem codePoint?_line (n : Nat) (cs : List Char) :
    codePoint? n (cs ++ ['\n']) = none ∨
      n ≤ cs.length ∧ ∃ c, ∀ after, codePoint? n (cs ++ '\n' :: after) = some c := by
  by_cases hn : n ≤ cs.length
  · have htake : ∀ after, (cs ++ '\n' :: after).take n = cs.take n := fun after =>
      List.take_append_of_le_length hn
    simp only [codePoint?, htake]
    split
    · exact .inr ⟨hn, _, fun _ => rfl⟩
    · exact .inl rfl
  · -- the end of the line would have to be a digit
    refine .inl (if_neg ?_)
    rintro ⟨-, hdigits, -⟩
    have hlen : (cs ++ ['\n']).length ≤ n := by
      rw [List.length_append, List.length_singleton]
      omega
    rw [List.take_of_length_le hlen, List.all_eq_true] at hdigits
    exact absurd (hdigits '\n' (by simp)) (by decide)

/-- An escape is one character, or a mark with the number of a character behind it. -/
theorem escape?_cons (d : Char) :
    (∀ cs, escape? (d :: cs) = none) ∨ (∃ c, ∀ cs, escape? (d :: cs) = some (c, 1)) ∨
      ∃ n, ∀ cs, escape? (d :: cs) = (codePoint? n cs).map (·, n + 1) := by
  by_cases hone : d ∈ ['b', 't', 'n', 'f', 'r', 'e', '"', '\\']
  · simp only [List.mem_cons, List.not_mem_nil, or_false] at hone
    rcases hone with rfl | rfl | rfl | rfl | rfl | rfl | rfl | rfl
    all_goals exact .inr (.inl ⟨_, fun cs => rfl⟩)
  by_cases hmark : d ∈ ['x', 'u', 'U']
  · simp only [List.mem_cons, List.not_mem_nil, or_false] at hmark
    rcases hmark with rfl | rfl | rfl
    · exact .inr (.inr ⟨2, fun cs => rfl⟩)
    · exact .inr (.inr ⟨4, fun cs => rfl⟩)
    · exact .inr (.inr ⟨8, fun cs => rfl⟩)
  refine .inl fun cs => ?_
  unfold escape?
  split <;> simp_all

theorem escape?_line (cs : List Char) :
    escape? (cs ++ ['\n']) = none ∨
      ∃ c n, n ≤ cs.length ∧ ∀ after, escape? (cs ++ '\n' :: after) = some (c, n) := by
  cases cs with
  | nil => exact .inl rfl
  | cons d cs =>
    simp only [List.cons_append, List.length_cons]
    rcases escape?_cons d with h | ⟨c, h⟩ | ⟨n, h⟩
    · exact .inl (h _)
    · exact .inr ⟨c, 1, by omega, fun after => h _⟩
    · rcases codePoint?_line n cs with hcode | ⟨hn, c, hcode⟩
      · exact .inl (by rw [h, hcode, Option.map_none])
      · exact .inr ⟨c, n + 1, by omega, fun after => by rw [h, hcode, Option.map_some]⟩

theorem local_basicString? (text : List Char) : Local (basicString? text) := by
  intro cs
  induction hlen : cs.length using Nat.strongRecOn generalizing cs text with
  | _ len ih =>
  subst hlen
  cases cs with
  | nil => exact .inl (by simp [basicString?, isLineChar])
  | cons c cs =>
    simp only [List.cons_append]
    by_cases hquote : c = '"'
    · subst hquote
      exact .inr ⟨_, cs, fun after => by rw [basicString?]⟩
    by_cases hescape : c = '\\'
    · subst hescape
      rcases escape?_line cs with h | ⟨d, n, hn, h⟩
      · exact .inl (by rw [basicString?, h])
      · simp only [basicString?, h, List.drop_append_of_le_length hn]
        exact ih _ (by rw [List.length_drop, List.length_cons]; omega) _ _ rfl
    · simp only [basicString?]
      split
      · exact ih _ (by rw [List.length_cons]; omega) _ _ rfl
      · exact .inl rfl

theorem local_literalString? (text : List Char) : Local (literalString? text) := by
  intro cs
  induction cs generalizing text with
  | nil => exact .inl rfl
  | cons c cs ih =>
    simp only [List.cons_append]
    by_cases hquote : c = '\''
    · subst hquote
      exact .inr ⟨_, cs, fun after => by rw [literalString?]⟩
    · simp only [literalString?]
      split
      · exact ih _
      · exact .inl rfl

theorem skips_dropFirstBreak : Skips fun cs => some (dropFirstBreak cs) := by
  intro cs
  cases cs with
  | nil => exact .inr (.inl rfl)
  | cons c cs =>
    by_cases hfeed : c = '\n'
    · subst hfeed
      exact .inr (.inr ⟨cs, fun after => rfl⟩)
    by_cases hreturn : c = '\r'
    · subst hreturn
      cases cs with
      | nil => exact .inr (.inl rfl)
      | cons d cs =>
        by_cases hd : d = '\n'
        · subst hd
          exact .inr (.inr ⟨cs, fun after => rfl⟩)
        · exact .inr (.inr ⟨'\r' :: d :: cs, fun after => by simp [dropFirstBreak, hd]⟩)
    · exact .inr (.inr ⟨c :: cs, fun after => by simp [dropFirstBreak, hfeed, hreturn]⟩)

theorem closing?_line (quote : Char) (hquote : quote ≠ '\n') (cs : List Char) :
    (∀ after, closing? quote (quote :: (cs ++ '\n' :: after)) = none) ∨
      ∃ extra left, ∀ after,
        closing? quote (quote :: (cs ++ '\n' :: after)) = some (extra, left ++ '\n' :: after) := by
  have hrun : min 5 ((quote :: cs).takeWhile (· == quote)).length ≤ (quote :: cs).length :=
    Nat.le_trans (Nat.min_le_right ..) (List.takeWhile_sublist _).length_le
  simp only [← List.cons_append, closing?, List.drop_append_of_le_length hrun,
    takeWhile_line (p := (· == quote)) (beq_false_of_ne hquote.symm)]
  split
  · exact .inl fun _ => rfl
  · exact .inr ⟨_, _, fun _ => rfl⟩

theorem skips_continuation? : Skips continuation? := by
  intro cs
  -- behind the first line break everything up to the end of the text may be blank
  have hwhite : ∀ (white : Char → Bool) (cs : List Char), white '\n' = true →
      (cs ++ ['\n']).dropWhile white = [] ∨
        ∃ left, ∀ after, (cs ++ '\n' :: after).dropWhile white = left ++ '\n' :: after := by
    intro white cs hfeed
    simp only [List.dropWhile_append]
    split
    · exact .inl (by simp [hfeed])
    · exact .inr ⟨_, fun _ => rfl⟩
  simp only [continuation?, dropWhile_line (p := fun c : Char => c == ' ' || c == '\t') (by decide)]
  cases cs.dropWhile fun c => c == ' ' || c == '\t' with
  | nil => exact .inr (.inl rfl)
  | cons c cs =>
    simp only [List.cons_append]
    by_cases hbreak : c = '\n' ∨ c = '\r'
    · rcases hbreak with rfl | rfl
      all_goals
        rcases hwhite (fun c => c == ' ' || c == '\t' || c == '\n' || c == '\r') cs rfl
          with h | ⟨left, h⟩
        · exact .inr (.inl (congrArg some h))
        · exact .inr (.inr ⟨left, fun after => congrArg some (h after)⟩)
    · refine .inl fun after => ?_
      split <;> simp_all

theorem basicLines?_of_continuation {text cs after : List Char}
    (h : continuation? cs = some after) :
    basicLines? text ('\\' :: cs) = basicLines? text after := by
  rw [basicLines?]
  split
  · next h' =>
    rw [h] at h'
    cases h'
    rfl
  · next h' =>
    rw [h] at h'
    cases h'

theorem basicLines?_of_escape {text cs : List Char} (h : continuation? cs = none) :
    basicLines? text ('\\' :: cs) =
      (escape? cs).bind fun x => basicLines? (x.1 :: text) (cs.drop x.2) := by
  rw [basicLines?]
  split
  · next h' =>
    rw [h] at h'
    cases h'
  · cases escape? cs <;> rfl

theorem local_basicLines? (text : List Char) : Local (basicLines? text) := by
  intro cs
  induction hlen : cs.length using Nat.strongRecOn generalizing cs text with
  | _ len ih =>
  subst hlen
  cases cs with
  | nil => exact .inl (by simp [basicLines?, isTextChar])
  | cons c cs =>
    simp only [List.cons_append]
    by_cases hquote : c = '"'
    · subst hquote
      rcases closing?_line '"' (by decide) cs with h | ⟨extra, left, h⟩
      · simp only [basicLines?, h]
        exact ih _ (by rw [List.length_cons]; omega) _ _ rfl
      · exact .inr ⟨_, left, fun after => by simp only [basicLines?, h]; rfl⟩
    by_cases hescape : c = '\\'
    · subst hescape
      rcases skips_continuation? cs with hnone | hall | ⟨left, hleft⟩
      · simp only [basicLines?_of_escape (hnone _)]
        rcases escape?_line cs with h | ⟨d, n, hn, h⟩
        · exact .inl (by rw [h, Option.bind_none])
        · simp only [h, Option.bind_some, List.drop_append_of_le_length hn]
          exact ih _ (by rw [List.length_drop, List.length_cons]; omega) _ _ rfl
      · exact .inl (by rw [basicLines?_of_continuation hall, basicLines?])
      · have hle := length_continuation?_le (hleft [])
        simp only [List.length_append] at hle
        simp only [basicLines?_of_continuation (hleft _)]
        exact ih _ (by rw [List.length_cons]; omega) _ _ rfl
    · simp only [basicLines?]
      split
      · exact ih _ (by rw [List.length_cons]; omega) _ _ rfl
      · exact .inl rfl

theorem local_literalLines? (text : List Char) : Local (literalLines? text) := by
  intro cs
  induction cs generalizing text with
  | nil => exact .inl rfl
  | cons c cs ih =>
    simp only [List.cons_append]
    by_cases hquote : c = '\''
    · subst hquote
      rcases closing?_line '\'' (by decide) cs with h | ⟨extra, left, h⟩
      · simp only [literalLines?, h]
        exact ih _
      · exact .inr ⟨_, left, fun after => by simp only [literalLines?, h]; rfl⟩
    · simp only [literalLines?]
      split
      · exact ih _
      · exact .inl rfl

/-- Two more quotes behind the first open a string of several lines. -/
theorem local_quoted (quote : Char) (hquote : quote ≠ '\n')
    {read single lines : List Char → Option (String × List Char)} (hsingle : Local single)
    (hlines : Local lines) (hnil : lines [] = none)
    (hthree : ∀ cs, read (quote :: quote :: cs) = lines (dropFirstBreak cs))
    (htwo : ∀ d cs, d ≠ quote → read (quote :: d :: cs) = single (quote :: d :: cs))
    (hone : ∀ d cs, d ≠ quote → read (d :: cs) = single (d :: cs)) : Local read := by
  have hsecond : Local fun cs => single (quote :: cs) := fun cs => hsingle (quote :: cs)
  have hbehind : Local fun cs => read (quote :: cs) :=
    Local.first quote hquote (Local.skip skips_dropFirstBreak hlines hnil) hsecond hthree htwo
  exact Local.first quote hquote hbehind hsingle (fun cs => rfl) hone

theorem local_string? : Local string? := by
  have hbasic : Local fun cs => string? ('"' :: cs) := by
    refine local_quoted '"' (by decide) (local_basicString? []) (local_basicLines? [])
      (by rw [basicLines?]) (fun cs => rfl) ?_ ?_
    · intro d cs hd
      simp [string?, hd]
    · intro d cs hd
      simp [string?, hd]
  have hliteral : Local fun cs => string? ('\'' :: cs) := by
    refine local_quoted '\'' (by decide) (local_literalString? []) (local_literalLines? [])
      (by rw [literalLines?]) (fun cs => rfl) ?_ ?_
    · intro d cs hd
      simp [string?, hd]
    · intro d cs hd
      simp [string?, hd]
  have hother := Local.onFirst '\'' (by decide) hliteral Local.none
  refine Local.first '"' (by decide) hbasic hother (fun cs => rfl) fun d cs hd => ?_
  rw [onFirst_cons]
  split
  · next hd' => rw [hd']
  · next hd' => simp [string?, hd, hd']

/-! ## Keys -/

theorem local_keyPart? : Local keyPart? := by
  have hbare : Local fun cs =>
      if (cs.takeWhile isBareKeyChar).isEmpty then none
      else some (String.ofList (cs.takeWhile isBareKeyChar), cs.dropWhile isBareKeyChar) := by
    intro cs
    simp only [takeWhile_line (p := isBareKeyChar) rfl, dropWhile_line (p := isBareKeyChar) rfl]
    split
    · exact .inl rfl
    · exact .inr ⟨_, _, fun _ => rfl⟩
  have hother := Local.onFirst '\'' (by decide) (local_literalString? []) hbare
  refine Local.first '"' (by decide) (local_basicString? []) hother (fun cs => rfl) ?_
  intro d cs hd
  rw [onFirst_cons]
  split
  · next hd' => rw [hd', keyPart?]
  · next hd' => simp [keyPart?, hd, hd']

theorem keyParts?_succ (fuel : Nat) :
    keyParts? (fuel + 1) = fun cs => (keyPart? (skipBlanks cs)).bind fun x =>
      onFirst '.' (fun rest => (keyParts? fuel rest).bind fun y => some (x.1 :: y.1, y.2))
        (fun rest => some ([x.1], rest)) (skipBlanks x.2) := by
  funext cs
  refine congrArg (Option.bind _) (funext fun x => ?_)
  obtain ⟨part, rest⟩ := x
  simp only
  generalize skipBlanks rest = rest
  cases rest with
  | nil => rfl
  | cons d rest =>
    rw [onFirst_cons]
    by_cases hd : d = '.'
    · subst hd
      rfl
    · simp [hd]

theorem local_keyParts? (fuel : Nat) : Local (keyParts? fuel) := by
  induction fuel with
  | zero => exact Local.none
  | succ fuel ih =>
    have hdot := fun part => Local.onFirst '.' (by decide)
      (ih.bind fun parts => Local.pure (part :: parts)) (Local.pure [part])
    rw [keyParts?_succ]
    exact local_keyPart?.blanks.bind fun part => (hdot part).blanks

theorem key?_eq : key? = fun cs => (keyParts? maxNesting cs).bind fun x =>
    x.1.getLast?.map fun last => (⟨x.1.dropLast, last⟩, x.2) := by
  funext cs
  refine congrArg (Option.bind _) (funext fun x => ?_)
  obtain ⟨parts, rest⟩ := x
  simp only
  cases parts.getLast? <;> rfl

theorem local_key? : Local key? := by
  have hlast : ∀ parts : List String, Local fun rest =>
      parts.getLast?.map fun last => ((⟨parts.dropLast, last⟩ : Key), rest) := by
    intro parts
    cases parts.getLast? with
    | none => exact Local.none
    | some last => exact Local.pure _
  rw [key?_eq]
  exact (local_keyParts? maxNesting).bind hlast

/-! ## Values -/

theorem spanBare_line (cs : List Char) :
    ∃ bare left, ∀ after, spanBare (cs ++ '\n' :: after) = (bare, left ++ '\n' :: after) := by
  induction cs with
  | nil => exact ⟨[], [], fun after => rfl⟩
  | cons c cs ih =>
    obtain ⟨bare, left, ih⟩ := ih
    have hquoted : ∀ after, startsQuoted (cs ++ '\n' :: after) = startsQuoted (cs ++ ['\n']) := by
      intro after
      cases cs <;> rfl
    simp only [List.cons_append, spanBare, hquoted, ih]
    split
    · exact ⟨[], c :: cs, fun after => rfl⟩
    · exact ⟨c :: bare, left, fun after => rfl⟩

theorem local_bareValue? : Local bareValue? := by
  intro cs
  obtain ⟨bare, left, h⟩ := spanBare_line cs
  simp only [bareValue?, h]
  cases scalar? (bare.reverse.dropWhile isBlank).reverse with
  | none => exact .inl rfl
  | some v => exact .inr ⟨v, left, fun after => rfl⟩

/-- Behind an item its list is closed, or goes on behind a comma. -/
def moreItems {α : Type} (close : Char) (last : α) (again : List Char → Option (α × List Char)) :
    List Char → Option (α × List Char) :=
  onFirst close (fun rest => some (last, rest)) (onFirst ',' again fun _ => none)

theorem eq_moreItems {α : Type} {close : Char} {last : α}
    {read again : List Char → Option (α × List Char)}
    (hlast : ∀ cs, read (close :: cs) = some (last, cs))
    (hcomma : ∀ cs, ',' ≠ close → read (',' :: cs) = again cs)
    (hother : ∀ cs, cs.head? ≠ some close → cs.head? ≠ some ',' → read cs = none) :
    read = moreItems close last again := by
  refine eq_onFirst hlast fun cs hclose => ?_
  unfold onFirst
  split
  · next hc =>
    obtain ⟨rest, rfl⟩ := List.head?_eq_some_iff.mp hc
    exact hcomma rest fun heq => hclose (congrArg some heq)
  · next hc => exact hother cs hclose hc

theorem local_moreItems {α : Type} (close : Char) (hclose : close ≠ '\n') (last : α)
    {again : List Char → Option (α × List Char)} (hagain : Local again) :
    Local (moreItems close last again) :=
  Local.onFirst close hclose (Local.pure last) (Local.onFirst ',' (by decide) hagain Local.none)

section
variable {element : List Char → Option (Value × List Char)} {fuel fuel' : Nat} {cs : List Char}

theorem arrayItems?_succ (fuel : Nat) :
    arrayItems? element (fuel + 1) = fun cs => (skipLines? false cs).bind
      (onFirst ']' (fun rest => some ([], rest)) fun cs => (element cs).bind fun x =>
        (skipLines? false x.2).bind (moreItems ']' [x.1] fun rest =>
          (arrayItems? element fuel rest).bind fun y => some (x.1 :: y.1, y.2))) := by
  funext cs
  refine congrArg (Option.bind _) (eq_onFirst (fun cs => rfl) fun cs hcs => ?_)
  split
  · exact absurd rfl hcs
  refine congrArg (Option.bind _) (funext fun x => congrArg (Option.bind _) ?_)
  refine eq_moreItems (fun cs => rfl) (fun cs _ => rfl) fun cs hclose hcomma => ?_
  split
  · exact absurd rfl hclose
  · exact absurd rfl hcomma
  · rfl

theorem local_arrayItems? (h : Local element) (hnil : element [] = none) (fuel : Nat) :
    Local (arrayItems? element fuel) := by
  induction fuel with
  | zero => exact Local.none
  | succ fuel ih =>
    have hmore := fun v => local_moreItems ']' (by decide) [v]
      (ih.bind fun vs => Local.pure (v :: vs))
    have hitem := h.bind fun v => Local.skip skips_skipLines? (hmore v) rfl
    rw [arrayItems?_succ]
    refine Local.skip skips_skipLines? (Local.onFirst ']' (by decide) (Local.pure []) hitem) ?_
    simp [onFirst, hnil]

theorem inlineItems?_succ (fuel : Nat) :
    inlineItems? element (fuel + 1) = fun cs => (skipLines? false cs).bind
      (onFirst '\x7d' (fun rest => some ([], rest)) fun cs => (key? cs).bind fun x =>
        (skipLines? false x.2).bind fun cs => (expect? '=' cs).bind fun cs =>
          (skipLines? false cs).bind fun cs => (element cs).bind fun y =>
            (skipLines? false y.2).bind (moreItems '\x7d' [(x.1, y.1)] fun rest =>
              (inlineItems? element fuel rest).bind fun z => some ((x.1, y.1) :: z.1, z.2))) := by
  funext cs
  refine congrArg (Option.bind _) (eq_onFirst (fun cs => rfl) fun cs hcs => ?_)
  split
  · exact absurd rfl hcs
  refine congrArg (Option.bind _) (funext fun x => congrArg (Option.bind _) (funext fun cs => ?_))
  refine congrArg (Option.bind _) (funext fun cs => congrArg (Option.bind _) (funext fun cs => ?_))
  refine congrArg (Option.bind _) (funext fun y => congrArg (Option.bind _) ?_)
  refine eq_moreItems (fun cs => rfl) (fun cs _ => rfl) fun cs hclose hcomma => ?_
  split
  · exact absurd rfl hclose
  · exact absurd rfl hcomma
  · rfl

theorem local_inlineItems? (h : Local element) (hnil : element [] = none) (fuel : Nat) :
    Local (inlineItems? element fuel) := by
  induction fuel with
  | zero => exact Local.none
  | succ fuel ih =>
    have hmore := fun key v => local_moreItems '\x7d' (by decide) [(key, v)]
      (ih.bind fun items => Local.pure ((key, v) :: items))
    have hvalue := fun key => Local.skip skips_skipLines?
      (h.bind fun v => Local.skip skips_skipLines? (hmore key v) rfl) (by simp [hnil])
    have hequals := fun key => Local.skip (skips_expect? (c := '=') (by decide)) (hvalue key)
      (by simp [skipLines?, hnil])
    have hitem := local_key?.bind fun key => Local.skip skips_skipLines? (hequals key) rfl
    rw [inlineItems?_succ]
    exact Local.skip skips_skipLines? (Local.onFirst '\x7d' (by decide) (Local.pure []) hitem) rfl

theorem arrayItems?_mono {x : List Value × List Char} (hle : fuel ≤ fuel')
    (h : arrayItems? element fuel cs = some x) : arrayItems? element fuel' cs = some x := by
  induction fuel generalizing fuel' cs x with
  | zero => cases h
  | succ fuel ih =>
    obtain ⟨fuel', rfl⟩ : ∃ n, fuel' = n + 1 := ⟨fuel' - 1, by omega⟩
    simp only [arrayItems?, Option.bind_eq_bind, Option.bind_eq_some_iff] at h ⊢
    obtain ⟨cs, hskip, h⟩ := h
    refine ⟨cs, hskip, ?_⟩
    revert h
    split
    · exact id
    · simp only [Option.bind_eq_some_iff]
      rintro ⟨v, hv, cs, hskip, h⟩
      refine ⟨v, hv, cs, hskip, ?_⟩
      revert h
      split
      · exact id
      · intro h
        obtain ⟨vs, hvs, h⟩ := Option.bind_eq_some_iff.mp h
        exact Option.bind_eq_some_iff.mpr ⟨vs, ih (by omega) hvs, h⟩
      · exact id

theorem inlineItems?_mono {x : List (Key × Value) × List Char} (hle : fuel ≤ fuel')
    (h : inlineItems? element fuel cs = some x) : inlineItems? element fuel' cs = some x := by
  induction fuel generalizing fuel' cs x with
  | zero => cases h
  | succ fuel ih =>
    obtain ⟨fuel', rfl⟩ : ∃ n, fuel' = n + 1 := ⟨fuel' - 1, by omega⟩
    simp only [inlineItems?, Option.bind_eq_bind, Option.bind_eq_some_iff] at h ⊢
    obtain ⟨cs, hskip, h⟩ := h
    refine ⟨cs, hskip, ?_⟩
    revert h
    split
    · exact id
    · simp only [Option.bind_eq_some_iff]
      rintro ⟨key, hkey, cs, hskip, cs', hexpect, cs'', hskip', v, hv, rest, hrest, h⟩
      refine ⟨key, hkey, cs, hskip, cs', hexpect, cs'', hskip', v, hv, rest, hrest, ?_⟩
      revert h
      split
      · exact id
      · intro h
        obtain ⟨items, hitems, h⟩ := Option.bind_eq_some_iff.mp h
        exact Option.bind_eq_some_iff.mpr ⟨items, ih (by omega) hitems, h⟩
      · exact id

end

/-- Without arrays and inline tables a value is quoted or bare. -/
theorem local_value?_zero : Local (value? 0) := by
  have hstring : ∀ quote, Local fun cs =>
      (string? (quote :: cs)).map fun x => (Value.string x.1, x.2) := fun quote cs =>
    local_string?.map Value.string (quote :: cs)
  have hother := Local.onFirst '\'' (by decide) (hstring '\'') local_bareValue?
  refine Local.first '"' (by decide) (hstring '"') hother (fun cs => by rw [value?]) ?_
  intro d cs hd
  rw [onFirst_cons]
  split
  · next hd' => rw [hd', value?]
  · next hd' => simp [value?, hd, hd']

theorem local_value? (depth : Nat) : Local (value? depth) := by
  induction depth with
  | zero => exact local_value?_zero
  | succ depth ih =>
    have hnil : value? depth [] = none := by cases depth <;> rfl
    have harray := (Local.length (local_arrayItems? ih hnil) arrayItems?_mono).map Value.array
    have htable : ∀ items, Local fun rest => (Nodes.assignAll [] items).bind fun entries =>
        some (Value.table (entriesToTable entries), rest) := by
      intro items
      cases Nodes.assignAll [] items with
      | none => exact Local.none
      | some entries => exact Local.pure _
    have hinline := (Local.length (local_inlineItems? ih hnil) inlineItems?_mono).bind htable
    have hother := Local.onFirst '\x7b' (by decide) hinline local_value?_zero
    refine Local.first '[' (by decide) harray hother (fun cs => by rw [value?]) ?_
    intro d cs hd
    rw [onFirst_cons]
    split
    · next hd' =>
      rw [hd', value?]
      rfl
    · next hd' =>
      unfold value?
      split <;> simp_all

/-! ## Lines -/

theorem local_header? (brackets : Nat) : Local (header? brackets) := by
  have hclose : ∀ key : Key, Local fun cs =>
      if cs.take brackets = List.replicate brackets ']' then some (key, cs.drop brackets)
      else none := by
    intro key cs
    by_cases hlen : brackets ≤ cs.length
    · simp only [List.take_append_of_le_length hlen, List.drop_append_of_le_length hlen]
      split
      · exact .inr ⟨key, _, fun _ => rfl⟩
      · exact .inl rfl
    · -- the end of the line is no bracket
      refine .inl (if_neg fun htake => ?_)
      have hmem : '\n' ∈ (cs ++ ['\n']).take brackets := by
        rw [List.take_of_length_le (by rw [List.length_append, List.length_singleton]; omega)]
        simp
      rw [htake] at hmem
      exact absurd (List.eq_of_mem_replicate hmem) (by decide)
  exact local_key?.bind hclose

theorem local_statement? : Local statement? := by
  have hassign : Local fun cs => (key? cs).bind fun x => (expect? '=' x.2).bind fun cs =>
      (value? maxNesting (skipBlanks cs)).bind fun y => some (Statement.assign x.1 y.1, y.2) := by
    exact local_key?.bind fun key => Local.skip (skips_expect? (by decide))
      ((local_value? maxNesting).blanks.bind fun v => Local.pure (Statement.assign key v)) rfl
  have helement := (local_header? 2).map Statement.element
  have htable := (local_header? 1).map Statement.table
  have hheader : Local fun cs => statement? ('[' :: cs) :=
    Local.first '[' (by decide) helement htable (fun cs => rfl) fun d cs hd => by
      simp [statement?, hd]
  refine Local.first '[' (by decide) hheader hassign (fun cs => rfl) ?_
  intro d cs hd
  unfold statement?
  split <;> simp_all

/-- A text reads as statements: one after another, each with the rest of its line. -/
inductive Reads : List Char → List Statement → Prop
  | done {cs : List Char} (hskip : skipLines? false cs = some []) : Reads cs []
  | next {cs rest left below : List Char} {statement : Statement} {statements : List Statement}
    (hskip : skipLines? false cs = some rest) (hread : statement? rest = some (statement, left))
    (hend : endLine? false left = some below) (hbelow : Reads below statements) :
    Reads cs (statement :: statements)

/-- The bound counts statements, and nothing else. -/
theorem statements?_eq_some_iff {fuel : Nat} {cs : List Char} {statements : List Statement} :
    statements? fuel cs = some statements ↔ Reads cs statements ∧ statements.length < fuel := by
  constructor
  · intro h
    induction fuel generalizing cs statements with
    | zero => cases h
    | succ fuel ih =>
      obtain ⟨rest, hskip, h⟩ := Option.bind_eq_some_iff.mp h
      cases rest with
      | nil =>
        cases h
        exact ⟨.done hskip, Nat.succ_pos fuel⟩
      | cons c rest =>
        obtain ⟨⟨statement, left⟩, hread, h⟩ := Option.bind_eq_some_iff.mp h
        obtain ⟨below, hend, h⟩ := Option.bind_eq_some_iff.mp h
        obtain ⟨statements, hbelow, h⟩ := Option.bind_eq_some_iff.mp h
        cases h
        obtain ⟨hbelow, hlen⟩ := ih hbelow
        exact ⟨.next hskip hread hend hbelow, Nat.succ_lt_succ hlen⟩
  · rintro ⟨h, hlen⟩
    induction h generalizing fuel with
    | done hskip =>
      obtain ⟨fuel, rfl⟩ : ∃ n, fuel = n + 1 := ⟨fuel - 1, by omega⟩
      rw [statements?, hskip]
      rfl
    | @next cs rest left below statement statements hskip hread hend hbelow ih =>
      obtain ⟨fuel, rfl⟩ : ∃ n, fuel = n + 1 := ⟨fuel - 1, by omega⟩
      have hrest := @ih fuel (Nat.lt_of_succ_lt_succ hlen)
      cases rest with
      | nil => cases hread
      | cons c rest =>
        rw [statements?, hskip]
        simp only [Option.bind_eq_bind, Option.bind_some, hread, hend, hrest]
        rfl

theorem reads_skip {cs cs' : List Char} {statements : List Statement}
    (hskip : skipLines? false cs = skipLines? false cs') (h : Reads cs' statements) :
    Reads cs statements := by
  cases h with
  | done h => exact .done (hskip.trans h)
  | next h hread hend hbelow => exact .next (hskip.trans h) hread hend hbelow

theorem eq_nil_of_reads_nil {statements : List Statement} (h : Reads [] statements) :
    statements = [] := by
  cases h with
  | done _ => rfl
  | next hskip hread _ _ =>
    cases hskip
    cases hread

/-- Texts of whole lines are read one after the other. -/
theorem Reads.append {cs after : List Char} {first second : List Statement}
    (h : Reads (cs ++ ['\n']) first) (h' : Reads after second) :
    Reads (cs ++ '\n' :: after) (first ++ second) := by
  generalize htext : cs ++ ['\n'] = text at h
  induction h generalizing cs with
  | done hskip =>
    subst htext
    rcases skipLines?_cases false cs with hnone | hall | ⟨left, hleft⟩
    · rw [hnone] at hskip
      cases hskip
    · exact reads_skip (hall after) h'
    · rw [hleft] at hskip
      simp at hskip
  | next hskip hread hend hbelow ih =>
    subst htext
    rcases skipLines?_cases false cs with hnone | hall | ⟨left, hleft⟩
    · rw [hnone] at hskip
      cases hskip
    · rw [hall] at hskip
      cases hskip
      cases hread
    · rw [hleft] at hskip
      cases hskip
      rcases local_statement? left with hnone | ⟨statement, left', hstatement⟩
      · rw [hnone] at hread
        cases hread
      rw [hstatement] at hread
      cases hread
      rcases endLine?_cases false left' with hnone | hall | ⟨left'', hend'⟩
      · rw [hnone] at hend
        cases hend
      · rw [hall] at hend
        cases hend
        obtain rfl := eq_nil_of_reads_nil hbelow
        exact .next (hleft after) (hstatement after) (hall after) h'
      · rw [hend'] at hend
        cases hend
        exact .next (hleft after) (hstatement after) (hend' after) (ih rfl)

/-! ## Whole documents -/

/-- A byte order mark begins no statement. -/
theorem dropMark_eq_self {cs : List Char} {statements : List Statement} (h : Reads cs statements) :
    dropMark cs = cs := by
  unfold dropMark
  split
  · cases h with
    | done hskip => cases hskip
    | next hskip hread _ _ =>
      cases hskip
      cases hread
  · rfl

theorem hasLoneReturn_append (cs after : List Char) :
    hasLoneReturn (cs ++ '\n' :: after) =
      (hasLoneReturn (cs ++ ['\n']) || hasLoneReturn after) := by
  fun_induction hasLoneReturn cs with
  | case1 => rfl
  | case2 rest ih => exact ih
  | case3 rest hrest =>
    cases rest with
    | nil => rfl
    | cons c rest =>
      have hc : c ≠ '\n' := fun hc => hrest rest (by rw [hc])
      simp [hasLoneReturn, hc]
  | case4 c rest hpair hreturn ih =>
    have hcons : ∀ cs, hasLoneReturn (c :: cs) = hasLoneReturn cs := fun cs =>
      hasLoneReturn.eq_4 c cs (fun _ hc => absurd hc hreturn) hreturn
    rw [List.cons_append, List.cons_append, hcons, hcons, ih]

end ScriptLint.Toml
