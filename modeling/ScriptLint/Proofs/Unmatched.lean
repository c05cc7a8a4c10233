import ScriptLint.Proofs.Placeholders

/-! A placeholder in front of any text.

A placeholder that has an argument is replaced by it, and the text behind it is
read on its own.  A placeholder without an argument is not passed over as a whole:
its closing brace is read again, at the head of the text behind it, and may be
taken for the first brace of a pair there.  A run of closing braces is written with
half as many, rounded up:

    formatChars args (braces k ++ rest) = braces ((k + 1) / 2) ++ formatChars args rest

(`formatChars_run`).  So the text behind a placeholder without an argument is
written as it would be alone when it begins with an even number of closing braces,
and with one brace less when it begins with an odd number (`format_placeholder`). -/

namespace ScriptLint.Message

/-- The argument that a placeholder asks for; empty braces ask for none. -/
def argument? (args : List String) (digits : String) : Option String :=
  if digits = "" then none else argumentAt? args (number digits)

/-- How many closing braces a text begins with. -/
def closings (s : String) : Nat :=
  (s.toList.takeWhile (· == '\x7d')).length

/-! ## Runs of closing braces -/

theorem formatChars_run (args : List (List Char)) (k : Nat) {rest : List Char}
    (h : rest.head? ≠ some '\x7d') :
    formatChars args (List.replicate k '\x7d' ++ rest) =
      List.replicate ((k + 1) / 2) '\x7d' ++ formatChars args rest := by
  induction k using Nat.twoStepInduction with
  | zero => rfl
  | one => exact formatChars_closing h
  | more k ih _ =>
    have hhalf : (k + 2 + 1) / 2 = (k + 1) / 2 + 1 := by omega
    rw [hhalf, List.replicate_succ, List.replicate_succ, List.cons_append, List.cons_append,
      formatChars, ih, List.replicate_succ, List.cons_append]

theorem eq_run_append (cs : List Char) :
    ∃ rest, cs = List.replicate (cs.takeWhile (· == '\x7d')).length '\x7d' ++ rest ∧
      rest.head? ≠ some '\x7d' := by
  refine ⟨cs.dropWhile (· == '\x7d'), ?_, ?_⟩
  · have hrun : cs.takeWhile (· == '\x7d') =
        List.replicate (cs.takeWhile (· == '\x7d')).length '\x7d' := by
      rw [List.eq_replicate_iff]
      exact ⟨rfl, fun x hx => beq_iff_eq.mp (List.all_eq_true.mp List.all_takeWhile x hx)⟩
    rw [← hrun, List.takeWhile_append_dropWhile]
  · intro hhead
    have hne := List.head?_dropWhile_not (· == '\x7d') cs
    rw [hhead] at hne
    simp at hne

/-- One more closing brace before a text: an even run stays as it is, and an odd run
loses one of its own. -/
theorem formatChars_behind (args : List (List Char)) (cs : List Char) :
    ((cs.takeWhile (· == '\x7d')).length % 2 = 0 →
      formatChars args ('\x7d' :: cs) = '\x7d' :: formatChars args cs) ∧
    ((cs.takeWhile (· == '\x7d')).length % 2 = 1 → ∃ rest, cs = '\x7d' :: rest ∧
      formatChars args cs = '\x7d' :: formatChars args rest ∧
      formatChars args ('\x7d' :: cs) = '\x7d' :: formatChars args rest) := by
  obtain ⟨rest, hcs, hrest⟩ := eq_run_append cs
  generalize (cs.takeWhile (· == '\x7d')).length = k at hcs
  subst hcs
  have hrun := fun n => formatChars_run args n hrest
  rw [← List.cons_append, ← List.replicate_succ, hrun, hrun]
  constructor
  · intro heven
    have hhalf : (k + 1 + 1) / 2 = (k + 1) / 2 + 1 := by omega
    rw [hhalf, List.replicate_succ, List.cons_append]
  · intro hodd
    obtain ⟨j, rfl⟩ : ∃ j, k = j + 1 := ⟨k - 1, by omega⟩
    have halone : (j + 1 + 1) / 2 = (j + 1) / 2 + 1 := by omega
    have hbehind : (j + 1 + 1 + 1) / 2 = (j + 1) / 2 + 1 := by omega
    refine ⟨List.replicate j '\x7d' ++ rest, rfl, ?_, ?_⟩
    · rw [halone, hrun, List.replicate_succ, List.cons_append]
    · rw [hbehind, hrun, List.replicate_succ, List.cons_append]

/-! ## Placeholders -/

theorem placeholder?_of_digits (args : List String) {digits : String}
    (h : ∀ x ∈ digits.toList, x.isDigit = true) (after : List Char) :
    placeholder? (args.map String.toList) (digits.toList ++ '\x7d' :: after) =
      (argument? args digits).map fun arg => (arg.toList, after) := by
  unfold argument?
  by_cases hempty : digits = ""
  · rw [if_pos hempty, hempty]
    rfl
  · rw [if_neg hempty, placeholder?_of_numeral _ ⟨hempty, h⟩, argumentAt?_map, Option.map_map]
    rfl

/-! ## Top theorems -/

/-- What a placeholder does to the text behind it.  Replaced by its argument, it does
nothing.  Without an argument it is copied, and a text that begins with an odd
number of closing braces loses the first of them.  Every argument can be asked for. -/
theorem format_placeholder {digits : String} (hdigits : ∀ x ∈ digits.toList, x.isDigit = true)
    (args : List String) (s : String) :
    (∀ arg, argument? args digits = some arg →
      format ("\x7b" ++ digits ++ "\x7d" ++ s) args = arg ++ format s args) ∧
    (argument? args digits = none →
      (closings s % 2 = 0 → format ("\x7b" ++ digits ++ "\x7d" ++ s) args =
        "\x7b" ++ digits ++ "\x7d" ++ format s args) ∧
      (closings s % 2 = 1 → ∃ rest, s = "\x7d" ++ rest ∧
        format s args = "\x7d" ++ format rest args ∧
        format ("\x7b" ++ digits ++ "\x7d" ++ s) args =
          "\x7b" ++ digits ++ "\x7d" ++ format rest args)) ∧
    (args.length ≤ indexLimit → digits ≠ "" → argument? args digits = args[number digits]?) := by
  have hplaceholder := placeholder?_of_digits args hdigits s.toList
  have htext : ("\x7b" ++ digits ++ "\x7d" ++ s).toList =
      '\x7b' :: (digits.toList ++ '\x7d' :: s.toList) := by
    simp
  unfold format
  rw [htext]
  refine ⟨?_, ?_, fun hargs hne => (if_neg hne).trans (argumentAt?_eq hargs _)⟩
  · intro arg harg
    rw [harg] at hplaceholder
    rw [formatChars_of_placeholder (head?_digits_ne hdigits) hplaceholder]
    apply String.toList_inj.mp
    simp
  · intro harg
    rw [harg] at hplaceholder
    rw [formatChars_unfilled hdigits hplaceholder]
    obtain ⟨heven, hodd⟩ := formatChars_behind (args.map String.toList) s.toList
    constructor
    · intro h
      rw [heven h]
      apply String.toList_inj.mp
      simp
    · intro h
      obtain ⟨rest, hs, halone, hbehind⟩ := hodd h
      refine ⟨String.ofList rest, ?_, ?_, ?_⟩
      · apply String.toList_inj.mp
        simp [hs]
      · apply String.toList_inj.mp
        simp [halone]
      · apply String.toList_inj.mp
        simp [hbehind]

/-- A brace behind a placeholder is there when the placeholder has an argument, and is
lost when it has none. -/
theorem format_placeholder_brace :
    format "\x7b0\x7d\x7d" ["@"] = "@" ++ format "\x7d" ["@"] ∧
    ∃ rest, "\x7d" = "\x7d" ++ rest ∧ format "\x7d" [] = "\x7d" ++ format rest [] ∧
      format "\x7b0\x7d\x7d" [] = "\x7b0\x7d" ++ format rest [] := by
  have hdigits : ∀ x ∈ "0".toList, x.isDigit = true := by simp
  refine ⟨(format_placeholder hdigits ["@"] "\x7d").1 "@" rfl, ?_⟩
  exact ((format_placeholder hdigits [] "\x7d").2.1 rfl).2 (by decide)

/-- A placeholder without an argument is not copied for itself: here the text behind
it is a single brace, and it is not written. -/
theorem format_placeholder_ne_copy :
    argument? [] "0" = none ∧
      format ("\x7b0\x7d" ++ "\x7d") [] ≠ "\x7b0\x7d" ++ format "\x7d" [] := by
  decide +kernel

end ScriptLint.Message
