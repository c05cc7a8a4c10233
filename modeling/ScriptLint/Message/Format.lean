import ScriptLint.Text.Digits

/-! Messages with numbered placeholders.

In a template a number in braces stands for the argument of that number,
counting from zero, and a doubled brace for a brace.  Anything else is copied:
a brace that fits neither form stands for itself, and so do the braces of a
placeholder without an argument.  Arguments are never read again. -/

namespace ScriptLint.Message

/-! ## Algorithm -/

/-- How many numbers can be read: those of 64 bits. -/
def indexLimit : Nat :=
  UInt64.size

/-- The number inside a placeholder: digits, after at most one plus sign.  A number that is
too large is none. -/
def index? (cs : List Char) : Option Nat :=
  let digits := match cs with
    | '+' :: rest => rest
    | _ => cs
  if digits ≠ [] ∧ digits.all Char.isDigit then
    let number := Text.ofDigits 10 digits
    if number < indexLimit then some number else none
  else none

/-- What a placeholder stands for, and what follows it; `rest` comes after its opening brace. -/
def placeholder? (args : List (List Char)) (rest : List Char) :
    Option (List Char × List Char) :=
  match rest.dropWhile (· != '\x7d') with
  | [] => none
  | _ :: after =>
    match index? (rest.takeWhile (· != '\x7d')) with
    | none => none
    | some i => args[i]?.map fun arg => (arg, after)

theorem length_lt_of_placeholder? {args : List (List Char)} {rest arg after : List Char}
    (h : placeholder? args rest = some (arg, after)) : after.length < rest.length := by
  unfold placeholder? at h
  split at h
  next => simp at h
  next c tail hd =>
    have hle := (List.dropWhile_sublist (l := rest) (· != '\x7d')).length_le
    split at h
    next => simp at h
    next =>
      simp only [Option.map_eq_some_iff, Prod.mk.injEq] at h
      obtain ⟨_, _, _, rfl⟩ := h
      rw [hd, List.length_cons] at hle
      omega

/-- Writes a template out, reading it from the left: a pair of braces first, and a placeholder
only where there is no pair. -/
def formatChars (args : List (List Char)) : List Char → List Char
  | [] => []
  | '\x7b' :: '\x7b' :: rest => '\x7b' :: formatChars args rest
  | '\x7d' :: '\x7d' :: rest => '\x7d' :: formatChars args rest
  | '\x7b' :: rest =>
    match _h : placeholder? args rest with
    | some (arg, after) => arg ++ formatChars args after
    | none => '\x7b' :: formatChars args rest
  | c :: rest => c :: formatChars args rest
termination_by template => template.length
decreasing_by
  all_goals simp only [List.length_cons]
  all_goals first | omega | (have h := length_lt_of_placeholder? ‹_›; omega)

/-- The message of a template, with the arguments in place of its numbers. -/
def format (template : String) (args : List String) : String :=
  String.ofList (formatChars (args.map String.toList) template.toList)

end ScriptLint.Message
