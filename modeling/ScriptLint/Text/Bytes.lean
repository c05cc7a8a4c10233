/-! Byte strings.

Scripts, locale tables and string pools are lists of bytes; a `String` is used
only for what is text by construction.  Two operations tie the sides together:

* `Bytes.ofString s`: the UTF-8 bytes of `s`.
* `Bytes.cutAtNul? bs = some (x, y)`: `bs = x ++ 0 :: y` with no NUL in `x`. -/

namespace ScriptLint

abbrev Bytes := List UInt8

namespace Bytes

/-- The UTF-8 bytes of a text. -/
def ofString (s : String) : Bytes :=
  s.toList.flatMap String.utf8EncodeChar

/-- The bytes before the first NUL and the bytes after it; `none` without a NUL. -/
def cutAtNul? (bs : Bytes) : Option (Bytes × Bytes) :=
  match bs.dropWhile (· != 0) with
  | [] => none
  | _ :: rest => some (bs.takeWhile (· != 0), rest)

/-- The bytes before the first NUL, or all of them. -/
def untilNul (bs : Bytes) : Bytes :=
  bs.takeWhile (· != 0)

/-! ## Lemmas -/

theorem length_dropWhile_le {α : Type} (p : α → Bool) (l : List α) :
    (l.dropWhile p).length ≤ l.length :=
  (List.dropWhile_sublist p).length_le

/-- What follows the first NUL is shorter than the whole. -/
theorem length_lt_of_cutAtNul? {bs x y : Bytes} (h : cutAtNul? bs = some (x, y)) :
    y.length < bs.length := by
  unfold cutAtNul? at h
  split at h
  next => simp at h
  next c rest hd =>
    simp only [Option.some.injEq, Prod.mk.injEq] at h
    have := length_dropWhile_le (· != 0) bs
    rw [hd, List.length_cons, h.2] at this
    omega

end Bytes

/-- Offsets into a script or a string pool have 32 bits; this is the largest one. -/
def maxOffset : Nat := 0xFFFFFFFF

end ScriptLint
