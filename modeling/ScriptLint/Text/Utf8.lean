import ScriptLint.Text.Bytes

/-! UTF-8, with ill-formed parts kept visible.

`Utf8.scalars` reads a byte string part by part: `some c` for an encoded
character, `none` for a maximal ill-formed part (a lead byte with as many
acceptable trailing bytes as there are, or a single byte that leads nothing).

* `decode? bs`: the text, when no part is ill-formed.
* `decodeLossy bs`: the text with one U+FFFD for each ill-formed part.
* `illFormedAt? bs`: where the first ill-formed part begins. -/

namespace ScriptLint.Utf8

/-! ## Algorithm -/

/-- What must follow a lead byte: the number of trailing bytes, and the range of the first one. -/
structure Lead where
  trailing : Nat
  low : UInt8
  high : UInt8

/-- The lead bytes of sequences longer than one byte.  The narrowed ranges shut
out overlong forms, surrogates and what lies above U+10FFFF. -/
def lead? (b : UInt8) : Option Lead :=
  if b < 0xC2 then none
  else if b < 0xE0 then some ⟨1, 0x80, 0xBF⟩
  else if b = 0xE0 then some ⟨2, 0xA0, 0xBF⟩
  else if b = 0xED then some ⟨2, 0x80, 0x9F⟩
  else if b < 0xF0 then some ⟨2, 0x80, 0xBF⟩
  else if b = 0xF0 then some ⟨3, 0x90, 0xBF⟩
  else if b < 0xF4 then some ⟨3, 0x80, 0xBF⟩
  else if b = 0xF4 then some ⟨3, 0x80, 0x8F⟩
  else none

/-- Trailing bytes occupy one range, which no lead byte and no ASCII byte meets. -/
def isTrailing (b : UInt8) : Bool :=
  0x80 ≤ b && b ≤ 0xBF

/-- The longest run of at most `n` acceptable trailing bytes, the first one between `low` and `high`. -/
def trail : Nat → UInt8 → UInt8 → Bytes → Bytes
  | n + 1, low, high, b :: rest =>
    if low ≤ b ∧ b ≤ high then b :: trail n 0x80 0xBF rest else []
  | _, _, _, _ => []

/-- The scalar value that a lead byte and its trailing bytes spell. -/
def assemble (b : UInt8) (trailing : Bytes) : Nat :=
  trailing.foldl (fun value t => value * 64 + t.toNat % 64) (b.toNat % (1 <<< (6 - trailing.length)))

/-- The first part of `b :: rest`: its character, if it is well-formed, and how
many bytes of `rest` belong to it. -/
def part (b : UInt8) (rest : Bytes) : Option Char × Nat :=
  if b < 0x80 then (some (Char.ofNat b.toNat), 0)
  else
    match lead? b with
    | none => (none, 0)
    | some lead =>
      let t := trail lead.trailing lead.low lead.high rest
      if t.length = lead.trailing then (some (Char.ofNat (assemble b t)), t.length)
      else (none, t.length)

/-- All parts of a byte string, in order. -/
def scalars : Bytes → List (Option Char)
  | [] => []
  | b :: rest => (part b rest).1 :: scalars (rest.drop (part b rest).2)
termination_by bs => bs.length
decreasing_by simp only [List.length_drop, List.length_cons]; omega

/-- The text of a well-formed byte string. -/
def decode? (bs : Bytes) : Option String :=
  let parts := scalars bs
  if parts.all Option.isSome then some (String.ofList (parts.filterMap id)) else none

/-- The text of a byte string, each ill-formed part replaced by U+FFFD. -/
def decodeLossy (bs : Bytes) : String :=
  String.ofList ((scalars bs).map (·.getD '\uFFFD'))

/-- Offset of the first ill-formed part, counting from `n`. -/
def illFormedFrom (n : Nat) : Bytes → Option Nat
  | [] => none
  | b :: rest =>
    match part b rest with
    | (none, _) => some n
    | (some _, k) => illFormedFrom (n + 1 + k) (rest.drop k)
termination_by bs => bs.length
decreasing_by simp only [List.length_drop, List.length_cons]; omega

/-- Length of the longest well-formed prefix that ends between two parts, if that is not the whole. -/
def illFormedAt? (bs : Bytes) : Option Nat :=
  illFormedFrom 0 bs

/-- Whether a byte string can be cut at an offset: at its ends, and before every byte that is
not a trailing one. -/
def canCut (bs : Bytes) (offset : Nat) : Bool :=
  offset == 0 || offset == bs.length || (bs[offset]?).any (! isTrailing ·)

end ScriptLint.Utf8
