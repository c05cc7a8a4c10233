import ScriptLint.Text.Bytes

/-! Half-open byte ranges of a script. -/

namespace ScriptLint

/-- The bytes from `first` up to but not including `stop`. -/
structure Span where
  first : Nat
  stop : Nat
  first_le_stop : first ≤ stop
  deriving DecidableEq

/-- A range cannot end before it begins. -/
structure Span.Reversed where
  first : Nat
  stop : Nat
  deriving DecidableEq

def Span.Reversed.message (e : Span.Reversed) : String :=
  s!"span begins at {e.first} but ends at {e.stop}"

namespace Span

/-- The range with the given ends, in order. -/
def between (first stop : Nat) : Except Span.Reversed Span :=
  if h : first ≤ stop then .ok ⟨first, stop, h⟩ else .error ⟨first, stop⟩

/-- The `n` bytes from `first` on. -/
def ofLength (first n : Nat) : Span :=
  ⟨first, first + n, Nat.le_add_right first n⟩

/-- The range with the given ends; the empty one when they are out of order. -/
def ofEnds (first stop : Nat) : Span :=
  match between first stop with
  | .ok span => span
  | .error _ => .ofLength 0 0

/-- The range between two offsets as it is stored, in 32 bits each: an offset that is larger is
stored as the largest. -/
def stored (first stop : Nat) : Span :=
  ofEnds (min first maxOffset) (min stop maxOffset)

def length (s : Span) : Nat :=
  s.stop - s.first

def isEmpty (s : Span) : Bool :=
  s.first == s.stop

/-- The bytes of the range, if the text reaches that far. -/
def slice? (s : Span) (text : Bytes) : Option Bytes :=
  if s.stop ≤ text.length then some ((text.drop s.first).take s.length) else none

/-! ## Lemmas -/

theorem ofEnds_of_le {first stop : Nat} (h : first ≤ stop) : ofEnds first stop = ⟨first, stop, h⟩ := by
  unfold ofEnds between
  rw [dif_pos h]

/-- A range within reach of the offsets is stored as it is. -/
theorem stored_eq {span : Span} (h : span.stop ≤ maxOffset) :
    Span.stored span.first span.stop = span := by
  have hfirst : span.first ≤ maxOffset := Nat.le_trans span.first_le_stop h
  unfold Span.stored
  rw [Nat.min_eq_left hfirst, Nat.min_eq_left h, ofEnds_of_le span.first_le_stop]

end Span

end ScriptLint
