/-! Why an analysis can fail as a whole. -/

namespace ScriptLint

inductive Fault where
  /-- The text is longer than offsets reach. -/
  | textTooLarge (length : Nat)
  | internal (reason : String)
  deriving DecidableEq

def Fault.message : Fault → String
  | .textTooLarge length => s!"text of {length} bytes exceeds the 32-bit offset range"
  | .internal reason => s!"lint engine failed: {reason}"

end ScriptLint
