import ScriptLint.Text.Binary64
import ScriptLint.Text.Quoted

/-! The values of a TOML document. -/

namespace ScriptLint.Toml

/-- A number with a point or an exponent, as it is written. -/
inductive Real where
  /-- The number `± digits · 10 ^ exponent`. -/
  | finite (negative : Bool) (digits : Nat) (exponent : Int)
  | infinite (negative : Bool)
  | notANumber
  deriving DecidableEq

inductive Value where
  | string (s : String)
  | integer (n : Int)
  /-- A whole number by its shape, whose text spells none. -/
  | unreadable
  | real (x : Real)
  | boolean (b : Bool)
  /-- A date, a time, or both, as it is written. -/
  | moment (text : String)
  | array (items : List Value)
  | table (entries : List (String × Value))

/-- A table: keys with their values, no key twice. -/
abbrev Table := List (String × Value)

/-! ## How values are named in complaints -/

/-- A number of more than 64 bits is named with its width; more than 128 bits have no name. -/
def integerName? (n : Int) : Option String :=
  if -0x8000000000000000 ≤ n ∧ n < 0x10000000000000000 then some s!"integer `{n}`"
  else if -0x80000000000000000000000000000000 ≤ n ∧ n < 0x80000000000000000000000000000000 then
    some s!"integer `{n}` as i128"
  else if 0 ≤ n ∧ n < 0x100000000000000000000000000000000 then
    some s!"integer `{n}` as u128"
  else none

/-- The text of a number as a double; `none` when no finite double is near. -/
def Real.text? : Real → Option String
  | notANumber => some "NaN"
  | infinite false => some "inf"
  | infinite true => some "-inf"
  | finite negative digits exponent =>
    let sign := if negative then "-" else ""
    let magnitude := (Nat.toDigits 10 digits).length + exponent
    if digits = 0 ∨ magnitude < -400 then some (sign ++ "0.0")
    else if 400 < magnitude then none
    else
      let ratio := (⟨digits, exponent⟩ : Text.Binary64.Decimal).ratio
      match Text.Binary64.ofRatio? ratio.1 ratio.2 with
      | none => none
      | some b =>
        if b.mantissa = 0 then some (sign ++ "0.0") else some (sign ++ b.shortest.positional)

/-- What a value is called; a number out of range has no name. -/
def Value.name? : Value → Option String
  | string s => some s!"string {Text.quote s}"
  | integer n => integerName? n
  | unreadable => none
  | real x => x.text?.map fun text => s!"floating point `{text}`"
  | boolean true => some "boolean `true`"
  | boolean false => some "boolean `false`"
  | moment _ => some "map"
  | array _ => some "sequence"
  | table _ => some "map"

/-- The complaint about a value of the wrong type, if the value has a name. -/
def Value.wrongType? (v : Value) (expected : String) : Option String :=
  v.name?.map fun name => s!"invalid type: {name}, expected {expected}"

end ScriptLint.Toml
