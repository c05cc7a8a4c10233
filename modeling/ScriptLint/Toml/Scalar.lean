import ScriptLint.Text.Digits
import ScriptLint.Toml.Value

/-! TOML values without quotes: booleans, numbers, dates and times.

Each is recognised from its whole text.  Digits may be grouped by single
underscores; a decimal number has no leading zeros.  A whole number is accepted
by its shape alone: one that cannot be read still is a value. -/

namespace ScriptLint.Toml

/-! ## Digits -/

/-- Takes the underscores out of grouped digits; each must stand between two digits. -/
def ungroup? (base : Nat) : List Char → Option (List Char)
  | [] => none
  | [c] => if Text.isDigitIn base c then some [c] else none
  | c :: '_' :: rest => if Text.isDigitIn base c then (ungroup? base rest).map (c :: ·) else none
  | c :: rest => if Text.isDigitIn base c then (ungroup? base rest).map (c :: ·) else none

/-- The digits of a whole number without leading zeros. -/
def wholeDigits? (cs : List Char) : Option (List Char) :=
  match ungroup? 10 cs with
  | some ('0' :: _ :: _) => none
  | digits => digits

/-- Whether every underscore stands between two digits, be they hexadecimal. -/
def divided : List Char → Bool
  | a :: '_' :: b :: rest => Text.isDigitIn 16 a && Text.isDigitIn 16 b && divided (b :: rest)
  | c :: rest => c != '_' && divided rest
  | [] => true

/-- Whether a text has the shape of grouped decimal digits.  Its first group is one;
in the others only the places beside the underscores are looked at. -/
def isGrouped (cs : List Char) : Bool :=
  let isOther := fun c : Char => c == ' ' || c == '.' || c == 'e' || c == 'E'
  match cs with
  | [] => false
  | first :: _ =>
    first.isDigit && first != '0' && (cs.dropWhile Char.isDigit).head? == some '_'
      && divided cs && ! cs.any isOther

/-! ## Numbers -/

/-- Splits off a sign; `true` is a minus. -/
def takeSign (cs : List Char) : Bool × List Char :=
  match cs with
  | '-' :: rest => (true, rest)
  | '+' :: rest => (false, rest)
  | _ => (false, cs)

/-- A whole number behind the mark of its base; the mark may stand alone. -/
def marked? (base : Nat) (cs : List Char) : Option Value :=
  if cs = [] then some .unreadable
  else (ungroup? base cs).map fun ds => .integer (Text.ofDigits base ds)

/-- A whole number: decimal with a sign, or hexadecimal, octal or binary without. -/
def integer? (cs : List Char) : Option Value :=
  match cs with
  | '0' :: 'x' :: rest => marked? 16 rest
  | '0' :: 'o' :: rest => marked? 8 rest
  | '0' :: 'b' :: rest => marked? 2 rest
  | _ =>
    let (negative, rest) := takeSign cs
    match wholeDigits? rest with
    | some ds =>
      let n : Int := Text.ofDigits 10 ds
      some (.integer (if negative then -n else n))
    | none => if isGrouped rest then some .unreadable else none

/-- The exponent after its mark: a sign and digits, leading zeros allowed. -/
def exponent? (cs : List Char) : Option Int :=
  let (negative, rest) := takeSign cs
  (ungroup? 10 rest).map fun ds =>
    if negative then -(Text.ofDigits 10 ds : Int) else (Text.ofDigits 10 ds : Int)

/-- A number with a fraction, an exponent, or both; or one of the special values. -/
def real? (cs : List Char) : Option Real :=
  let (negative, rest) := takeSign cs
  if rest = ['i', 'n', 'f'] then some (.infinite negative)
  else if rest = ['n', 'a', 'n'] then some .notANumber
  else
    let isMark := fun c : Char => c == 'e' || c == 'E'
    let (mantissa, tail) := rest.span (! isMark ·)
    let (whole, fraction) := mantissa.span (· != '.')
    let exponent := match tail with
      | [] => some 0
      | _ :: digits => exponent? digits
    let places := match fraction with
      | [] => some []
      | _ :: digits => ungroup? 10 digits
    match wholeDigits? whole, places, exponent with
    | some ws, some ps, some e =>
      if tail = [] ∧ fraction = [] then none
      else some (.finite negative (Text.ofDigits 10 (ws ++ ps)) (e - ps.length))
    | _, _, _ => none

/-! ## Dates and times -/

/-- A number of exactly `n` digits at the head, not below `low` nor above `high`. -/
def field? (n low high : Nat) (cs : List Char) : Option (Nat × List Char) :=
  let digits := cs.take n
  if digits.length = n ∧ digits.all Char.isDigit then
    let value := Text.ofDigits 10 digits
    if low ≤ value ∧ value ≤ high then some (value, cs.drop n) else none
  else none

/-- Drops a character that must be there. -/
def expect? (c : Char) (cs : List Char) : Option (List Char) :=
  match cs with
  | d :: rest => if d = c then some rest else none
  | [] => none

def daysIn (year month : Nat) : Nat :=
  if month = 2 then
    if year % 4 = 0 ∧ (year % 100 ≠ 0 ∨ year % 400 = 0) then 29 else 28
  else if month = 4 ∨ month = 6 ∨ month = 9 ∨ month = 11 then 30
  else 31

/-- Reads `yyyy-mm-dd`. -/
def date? (cs : List Char) : Option (List Char) := do
  let (year, cs) ← field? 4 0 9999 cs
  let cs ← expect? '-' cs
  let (month, cs) ← field? 2 1 12 cs
  let cs ← expect? '-' cs
  let (_, cs) ← field? 2 1 (daysIn year month) cs
  return cs

/-- Reads the seconds after their colon, with a fraction of any length. -/
def seconds? (cs : List Char) : Option (List Char) := do
  let (_, cs) ← field? 2 0 60 cs
  match cs with
  | '.' :: rest =>
    if (rest.takeWhile Char.isDigit).isEmpty then none else some (rest.dropWhile Char.isDigit)
  | _ => some cs

/-- Reads `hh:mm`, and seconds if there are any. -/
def time? (cs : List Char) : Option (List Char) := do
  let (_, cs) ← field? 2 0 23 cs
  let cs ← expect? ':' cs
  let (_, cs) ← field? 2 0 59 cs
  match cs with
  | ':' :: rest => seconds? rest
  | _ => some cs

/-- Reads the offset after its sign: less than a day. -/
def zone? (cs : List Char) : Option (List Char) := do
  let (_, cs) ← field? 2 0 23 cs
  let cs ← expect? ':' cs
  let (_, cs) ← field? 2 0 59 cs
  return cs

/-- Reads the offset of a time that has a date, or none. -/
def offset? (cs : List Char) : Option (List Char) :=
  match cs with
  | [] => some []
  | c :: rest =>
    if c = 'Z' ∨ c = 'z' then some rest
    else if c = '+' ∨ c = '-' then zone? rest
    else none

/-- Whether the text is a date, a time, or a date and a time divided by `T` or a blank. -/
def isMoment (cs : List Char) : Bool :=
  match date? cs with
  | some [] => true
  | some (c :: rest) =>
    (c == 'T' || c == 't' || c == ' ') && (time? rest).bind offset? == some []
  | none => time? cs == some []

/-! ## Scalars -/

/-- The value that an unquoted text stands for. -/
def scalar? (cs : List Char) : Option Value :=
  if cs = ['t', 'r', 'u', 'e'] then some (.boolean true)
  else if cs = ['f', 'a', 'l', 's', 'e'] then some (.boolean false)
  else if isMoment cs then some (.moment (String.ofList cs))
  else
    match integer? cs with
    | some v => some v
    | none => (real? cs).map .real

end ScriptLint.Toml
