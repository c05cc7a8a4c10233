/-! Doubles, and the shortest decimals that stand for them.

A positive finite double is `mantissa · 2 ^ exponent` with a mantissa of at
most 53 bits.  `ofRatio?` rounds a fraction to the nearest double, a tie to the
even mantissa; `shortest` finds the decimal with the fewest digits that rounds
back to a double, and of those the nearest one. -/

namespace ScriptLint.Text

/-- A positive double. -/
structure Binary64 where
  mantissa : Nat
  exponent : Int
  deriving DecidableEq

namespace Binary64

/-! ## Algorithm -/

/-- The least exponent, that of the subnormal numbers. -/
def minExponent : Int := -1074

/-- The greatest exponent of a finite number. -/
def maxExponent : Int := 971

/-- The quotient rounded to nearest, a tie to even. -/
def roundDiv (num den : Nat) : Nat :=
  let quotient := num / den
  let twice := 2 * (num % den)
  if twice < den then quotient
  else if den < twice then quotient + 1
  else quotient + quotient % 2

/-- `num / den` divided by a power of two, as a fraction. -/
def scaleDown (num den : Nat) (exponent : Int) : Nat × Nat :=
  (num <<< (-exponent).toNat, den <<< exponent.toNat)

/-- The double nearest to `num / den`: `none` when it lies beyond all doubles. -/
def ofRatio? (num den : Nat) : Option Binary64 :=
  let guess := max minExponent ((num.log2 : Int) - (den.log2 : Int) - 53)
  let (n, d) := scaleDown num den guess
  let exponent := if n / d < 1 <<< 53 then guess else guess + 1
  let (n, d) := scaleDown num den exponent
  let mantissa := roundDiv n d
  let result := if mantissa < 1 <<< 53 then ⟨mantissa, exponent⟩ else ⟨1 <<< 52, exponent + 1⟩
  if maxExponent < result.exponent then none else some result

/-- A decimal: `digits · 10 ^ exponent`. -/
structure Decimal where
  digits : Nat
  exponent : Int

/-- The fraction `m · 2 ^ e`. -/
def ratio (m : Nat) (e : Int) : Nat × Nat :=
  (m <<< e.toNat, 1 <<< (-e).toNat)

/-- The fraction of a decimal. -/
def Decimal.ratio (d : Decimal) : Nat × Nat :=
  (d.digits * Nat.pow 10 d.exponent.toNat, Nat.pow 10 (-d.exponent).toNat)

/-- Whether a decimal rounds to the double `b`, which has the quarter steps
`4 · mantissa ± 2` at its two sides, or `4 · mantissa - 1` below a power of two. -/
def reads (b : Binary64) (d : Decimal) : Bool :=
  let (n, m) := d.ratio
  let below := if b.mantissa = 1 <<< 52 ∧ minExponent < b.exponent then 1 else 2
  let (lowNum, lowDen) := ratio (4 * b.mantissa - below) (b.exponent - 2)
  let (highNum, highDen) := ratio (4 * b.mantissa + 2) (b.exponent - 2)
  if b.mantissa % 2 = 0 then lowNum * m ≤ n * lowDen && n * highDen ≤ highNum * m
  else lowNum * m < n * lowDen && n * highDen < highNum * m

/-- The least `e`, searched upwards, with `num / den < 10 ^ e`. -/
def magnitude (num den : Nat) : Nat → Int → Int
  | 0, e => e
  | fuel + 1, e =>
    let d : Decimal := ⟨1, e⟩
    if num * d.ratio.2 < d.ratio.1 * den then e else magnitude num den fuel (e + 1)

/-- The shortest decimal that reads as `b`, tried with `count` digits and more; of two
the nearer one, and halfway the larger. -/
def shortestFrom (b : Binary64) (top : Int) : Nat → Nat → Option Decimal
  | 0, _ => none
  | fuel + 1, count =>
    let (num, den) := ratio b.mantissa b.exponent
    let unit : Decimal := ⟨1, top - count⟩
    let scaledNum := num * unit.ratio.2
    let scaledDen := den * unit.ratio.1
    let floor : Decimal := ⟨scaledNum / scaledDen, top - count⟩
    let ceiling : Decimal := { floor with digits := floor.digits + 1 }
    match b.reads floor, b.reads ceiling with
    | true, false => some floor
    | false, true => some ceiling
    | true, true =>
      if 2 * (scaledNum % scaledDen) < scaledDen then some floor else some ceiling
    | false, false => shortestFrom b top fuel (count + 1)

/-- The shortest decimal that reads as `b`; seventeen digits always do. -/
def shortest (b : Binary64) : Decimal :=
  let (num, den) := ratio b.mantissa b.exponent
  let top := magnitude num den 700 (-330)
  (shortestFrom b top 17 1).getD ⟨num, 0⟩

/-- A decimal without an exponent: no zeros at the end, but one digit at least on both sides of the point. -/
def Decimal.positional (d : Decimal) : String :=
  let places := (-d.exponent).toNat
  let digits := Nat.toDigits 10 d.digits ++ List.replicate d.exponent.toNat '0'
  let padded := List.replicate (places + 1 - digits.length) '0' ++ digits
  let whole := padded.take (padded.length - places)
  let fraction := ((padded.drop (padded.length - places)).reverse.dropWhile (· == '0')).reverse
  String.ofList (whole ++ '.' :: if fraction = [] then ['0'] else fraction)

end Binary64

end ScriptLint.Text
