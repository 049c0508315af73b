import StackScript.Floating.Basic

/-!
# Decimal numbers and floating-point values

A decimal is a natural number times a power of ten. Reading rounds a decimal to the nearest value of
a format. Writing takes the decimal with the fewest digits that reads back as the value; of two such
decimals the nearer one, and of two equally near ones the one whose last digit is even. A style says
how the digits are laid out: which exponents are written positionally, whether a whole number keeps
its point, and the word for the NaN.

## Main definitions

* `Decimal`: a natural number times a power of ten.
* `Floating.ofDecimal`: the value nearest to a decimal.
* `Floating.shortest`: the shortest decimal that reads back as a magnitude.
* `Decimal.Style`, `Decimal.render`: the layout of digits.
* `Floating.text`: a value as text.
-/

namespace StackScript

/-- The number `digits * 10 ^ exponent`. -/
structure Decimal where
  digits : Nat
  exponent : Int
  deriving DecidableEq, Repr

namespace Decimal

/-- The number of decimal digits of a natural number. -/
def digitCount (n : Nat) : Nat :=
  (Nat.toDigits 10 n).length

/-- The exponent of ten just above a decimal: a positive decimal is less than ten to this power and
at least a tenth of that. -/
def magnitude (d : Decimal) : Int :=
  digitCount d.digits + d.exponent

/-- The same number without trailing zeros among the digits. -/
def strip (digits : Nat) (exponent : Int) : Decimal :=
  if h : digits ≠ 0 ∧ digits % 10 = 0 then strip (digits / 10) (exponent + 1)
  else ⟨digits, exponent⟩
termination_by digits
decreasing_by omega

end Decimal

namespace Floating

variable {fmt : Format}

/-- The value nearest to a decimal, with the given sign. Decimals far outside the range of the
format are decided by their magnitude alone. -/
def ofDecimal (negative : Bool) (d : Decimal) : Floating fmt :=
  if d.digits = 0 then zero negative
  else if fmt.maxExponent + fmt.precision < d.magnitude then .infinite negative
  else if d.magnitude < fmt.minExponent - 1 then zero negative
  else ofRatio negative (d.digits * powNum 10 d.exponent) (powDen 10 d.exponent)

/-- The exponent of ten just above the positive ratio `n / d`, whose denominator is a power of two.
-/
def ratioMagnitude (n d : Nat) : Int :=
  if d ≤ n then Decimal.digitCount (n / d) else 1 - (Decimal.digitCount (d / n) : Int)

/-- The decimal with `count` digits that reads back as the magnitude `m * 2 ^ e`, if there is one:
one of the two neighbours of the value on the grid of such decimals, the nearer if it will do. -/
def roundTrip? (m : Nat) (e : Int) (h : fmt.Canonical m e) (count : Nat) : Option Decimal :=
  let n := m * powNum 2 e
  let d := powDen 2 e
  -- on the grid of the last decimal place the value is `num / den`
  let place := ratioMagnitude n d - count
  let num := n * powDen 10 place
  let den := d * powNum 10 place
  let nearer := roundHalfEven num den
  let other := if nearer = num / den then nearer + 1 else num / den
  if ofDecimal false ⟨nearer, place⟩ = finite false m e h then some ⟨nearer, place⟩
  else if ofDecimal false ⟨other, place⟩ = finite false m e h then some ⟨other, place⟩
  else none

/-- All decimal digits of the magnitude `m * 2 ^ e`. -/
def exactDecimal (m : Nat) (e : Int) : Decimal :=
  ⟨m * powNum 2 e * powDen 5 e, min e 0⟩

/-- The decimal with the fewest digits that reads back as the magnitude `m * 2 ^ e`. -/
def shortest (m : Nat) (e : Int) (h : fmt.Canonical m e) : Decimal :=
  if m = 0 then ⟨0, 0⟩
  else
    -- as many decimal digits as there are bits are always enough
    let found := (List.range fmt.precision).findSome? fun i => roundTrip? m e h (i + 1)
    let decimal := found.getD (exactDecimal m e)
    Decimal.strip decimal.digits decimal.exponent

end Floating

/-- How the digits of a decimal are laid out. -/
structure Decimal.Style where
  /-- Whether a number whose leading digit stands for this power of ten is written positionally. -/
  positional : Int → Bool
  /-- Whether a whole number is written with a point and a zero. -/
  keepsPoint : Bool
  /-- The word for the NaN. -/
  nan : String

namespace Decimal

/-- The digits in place, with zeros to fill up to the point. -/
def positional (keepsPoint : Bool) (d : Decimal) : List Char :=
  let digits := Nat.toDigits 10 d.digits
  if 0 ≤ d.exponent then
    digits ++ List.replicate d.exponent.toNat '0' ++ (if keepsPoint then ['.', '0'] else [])
  else if (-d.exponent).toNat < digits.length then
    let whole := digits.length - (-d.exponent).toNat
    digits.take whole ++ '.' :: digits.drop whole
  else
    '0' :: '.' :: List.replicate ((-d.exponent).toNat - digits.length) '0' ++ digits

/-- One digit before the point, then an exponent with a sign and at least two digits. -/
def scientific (d : Decimal) : List Char :=
  let digits := Nat.toDigits 10 d.digits
  let leading := (digits.length : Int) - 1 + d.exponent
  let mark := if leading < 0 then '-' else '+'
  let exponent := Nat.toDigits 10 leading.natAbs
  let fraction := if digits.length ≤ 1 then [] else '.' :: digits.drop 1
  digits.take 1 ++ fraction ++ 'e' :: mark :: List.replicate (2 - exponent.length) '0' ++ exponent

/-- A decimal in the given style. -/
def render (style : Style) (d : Decimal) : List Char :=
  if style.positional (d.magnitude - 1) then positional style.keepsPoint d else scientific d

namespace Style

/-- Moderate numbers are written positionally, with a point even when whole; very large and very
small ones with an exponent. -/
def general : Style where
  positional leading := -4 ≤ leading && leading < 16
  keepsPoint := true
  nan := "nan"

/-- Every number is written positionally, a whole one without a point. -/
def plain : Style where
  positional _ := true
  keepsPoint := false
  nan := "NaN"

end Style

end Decimal

/-- A value as text in the given style. -/
def Floating.text {fmt : Format} (style : Decimal.Style) : Floating fmt → String
  | .nan => style.nan
  | .infinite negative => if negative then "-inf" else "inf"
  | .finite negative m e h =>
    let magnitude := Decimal.render style (shortest m e h)
    String.ofList (if negative then '-' :: magnitude else magnitude)

end StackScript
