/-!
# Binary floating-point values

A binary format fixes how many bits a significand has and which exponents its last place may have. A
finite value is a sign and a magnitude `m * 2 ^ e`, kept in the one form in which either the
significand is full or the exponent is the least; so two values are equal exactly when their parts
are. There is one NaN.

Rounding is defined on exact ratios of natural numbers and goes to the nearest value of the format,
a tie to the even significand. Every operation computes exactly first and rounds once.

## Main definitions

* `powNum`, `powDen`: a power with an integer exponent, as a ratio.
* `Format`, `Format.binary32`, `Format.binary64`: the formats.
* `Floating`: the values of a format.
* `roundHalfEven`: a ratio rounded to a natural number.
* `Floating.ofRatio`: a ratio rounded to a value.
* `Floating.ofDyadic`, `Floating.ofInt`, `Floating.convert`: rounding of other exact numbers.
* `Floating.truncate?`: the integer part of a finite value.
-/

namespace StackScript

/-- The numerator of the power `b ^ e`. -/
def powNum (b : Nat) (e : Int) : Nat := Nat.pow b e.toNat

/-- The denominator of the power `b ^ e`. -/
def powDen (b : Nat) (e : Int) : Nat := Nat.pow b (-e).toNat

/-- A binary floating-point format: the number of bits of the significand, and the least and the
greatest exponent of its last place. -/
structure Format where
  precision : Nat
  minExponent : Int
  maxExponent : Int
  precision_pos : 0 < precision := by decide
  minExponent_le : minExponent ≤ maxExponent := by decide
  deriving DecidableEq, Repr

namespace Format

/-- Single precision. -/
def binary32 : Format where
  precision := 24
  minExponent := -149
  maxExponent := 104

/-- Double precision. -/
def binary64 : Format where
  precision := 53
  minExponent := -1074
  maxExponent := 971

/-- The least number that is too large for a significand. -/
def significandBound (fmt : Format) : Nat := Nat.pow 2 fmt.precision

/-- The least significand that is full. -/
def leastFull (fmt : Format) : Nat := Nat.pow 2 (fmt.precision - 1)

/-- The one form in which a format writes the magnitude `m * 2 ^ e`: the significand is full, or the
exponent is the least. -/
def Canonical (fmt : Format) (m : Nat) (e : Int) : Prop :=
  m < fmt.significandBound ∧ fmt.minExponent ≤ e ∧ e ≤ fmt.maxExponent ∧
    (fmt.leastFull ≤ m ∨ e = fmt.minExponent)

instance (fmt : Format) (m : Nat) (e : Int) : Decidable (fmt.Canonical m e) :=
  inferInstanceAs (Decidable (_ ∧ _ ∧ _ ∧ _))

/-- Zero is written with the least exponent. -/
theorem canonical_zero (fmt : Format) : fmt.Canonical 0 fmt.minExponent :=
  ⟨Nat.two_pow_pos _, Int.le_refl _, fmt.minExponent_le, Or.inr rfl⟩

end Format

/-- A value of a binary format. -/
inductive Floating (fmt : Format) where
  | nan
  | infinite (negative : Bool)
  | finite (negative : Bool) (significand : Nat) (exponent : Int)
      (canonical : fmt.Canonical significand exponent)
  deriving DecidableEq

/-- A single-precision value. -/
abbrev Single := Floating Format.binary32

/-- A double-precision value. -/
abbrev Double := Floating Format.binary64

/-- The ratio `n / d` rounded to a natural number; a half goes to the even neighbour. -/
def roundHalfEven (n d : Nat) : Nat :=
  let twice := 2 * (n % d)
  if twice < d then n / d
  else if d < twice then n / d + 1
  else if n / d % 2 = 0 then n / d
  else n / d + 1

/-- The exponent `k` with `2 ^ k ≤ n / d < 2 ^ (k + 1)`, for positive `n` and `d`. -/
def ratioLog2 (n d : Nat) : Int :=
  let k : Int := (n.log2 : Int) - (d.log2 : Int)
  -- the logarithms round down, so their difference may be one too large
  if d * powNum 2 k ≤ n * powDen 2 k then k else k - 1

namespace Floating

variable {fmt : Format}

/-- The two zeros. -/
def zero (negative : Bool) : Floating fmt :=
  .finite negative 0 fmt.minExponent fmt.canonical_zero

instance : Inhabited (Floating fmt) := ⟨zero false⟩

/-- The value with the given parts, infinite when the format has no such value. -/
def ofParts (negative : Bool) (m : Nat) (e : Int) : Floating fmt :=
  if h : fmt.Canonical m e then .finite negative m e h else .infinite negative

/-- The exponent of the last place of the value nearest to `n / d`, before a carry. -/
def placeExponent (fmt : Format) (n d : Nat) : Int :=
  max fmt.minExponent (ratioLog2 n d - ((fmt.precision - 1 : Nat) : Int))

/-- The value nearest to `n / d`, with the given sign; a tie goes to the even significand. -/
def ofRatio (negative : Bool) (n d : Nat) : Floating fmt :=
  if n = 0 then zero negative
  else
    let e := placeExponent fmt n d
    let m := roundHalfEven (n * powDen 2 e) (d * powNum 2 e)
    -- rounding up a significand of ones carries into the next exponent
    if m = fmt.significandBound then ofParts negative fmt.leastFull (e + 1)
    else ofParts negative m e

/-- The value nearest to `m * 2 ^ e`, with the given sign. -/
def ofDyadic (negative : Bool) (m : Nat) (e : Int) : Floating fmt :=
  ofRatio negative (m * powNum 2 e) (powDen 2 e)

/-- The value nearest to an integer. -/
def ofInt (n : Int) : Floating fmt :=
  ofRatio (decide (n < 0)) n.natAbs 1

/-- The nearest value of another format. -/
def convert (target : Format) : Floating fmt → Floating target
  | .nan => .nan
  | .infinite negative => .infinite negative
  | .finite negative m e _ => ofDyadic negative m e

/-- The integer part of a finite value. -/
def truncate? : Floating fmt → Option Int
  | .finite negative m e _ =>
    let magnitude : Int := ((m * powNum 2 e / powDen 2 e : Nat) : Int)
    some (if negative then -magnitude else magnitude)
  | _ => none

/-- Whether a value is a whole number. -/
def isWhole : Floating fmt → Bool
  | .finite _ m e _ => m * powNum 2 e % powDen 2 e = 0
  | _ => false

/-- Whether a value is one of the two zeros. -/
def isZero : Floating fmt → Bool
  | .finite _ m _ _ => m = 0
  | _ => false

/-- Whether a value is one of the two infinities. -/
def isInfinite : Floating fmt → Bool
  | .infinite _ => true
  | _ => false

end Floating

end StackScript
