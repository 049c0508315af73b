import StackScript.Numeral
import StackScript.Text.Quoted

/-!
# Data without a machine type

A literal of a program and an immediate of an instruction hold a datum: nothing, a truth value, an
integer of any size, a double, or a text. A datum becomes a typed machine value only when an
instruction asks for it, and that conversion can fail.

## Main definitions

* `Datum`: the data.
* `ConversionError`: why a datum has no value of a numeric type.
* `Datum.display`, `Datum.literal`: a datum as text, a text bare or between quotes.
* `Datum.toInteger`, `Datum.toDouble`: a datum as a number.
* `Datum.sameNumber`: equality by numeric value.
-/

namespace StackScript

/-- A scalar without a machine type. -/
inductive Datum where
  | null
  | truth (b : Bool)
  | int (n : Int)
  | real (x : Double)
  | text (s : Text)
  deriving DecidableEq

/-- Why a conversion between numbers fails. -/
inductive ConversionError where
  /-- There is no such number: the NaN as an integer, or a text that is no numeral. -/
  | invalid
  /-- The number lies outside the finite range of the target. -/
  | overflow
  /-- The datum is not a number at all. -/
  | unsupported
  deriving DecidableEq, Repr

/-- The integer part of a float. The NaN and the infinities have none. -/
def Floating.truncate {fmt : Format} (x : Floating fmt) : Except ConversionError Int :=
  match x.truncate? with
  | some n => .ok n
  | none => .error (if x.isInfinite then .overflow else .invalid)

namespace Datum

instance : Inhabited Datum := ⟨null⟩

/-- The word for a truth value. -/
def truthWord (b : Bool) : String :=
  if b then "True" else "False"

/-- A datum as text, where a text stands for itself. -/
def display : Datum → Text
  | null => "None"
  | truth b => truthWord b
  | int n => toString n
  | real x => x.text .general
  | text s => s

/-- A datum as text, where a text stands between quotes. -/
def literal : Datum → String
  | null => "None"
  | truth b => truthWord b
  | int n => toString n
  | real x => x.text .general
  | text s => quoted s

/-- A truth value as a number. -/
def ofTruth (b : Bool) : Int :=
  if b then 1 else 0

/-- The double nearest to an integer, which must not be too large for one. -/
def doubleOfInt (n : Int) : Except ConversionError Double :=
  let x : Double := .ofInt n
  if x.isInfinite then .error .overflow else .ok x

/-- A datum as an integer: a double loses its fraction, a text is read as a numeral. -/
def toInteger : Datum → Except ConversionError Int
  | null => .error .unsupported
  | truth b => .ok (ofTruth b)
  | int n => .ok n
  | real x => x.truncate
  | text s => match s.string?.bind Numeral.integer? with
    | some n => .ok n
    | none => .error .invalid

/-- A datum as a double: an integer is rounded, a text is read as a numeral. -/
def toDouble : Datum → Except ConversionError Double
  | null => .error .unsupported
  | truth b => doubleOfInt (ofTruth b)
  | int n => doubleOfInt n
  | real x => .ok x
  | text s => match s.string?.bind Numeral.real? with
    | some x => .ok x
    | none => .error .invalid

/-- Whether an integer and a double are the same number. -/
def intEqDouble (n : Int) (x : Double) : Bool :=
  x.isWhole && x.truncate? == some n

/-- Equality by numeric value: truth values count as one and zero, the two zeros are equal, and the
NaN equals nothing. -/
def sameNumber : Datum → Datum → Bool
  | null, null => true
  | text s, text t => s == t
  | real x, real y => match x, y with
    | .nan, _ => false
    | x, y => (x.isZero && y.isZero) || x == y
  | real x, int n => intEqDouble n x
  | real x, truth b => intEqDouble (ofTruth b) x
  | int n, real x => intEqDouble n x
  | truth b, real x => intEqDouble (ofTruth b) x
  | int m, int n => m == n
  | int m, truth b => m == ofTruth b
  | truth b, int n => ofTruth b == n
  | truth a, truth b => a == b
  | _, _ => false

end Datum

end StackScript
