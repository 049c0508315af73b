import StackScript.Datum

/-!
# Numbers in module text

An integer is written in decimal. A whole float is written as that integer, with a minus for the
negative zero, and any other float by the shortest digits that read back.

## Main definitions

* `WriteError`: why a datum cannot be written.
* `numberText`: a number as it is written.
-/

namespace StackScript

/-- Why a datum cannot be written as a number. -/
inductive WriteError where
  /-- It is no number. -/
  | notNumber
  /-- It is an integer of more digits than can be read back. -/
  | tooManyDigits
  deriving DecidableEq, Repr

/-- A float as it is written in module text. -/
def floatText (x : Double) : String :=
  match x with
  | .nan => "nan"
  | .infinite false => "inf"
  | .infinite true => "-inf"
  | .finite negative m e h =>
    let x : Double := .finite negative m e h
    if x.isWhole then
      if x.isZero then (if negative then "-0" else "0")
      else toString (x.truncate?.getD 0)
    else x.text .general

/-- An integer as it is written in module text. -/
def integerText (n : Int) : Except WriteError String :=
  if n.natAbs < Nat.pow 10 Numeral.maxDigits then .ok (toString n) else .error .tooManyDigits

/-- A number as it is written in module text. -/
def numberText : Datum → Except WriteError String
  | .truth b => integerText (Datum.ofTruth b)
  | .int n => integerText n
  | .real x => .ok (floatText x)
  | .null | .text _ => .error .notNumber

end StackScript
