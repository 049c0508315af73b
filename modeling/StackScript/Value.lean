import StackScript.ValueType
import StackScript.Datum
import StackScript.Floating.Arithmetic

/-!
# Typed machine values

A machine value is a number of one of the four value types. Integers are words in two's complement,
read as signed numbers; converting to an integer type wraps around, converting to a float type
rounds.

An untyped integer becomes a single through a double, as every untyped number does; a machine
integer becomes a single directly.

## Main definitions

* `unsigned`, `wrap`: the low bits of an integer, and their signed reading.
* `toWord`: an integer as a word.
* `Value`: the machine values, `Value.type` their type.
* `Value.ofDatum`, `Value.convert`: conversion to a type.
* `Value.logText`: a value as it appears in the log.
* `Scalar`: an untyped datum or a typed value.

## Main results

* `unsigned_eq_toNat`, `wrap_eq_toInt`: the unsigned and the signed reading of a word.
-/

namespace StackScript

/-! ### Integers of a width -/

/-- The bits of a mask that an integer has, as a number in two's complement without end. -/
def maskBits (mask : Nat) : Int → Nat
  | .ofNat n => n &&& mask
  -- a negative integer has the bits that its complement lacks
  | .negSucc n => mask ^^^ (n &&& mask)

/-- The representative of `n` modulo `2 ^ width` in the unsigned range of that width. -/
def unsigned (width : Nat) (n : Int) : Nat :=
  maskBits (1 <<< width - 1) n

/-- The representative of `n` modulo `2 ^ width` in the signed range of that width. -/
def wrap (width : Nat) (n : Int) : Int :=
  let low : Int := maskBits (1 <<< width - 1) n
  if ((1 <<< (width - 1) : Nat) : Int) ≤ low then low - (1 <<< width : Nat) else low

/-- An integer as a word. -/
def toWord (width : Nat) (n : Int) : BitVec width :=
  .ofInt width (wrap width n)

/-- The low bits of an integer are its remainder. -/
theorem maskBits_eq_emod (width : Nat) (n : Int) :
    (maskBits (1 <<< width - 1) n : Int) = n % (1 <<< width : Nat) := by
  rw [Nat.one_shiftLeft]
  cases n with
  | ofNat n =>
    rw [maskBits, Nat.and_two_pow_sub_one_eq_mod]
    rfl
  | negSucc n =>
    have hpos := Nat.two_pow_pos width
    have hlt : n % 2 ^ width < 2 ^ width := Nat.mod_lt _ hpos
    -- to flip all bits of a remainder is to take it from the largest one
    have hflip : (2 ^ width - 1) ^^^ (n % 2 ^ width) = 2 ^ width - 1 - n % 2 ^ width := by
      have h := BitVec.toNat_not (x := BitVec.ofNat width n)
      rwa [BitVec.not_def, BitVec.toNat_xor, BitVec.toNat_allOnes, BitVec.toNat_ofNat] at h
    rw [maskBits, Nat.and_two_pow_sub_one_eq_mod, hflip, Int.negSucc_emod n (by omega)]
    omega

theorem unsigned_eq_toNat (width : Nat) (n : Int) :
    unsigned width n = (BitVec.ofInt width n).toNat := by
  have h := maskBits_eq_emod width n
  rw [Nat.one_shiftLeft] at h
  rw [BitVec.toNat_ofInt, unsigned, Nat.one_shiftLeft]
  omega

theorem wrap_eq_toInt (width : Nat) (n : Int) : wrap width n = (BitVec.ofInt width n).toInt := by
  have hunsigned : maskBits (1 <<< width - 1) n = (BitVec.ofInt width n).toNat :=
    unsigned_eq_toNat width n
  have hlt := (BitVec.ofInt width n).isLt
  rw [wrap, hunsigned, BitVec.toInt_eq_toNat_cond, Nat.one_shiftLeft, Nat.one_shiftLeft]
  cases width with
  | zero => simp at hlt ⊢
  | succ width =>
    rw [Nat.pow_succ] at hlt ⊢
    simp only [Nat.add_sub_cancel]
    split <;> split <;> omega

/-- A word does not tell whether its integer has wrapped around. -/
@[simp] theorem toWord_eq_ofInt (width : Nat) (n : Int) : toWord width n = .ofInt width n := by
  rw [toWord, wrap_eq_toInt, BitVec.ofInt_toInt]

theorem toWord_toInt {width : Nat} (n : BitVec width) : toWord width n.toInt = n := by
  rw [toWord_eq_ofInt, BitVec.ofInt_toInt]

/-! ### Values -/

/-- A number of one of the four value types. -/
inductive Value where
  | i32 (n : BitVec 32)
  | i64 (n : BitVec 64)
  | f32 (x : Single)
  | f64 (x : Double)
  deriving DecidableEq

namespace Value

/-- The type of a value. -/
def type : Value → ValueType
  | i32 _ => .i32
  | i64 _ => .i64
  | f32 _ => .f32
  | f64 _ => .f64

/-- The zero of a type. -/
def zero : ValueType → Value
  | .i32 => i32 0
  | .i64 => i64 0
  | .f32 => f32 (.zero false)
  | .f64 => f64 (.zero false)

instance : Inhabited Value := ⟨zero .f64⟩

/-- Whether a value counts as false in a condition. The NaN does not. -/
def isZero : Value → Bool
  | i32 n => n == 0
  | i64 n => n == 0
  | f32 x => x.isZero
  | f64 x => x.isZero

/-- An untyped integer as a value. -/
def ofInteger (t : ValueType) (n : Int) : Except ConversionError Value :=
  match t with
  | .i32 => .ok (i32 (toWord 32 n))
  | .i64 => .ok (i64 (toWord 64 n))
  -- rounded twice, first to a double
  | .f32 => do return f32 ((← Datum.doubleOfInt n).convert .binary32)
  | .f64 => do return f64 (← Datum.doubleOfInt n)

/-- An untyped double as a value. -/
def ofDouble (t : ValueType) (x : Double) : Except ConversionError Value :=
  match t with
  | .i32 => do return i32 (toWord 32 (← x.truncate))
  | .i64 => do return i64 (toWord 64 (← x.truncate))
  | .f32 => .ok (f32 (x.convert .binary32))
  | .f64 => .ok (f64 x)

/-- A datum as a value. Where there is no datum, a float type takes the NaN. -/
def ofDatum (t : ValueType) : Datum → Except ConversionError Value
  | .null => if t.isFloat then ofDouble t .nan else .error .unsupported
  | .truth b => ofInteger t (Datum.ofTruth b)
  | .int n => ofInteger t n
  | .real x => ofDouble t x
  | .text s =>
    if t.isFloat then do ofDouble t (← (Datum.text s).toDouble)
    else do ofInteger t (← (Datum.text s).toInteger)

/-- The integer part of a value. -/
def toInteger : Value → Except ConversionError Int
  | i32 n => .ok n.toInt
  | i64 n => .ok n.toInt
  | f32 x => x.truncate
  | f64 x => x.truncate

/-- A value as a double. -/
def toDouble : Value → Double
  | i32 n => .ofInt n.toInt
  | i64 n => .ofInt n.toInt
  | f32 x => x.convert .binary64
  | f64 x => x

/-- A value as a single. -/
def toSingle : Value → Single
  | i32 n => .ofInt n.toInt
  | i64 n => .ofInt n.toInt
  | f32 x => x
  | f64 x => x.convert .binary32

/-- A value as one of another type. -/
def convert (t : ValueType) (v : Value) : Except ConversionError Value :=
  match t with
  | .i32 => do return i32 (toWord 32 (← v.toInteger))
  | .i64 => do return i64 (toWord 64 (← v.toInteger))
  | .f32 => .ok (f32 v.toSingle)
  | .f64 => .ok (f64 v.toDouble)

/-- A value without its machine type. -/
def toDatum : Value → Datum
  | i32 n => .int n.toInt
  | i64 n => .int n.toInt
  | f32 x => .real (x.convert .binary64)
  | f64 x => .real x

/-- A value as it appears in the log: the shortest digits of its own type, without an exponent. -/
def logText : Value → String
  | i32 n => toString n.toInt
  | i64 n => toString n.toInt
  | f32 x => x.text .plain
  | f64 x => x.text .plain

end Value

/-- A number that a host hands over: untyped, or a value of some type. -/
inductive Scalar where
  | datum (d : Datum)
  | value (v : Value)

namespace Scalar

/-- A host's number as a value of a type. -/
def toValue (t : ValueType) : Scalar → Except ConversionError Value
  | datum d => Value.ofDatum t d
  | value v => v.convert t

/-- The integer part of a host's number. -/
def toInteger : Scalar → Except ConversionError Int
  | datum d => d.toInteger
  | value v => v.toInteger

/-- A host's number as it appears in the log. -/
def logText : Scalar → Except ConversionError String
  | datum (.truth b) => .ok (toString (Datum.ofTruth b))
  | datum (.int n) => .ok (toString n)
  | datum (.real x) => .ok (x.text .plain)
  | datum .null => .error .unsupported
  | datum (.text _) => .error .unsupported
  | value v => .ok v.logText

end Scalar

end StackScript
