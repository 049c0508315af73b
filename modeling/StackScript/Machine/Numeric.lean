import StackScript.Machine.Trap
import StackScript.Value

/-!
# Numeric instructions

A numeric instruction is a type and an operation. On the integer types operands are taken as
integers, results wrap around, and division is signed and traps. On the float types operands of
different types are first brought to a common one, in which the operation is carried out, and the
result is converted to the type of the instruction. Comparisons give a 32-bit flag.

## Main definitions

* `Relation`, `Arithmetic`, `Operation`: what an instruction does.
* `decodeMnemonic?`: the type and the operation of a mnemonic.
* `mixedArithmetic`, `mixedCompare?`: arithmetic and comparison in the common type.
* `applyUnary`, `applyBinary`: the result of an operation.
* `numeric`: a numeric instruction on the operand stack.
-/

namespace StackScript

/-- The comparisons. -/
inductive Relation where
  | eq | ne | lt | le | gt | ge
  deriving DecidableEq, Repr

/-- Whether a relation holds between numbers in a given order. Without an order they differ, and
nothing else holds. -/
def Relation.holds : Relation → Option Ordering → Bool
  | eq, o => o == some .eq
  | ne, o => o != some .eq
  | lt, o => o == some .lt
  | le, o => o == some .lt || o == some .eq
  | gt, o => o == some .gt
  | ge, o => o == some .gt || o == some .eq

/-- The operations with the same name on all types. -/
inductive Arithmetic where
  | add | sub | mul
  deriving DecidableEq, Repr

/-- Operations on one operand. -/
inductive UnaryOperation where
  | neg
  | eqz
  /-- Takes the operand as an unsigned 32-bit integer. -/
  | fromUnsigned
  deriving DecidableEq, Repr

/-- Operations on two operands. -/
inductive BinaryOperation where
  | arithmetic (op : Arithmetic)
  /-- Division of floats. -/
  | div
  /-- Signed division of integers. -/
  | divS
  | compare (r : Relation)
  deriving DecidableEq, Repr

/-- What a numeric instruction does. -/
inductive Operation where
  | const
  | unary (op : UnaryOperation)
  | binary (op : BinaryOperation)
  deriving DecidableEq, Repr

/-- The operations by name. -/
def operationNames : List (String × Operation) :=
  [("const", .const), ("neg", .unary .neg), ("eqz", .unary .eqz),
    ("convert_i32_u", .unary .fromUnsigned), ("extend_i32_u", .unary .fromUnsigned),
    ("add", .binary (.arithmetic .add)), ("sub", .binary (.arithmetic .sub)),
    ("mul", .binary (.arithmetic .mul)), ("div", .binary .div), ("div_s", .binary .divS),
    ("eq", .binary (.compare .eq)), ("ne", .binary (.compare .ne)),
    ("lt", .binary (.compare .lt)), ("le", .binary (.compare .le)),
    ("gt", .binary (.compare .gt)), ("ge", .binary (.compare .ge)),
    ("lt_s", .binary (.compare .lt)), ("le_s", .binary (.compare .le)),
    ("gt_s", .binary (.compare .gt)), ("ge_s", .binary (.compare .ge))]

/-- The type and the operation of a mnemonic, which stand before and after the first point. -/
def decodeMnemonic? (mnemonic : Text) : Option (ValueType × Operation) := do
  -- no type and no operation has a lone surrogate in its name
  let characters := (← mnemonic.string?).toList
  let type ← ValueType.ofName? (String.ofList (characters.takeWhile (· != '.')))
  let operation ←
    operationNames.lookup (String.ofList ((characters.dropWhile (· != '.')).drop 1))
  return (type, operation)

/-! ### Values -/

/-- The number one or zero, as a 32-bit flag. -/
def Value.flag (b : Bool) : Value := .i32 (if b then 1 else 0)

namespace Arithmetic

/-- An operation on integers. -/
def onIntegers : Arithmetic → Int → Int → Int
  | add, a, b => a + b
  | sub, a, b => a - b
  | mul, a, b => a * b

/-- An operation on words, which wraps around. -/
def onWords {width : Nat} : Arithmetic → BitVec width → BitVec width → BitVec width
  | add, a, b => a + b
  | sub, a, b => a - b
  | mul, a, b => a * b

/-- An operation on floats. -/
def onFloats {fmt : Format} : Arithmetic → Floating fmt → Floating fmt → Floating fmt
  | add, a, b => a.add b
  | sub, a, b => a.sub b
  | mul, a, b => a.mul b

end Arithmetic

/-- An operation in the common type of its operands: equal types stay, two integer types give the
larger one, and all else is done on doubles. -/
def mixedArithmetic (op : Arithmetic) (a b : Value) : Value :=
  match a, b with
  | .i32 x, .i32 y => .i32 (op.onWords x y)
  | .i64 x, .i64 y => .i64 (op.onWords x y)
  | .i32 x, .i64 y => .i64 (op.onWords (x.signExtend 64) y)
  | .i64 x, .i32 y => .i64 (op.onWords x (y.signExtend 64))
  | .f32 x, .f32 y => .f32 (op.onFloats x y)
  | a, b => .f64 (op.onFloats a.toDouble b.toDouble)

/-- Division in the common type of its operands, which for integers is that of doubles. -/
def mixedDivision (a b : Value) : Value :=
  match a, b with
  | .f32 x, .f32 y => .f32 (x.div y)
  | a, b => .f64 (a.toDouble.div b.toDouble)

/-- The order of two values in their common type. -/
def mixedCompare? (a b : Value) : Option Ordering :=
  match a, b with
  | .i32 x, .i32 y => some (compare x.toInt y.toInt)
  | .i64 x, .i64 y => some (compare x.toInt y.toInt)
  | .i32 x, .i64 y => some (compare x.toInt y.toInt)
  | .i64 x, .i32 y => some (compare x.toInt y.toInt)
  | .f32 x, .f32 y => x.compare? y
  | a, b => a.toDouble.compare? b.toDouble

/-- A value with the opposite sign, of the same type. -/
def Value.negate : Value → Value
  | .i32 n => .i32 (-n)
  | .i64 n => .i64 (-n)
  | .f32 x => .f32 x.neg
  | .f64 x => .f64 x.neg

/-! ### Operations -/

/-- A conversion that traps. -/
def Trap.ofConversion {α : Type} : Except ConversionError α → Except Trap α
  | .ok a => .ok a
  | .error e => .error (.conversion e)

open Trap (ofConversion)

/-- The quotient of the absolute values, with the sign that the operands give it. -/
def truncatedQuotient (a b : Int) : Int :=
  let quotient : Int := a.natAbs / b.natAbs
  if decide (a < 0) != decide (b < 0) then -quotient else quotient

theorem truncatedQuotient_eq_tdiv (a b : Int) : truncatedQuotient a b = a.tdiv b := by
  unfold truncatedQuotient
  -- the signs of the operands, as truncated division itself tells them apart
  have hnonneg (n : Nat) : ¬ (n : Int) < 0 := by omega
  cases a <;> cases b <;> simp [Int.tdiv, Int.natAbs, Int.negSucc_lt_zero, hnonneg]

/-- Signed division, which rounds toward zero. It traps if the divisor is zero or the quotient is
not of the type. -/
def signedDivision (t : ValueType) (a b : Int) : Except Trap Value :=
  if b = 0 then .error .divideByZero
  else match t.width? with
    | none => .error .noWidth
    | some width =>
      let quotient := truncatedQuotient a b
      if wrap width quotient = quotient then ofConversion (Value.ofInteger t quotient)
      else .error .integerOverflow

/-- The result of an operation on one operand. -/
def applyUnary (t : ValueType) (mnemonic : Text) (a : Value) :
    UnaryOperation → Except Trap Value
  | .neg =>
    if t.isFloat then ofConversion (a.negate.convert t)
    else .error (.unknownInstruction mnemonic)
  | .eqz =>
    if t.isFloat then .error (.unknownInstruction mnemonic)
    else do return .flag ((← ofConversion a.toInteger) == 0)
  | .fromUnsigned => do
    ofConversion (Value.ofInteger t (unsigned 32 (← ofConversion a.toInteger)))

/-- The result of an operation on two operands. -/
def applyBinary (t : ValueType) (mnemonic : Text) (a b : Value) :
    BinaryOperation → Except Trap Value
  | .arithmetic op =>
    if t.isFloat then ofConversion ((mixedArithmetic op a b).convert t)
    else do
      let x ← ofConversion a.toInteger
      let y ← ofConversion b.toInteger
      ofConversion (Value.ofInteger t (op.onIntegers x y))
  | .div =>
    if t.isFloat then ofConversion ((mixedDivision a b).convert t)
    else .error (.unknownInstruction mnemonic)
  | .divS => do
    let x ← ofConversion a.toInteger
    let y ← ofConversion b.toInteger
    signedDivision t x y
  | .compare r =>
    if t.isFloat then .ok (.flag (r.holds (mixedCompare? a b)))
    else do
      let x ← ofConversion a.toInteger
      let y ← ofConversion b.toInteger
      return .flag (r.holds (some (compare x y)))

/-! ### The operand stack -/

/-- A computation on the operand stack, the top of which comes first. A trap leaves the stack as it
is at that moment. -/
abbrev OnStack := ExceptT Trap (StateM (List Value))

/-- Pops a value in a function. -/
def pop (function : Text) : OnStack Value := do
  match ← get with
  | [] => throw (.stackUnderflow function)
  | v :: rest =>
    set rest
    return v

/-- Pushes a value. -/
def push (v : Value) : OnStack Unit := modify (v :: ·)

/-- A numeric instruction in a function. -/
def numeric (function mnemonic : Text) (operand : Datum) : OnStack Unit :=
  match decodeMnemonic? mnemonic with
  | none => throw (.unknownInstruction mnemonic)
  | some (t, .const) => do
    push (← liftExcept (ofConversion (Value.ofDatum t operand)))
  | some (t, .unary op) => do
    let a ← pop function
    push (← liftExcept (applyUnary t mnemonic a op))
  | some (t, .binary op) => do
    -- the second operand is on top
    let b ← pop function
    let a ← pop function
    push (← liftExcept (applyBinary t mnemonic a b op))

end StackScript
