import StackScript.Source.Operator
import StackScript.Target.Instruction
import StackScript.ValueType

/-!
# The mnemonics of operators

An operator becomes a mnemonic of the module's value type. Integers are signed: their division and
orderings say so.

## Main definitions

* `ValueType.mnemonic`: an operation of a type.
* `BinaryOp.mnemonic`: the mnemonic of a binary operator.
* `ValueType.fromFlag?`: the mnemonic that widens a flag or an address to a type.
* `ValueType.zeroDatum`: the zero of a type as a constant.
-/

namespace StackScript

namespace ValueType

/-- The mnemonic of an operation on a type. -/
def mnemonic (t : ValueType) (operation : String) : Text :=
  .plain (t.name ++ "." ++ operation)

/-- The mnemonic that widens a 32-bit flag or address to a type, where one is needed. -/
def fromFlag? : ValueType → Option Text
  | i32 => none
  | i64 => some (i64.mnemonic "extend_i32_u")
  | f32 => some (f32.mnemonic "convert_i32_u")
  | f64 => some (f64.mnemonic "convert_i32_u")

/-- The zero of a type as a constant. -/
def zeroDatum (t : ValueType) : Datum :=
  if t.isFloat then .real (.zero false) else .int 0

/-- An operation whose name tells, for integers, that it takes signed operands. -/
def signedOperation (t : ValueType) (operation : String) : String :=
  if t.isFloat then operation else operation ++ "_s"

end ValueType

/-- The mnemonic of a binary operator on a type. -/
def BinaryOp.mnemonic (t : ValueType) (op : BinaryOp) : Text :=
  t.mnemonic <| match op with
    | .add => "add"
    | .subtract => "sub"
    | .multiply => "mul"
    | .divide => t.signedOperation "div"
    | .equal => "eq"
    | .notEqual => "ne"
    | .less => t.signedOperation "lt"
    | .lessEqual => t.signedOperation "le"
    | .greater => t.signedOperation "gt"
    | .greaterEqual => t.signedOperation "ge"

end StackScript
