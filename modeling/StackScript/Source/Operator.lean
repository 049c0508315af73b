import StackScript.Source.Token

/-!
# Operators

The binary and unary operators of expressions, the tokens that write them, and how tightly they
bind.

## Main definitions

* `BinaryOp`, `UnaryOp`: the operators.
* `BinaryOp.ofToken?`, `UnaryOp.ofToken?`: the operator that a token writes.
* `TokenKind.bindingPower`: how tightly a token between two operands binds.
-/

namespace StackScript

/-- The operators between two operands. -/
inductive BinaryOp where
  | subtract | add | divide | multiply
  | equal | notEqual | greater | greaterEqual | less | lessEqual
  deriving DecidableEq, Repr

namespace BinaryOp

/-- All binary operators, in the order of their declaration. -/
def all : List BinaryOp :=
  [subtract, add, divide, multiply, equal, notEqual, greater, greaterEqual, less, lessEqual]

/-- The name of an operator in outlines. -/
def name : BinaryOp → String
  | subtract => "SUBTRACT"
  | add => "ADD"
  | divide => "DIVIDE"
  | multiply => "MULTIPLY"
  | equal => "EQUAL"
  | notEqual => "NOT_EQUAL"
  | greater => "GREATER"
  | greaterEqual => "GREATER_EQUAL"
  | less => "LESS"
  | lessEqual => "LESS_EQUAL"

/-- The operator with a given name. -/
def ofName? (name : String) : Option BinaryOp :=
  all.find? fun op => op.name == name

/-- The operator that a token writes. -/
def ofToken? : TokenKind → Option BinaryOp
  | .minus => some subtract
  | .plus => some add
  | .slash => some divide
  | .star => some multiply
  | .equalEqual => some equal
  | .bangEqual => some notEqual
  | .greater => some greater
  | .greaterEqual => some greaterEqual
  | .less => some less
  | .lessEqual => some lessEqual
  | _ => none

/-- Whether the operator compares its operands. -/
def isComparison : BinaryOp → Bool
  | equal | notEqual | greater | greaterEqual | less | lessEqual => true
  | subtract | add | divide | multiply => false

end BinaryOp

/-- The operators in front of an operand. -/
inductive UnaryOp where
  | negate | not
  deriving DecidableEq, Repr

namespace UnaryOp

/-- The name of an operator in outlines. -/
def name : UnaryOp → String
  | negate => "NEGATE"
  | not => "NOT"

/-- The operator with a given name. -/
def ofName? (name : String) : Option UnaryOp :=
  [negate, not].find? fun op => op.name == name

/-- The operator that a token writes. -/
def ofToken? : TokenKind → Option UnaryOp
  | .minus => some negate
  | .bang => some not
  | _ => none

end UnaryOp

/-- How tightly the operand of a unary operator holds together. -/
def unaryBindingPower : Nat := 8

/-- How tightly a token between two operands binds; zero if it cannot continue an expression. -/
def TokenKind.bindingPower : TokenKind → Nat
  | .equal => 1
  | .equalEqual | .bangEqual => 4
  | .less | .lessEqual | .greater | .greaterEqual => 5
  | .plus | .minus => 6
  | .star | .slash => 7
  | .bang => 8
  | .lparen | .dot => 9
  | _ => 0

end StackScript
