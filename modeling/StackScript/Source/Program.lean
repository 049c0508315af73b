import StackScript.Datum
import StackScript.Source.Operator

/-!
# Programs

A program is a list of statements. There is one kind of tree: a statement is an expression that
stands where a statement may stand. Every node knows the line it was read from.

## Main definitions

* `Expr`: the nodes.
* `Expr.nodeName`: the name of a kind of node in messages.
* `Expr.isValueNode`: whether a node stands for a value by itself.
-/

namespace StackScript

/-- What a literal was written as. -/
inductive LiteralKind where
  | number | string | true | false
  deriving DecidableEq, Repr

namespace LiteralKind

/-- The name of a kind of literal. -/
def name : LiteralKind → String
  | number => "NUMBER"
  | string => "STRING"
  | true => "TRUE"
  | false => "FALSE"

/-- The kind of literal with a given name. -/
def ofName? (name : String) : Option LiteralKind :=
  [number, string, true, false].find? fun kind => kind.name == name

end LiteralKind

/-- A node of a program. -/
inductive Expr where
  /-- Statements between braces. They open no scope. -/
  | block (body : List Expr) (line : Line)
  | binary (left : Expr) (op : BinaryOp) (right : Expr) (line : Line)
  | unary (op : UnaryOp) (operand : Expr) (line : Line)
  /-- A variable and its first value. -/
  | declare (name : String) (value : Expr) (line : Line)
  /-- The value of a variable. -/
  | get (name : String) (line : Line)
  /-- A new value for a variable. -/
  | assign (name : String) (value : Expr) (line : Line)
  /-- A value for the host's log. -/
  | print (value : Expr) (line : Line)
  | ifElse (condition thenBranch : Expr) (elseBranch : Option Expr) (line : Line)
  | function (name : String) (params : List String) (body : List Expr) (line : Line)
  | call (callee : Expr) (args : List Expr) (line : Line)
  | literal (kind : LiteralKind) (value : Datum) (line : Line)

/-- The statements of a program, in the order in which they run. -/
abbrev Program := List Expr

namespace Expr

instance : Inhabited Expr := ⟨block [] 0⟩

/-- The line a node was read from. -/
def line : Expr → Line
  | block _ line | binary _ _ _ line | unary _ _ line | declare _ _ line | get _ line
  | assign _ _ line | print _ line | ifElse _ _ _ line | function _ _ _ line | call _ _ line
  | literal _ _ line => line

/-- The name of a kind of node in messages. -/
def nodeName : Expr → String
  | block .. => "BlockExpr"
  | binary .. => "BinaryExpr"
  | unary .. => "UnaryExpr"
  | declare .. => "LetAssignExpr"
  | get .. => "LetGetExpr"
  | assign .. => "LetSetExpr"
  | print .. => "PrintExpr"
  | ifElse .. => "IfElseExpr"
  | function .. => "FunctionDefExpr"
  | call .. => "CallExpr"
  | literal .. => "LiteralExpr"

/-- Whether a node stands for a value by itself. An assignment has a value only where one is
asked for. -/
def isValueNode : Expr → Bool
  | binary .. | unary .. | get .. | call .. | literal .. => Bool.true
  | _ => Bool.false

/-- Whether a node can be asked for a value. -/
def yieldsValue : Expr → Bool
  | assign .. => Bool.true
  | e => e.isValueNode

end Expr

end StackScript
