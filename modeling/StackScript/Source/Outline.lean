import StackScript.Source.Program

/-!
# Outlines of programs

An outline shows a program with one node on each line, the parts of a node below it and two
columns further to the right. A printer writes it: it knows how far to the right it is, goes one
step further before the parts of a node, and comes back behind them.

## Main definitions

* `Printer`: what is done at an indent that may change.
* `Printer.nested`: a heading with what stands below it.
* `Expr.heading`: what an outline says about a node itself.
* `Expr.outline`: prints a node.
* `Program.outline`: the outline of a program.
-/

namespace StackScript

/-- What is printed at an indent, which may change on the way. -/
abbrev Printer := StateM Nat

namespace Printer

/-- A line at an indent. -/
def indented (indent : Nat) (heading : String) : String :=
  String.ofList (List.replicate (2 * indent) ' ') ++ heading

/-- The line for a heading. -/
def line (heading : String) : Printer String := do
  return indented (← get) heading

/-- A heading, and below it what is printed one step further to the right. -/
def nested (heading : String) (below : Printer (List String)) : Printer (List String) := do
  modify (· + 1)
  let lines ← below
  modify (· - 1)
  return (← line heading) :: lines

end Printer

namespace Expr

/-- The name of a function with its parameters. -/
def signature (name : String) (params : List String) : String :=
  name ++ "(" ++ ", ".intercalate params ++ ")"

/-- What an outline says about a node itself. -/
def heading : Expr → String
  | block .. => "Block"
  | binary _ op _ _ => s!"Binary({op.name})"
  | unary op _ _ => s!"Unary({op.name})"
  | declare name _ _ => s!"LetAssign({name})"
  | get name _ => s!"LetGet({name})"
  | assign name _ _ => s!"LetSet({name})"
  | print .. => "Print"
  | ifElse .. => "IfElse"
  | function name params _ _ => s!"FunctionDef({signature name params})"
  | call .. => "Call"
  | literal _ value _ => s!"Literal({value.literal})"

mutual

/-- Prints a node, line by line. -/
def outline (e : Expr) : Printer (List String) :=
  match e with
  | block body _ => .nested e.heading (outlineAll body)
  | binary left _ right _ => .nested e.heading do
    return (← left.outline) ++ (← right.outline)
  | unary _ operand _ => .nested e.heading operand.outline
  | declare _ value _ => .nested e.heading value.outline
  | get _ _ => do return [← Printer.line e.heading]
  | assign _ value _ => .nested e.heading value.outline
  | print value _ => .nested e.heading value.outline
  | ifElse condition thenBranch none _ => .nested e.heading do
    return (← condition.outline) ++ (← thenBranch.outline)
  | ifElse condition thenBranch (some elseBranch) _ => .nested e.heading do
    return (← condition.outline) ++ (← thenBranch.outline) ++ (← elseBranch.outline)
  | function _ _ body _ => .nested e.heading (outlineAll body)
  | call callee args _ => .nested e.heading do
    return (← callee.outline) ++ (← outlineAll args)
  | literal _ _ _ => do return [← Printer.line e.heading]

/-- Prints nodes one below the other. -/
def outlineAll : List Expr → Printer (List String)
  | [] => return []
  | e :: rest => do return (← e.outline) ++ (← outlineAll rest)

end

end Expr

/-- Prints a program: a title, and its statements below it. -/
def Program.print (program : Program) : Printer String := do
  return "\n".intercalate ("Program" :: (← Expr.outlineAll program))

/-- The outline of a program, with its statements at the margin. -/
def Program.outline (program : Program) : String :=
  (program.print.run 0).1

end StackScript
