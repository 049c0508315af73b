import StackScript.Proofs.LoweringScope
import StackScript.Proofs.OperatorGrouping

/-!
# What the nodes of a program stand for

A compiled program is made of what its nodes say: definitions, declared names and texts. Each is
read off the nodes of the tree in the order of the text, whichever way a node is used. Where
compiling looks only at some places of a tree, it is because a program that has such nodes elsewhere
does not compile.

## Main definitions

* `Expr.definition?`, `Expr.declaredName?`, `Expr.text?`: what a node stands for.
* `Expr.outerNodes`: the nodes outside function definitions.

## Main results

* `Compiles.filterMap_declaredName?`: the names that a part of a program declares.
* `Compiles.filterMap_definition?`: the functions that it defines.
* `Compiles.filterMap_text?`: its texts.
-/

namespace StackScript

/-- A function's name and the number of its parameters. -/
def FunctionDef.signature (d : FunctionDef) : Text × Nat := (d.name, d.params.length)

namespace Expr

/-- The function that a node defines. -/
def definition? : Expr → Option FunctionDef
  | function name params body _ => some ⟨name, params.map .plain, body⟩
  | _ => none

/-- The name that a node declares. -/
def declaredName? : Expr → Option Text
  | declare name _ _ => some name
  | _ => none

/-- The bytes of the text that a node is. -/
def text? : Expr → Option Bytes
  | literal .string (.text text) _ => text.utf8?
  | _ => none

mutual

/-- The nodes of a tree outside function definitions, the definitions themselves included. -/
def outerNodes : Expr → List Expr
  | block body line => block body line :: allOuterNodes body
  | binary left op right line => binary left op right line :: (left.outerNodes ++ right.outerNodes)
  | unary op operand line => unary op operand line :: operand.outerNodes
  | declare name value line => declare name value line :: value.outerNodes
  | get name line => [get name line]
  | assign name value line => assign name value line :: value.outerNodes
  | print value line => print value line :: value.outerNodes
  | ifElse condition thenBranch none line =>
    ifElse condition thenBranch none line :: (condition.outerNodes ++ thenBranch.outerNodes)
  | ifElse condition thenBranch (some elseBranch) line =>
    ifElse condition thenBranch (some elseBranch) line ::
      (condition.outerNodes ++ thenBranch.outerNodes ++ elseBranch.outerNodes)
  | function name params body line => [function name params body line]
  | call callee args line => call callee args line :: (callee.outerNodes ++ allOuterNodes args)
  | literal kind value line => [literal kind value line]

/-- The nodes of trees outside function definitions, in order. -/
def allOuterNodes : List Expr → List Expr
  | [] => []
  | e :: rest => e.outerNodes ++ allOuterNodes rest

end

/-- The functions that a program defines, in the order of the text. -/
def definitions (program : Program) : List FunctionDef :=
  (allNodes program).filterMap definition?

/-- The names that a program declares outside functions, in the order of the text. -/
def globalNames (program : Program) : List Text :=
  (allOuterNodes program).filterMap declaredName?

/-- The texts of a program, in order. -/
def texts (program : Program) : List Bytes :=
  (allNodes program).filterMap text?

end Expr

namespace Part

/-- The nodes of a part. -/
def nodes : Part → List Expr
  | node _ e => e.nodes
  | statements _ list => Expr.allNodes list
  | arguments list => Expr.allNodes list

/-- The nodes of a part outside function definitions. -/
def outerNodes : Part → List Expr
  | node _ e => e.outerNodes
  | statements _ list => Expr.allOuterNodes list
  | arguments list => Expr.allOuterNodes list

end Part

variable {options : Options} {s s' : Scope} {p : Part} {c : Code}

/-- Where a part compiles, every declaration stands as a statement. -/
theorem Compiles.filterMap_declaredName? (h : Compiles options s p c s') :
    p.outerNodes.filterMap Expr.declaredName? = p.lets := by
  -- Operands declare nothing, so in each case only the nodes of statements are left.
  induction h <;>
    simp only [Part.outerNodes, Part.lets, Expr.outerNodes, Expr.allOuterNodes, List.filterMap_cons,
      List.filterMap_append, List.filterMap_nil, Expr.declaredName?, Expr.lets, Expr.allLets] at *
  case block ih => exact ih
  case binary hleft hright ihleft ihright =>
    rw [ihleft, ihright, hleft.lets_eq_nil (by decide), hright.lets_eq_nil (by decide)]
    rfl
  case negate h ih | not h ih | print h ih => rw [ih, h.lets_eq_nil (by decide)]
  case declare h ih => rw [ih, h.lets_eq_nil (by decide)]
  case assign h _ ih => rw [ih, h.lets_eq_nil (by decide)]
  case assignValue h _ ih => rw [ih, h.lets_eq_nil (by decide)]
  case ifThen hcondition _ ihcondition ih =>
    rw [ihcondition, hcondition.lets_eq_nil (by decide), ih]
    rfl
  case ifElse hcondition _ _ ihcondition ihthen ihelse =>
    rw [ihcondition, hcondition.lets_eq_nil (by decide), ihthen, ihelse]
    rfl
  case call h ih =>
    rw [ih, h.allLets_eq_nil]
    rfl
  case last ih => rw [ih]
  case next ih ihrest => rw [ih, ihrest]
  case argument ih ihrest => rw [ih, ihrest]

/-- Where a part compiles, every function is defined by a statement outside functions. -/
theorem Compiles.filterMap_definition? (h : Compiles options s p c s') :
    p.nodes.filterMap Expr.definition? = p.functions := by
  -- Operands define nothing either, nor does the body of a function.
  induction h <;>
    simp only [Part.nodes, Part.functions, Expr.nodes, Expr.allNodes, List.filterMap_cons,
      List.filterMap_append, List.filterMap_nil, Expr.definition?, Expr.functions,
      Expr.allFunctions] at *
  case block ih => exact ih
  case binary hleft hright ihleft ihright =>
    rw [ihleft, ihright, hleft.functions_eq_nil (by decide), hright.functions_eq_nil (by decide)]
    rfl
  case negate h ih | not h ih | print h ih => rw [ih, h.functions_eq_nil (by decide)]
  case declare h ih => rw [ih, h.functions_eq_nil (by decide)]
  case assign h _ ih => rw [ih, h.functions_eq_nil (by decide)]
  case assignValue h _ ih => rw [ih, h.functions_eq_nil (by decide)]
  case ifThen hcondition _ ihcondition ih =>
    rw [ihcondition, hcondition.functions_eq_nil (by decide), ih]
    rfl
  case ifElse hcondition _ _ ihcondition ihthen ihelse =>
    rw [ihcondition, hcondition.functions_eq_nil (by decide), ihthen, ihelse]
    rfl
  case function h ih =>
    rw [ih]
    exact congrArg _ (h.functions_eq_nil_of_frame rfl)
  case call h ih =>
    rw [ih, h.allFunctions_eq_nil]
    rfl
  case last ih => rw [ih]
  case next ih ihrest => rw [ih, ihrest]
  case argument ih ihrest => rw [ih, ihrest]

/-- Where a part compiles, its texts are those that are compiled: none is called. -/
theorem Compiles.filterMap_text? (h : Compiles options s p c s') :
    p.nodes.filterMap Expr.text? = p.strings := by
  induction h with
  | number hkind _ =>
    obtain ⟨rfl, -⟩ | ⟨rfl, -⟩ | ⟨rfl, -⟩ := hkind <;> rfl
  | _ =>
    simp_all [Part.nodes, Expr.nodes, Expr.allNodes, List.filterMap_cons, Expr.text?, Text.utf8?]

/-- Where a part compiles, every text in it has bytes. -/
theorem Compiles.exists_plain_of_mem_nodes (h : Compiles options s p c s') {text : Text}
    {line : Line} (hmem : .literal .string (.text text) line ∈ p.nodes) :
    ∃ string : String, text = string := by
  induction h with
  | string =>
    cases List.mem_singleton.mp hmem
    exact ⟨_, rfl⟩
  -- any other node that compiles is no text, so it holds one only in its parts
  | _ => grind [Part.nodes, Expr.nodes, Expr.allNodes]

/-! ### Programs -/

namespace CompiledProgram

variable {program : Program} {m : Module} {final : Scope}

theorem definitions_eq (h : CompiledProgram options program m c final) :
    Expr.definitions program = Expr.allFunctions program :=
  h.compiles.filterMap_definition?

theorem globalNames_eq (h : CompiledProgram options program m c final) :
    Expr.globalNames program = Expr.allLets program :=
  h.compiles.filterMap_declaredName?

theorem texts_eq (h : CompiledProgram options program m c final) :
    Expr.texts program = Expr.allStrings program :=
  h.compiles.filterMap_text?

end CompiledProgram

end StackScript
