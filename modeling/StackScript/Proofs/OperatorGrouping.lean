import StackScript.Proofs.TokenWriting

/-!
# How operators group

Parsed expressions have a shape that the text alone must show, since nothing in it groups a part of
an expression. An operator takes as its right operand only what binds tighter, and as its left
operand what binds at least as tight; an operator in front takes no other operator with it; only a
name, a literal or a call is called. An assignment takes all that follows it.

Both bounds of an operand come from the tokens at which its reading started and stopped. On the left
this is the power at which it was read. On the right it is how tightly the next token may bind, and
that depends on the right end of the expression alone.

## Main definitions

* `Expr.nodes`, `Expr.allNodes`: the nodes of trees.
* `Expr.AtRightEnd`: a node at the right end of an expression.
* `Expr.rightPower`: how tightly a token behind an expression may bind.
* `Expr.Settled`: an expression that is read at a power and stands before some tokens.
* `GroupedNodes`: how the nodes of a program are grouped.

## Main results

* `Parses.settled`: what each rule reads is settled before the tokens that it leaves.
* `groupedNodes_of_parseProgram`: how a parsed program is grouped.
-/

namespace StackScript

/-! ### Shapes -/

/-- How tightly a binary operator binds. -/
def BinaryOp.bindingPower (op : BinaryOp) : Nat := op.tokenKind.bindingPower

theorem BinaryOp.bindingPower_pos (op : BinaryOp) : 0 < op.bindingPower := by
  cases op <;> decide

theorem BinaryOp.bindingPower_lt_unary (op : BinaryOp) : op.bindingPower < unaryBindingPower := by
  cases op <;> decide

/-- Nothing binds tighter than the parenthesis of a call. -/
theorem TokenKind.bindingPower_le_lparen (kind : TokenKind) :
    kind.bindingPower ≤ TokenKind.lparen.bindingPower := by
  cases kind <;> decide

namespace Expr

mutual

/-- The nodes of a tree: its root and all that is inside. -/
def nodes : Expr → List Expr
  | block body line => block body line :: allNodes body
  | binary left op right line => binary left op right line :: (left.nodes ++ right.nodes)
  | unary op operand line => unary op operand line :: operand.nodes
  | declare name value line => declare name value line :: value.nodes
  | get name line => [get name line]
  | assign name value line => assign name value line :: value.nodes
  | print value line => print value line :: value.nodes
  | ifElse condition thenBranch none line =>
    ifElse condition thenBranch none line :: (condition.nodes ++ thenBranch.nodes)
  | ifElse condition thenBranch (some elseBranch) line =>
    ifElse condition thenBranch (some elseBranch) line ::
      (condition.nodes ++ thenBranch.nodes ++ elseBranch.nodes)
  | function name params body line => function name params body line :: allNodes body
  | call callee args line => call callee args line :: (callee.nodes ++ allNodes args)
  | literal kind value line => [literal kind value line]

/-- The nodes of trees in order. -/
def allNodes : List Expr → List Expr
  | [] => []
  | e :: rest => e.nodes ++ allNodes rest

end

/-- A node at the right end of an expression, which is reached by following right operands, operands
of unary operators and assigned values. -/
inductive AtRightEnd (e : Expr) : Expr → Prop
  | here : AtRightEnd e e
  | binary {left right : Expr} {op : BinaryOp} {line : Line} :
      AtRightEnd e right → AtRightEnd e (.binary left op right line)
  | unary {operand : Expr} {op : UnaryOp} {line : Line} :
      AtRightEnd e operand → AtRightEnd e (.unary op operand line)
  | assign {name : String} {value : Expr} {line : Line} :
      AtRightEnd e value → AtRightEnd e (.assign name value line)

/-- How tightly the operator of a binary expression binds. -/
def operatorPower? : Expr → Option Nat
  | binary _ op _ _ => some op.bindingPower
  | _ => none

/-- How tightly a token behind an expression may bind. One that binds tighter is read into the
expression, so it does not stand behind it. -/
def rightPower : Expr → Nat
  | binary _ op right _ => min op.bindingPower right.rightPower
  | unary _ operand _ => min unaryBindingPower operand.rightPower
  | get .. | call .. | literal .. => TokenKind.lparen.bindingPower
  | _ => 0

/-- No operator stands behind an assignment. -/
theorem AtRightEnd.rightPower_eq_zero {e : Expr} {name : String} {value : Expr} {line : Line}
    (h : AtRightEnd (.assign name value line) e) : e.rightPower = 0 := by
  induction h with
  | here => rfl
  | binary _ ih => rw [rightPower, ih, Nat.min_zero]
  | unary _ ih => rw [rightPower, ih, Nat.min_zero]
  | assign _ _ => rfl

/-- What may stand before the parenthesis of a call. -/
theorem callable_of_rightPower {e : Expr} (h : TokenKind.lparen.bindingPower ≤ e.rightPower) :
    (∃ kind value line, e = .literal kind value line) ∨ (∃ name line, e = .get name line) ∨
      ∃ callee args line, e = .call callee args line := by
  cases e with
  | literal kind value line => exact .inl ⟨kind, value, line, rfl⟩
  | get name line => exact .inr (.inl ⟨name, line, rfl⟩)
  | call callee args line => exact .inr (.inr ⟨callee, args, line, rfl⟩)
  | binary left op right line =>
    have hpower : TokenKind.lparen.bindingPower ≤ op.bindingPower :=
      Nat.le_trans h (Nat.min_le_left _ _)
    exact absurd (Nat.lt_of_le_of_lt hpower op.bindingPower_lt_unary) (by decide)
  | unary op operand line => exact absurd (Nat.le_trans h (Nat.min_le_left _ _)) (by decide)
  | block | declare | assign | print | ifElse | function => cases h

/-- A node whose operands are those that its operator may have. -/
def IsGrouped : Expr → Prop
  | binary left op right _ =>
    op.bindingPower ≤ left.rightPower ∧ ∀ power ∈ right.operatorPower?, op.bindingPower < power
  | unary _ operand _ => operand.operatorPower? = none
  | call callee _ _ => TokenKind.lparen.bindingPower ≤ callee.rightPower
  | _ => True

/-- Trees whose nodes are all grouped. -/
def AllGrouped (list : List Expr) : Prop := ∀ node ∈ allNodes list, node.IsGrouped

section

variable {e : Expr} {list more : List Expr}

theorem AllGrouped.nil : AllGrouped [] := fun _ h => nomatch h

theorem allGrouped_cons : AllGrouped (e :: list) ↔ (∀ node ∈ e.nodes, node.IsGrouped) ∧
    AllGrouped list :=
  List.forall_mem_append

theorem AllGrouped.cons (he : AllGrouped [e]) (h : AllGrouped list) : AllGrouped (e :: list) :=
  allGrouped_cons.mpr ⟨(allGrouped_cons.mp he).1, h⟩

/-- A tree is grouped if its root is and the trees right inside it are. -/
theorem AllGrouped.root (hroot : e.IsGrouped) (h : AllGrouped list)
    (hnodes : e.nodes = e :: allNodes list) : AllGrouped [e] := by
  refine allGrouped_cons.mpr ⟨?_, .nil⟩
  rw [hnodes]
  exact List.forall_mem_cons.mpr ⟨hroot, h⟩

end

end Expr

/-! ### What is read -/

/-- The first of some tokens binds no tighter than a power. -/
def NextBinds (ts : List Token) (power : Nat) : Prop :=
  ∀ t ∈ ts.head?, t.kind.bindingPower ≤ power

/-- An expression that is read at a power and stands before some tokens. -/
structure Expr.Settled (power : Nat) (ts : List Token) (e : Expr) : Prop where
  grouped : Expr.AllGrouped [e]
  tighter : ∀ own ∈ e.operatorPower?, power < own
  next : NextBinds ts e.rightPower

/-- What a phrase reads is grouped, and an expression is settled before the tokens that are left. -/
def Phrase.Settled (ts rest : List Token) : Phrase → Prop
  | expression power e => e.Settled power rest ∧ NextBinds rest power
  | operand e => Expr.AllGrouped [e] ∧ e.operatorPower? = none ∧ NextBinds rest e.rightPower
  | operators power left whole =>
    left.Settled power ts → whole.Settled power rest ∧ NextBinds rest power
  | arguments list | block list | program list => Expr.AllGrouped list
  | parameters _ => True
  | simple e | statement e => Expr.AllGrouped [e]

theorem nextBinds_lparen (ts : List Token) : NextBinds ts TokenKind.lparen.bindingPower :=
  fun t _ => t.kind.bindingPower_le_lparen

theorem Expr.Settled.binary {power : Nat} {left right : Expr} {op : BinaryOp} {t : Token}
    {rest ts : List Token} (hpower : power < t.kind.bindingPower)
    (hop : BinaryOp.ofToken? t.kind = some op) (hleft : left.Settled power (t :: rest))
    (hright : right.Settled t.kind.bindingPower ts) (hnext : NextBinds ts t.kind.bindingPower) :
    (Expr.binary left op right t.line).Settled power ts := by
  have hkind : t.kind.bindingPower = op.bindingPower :=
    congrArg TokenKind.bindingPower (BinaryOp.ofToken?_eq_some_iff.mp hop)
  rw [hkind] at hpower hright hnext
  have hbehind : op.bindingPower ≤ left.rightPower := hkind ▸ hleft.next t rfl
  refine ⟨.root ⟨hbehind, hright.tighter⟩ (.cons hleft.grouped hright.grouped) ?_, ?_, ?_⟩
  · rw [nodes, allNodes, allNodes, allNodes, List.append_nil]
  · rintro own ⟨rfl⟩
    exact hpower
  · exact fun u hu => Nat.le_min.mpr ⟨hnext u hu, hright.next u hu⟩

theorem Expr.Settled.call {power : Nat} {left : Expr} {args : List Expr} {t : Token}
    {rest ts : List Token} (hkind : t.kind = .lparen) (hleft : left.Settled power (t :: rest))
    (hargs : Expr.AllGrouped args) : (Expr.call left args t.line).Settled power ts := by
  have hbehind : TokenKind.lparen.bindingPower ≤ left.rightPower := hkind ▸ hleft.next t rfl
  refine ⟨.root hbehind (.cons hleft.grouped hargs) ?_, ?_, nextBinds_lparen ts⟩
  · rw [nodes, allNodes]
  · rintro own ⟨⟩

/-- The operand of an operator in front has no operator between two operands of its own. -/
theorem Expr.Settled.unary {operand : Expr} {op : UnaryOp} {line : Line} {ts : List Token}
    (h : operand.Settled unaryBindingPower ts) (hnext : NextBinds ts unaryBindingPower) :
    (Phrase.operand (.unary op operand line)).Settled ts ts := by
  have hoperator : operand.operatorPower? = none := by
    cases operand with
    | binary left op right line =>
      exact absurd (h.tighter _ rfl) (Nat.lt_asymm op.bindingPower_lt_unary)
    | _ => rfl
  refine ⟨.root hoperator h.grouped ?_, rfl, fun u hu => ?_⟩
  · rw [nodes, allNodes, allNodes, List.append_nil]
  · exact Nat.le_min.mpr ⟨hnext u hu, h.next u hu⟩

/-- What each rule reads is settled before the tokens that it leaves. -/
theorem Parses.settled {phrase : Phrase} {ts rest : List Token} (h : Parses phrase ts rest) :
    phrase.Settled ts rest := by
  induction h with
  | expression _ _ ihoperand ihoperators =>
    obtain ⟨hgrouped, hnone, hnext⟩ := ihoperand
    exact ihoperators ⟨hgrouped, by simp [hnone], hnext⟩
  | number _ _ | string _ | true _ | false _ | get _ _ =>
    exact ⟨.root trivial .nil rfl, rfl, nextBinds_lparen _⟩
  | assign _ _ _ ih =>
    -- the value was read at the lowest power, so what stops it continues nothing
    refine ⟨.root trivial ih.1.grouped ?_, rfl, ih.2⟩
    rw [Expr.nodes, Expr.allNodes, Expr.allNodes, List.append_nil]
  | not _ _ ih | negate _ _ ih => exact ih.1.unary ih.2
  | stop hpower =>
    refine fun hleft => ⟨hleft, fun t ht => ?_⟩
    cases ht
    exact hpower
  | binary hpower hop _ _ ihright ihwhole =>
    exact fun hleft => ihwhole (hleft.binary hpower hop ihright.1 ihright.2)
  | call _ hkind _ _ ihargs ihwhole => exact fun hleft => ihwhole (hleft.call hkind ihargs)
  | noArguments _ | blockEnd _ | programEnd _ => exact .nil
  | argument _ _ _ _ _ ih ihrest => exact .cons ih.1.grouped ihrest
  | lastArgument _ _ _ _ ih => exact ih.1.grouped
  | noParameters _ | parameter _ _ _ _ | lastParameter _ _ => trivial
  | ended _ _ ih | unended _ _ ih => exact ih.1.grouped
  | declare _ _ _ _ ih | print _ _ ih =>
    refine .root trivial ih ?_
    rw [Expr.nodes, Expr.allNodes, Expr.allNodes, List.append_nil]
  | declareZero _ _ _ =>
    have hzero : ∀ line, Expr.AllGrouped [.literal .number (.int 0) line] :=
      fun _ => .root trivial .nil rfl
    exact .root trivial (hzero _) rfl
  | function _ _ _ _ _ _ _ ihbody | braces _ _ ihbody => exact .root trivial ihbody (by rw [Expr.nodes])
  | ifThen _ _ _ _ ihcondition ihthen =>
    refine .root trivial (.cons ihcondition.1.grouped ihthen) ?_
    rw [Expr.nodes, Expr.allNodes, Expr.allNodes, Expr.allNodes, List.append_nil]
  | ifElse _ _ _ _ _ ihcondition ihthen ihelse =>
    refine .root trivial (.cons ihcondition.1.grouped (.cons ihthen ihelse)) ?_
    rw [Expr.nodes, Expr.allNodes, Expr.allNodes, Expr.allNodes, Expr.allNodes, List.append_nil,
      List.append_assoc]
  | plain _ _ ih => exact ih
  | blockNext _ _ _ _ ih ihrest | programNext _ _ _ ih ihrest => exact .cons ih ihrest

/-! ### Programs -/

/-- How the operators, calls and assignments among the nodes of a program are grouped. -/
structure GroupedNodes (nodes : List Expr) : Prop where
  /-- An operator in a left operand binds at least as tight. -/
  left {l r right : Expr} {op op' : BinaryOp} {line line' : Line} :
    .binary (.binary l op' r line') op right line ∈ nodes → op.bindingPower ≤ op'.bindingPower
  /-- An operator in a right operand binds tighter. So operators of one power associate to the left.
  -/
  right {l r left : Expr} {op op' : BinaryOp} {line line' : Line} :
    .binary left op (.binary l op' r line') line ∈ nodes → op.bindingPower < op'.bindingPower
  /-- An operator in front of an operand takes no other operator with it. -/
  operand {l r : Expr} {op : UnaryOp} {op' : BinaryOp} {line line' : Line} :
    .unary op (.binary l op' r line') line ∉ nodes
  /-- Only literals, variables and calls are called. -/
  callee {e : Expr} {args : List Expr} {line : Line} : .call e args line ∈ nodes →
    (∃ kind value line', e = .literal kind value line') ∨ (∃ name line', e = .get name line') ∨
      ∃ callee args' line', e = .call callee args' line'
  /-- An assignment extends as far as it can, so no left operand ends with one. -/
  assignment {left right value : Expr} {op : BinaryOp} {name : String} {line line' : Line} :
    .binary left op right line ∈ nodes → ¬ Expr.AtRightEnd (.assign name value line') left

/-- The operators, calls and assignments of a parsed program are grouped. -/
theorem groupedNodes_of_parseProgram {tokens : List Token} {p : Parsed Program (tokens.length + 1)}
    (h : parseProgram tokens = .ok p) : GroupedNodes (Expr.allNodes p.value) := by
  have hgrouped : Expr.AllGrouped p.value := (parses_of_parseProgram h).settled
  constructor
  case left =>
    intro l r right op op' line line' hmem
    exact Nat.le_trans (hgrouped _ hmem).1 (Nat.min_le_left _ _)
  case right =>
    intro l r left op op' line line' hmem
    exact (hgrouped _ hmem).2 _ rfl
  case operand =>
    intro l r op op' line line' hmem
    cases hgrouped _ hmem
  case callee =>
    intro e args line hmem
    exact Expr.callable_of_rightPower (hgrouped _ hmem)
  case assignment =>
    intro left right value op name line line' hmem hend
    have hbehind : op.bindingPower ≤ left.rightPower := (hgrouped _ hmem).1
    rw [hend.rightPower_eq_zero] at hbehind
    exact absurd hbehind (Nat.not_le.mpr op.bindingPower_pos)

/-- Operators of one power in a row, and an assignment as the last of their operands, with a call
behind an operator in front. -/
def chainedTokens : List Token :=
  [(.identifier, "a"), (.minus, "-"), (.identifier, "b"), (.minus, "-"), (.identifier, "x"),
    (.equal, "="), (.minus, "-"), (.identifier, "f"), (.lparen, "("), (.number, "1"),
    (.rparen, ")"), (.star, "*"), (.identifier, "c"), (.plus, "+"), (.identifier, "d"),
    (.eof, "")].map fun (kind, lexeme) => ⟨kind, lexeme, ⟨0, 0, 0⟩⟩

/-- All four operators of the chain are nodes, the two differences around the assigned sum. -/
theorem groupedNodes_chainedTokens :
    ∃ p, parseProgram chainedTokens = .ok p ∧
      (Expr.allNodes p.value).filterMap Expr.operatorPower? = [6, 6, 6, 7] ∧
      GroupedNodes (Expr.allNodes p.value) := by
  have hpowers : (parseProgram chainedTokens).toOption.map (fun p =>
      (Expr.allNodes p.value).filterMap Expr.operatorPower?) = some [6, 6, 6, 7] := by
    decide +kernel
  cases h : parseProgram chainedTokens with
  | error failure =>
    rw [h] at hpowers
    cases hpowers
  | ok p =>
    rw [h] at hpowers
    exact ⟨p, rfl, Option.some.inj hpowers, groupedNodes_of_parseProgram h⟩

end StackScript
