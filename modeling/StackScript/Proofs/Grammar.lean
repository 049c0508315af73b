import StackScript.Proofs.Outcome
import StackScript.Source.Parser

/-!
# The grammar of programs

What a list of tokens writes, said once: a rule for each kind of phrase, with the tokens that it takes
from the front and those that it leaves. All that is proved about parsed programs is proved from
these rules.

The operators of an expression come after its first operand. They are a phrase of their own, which
starts with the operand that stands to their left.

## Main definitions

* `Phrase`: what is read from the front of a list of tokens.
* `Parses`: the rules.
* `Consumes`: tokens that are taken from the front, none of which marks the end.

## Main results

* `Parses.consumes`: the rules take tokens from the front and no end mark.
* `parses_of_parseProgram`: a program that is parsed follows the rules.
-/

namespace StackScript

/-- What is read from the front of a list of tokens. -/
inductive Phrase where
  /-- An expression whose operators all bind tighter than a power. -/
  | expression (power : Nat) (e : Expr)
  /-- An expression without an operator behind its first operand. -/
  | operand (e : Expr)
  /-- The operators behind an operand, and the expression that they make of it. -/
  | operators (power : Nat) (left whole : Expr)
  /-- Arguments up to the closing parenthesis. -/
  | arguments (args : List Expr)
  /-- Parameters up to the closing parenthesis. -/
  | parameters (params : List String)
  /-- An expression that may end with a semicolon. -/
  | simple (e : Expr)
  | statement (e : Expr)
  /-- Statements up to the closing brace. -/
  | block (body : List Expr)
  /-- Statements up to the end of the tokens. -/
  | program (body : List Expr)

/-- The kinds of tokens that start a statement other than an expression. -/
def TokenKind.startsStatement : TokenKind → Bool
  | letKw | funKw | printKw | ifKw | lbrace => true
  | _ => false

/-- The rules. A phrase is read from the front of some tokens and leaves others. -/
inductive Parses : Phrase → List Token → List Token → Prop
  | expression {power : Nat} {e whole : Expr} {ts ts₁ ts₂ : List Token} :
      Parses (.operand e) ts ts₁ → Parses (.operators power e whole) ts₁ ts₂ →
      Parses (.expression power whole) ts ts₂
  | number {t : Token} {value : Datum} {rest : List Token} :
      t.kind = .number → numberOfLexeme? t.lexeme = some value →
      Parses (.operand (.literal .number value t.line)) (t :: rest) rest
  | string {t : Token} {rest : List Token} : t.kind = .string →
      Parses (.operand (.literal .string (.text t.lexeme) t.line)) (t :: rest) rest
  | true {t : Token} {rest : List Token} : t.kind = .trueKw →
      Parses (.operand (.literal .true (.truth Bool.true) t.line)) (t :: rest) rest
  | false {t : Token} {rest : List Token} : t.kind = .falseKw →
      Parses (.operand (.literal .false (.truth Bool.false) t.line)) (t :: rest) rest
  | assign {t next : Token} {value : Expr} {after rest : List Token} :
      t.kind = .identifier → next.kind = .equal → Parses (.expression 0 value) after rest →
      Parses (.operand (.assign t.lexeme value t.line)) (t :: next :: after) rest
  | get {t next : Token} {after : List Token} : t.kind = .identifier → next.kind ≠ .equal →
      Parses (.operand (.get t.lexeme t.line)) (t :: next :: after) (next :: after)
  | not {t : Token} {operand : Expr} {rest ts : List Token} : t.kind = .bang →
      Parses (.expression unaryBindingPower operand) rest ts →
      Parses (.operand (.unary .not operand t.line)) (t :: rest) ts
  | negate {t : Token} {operand : Expr} {rest ts : List Token} : t.kind = .minus →
      Parses (.expression unaryBindingPower operand) rest ts →
      Parses (.operand (.unary .negate operand t.line)) (t :: rest) ts
  | stop {power : Nat} {left : Expr} {t : Token} {rest : List Token} :
      t.kind.bindingPower ≤ power → Parses (.operators power left left) (t :: rest) (t :: rest)
  | binary {power : Nat} {left right whole : Expr} {op : BinaryOp} {t : Token}
      {rest ts₁ ts₂ : List Token} :
      power < t.kind.bindingPower → BinaryOp.ofToken? t.kind = some op →
      Parses (.expression t.kind.bindingPower right) rest ts₁ →
      Parses (.operators power (.binary left op right t.line) whole) ts₁ ts₂ →
      Parses (.operators power left whole) (t :: rest) ts₂
  | call {power : Nat} {left whole : Expr} {args : List Expr} {t : Token}
      {rest ts₁ ts₂ : List Token} :
      power < t.kind.bindingPower → t.kind = .lparen → Parses (.arguments args) rest ts₁ →
      Parses (.operators power (.call left args t.line) whole) ts₁ ts₂ →
      Parses (.operators power left whole) (t :: rest) ts₂
  | noArguments {t : Token} {rest : List Token} : t.kind = .rparen →
      Parses (.arguments []) (t :: rest) rest
  | argument {t next : Token} {e : Expr} {args : List Expr} {rest after ts : List Token} :
      t.kind ≠ .rparen → t.kind ≠ .eof → Parses (.expression 0 e) (t :: rest) (next :: after) →
      next.kind = .comma → Parses (.arguments args) after ts →
      Parses (.arguments (e :: args)) (t :: rest) ts
  | lastArgument {t next : Token} {e : Expr} {rest after : List Token} :
      t.kind ≠ .rparen → t.kind ≠ .eof → Parses (.expression 0 e) (t :: rest) (next :: after) →
      next.kind = .rparen → Parses (.arguments [e]) (t :: rest) after
  | noParameters {t : Token} {rest : List Token} : t.kind = .rparen →
      Parses (.parameters []) (t :: rest) rest
  | parameter {t next : Token} {params : List String} {after ts : List Token} :
      t.kind = .identifier → next.kind = .comma → Parses (.parameters params) after ts →
      Parses (.parameters (t.lexeme :: params)) (t :: next :: after) ts
  | lastParameter {t next : Token} {after : List Token} :
      t.kind = .identifier → next.kind = .rparen →
      Parses (.parameters [t.lexeme]) (t :: next :: after) after
  | ended {t : Token} {e : Expr} {ts rest : List Token} :
      Parses (.expression 0 e) ts (t :: rest) → t.kind = .semicolon → Parses (.simple e) ts rest
  | unended {t : Token} {e : Expr} {ts rest : List Token} :
      Parses (.expression 0 e) ts (t :: rest) → t.kind ≠ .semicolon →
      Parses (.simple e) ts (t :: rest)
  | declare {t name next : Token} {e : Expr} {rest ts : List Token} :
      t.kind = .letKw → name.kind = .identifier → next.kind = .equal →
      Parses (.simple e) rest ts →
      Parses (.statement (.declare name.lexeme e t.line)) (t :: name :: next :: rest) ts
  | declareZero {t name next : Token} {rest : List Token} :
      t.kind = .letKw → name.kind = .identifier → next.kind = .semicolon →
      Parses (.statement (.declare name.lexeme (.literal .number (.int 0) t.line) t.line))
        (t :: name :: next :: rest) rest
  | function {t name opening brace : Token} {params : List String} {body : List Expr}
      {rest ts ts' : List Token} :
      t.kind = .funKw → name.kind = .identifier → opening.kind = .lparen →
      Parses (.parameters params) rest (brace :: ts) → brace.kind = .lbrace →
      Parses (.block body) ts ts' →
      Parses (.statement (.function name.lexeme params body t.line))
        (t :: name :: opening :: rest) ts'
  | print {t : Token} {e : Expr} {rest ts : List Token} : t.kind = .printKw →
      Parses (.simple e) rest ts → Parses (.statement (.print e t.line)) (t :: rest) ts
  | ifThen {t next : Token} {condition thenBranch : Expr} {rest ts ts' : List Token} :
      t.kind = .ifKw → Parses (.expression 0 condition) rest ts →
      Parses (.statement thenBranch) ts (next :: ts') → next.kind ≠ .elseKw →
      Parses (.statement (.ifElse condition thenBranch none t.line)) (t :: rest) (next :: ts')
  | ifElse {t next : Token} {condition thenBranch elseBranch : Expr}
      {rest ts ts' ts'' : List Token} :
      t.kind = .ifKw → Parses (.expression 0 condition) rest ts →
      Parses (.statement thenBranch) ts (next :: ts') → next.kind = .elseKw →
      Parses (.statement elseBranch) ts' ts'' →
      Parses (.statement (.ifElse condition thenBranch (some elseBranch) t.line)) (t :: rest) ts''
  | braces {t : Token} {body : List Expr} {rest ts : List Token} : t.kind = .lbrace →
      Parses (.block body) rest ts → Parses (.statement (.block body t.line)) (t :: rest) ts
  | plain {t : Token} {e : Expr} {rest ts : List Token} : t.kind.startsStatement = .false →
      Parses (.simple e) (t :: rest) ts → Parses (.statement e) (t :: rest) ts
  | blockEnd {t : Token} {rest : List Token} : t.kind = .rbrace →
      Parses (.block []) (t :: rest) rest
  | blockNext {t : Token} {e : Expr} {body : List Expr} {rest ts ts' : List Token} :
      t.kind ≠ .rbrace → t.kind ≠ .eof → Parses (.statement e) (t :: rest) ts →
      Parses (.block body) ts ts' → Parses (.block (e :: body)) (t :: rest) ts'
  | programEnd {t : Token} {rest : List Token} : t.kind = .eof →
      Parses (.program []) (t :: rest) (t :: rest)
  | programNext {t : Token} {e : Expr} {body : List Expr} {rest ts ts' : List Token} :
      t.kind ≠ .eof → Parses (.statement e) (t :: rest) ts → Parses (.program body) ts ts' →
      Parses (.program (e :: body)) (t :: rest) ts'

/-! ### What the rules take -/

/-- Some tokens are left when others, none of which marks the end, are taken from the front. -/
inductive Consumes : List Token → List Token → Prop
  | refl (ts : List Token) : Consumes ts ts
  | cons {t : Token} {ts rest : List Token} : t.kind ≠ .eof → Consumes ts rest →
      Consumes (t :: ts) rest

namespace Consumes

variable {t : Token} {ts ts' rest : List Token}

theorem trans (h : Consumes ts ts') (h' : Consumes ts' rest) : Consumes ts rest := by
  induction h with
  | refl => exact h'
  | cons ht _ ih => exact .cons ht (ih h')

theorem of_kind {kind : TokenKind} (hkind : t.kind = kind) (hne : kind ≠ .eof)
    (h : Consumes ts rest) : Consumes (t :: ts) rest :=
  .cons (hkind ▸ hne) h

/-- Taking one more token. -/
theorem tail {kind : TokenKind} (h : Consumes ts (t :: rest)) (hkind : t.kind = kind)
    (hne : kind ≠ .eof) : Consumes ts rest :=
  h.trans (.of_kind hkind hne (.refl rest))

/-- An end mark does not bind. -/
theorem of_bindingPower {power : Nat} (hpower : power < t.kind.bindingPower)
    (h : Consumes ts rest) : Consumes (t :: ts) rest := by
  refine .cons (fun heof => ?_) h
  rw [heof] at hpower
  exact Nat.not_lt_zero _ hpower

theorem exists_append (h : Consumes ts rest) :
    ∃ taken, ts = taken ++ rest ∧ ∀ t ∈ taken, t.kind ≠ .eof := by
  induction h with
  | refl => exact ⟨[], rfl, List.forall_mem_nil _⟩
  | @cons t _ _ ht _ ih =>
    obtain ⟨taken, rfl, htaken⟩ := ih
    exact ⟨t :: taken, rfl, List.forall_mem_cons.mpr ⟨ht, htaken⟩⟩

theorem suffix (h : Consumes ts rest) : rest <:+ ts := by
  obtain ⟨taken, rfl, -⟩ := h.exists_append
  exact List.suffix_append taken rest

end Consumes

/-- Each rule takes tokens from the front only, and no end mark. -/
theorem Parses.consumes {phrase : Phrase} {ts rest : List Token} (h : Parses phrase ts rest) :
    Consumes ts rest := by
  induction h with
  | expression _ _ ih ih' => exact ih.trans ih'
  | number hkind | string hkind | true hkind | false hkind | get hkind | noArguments hkind
  | noParameters hkind | blockEnd hkind => exact .of_kind hkind (by decide) (.refl _)
  | assign hkind hnext _ ih | parameter hkind hnext _ ih =>
    exact .of_kind hkind (by decide) (.of_kind hnext (by decide) ih)
  | not hkind _ ih | negate hkind _ ih | print hkind _ ih | braces hkind _ ih =>
    exact .of_kind hkind (by decide) ih
  | stop | programEnd => exact .refl _
  | binary hpower _ _ _ ih ih' | call hpower _ _ _ ih ih' =>
    exact .of_bindingPower hpower (ih.trans ih')
  | argument _ _ _ hnext _ ih ih' => exact (ih.tail hnext (by decide)).trans ih'
  | lastArgument _ _ _ hnext ih => exact ih.tail hnext (by decide)
  | lastParameter hkind hnext =>
    exact .of_kind hkind (by decide) (.of_kind hnext (by decide) (.refl _))
  | ended _ hkind ih => exact ih.tail hkind (by decide)
  | unended _ _ ih | plain _ _ ih => exact ih
  | declare hkind hname hnext _ ih =>
    exact .of_kind hkind (by decide) (.of_kind hname (by decide) (.of_kind hnext (by decide) ih))
  | declareZero hkind hname hnext =>
    exact .of_kind hkind (by decide)
      (.of_kind hname (by decide) (.of_kind hnext (by decide) (.refl _)))
  | function hkind hname hopen _ hbrace _ ih ih' =>
    exact .of_kind hkind (by decide) (.of_kind hname (by decide) (.of_kind hopen (by decide)
      ((ih.tail hbrace (by decide)).trans ih')))
  | ifThen hkind _ _ _ ih ih' => exact .of_kind hkind (by decide) (ih.trans ih')
  | ifElse hkind _ _ helse _ ih ih' ih'' =>
    exact .of_kind hkind (by decide) (ih.trans ((ih'.tail helse (by decide)).trans ih''))
  | blockNext _ _ _ _ ih ih' | programNext _ _ _ ih ih' => exact ih.trans ih'

/-! ### Parsing follows the rules -/

variable {lastLine : Option Line}

theorem expectToken_eq_ok {kind : TokenKind} {tokens rest : List Token} {t : Token}
    {hless : rest.length < tokens.length}
    (h : expectToken lastLine kind tokens = .ok ⟨t, rest, hless⟩) :
    tokens = t :: rest ∧ t.kind = kind := by
  unfold expectToken at h
  split at h
  · cases h
  · rename_i t rest
    by_cases hkind : t.kind = kind
    · rw [if_pos hkind] at h
      cases h
      exact ⟨rfl, hkind⟩
    · rw [if_neg hkind] at h
      cases h

theorem skipToken_eq_ok {kind : TokenKind} {tokens after : List Token} {skips : Bool}
    {hless : after.length < tokens.length + 1}
    (h : skipToken lastLine kind tokens = .ok ⟨skips, after, hless⟩) :
    (skips = true ∧ ∃ t, tokens = t :: after ∧ t.kind = kind) ∨
      (skips = false ∧ tokens = after ∧ ∃ t rest, tokens = t :: rest ∧ t.kind ≠ kind) := by
  unfold skipToken at h
  split at h
  · cases h
  · rename_i t rest
    by_cases hkind : t.kind = kind
    · rw [if_pos hkind] at h
      cases h
      exact .inl ⟨rfl, t, rfl, hkind⟩
    · rw [if_neg hkind] at h
      cases h
      exact .inr ⟨rfl, rfl, t, rest, rfl, hkind⟩

mutual

theorem parses_of_parseExpression {power : Nat} {tokens : List Token}
    {p : Parsed Expr tokens.length} (h : parseExpression lastLine power tokens = .ok p) :
    Parses (.expression power p.value) tokens p.rest := by
  rw [parseExpression] at h
  obtain ⟨first, hfirst, h⟩ := bind_eq_ok_iff.mp h
  obtain ⟨whole, hwhole, h⟩ := bind_eq_ok_iff.mp h
  cases h
  have hshorter := first.shorter
  exact .expression (parses_of_parseOperand hfirst) (parses_of_parseOperators hwhole)
termination_by 3 * tokens.length + 1

theorem parses_of_parseOperand {tokens : List Token} {p : Parsed Expr tokens.length}
    (h : parseOperand lastLine tokens = .ok p) : Parses (.operand p.value) tokens p.rest := by
  cases tokens with
  | nil =>
    rw [parseOperand] at h
    cases h
  | cons t rest =>
    rw [parseOperand.eq_def] at h
    dsimp only at h
    split at h
    · -- a number
      rename_i hkind
      split at h
      · rename_i value hvalue
        cases h
        exact .number hkind hvalue
      · cases h
    · -- the literals that stand for themselves
      rename_i hkind
      cases h
      exact .string hkind
    · rename_i hkind
      cases h
      exact .true hkind
    · rename_i hkind
      cases h
      exact .false hkind
    · -- a name, which may be assigned to
      rename_i hkind
      cases rest with
      | nil => cases h
      | cons next after =>
        dsimp only at h
        by_cases hnext : next.kind = .equal
        · rw [if_pos hnext] at h
          obtain ⟨value, hvalue, h⟩ := bind_eq_ok_iff.mp h
          cases h
          exact .assign hkind hnext (parses_of_parseExpression hvalue)
        · rw [if_neg hnext] at h
          cases h
          exact .get hkind hnext
    · -- the two signs in front of an operand
      rename_i hkind
      obtain ⟨operand, hoperand, h⟩ := bind_eq_ok_iff.mp h
      cases h
      exact .not hkind (parses_of_parseExpression hoperand)
    · rename_i hkind
      obtain ⟨operand, hoperand, h⟩ := bind_eq_ok_iff.mp h
      cases h
      exact .negate hkind (parses_of_parseExpression hoperand)
    · -- the end of the source, and kinds that start no operand
      cases h
    · cases h
termination_by 3 * tokens.length

theorem parses_of_parseOperators {power : Nat} {left : Expr} {tokens : List Token}
    {p : Parsed Expr (tokens.length + 1)} (h : parseOperators lastLine power left tokens = .ok p) :
    Parses (.operators power left p.value) tokens p.rest := by
  cases tokens with
  | nil =>
    rw [parseOperators] at h
    cases h
  | cons t rest =>
    rw [parseOperators] at h
    by_cases hpower : t.kind.bindingPower ≤ power
    · rw [if_pos hpower] at h
      cases h
      exact .stop hpower
    · rw [if_neg hpower] at h
      split at h
      · rename_i op hop
        obtain ⟨right, hright, h⟩ := bind_eq_ok_iff.mp h
        obtain ⟨whole, hwhole, h⟩ := bind_eq_ok_iff.mp h
        cases h
        -- what was read is shorter, so the rest is parsed by recursion
        have hshorter := right.shorter
        exact .binary (Nat.lt_of_not_le hpower) hop (parses_of_parseExpression hright)
          (parses_of_parseOperators hwhole)
      · by_cases hkind : t.kind = .lparen
        · rw [if_pos hkind] at h
          obtain ⟨args, hargs, h⟩ := bind_eq_ok_iff.mp h
          obtain ⟨whole, hwhole, h⟩ := bind_eq_ok_iff.mp h
          cases h
          have hshorter := args.shorter
          exact .call (Nat.lt_of_not_le hpower) hkind (parses_of_parseArguments hargs)
            (parses_of_parseOperators hwhole)
        · rw [if_neg hkind] at h
          cases h
termination_by 3 * tokens.length
decreasing_by all_goals (subst_vars; simp only [List.length_cons]; omega)

theorem parses_of_parseArguments {tokens : List Token} {p : Parsed (List Expr) tokens.length}
    (h : parseArguments lastLine tokens = .ok p) : Parses (.arguments p.value) tokens p.rest := by
  cases tokens with
  | nil =>
    rw [parseArguments] at h
    cases h
  | cons t rest =>
    rw [parseArguments] at h
    by_cases hclose : t.kind = .rparen
    · rw [if_pos hclose] at h
      cases h
      exact .noArguments hclose
    by_cases heof : t.kind = .eof
    · rw [if_neg hclose, if_pos heof] at h
      cases h
    rw [if_neg hclose, if_neg heof] at h
    obtain ⟨first, hfirst, h⟩ := bind_eq_ok_iff.mp h
    have hexpression := parses_of_parseExpression hfirst
    -- Behind an argument there is a token, and the rules differ by its kind.
    obtain ⟨value, _ | ⟨next, after⟩, hshorter⟩ := first
    · cases h
    have hless : after.length + 1 < rest.length + 1 := hshorter
    dsimp only at h
    by_cases hcomma : next.kind = .comma
    · rw [if_pos hcomma] at h
      obtain ⟨others, hothers, h⟩ := bind_eq_ok_iff.mp h
      cases h
      exact .argument hclose heof hexpression hcomma (parses_of_parseArguments hothers)
    by_cases hlast : next.kind = .rparen
    · rw [if_neg hcomma, if_pos hlast] at h
      cases h
      exact .lastArgument hclose heof hexpression hlast
    · rw [if_neg hcomma, if_neg hlast] at h
      cases h
termination_by 3 * tokens.length + 2
decreasing_by all_goals (subst_vars; simp only [List.length_cons]; omega)

end

theorem parses_of_parseExpressionStatement {tokens : List Token} {p : Parsed Expr tokens.length}
    (h : parseExpressionStatement lastLine tokens = .ok p) :
    Parses (.simple p.value) tokens p.rest := by
  obtain ⟨value, hvalue, h⟩ := bind_eq_ok_iff.mp h
  obtain ⟨skipped, hskipped, h⟩ := bind_eq_ok_iff.mp h
  cases h
  have hexpression := parses_of_parseExpression hvalue
  rcases skipToken_eq_ok hskipped with ⟨-, t, hrest, hkind⟩ | ⟨-, hrest, t, rest, htokens, hkind⟩
  · rw [hrest] at hexpression
    exact .ended hexpression hkind
  · change Parses (.simple value.value) tokens skipped.rest
    rw [← hrest, htokens]
    rw [htokens] at hexpression
    exact .unended hexpression hkind

theorem parses_of_parseVariable {t : Token} {tokens : List Token} {p : Parsed Expr tokens.length}
    (hkind : t.kind = .letKw) (h : parseVariable lastLine t.line tokens = .ok p) :
    Parses (.statement p.value) (t :: tokens) p.rest := by
  obtain ⟨⟨name, rest, hless⟩, hname, h⟩ := bind_eq_ok_iff.mp h
  obtain ⟨⟨skips, after, hless'⟩, hskips, h⟩ := bind_eq_ok_iff.mp h
  obtain ⟨rfl, hidentifier⟩ := expectToken_eq_ok hname
  rcases skipToken_eq_ok hskips with ⟨rfl, next, rfl, hequal⟩ | ⟨rfl, rfl, -⟩
  · obtain ⟨value, hsimple, h⟩ := bind_eq_ok_iff.mp h
    cases h
    exact .declare hkind hidentifier hequal (parses_of_parseExpressionStatement hsimple)
  · obtain ⟨⟨stop, rest', hless''⟩, hstop, h⟩ := bind_eq_ok_iff.mp h
    cases h
    obtain ⟨rfl, hsemicolon⟩ := expectToken_eq_ok hstop
    exact .declareZero hkind hidentifier hsemicolon

theorem parses_of_parseParameters : ∀ (tokens : List Token) (p : Parsed (List String) tokens.length),
    parseParameters lastLine tokens = .ok p → Parses (.parameters p.value) tokens p.rest
  | [], p, h => by
    rw [parseParameters] at h
    cases h
  | t :: rest, p, h => by
    rw [parseParameters.eq_def] at h
    dsimp only at h
    by_cases hclose : t.kind = .rparen
    · rw [if_pos hclose] at h
      cases h
      exact .noParameters hclose
    by_cases heof : t.kind = .eof
    · rw [if_neg hclose, if_pos heof] at h
      cases h
    by_cases hidentifier : t.kind = .identifier
    · rw [if_neg hclose, if_neg heof, if_pos hidentifier] at h
      match rest, p, h with
      | [], _, h => cases h
      | next :: after, p, h =>
        dsimp only at h
        by_cases hcomma : next.kind = .comma
        · rw [if_pos hcomma] at h
          obtain ⟨others, hothers, h⟩ := bind_eq_ok_iff.mp h
          cases h
          exact .parameter hidentifier hcomma (parses_of_parseParameters after others hothers)
        by_cases hlast : next.kind = .rparen
        · rw [if_neg hcomma, if_pos hlast] at h
          cases h
          exact .lastParameter hidentifier hlast
        · rw [if_neg hcomma, if_neg hlast] at h
          cases h
    · rw [if_neg hclose, if_neg heof, if_neg hidentifier] at h
      cases h

mutual

theorem parses_of_parseDeclaration {tokens : List Token} {p : Parsed Expr tokens.length}
    (h : parseDeclaration lastLine tokens = .ok p) : Parses (.statement p.value) tokens p.rest := by
  cases tokens with
  | nil =>
    rw [parseDeclaration] at h
    cases h
  | cons t tokens =>
    rw [parseDeclaration.eq_def] at h
    dsimp only at h
    split at h
    · -- a declaration
      rename_i hkind
      obtain ⟨declared, hdeclared, h⟩ := bind_eq_ok_iff.mp h
      cases h
      exact parses_of_parseVariable hkind hdeclared
    · -- a definition
      rename_i hkind
      obtain ⟨⟨name, rest, hless⟩, hname, h⟩ := bind_eq_ok_iff.mp h
      obtain ⟨⟨opening, rest', hless'⟩, hopening, h⟩ := bind_eq_ok_iff.mp h
      obtain ⟨params, hparams, h⟩ := bind_eq_ok_iff.mp h
      obtain ⟨brace, hbrace, h⟩ := bind_eq_ok_iff.mp h
      obtain ⟨body, hbody, h⟩ := bind_eq_ok_iff.mp h
      cases h
      obtain ⟨rfl, hidentifier⟩ := expectToken_eq_ok hname
      obtain ⟨rfl, hlparen⟩ := expectToken_eq_ok hopening
      obtain ⟨hrest, hlbrace⟩ := expectToken_eq_ok hbrace
      have hparameters := parses_of_parseParameters _ params hparams
      rw [hrest] at hparameters
      -- the body is parsed from behind the brace, which is past the parameters
      have hshorter : params.rest.length < rest'.length := params.shorter
      have hshorter' := brace.shorter
      exact .function hkind hidentifier hlparen hparameters hlbrace
        (parses_of_parseBlockBody hbody)
    · -- a print statement
      rename_i hkind
      obtain ⟨value, hvalue, h⟩ := bind_eq_ok_iff.mp h
      cases h
      exact .print hkind (parses_of_parseExpressionStatement hvalue)
    · -- a conditional, with the rest depending on whether `else` follows
      rename_i hkind
      obtain ⟨condition, hcondition, h⟩ := bind_eq_ok_iff.mp h
      obtain ⟨⟨thenBranch, rest, hless⟩, hthen, h⟩ := bind_eq_ok_iff.mp h
      obtain ⟨⟨skips, after, hless'⟩, hskips, h⟩ := bind_eq_ok_iff.mp h
      have hshorter := condition.shorter
      have hthen' := parses_of_parseDeclaration hthen
      rcases skipToken_eq_ok hskips with ⟨rfl, next, rfl, helse⟩ | ⟨rfl, rfl, next, rest', rfl, helse⟩
      · obtain ⟨elseBranch, helse', h⟩ := bind_eq_ok_iff.mp h
        cases h
        have hless'' : after.length + 1 < condition.rest.length := hless
        exact .ifElse hkind (parses_of_parseExpression hcondition) hthen' helse
          (parses_of_parseDeclaration helse')
      · cases h
        exact .ifThen hkind (parses_of_parseExpression hcondition) hthen' helse
    · -- a block
      rename_i hkind
      obtain ⟨body, hbody, h⟩ := bind_eq_ok_iff.mp h
      cases h
      exact .braces hkind (parses_of_parseBlockBody hbody)
    · -- No other kind starts a statement of its own.
      refine .plain ?_ (parses_of_parseExpressionStatement h)
      cases hkind : t.kind <;> first | rfl | contradiction
termination_by 2 * tokens.length
decreasing_by all_goals (subst_vars; simp only [List.length_cons]; omega)

theorem parses_of_parseBlockBody {tokens : List Token} {p : Parsed (List Expr) tokens.length}
    (h : parseBlockBody lastLine tokens = .ok p) : Parses (.block p.value) tokens p.rest := by
  cases tokens with
  | nil =>
    rw [parseBlockBody] at h
    cases h
  | cons t rest =>
    rw [parseBlockBody] at h
    by_cases hclose : t.kind = .rbrace
    · rw [if_pos hclose] at h
      cases h
      exact .blockEnd hclose
    by_cases heof : t.kind = .eof
    · rw [if_neg hclose, if_pos heof] at h
      cases h
    rw [if_neg hclose, if_neg heof] at h
    obtain ⟨first, hfirst, h⟩ := bind_eq_ok_iff.mp h
    obtain ⟨others, hothers, h⟩ := bind_eq_ok_iff.mp h
    cases h
    have hshorter : first.rest.length < rest.length + 1 := first.shorter
    exact .blockNext hclose heof (parses_of_parseDeclaration hfirst)
      (parses_of_parseBlockBody hothers)
termination_by 2 * tokens.length + 1
decreasing_by all_goals (subst_vars; simp only [List.length_cons]; omega)

end

theorem parses_of_parseStatements {tokens : List Token} {p : Parsed Program (tokens.length + 1)}
    (h : parseStatements lastLine tokens = .ok p) : Parses (.program p.value) tokens p.rest := by
  cases tokens with
  | nil =>
    rw [parseStatements] at h
    cases h
  | cons t rest =>
    rw [parseStatements] at h
    by_cases heof : t.kind = .eof
    · rw [if_pos heof] at h
      cases h
      exact .programEnd heof
    rw [if_neg heof] at h
    obtain ⟨first, hfirst, h⟩ := bind_eq_ok_iff.mp h
    obtain ⟨others, hothers, h⟩ := bind_eq_ok_iff.mp h
    cases h
    have hshorter : first.rest.length < rest.length + 1 := first.shorter
    exact .programNext heof (parses_of_parseDeclaration hfirst) (parses_of_parseStatements hothers)
termination_by tokens.length
decreasing_by all_goals (subst_vars; simp only [List.length_cons]; omega)

/-- A program that is parsed follows the rules. -/
theorem parses_of_parseProgram {tokens : List Token} {p : Parsed Program (tokens.length + 1)}
    (h : parseProgram tokens = .ok p) : Parses (.program p.value) tokens p.rest :=
  parses_of_parseStatements h

end StackScript
