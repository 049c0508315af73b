import StackScript.Proofs.GrammarParsing

/-!
# Where parsing gets stuck

When parsing fails, some phrases have been begun and not ended, each inside the one before it, and
the innermost cannot go on with the next token. So a failure is a path: from a phrase to a part of
it that is read next, the parts before it having been read, and so on down to the phrase that is
stuck.

The rules of such paths stand beside those of the grammar. Every list of tokens follows either the
rules of a program or those of a failure, and parsing gives what they say.

## Main definitions

* `Goal`: what is to be read from the front of a list of tokens.
* `Enters`: a phrase that is being read comes to a part of it.
* `Stuck`: a phrase that is being read meets a token that it cannot go on with.
* `Fails`: a path that ends where a phrase is stuck.

## Main results

* `parseProgram_eq_error_iff`: parsing fails as the paths say.
-/

namespace StackScript

/-- What is to be read from the front of a list of tokens. -/
inductive Goal where
  | expression (power : Nat)
  | operand
  | operators (power : Nat) (left : Expr)
  | arguments
  | parameters
  | simple
  | statement
  | block
  | program

/-- The kinds of tokens that start an operand. -/
def TokenKind.startsOperand : TokenKind → Bool
  | number | string | trueKw | falseKw | identifier | bang | minus => true
  | _ => false

/-- A phrase that is being read comes to a part of it. The tokens are those that are left at the
beginning of either. -/
inductive Enters : Goal → List Token → Goal → List Token → Prop
  | operand {power : Nat} {ts : List Token} : Enters (.expression power) ts .operand ts
  | operators {power : Nat} {e : Expr} {ts ts' : List Token} : Parses (.operand e) ts ts' →
      Enters (.expression power) ts (.operators power e) ts'
  | assigned {t next : Token} {after : List Token} : t.kind = .identifier → next.kind = .equal →
      Enters .operand (t :: next :: after) (.expression 0) after
  | negated {t : Token} {rest : List Token} : t.kind = .bang ∨ t.kind = .minus →
      Enters .operand (t :: rest) (.expression unaryBindingPower) rest
  | right {power : Nat} {left : Expr} {op : BinaryOp} {t : Token} {rest : List Token} :
      power < t.kind.bindingPower → BinaryOp.ofToken? t.kind = some op →
      Enters (.operators power left) (t :: rest) (.expression t.kind.bindingPower) rest
  | afterRight {power : Nat} {left right : Expr} {op : BinaryOp} {t : Token}
      {rest ts : List Token} :
      power < t.kind.bindingPower → BinaryOp.ofToken? t.kind = some op →
      Parses (.expression t.kind.bindingPower right) rest ts →
      Enters (.operators power left) (t :: rest)
        (.operators power (.binary left op right t.line)) ts
  | arguments {power : Nat} {left : Expr} {t : Token} {rest : List Token} :
      power < t.kind.bindingPower → t.kind = .lparen →
      Enters (.operators power left) (t :: rest) .arguments rest
  | afterArguments {power : Nat} {left : Expr} {args : List Expr} {t : Token}
      {rest ts : List Token} :
      power < t.kind.bindingPower → t.kind = .lparen → Parses (.arguments args) rest ts →
      Enters (.operators power left) (t :: rest) (.operators power (.call left args t.line)) ts
  | argument {t : Token} {rest : List Token} : t.kind ≠ .rparen → t.kind ≠ .eof →
      Enters .arguments (t :: rest) (.expression 0) (t :: rest)
  | afterArgument {t next : Token} {e : Expr} {rest after : List Token} :
      t.kind ≠ .rparen → t.kind ≠ .eof → Parses (.expression 0 e) (t :: rest) (next :: after) →
      next.kind = .comma → Enters .arguments (t :: rest) .arguments after
  | afterParameter {t next : Token} {after : List Token} :
      t.kind = .identifier → next.kind = .comma →
      Enters .parameters (t :: next :: after) .parameters after
  | simple {ts : List Token} : Enters .simple ts (.expression 0) ts
  | declared {t name next : Token} {rest : List Token} :
      t.kind = .letKw → name.kind = .identifier → next.kind = .equal →
      Enters .statement (t :: name :: next :: rest) .simple rest
  | parameters {t name opening : Token} {rest : List Token} :
      t.kind = .funKw → name.kind = .identifier → opening.kind = .lparen →
      Enters .statement (t :: name :: opening :: rest) .parameters rest
  | body {t name opening brace : Token} {params : List String} {rest ts : List Token} :
      t.kind = .funKw → name.kind = .identifier → opening.kind = .lparen →
      Parses (.parameters params) rest (brace :: ts) → brace.kind = .lbrace →
      Enters .statement (t :: name :: opening :: rest) .block ts
  | printed {t : Token} {rest : List Token} : t.kind = .printKw →
      Enters .statement (t :: rest) .simple rest
  | condition {t : Token} {rest : List Token} : t.kind = .ifKw →
      Enters .statement (t :: rest) (.expression 0) rest
  | thenBranch {t : Token} {condition : Expr} {rest ts : List Token} : t.kind = .ifKw →
      Parses (.expression 0 condition) rest ts → Enters .statement (t :: rest) .statement ts
  | elseBranch {t next : Token} {condition thenBranch : Expr} {rest ts ts' : List Token} :
      t.kind = .ifKw → Parses (.expression 0 condition) rest ts →
      Parses (.statement thenBranch) ts (next :: ts') → next.kind = .elseKw →
      Enters .statement (t :: rest) .statement ts'
  | braces {t : Token} {rest : List Token} : t.kind = .lbrace →
      Enters .statement (t :: rest) .block rest
  | plain {t : Token} {rest : List Token} : t.kind.startsStatement = false →
      Enters .statement (t :: rest) .simple (t :: rest)
  | blockNext {t : Token} {rest : List Token} : t.kind ≠ .rbrace → t.kind ≠ .eof →
      Enters .block (t :: rest) .statement (t :: rest)
  | blockRest {t : Token} {e : Expr} {rest ts : List Token} : t.kind ≠ .rbrace → t.kind ≠ .eof →
      Parses (.statement e) (t :: rest) ts → Enters .block (t :: rest) .block ts
  | programNext {t : Token} {rest : List Token} : t.kind ≠ .eof →
      Enters .program (t :: rest) .statement (t :: rest)
  | programRest {t : Token} {e : Expr} {rest ts : List Token} : t.kind ≠ .eof →
      Parses (.statement e) (t :: rest) ts → Enters .program (t :: rest) .program ts

/-- The first token, if there is one, is of none of some kinds. -/
def NoneOf (kinds : List TokenKind) (ts : List Token) : Prop :=
  ∀ t ∈ ts.head?, t.kind ∉ kinds

section

variable (lastLine : Option Line)

/-- The failure of a list that does not start with a token of the kind that must come. -/
def missingToken (kind : TokenKind) : List Token → ParseFailure
  | [] => ⟨.unexpectedEnd lastLine, []⟩
  | t :: rest => ⟨.expectedToken kind t.kind t.line, t :: rest⟩

/-- A phrase that is being read meets a token that it cannot go on with. -/
inductive Stuck : Goal → List Token → ParseFailure → Prop
  | outOfTokens (goal : Goal) : Stuck goal [] ⟨.unexpectedEnd lastLine, []⟩
  | number {t : Token} {rest : List Token} : t.kind = .number → numberOfLexeme? t.lexeme = none →
      Stuck .operand (t :: rest) ⟨.malformedNumber t.lexeme, rest⟩
  | name {t : Token} : t.kind = .identifier → Stuck .operand [t] ⟨.unexpectedEnd lastLine, []⟩
  | operandEnd {t : Token} {rest : List Token} : t.kind = .eof →
      Stuck .operand (t :: rest) ⟨.unexpectedEnd (some t.line), t :: rest⟩
  | operand {t : Token} {rest : List Token} : t.kind.startsOperand = false → t.kind ≠ .eof →
      Stuck .operand (t :: rest) ⟨.expectedPrimary t.kind t.line, t :: rest⟩
  | operator {power : Nat} {left : Expr} {t : Token} {rest : List Token} :
      power < t.kind.bindingPower → BinaryOp.ofToken? t.kind = none → t.kind ≠ .lparen →
      Stuck (.operators power left) (t :: rest)
        ⟨.unexpectedToken t.kind (some t.line), t :: rest⟩
  | arguments {t : Token} {rest : List Token} : t.kind = .eof →
      Stuck .arguments (t :: rest) (missingToken lastLine .rparen (t :: rest))
  | argument {t : Token} {e : Expr} {rest ts : List Token} : t.kind ≠ .rparen → t.kind ≠ .eof →
      Parses (.expression 0 e) (t :: rest) ts → NoneOf [.comma, .rparen] ts →
      Stuck .arguments (t :: rest) (missingToken lastLine .rparen ts)
  | parameters {t : Token} {rest : List Token} : t.kind = .eof →
      Stuck .parameters (t :: rest) (missingToken lastLine .rparen (t :: rest))
  | parameterName {t : Token} {rest : List Token} : t.kind ≠ .rparen → t.kind ≠ .eof →
      t.kind ≠ .identifier →
      Stuck .parameters (t :: rest) (missingToken lastLine .identifier (t :: rest))
  | parameter {t : Token} {ts : List Token} : t.kind = .identifier → NoneOf [.comma, .rparen] ts →
      Stuck .parameters (t :: ts) (missingToken lastLine .rparen ts)
  | declaredName {t : Token} {ts : List Token} : t.kind = .letKw → NoneOf [.identifier] ts →
      Stuck .statement (t :: ts) (missingToken lastLine .identifier ts)
  | declared {t name : Token} {ts : List Token} : t.kind = .letKw → name.kind = .identifier →
      NoneOf [.equal, .semicolon] ts →
      Stuck .statement (t :: name :: ts) (missingToken lastLine .semicolon ts)
  | functionName {t : Token} {ts : List Token} : t.kind = .funKw → NoneOf [.identifier] ts →
      Stuck .statement (t :: ts) (missingToken lastLine .identifier ts)
  | functionOpening {t name : Token} {ts : List Token} : t.kind = .funKw →
      name.kind = .identifier → NoneOf [.lparen] ts →
      Stuck .statement (t :: name :: ts) (missingToken lastLine .lparen ts)
  | functionBrace {t name opening : Token} {params : List String} {rest ts : List Token} :
      t.kind = .funKw → name.kind = .identifier → opening.kind = .lparen →
      Parses (.parameters params) rest ts → NoneOf [.lbrace] ts →
      Stuck .statement (t :: name :: opening :: rest) (missingToken lastLine .lbrace ts)
  | thenBranch {t : Token} {condition thenBranch : Expr} {rest ts : List Token} :
      t.kind = .ifKw → Parses (.expression 0 condition) rest ts →
      Parses (.statement thenBranch) ts [] →
      Stuck .statement (t :: rest) ⟨.unexpectedEnd lastLine, []⟩
  | block {t : Token} {rest : List Token} : t.kind = .eof →
      Stuck .block (t :: rest) (missingToken lastLine .rbrace (t :: rest))

/-- A path from a phrase through its parts to one that is stuck. -/
inductive Fails : Goal → List Token → ParseFailure → Prop
  | stuck {goal : Goal} {ts : List Token} {failure : ParseFailure} :
      Stuck lastLine goal ts failure → Fails goal ts failure
  | enters {goal goal' : Goal} {ts ts' : List Token} {failure : ParseFailure} :
      Enters goal ts goal' ts' → Fails goal' ts' failure → Fails goal ts failure

end

/-- A phrase comes to its parts by taking tokens from the front, and no end mark. -/
theorem Enters.consumes {goal goal' : Goal} {ts ts' : List Token} (h : Enters goal ts goal' ts') :
    Consumes ts ts' := by
  cases h with
  | operand | argument | simple | plain | blockNext | programNext => exact .refl _
  | operators h => exact h.consumes
  | assigned hkind hnext | afterParameter hkind hnext =>
    exact .of_kind hkind (by decide) (.of_kind hnext (by decide) (.refl _))
  | negated hkind => exact .cons (fun heof => by simp [heof] at hkind) (.refl _)
  | right hpower | arguments hpower => exact .of_bindingPower hpower (.refl _)
  | afterRight hpower _ h | afterArguments hpower _ h => exact .of_bindingPower hpower h.consumes
  | afterArgument _ _ h hcomma => exact h.consumes.tail hcomma (by decide)
  | declared hkind hname hnext | parameters hkind hname hnext =>
    exact .of_kind hkind (by decide)
      (.of_kind hname (by decide) (.of_kind hnext (by decide) (.refl _)))
  | body hkind hname hopen h hbrace =>
    exact .of_kind hkind (by decide) (.of_kind hname (by decide)
      (.of_kind hopen (by decide) (h.consumes.tail hbrace (by decide))))
  | printed hkind | condition hkind | braces hkind => exact .of_kind hkind (by decide) (.refl _)
  | thenBranch hkind h => exact .of_kind hkind (by decide) h.consumes
  | elseBranch hkind h h' helse =>
    exact .of_kind hkind (by decide) (h.consumes.trans (h'.consumes.tail helse (by decide)))
  | blockRest _ _ h | programRest _ h => exact h.consumes

/-! ### Parsing that fails follows a path -/

section

variable {lastLine : Option Line}

theorem expectToken_eq_error_iff {kind : TokenKind} {tokens : List Token} {failure : ParseFailure} :
    expectToken lastLine kind tokens = .error failure ↔
      NoneOf [kind] tokens ∧ missingToken lastLine kind tokens = failure := by
  cases tokens with
  | nil => simp [expectToken, outOfTokens, missingToken, NoneOf]
  | cons t rest =>
    by_cases hkind : t.kind = kind <;> simp [expectToken, missingToken, NoneOf, hkind]

theorem skipToken_eq_error_iff {kind : TokenKind} {tokens : List Token} {failure : ParseFailure} :
    skipToken lastLine kind tokens = .error failure ↔
      tokens = [] ∧ failure = ⟨.unexpectedEnd lastLine, []⟩ := by
  cases tokens with
  | nil => simp [skipToken, outOfTokens, eq_comm]
  | cons t rest => by_cases hkind : t.kind = kind <;> simp [skipToken, hkind]

theorem NoneOf.cons {kinds : List TokenKind} {t : Token} {rest : List Token} (h : t.kind ∉ kinds) :
    NoneOf kinds (t :: rest) := by
  rintro _ ⟨⟩
  exact h

theorem NoneOf.nil {kinds : List TokenKind} : NoneOf kinds [] :=
  fun _ h => nomatch h

/-- Behind an expression there is a token that does not belong to it. -/
theorem Parses.expression_rest_ne_nil {power : Nat} {e : Expr} {ts rest : List Token}
    (h : Parses (.expression power e) ts rest) : rest ≠ [] := by
  have hoperators {phrase : Phrase} {ts rest : List Token} (h : Parses phrase ts rest) :
      ∀ power left whole, phrase = .operators power left whole → rest ≠ [] := by
    induction h with
    | stop => exact fun _ _ _ _ => List.cons_ne_nil _ _
    | binary _ _ _ _ _ ih | call _ _ _ _ _ ih => exact fun _ _ _ _ => ih _ _ _ rfl
    | _ => exact fun _ _ _ hphrase => nomatch hphrase
  cases h with
  | expression _ h => exact hoperators h _ _ _ rfl

-- The recursion is that of the parser. A step that succeeds follows the rules of the grammar.
mutual

theorem fails_of_parseExpression {power : Nat} {tokens : List Token} {failure : ParseFailure}
    (h : parseExpression lastLine power tokens = .error failure) :
    Fails lastLine (.expression power) tokens failure := by
  rw [parseExpression] at h
  rcases bind_eq_error_iff.mp h with h | ⟨first, hfirst, h⟩
  · exact .enters .operand (fails_of_parseOperand h)
  rcases bind_eq_error_iff.mp h with h | ⟨whole, -, h⟩
  · have hshorter := first.shorter
    exact .enters (.operators (parses_of_parseOperand hfirst)) (fails_of_parseOperators h)
  · cases h
termination_by 3 * tokens.length + 1

theorem fails_of_parseOperand {tokens : List Token} {failure : ParseFailure}
    (h : parseOperand lastLine tokens = .error failure) :
    Fails lastLine .operand tokens failure := by
  cases tokens with
  | nil =>
    rw [parseOperand] at h
    cases h
    exact .stuck (.outOfTokens _)
  | cons t rest =>
    rw [parseOperand.eq_def] at h
    dsimp only at h
    split at h
    · -- a number
      rename_i hkind
      split at h
      · cases h
      · rename_i hnone
        cases h
        exact .stuck (.number hkind hnone)
    · cases h
    · cases h
    · cases h
    · -- a name, which may be assigned to
      rename_i hkind
      cases rest with
      | nil =>
        cases h
        exact .stuck (.name hkind)
      | cons next after =>
        dsimp only at h
        by_cases hnext : next.kind = .equal
        · rw [if_pos hnext] at h
          rcases bind_eq_error_iff.mp h with h | ⟨value, -, h⟩
          · exact .enters (.assigned hkind hnext) (fails_of_parseExpression h)
          · cases h
        · rw [if_neg hnext] at h
          cases h
    · -- the two signs in front of an operand
      rename_i hkind
      rcases bind_eq_error_iff.mp h with h | ⟨operand, -, h⟩
      · exact .enters (.negated (.inl hkind)) (fails_of_parseExpression h)
      · cases h
    · rename_i hkind
      rcases bind_eq_error_iff.mp h with h | ⟨operand, -, h⟩
      · exact .enters (.negated (.inr hkind)) (fails_of_parseExpression h)
      · cases h
    · -- the end of the source
      rename_i hkind
      cases h
      exact .stuck (.operandEnd hkind)
    · -- No kind is left that starts an operand.
      cases h
      refine .stuck (.operand ?_ (by assumption))
      cases hkind : t.kind <;> first | rfl | contradiction
termination_by 3 * tokens.length

theorem fails_of_parseOperators {power : Nat} {left : Expr} {tokens : List Token}
    {failure : ParseFailure} (h : parseOperators lastLine power left tokens = .error failure) :
    Fails lastLine (.operators power left) tokens failure := by
  cases tokens with
  | nil =>
    rw [parseOperators] at h
    cases h
    exact .stuck (.outOfTokens _)
  | cons t rest =>
    rw [parseOperators] at h
    by_cases hpower : t.kind.bindingPower ≤ power
    · rw [if_pos hpower] at h
      cases h
    rw [if_neg hpower] at h
    -- the token binds tighter, so it has to go on with the operand to its left
    have hless := Nat.lt_of_not_le hpower
    split at h
    · rename_i op hop
      rcases bind_eq_error_iff.mp h with h | ⟨right, hright, h⟩
      · exact .enters (.right hless hop) (fails_of_parseExpression h)
      rcases bind_eq_error_iff.mp h with h | ⟨whole, -, h⟩
      -- the right operand is read, so the failure lies in what follows it
      · have hshorter := right.shorter
        exact .enters (.afterRight hless hop (parses_of_parseExpression hright))
          (fails_of_parseOperators h)
      · cases h
    · rename_i hop
      by_cases hkind : t.kind = .lparen
      · rw [if_pos hkind] at h
        rcases bind_eq_error_iff.mp h with h | ⟨args, hargs, h⟩
        · exact .enters (.arguments hless hkind) (fails_of_parseArguments h)
        rcases bind_eq_error_iff.mp h with h | ⟨whole, -, h⟩
        · have hshorter := args.shorter
          exact .enters (.afterArguments hless hkind (parses_of_parseArguments hargs))
            (fails_of_parseOperators h)
        · cases h
      · rw [if_neg hkind] at h
        cases h
        exact .stuck (.operator hless hop hkind)
termination_by 3 * tokens.length
decreasing_by all_goals (subst_vars; simp only [List.length_cons]; omega)

theorem fails_of_parseArguments {tokens : List Token} {failure : ParseFailure}
    (h : parseArguments lastLine tokens = .error failure) :
    Fails lastLine .arguments tokens failure := by
  cases tokens with
  | nil =>
    rw [parseArguments] at h
    cases h
    exact .stuck (.outOfTokens _)
  | cons t rest =>
    rw [parseArguments] at h
    by_cases hclose : t.kind = .rparen
    · rw [if_pos hclose] at h
      cases h
    by_cases heof : t.kind = .eof
    · rw [if_neg hclose, if_pos heof] at h
      cases h
      exact .stuck (.arguments heof)
    rw [if_neg hclose, if_neg heof] at h
    rcases bind_eq_error_iff.mp h with h | ⟨first, hfirst, h⟩
    · exact .enters (.argument hclose heof) (fails_of_parseExpression h)
    have hexpression := parses_of_parseExpression hfirst
    -- behind an argument there is at least the end mark
    obtain ⟨value, _ | ⟨next, after⟩, hshorter⟩ := first
    · exact absurd rfl hexpression.expression_rest_ne_nil
    have hless : after.length + 1 < rest.length + 1 := hshorter
    dsimp only at h
    by_cases hcomma : next.kind = .comma
    · rw [if_pos hcomma] at h
      rcases bind_eq_error_iff.mp h with h | ⟨others, -, h⟩
      · exact .enters (.afterArgument hclose heof hexpression hcomma) (fails_of_parseArguments h)
      · cases h
    by_cases hlast : next.kind = .rparen
    · rw [if_neg hcomma, if_pos hlast] at h
      cases h
    · rw [if_neg hcomma, if_neg hlast] at h
      cases h
      exact .stuck (.argument hclose heof hexpression (.cons (by simp [hcomma, hlast])))
termination_by 3 * tokens.length + 2
decreasing_by all_goals (subst_vars; simp only [List.length_cons]; omega)

end

theorem fails_of_parseExpressionStatement {tokens : List Token} {failure : ParseFailure}
    (h : parseExpressionStatement lastLine tokens = .error failure) :
    Fails lastLine .simple tokens failure := by
  rcases bind_eq_error_iff.mp h with h | ⟨value, hvalue, h⟩
  · exact .enters .simple (fails_of_parseExpression h)
  rcases bind_eq_error_iff.mp h with h | ⟨skipped, -, h⟩
  · -- there is a token behind the expression, so looking for a semicolon cannot fail
    obtain ⟨hrest, -⟩ := skipToken_eq_error_iff.mp h
    exact absurd hrest (parses_of_parseExpression hvalue).expression_rest_ne_nil
  · cases h

theorem fails_of_parseVariable {t : Token} {tokens : List Token} {failure : ParseFailure}
    (hkind : t.kind = .letKw) (h : parseVariable lastLine t.line tokens = .error failure) :
    Fails lastLine .statement (t :: tokens) failure := by
  rcases bind_eq_error_iff.mp h with h | ⟨⟨name, rest, hless⟩, hname, h⟩
  · obtain ⟨hnone, rfl⟩ := expectToken_eq_error_iff.mp h
    exact .stuck (.declaredName hkind hnone)
  obtain ⟨rfl, hidentifier⟩ := expectToken_eq_ok hname
  rcases bind_eq_error_iff.mp h with h | ⟨⟨skips, after, hless'⟩, hskips, h⟩
  · obtain ⟨rfl, rfl⟩ := skipToken_eq_error_iff.mp h
    exact .stuck (.declared hkind hidentifier .nil)
  rcases skipToken_eq_ok hskips with ⟨rfl, next, rfl, hequal⟩ | ⟨rfl, rfl, next, after, rfl, hequal⟩
  · rcases bind_eq_error_iff.mp h with h | ⟨value, -, h⟩
    · exact .enters (.declared hkind hidentifier hequal) (fails_of_parseExpressionStatement h)
    · cases h
  · rcases bind_eq_error_iff.mp h with h | ⟨stop, -, h⟩
    · obtain ⟨hnone, rfl⟩ := expectToken_eq_error_iff.mp h
      have hsemicolon : next.kind ≠ .semicolon := by simpa using hnone next rfl
      exact .stuck (.declared hkind hidentifier (.cons (by simp [hequal, hsemicolon])))
    · cases h

theorem fails_of_parseParameters {tokens : List Token} {failure : ParseFailure}
    (h : parseParameters lastLine tokens = .error failure) :
    Fails lastLine .parameters tokens failure := by
  cases tokens with
  | nil =>
    rw [parseParameters] at h
    cases h
    exact .stuck (.outOfTokens _)
  | cons t rest =>
    rw [parseParameters.eq_def] at h
    dsimp only at h
    by_cases hclose : t.kind = .rparen
    · rw [if_pos hclose] at h
      cases h
    by_cases heof : t.kind = .eof
    · rw [if_neg hclose, if_pos heof] at h
      cases h
      exact .stuck (.parameters heof)
    by_cases hidentifier : t.kind = .identifier
    · rw [if_neg hclose, if_neg heof, if_pos hidentifier] at h
      cases rest with
      | nil =>
        cases h
        exact .stuck (.parameter hidentifier .nil)
      | cons next after =>
        dsimp only at h
        by_cases hcomma : next.kind = .comma
        · rw [if_pos hcomma] at h
          rcases bind_eq_error_iff.mp h with h | ⟨others, -, h⟩
          · exact .enters (.afterParameter hidentifier hcomma) (fails_of_parseParameters h)
          · cases h
        by_cases hlast : next.kind = .rparen
        · rw [if_neg hcomma, if_pos hlast] at h
          cases h
        · rw [if_neg hcomma, if_neg hlast] at h
          cases h
          exact .stuck (.parameter hidentifier (.cons (by simp [hcomma, hlast])))
    · rw [if_neg hclose, if_neg heof, if_neg hidentifier] at h
      cases h
      exact .stuck (.parameterName hclose heof hidentifier)
termination_by tokens.length

mutual

theorem fails_of_parseDeclaration {tokens : List Token} {failure : ParseFailure}
    (h : parseDeclaration lastLine tokens = .error failure) :
    Fails lastLine .statement tokens failure := by
  cases tokens with
  | nil =>
    rw [parseDeclaration] at h
    cases h
    exact .stuck (.outOfTokens _)
  | cons t tokens =>
    rw [parseDeclaration.eq_def] at h
    dsimp only at h
    split at h
    · -- a declaration
      rename_i hkind
      rcases bind_eq_error_iff.mp h with h | ⟨declared, -, h⟩
      · exact fails_of_parseVariable hkind h
      · cases h
    · -- a definition: each of its marks in turn, its parameters and its body
      rename_i hkind
      rcases bind_eq_error_iff.mp h with h | ⟨⟨name, rest, hless⟩, hname, h⟩
      · obtain ⟨hnone, rfl⟩ := expectToken_eq_error_iff.mp h
        exact .stuck (.functionName hkind hnone)
      obtain ⟨rfl, hidentifier⟩ := expectToken_eq_ok hname
      rcases bind_eq_error_iff.mp h with h | ⟨⟨opening, rest', hless'⟩, hopening, h⟩
      · obtain ⟨hnone, rfl⟩ := expectToken_eq_error_iff.mp h
        exact .stuck (.functionOpening hkind hidentifier hnone)
      obtain ⟨rfl, hlparen⟩ := expectToken_eq_ok hopening
      rcases bind_eq_error_iff.mp h with h | ⟨params, hparams, h⟩
      · exact .enters (.parameters hkind hidentifier hlparen) (fails_of_parseParameters h)
      have hparameters := parses_of_parseParameters _ params hparams
      rcases bind_eq_error_iff.mp h with h | ⟨brace, hbrace, h⟩
      · obtain ⟨hnone, rfl⟩ := expectToken_eq_error_iff.mp h
        exact .stuck (.functionBrace hkind hidentifier hlparen hparameters hnone)
      obtain ⟨hrest, hlbrace⟩ := expectToken_eq_ok hbrace
      rw [hrest] at hparameters
      rcases bind_eq_error_iff.mp h with h | ⟨body, -, h⟩
      · have hshorter : params.rest.length < rest'.length := params.shorter
        have hshorter' := brace.shorter
        exact .enters (.body hkind hidentifier hlparen hparameters hlbrace)
          (fails_of_parseBlockBody h)
      · cases h
    · -- a print statement
      rename_i hkind
      rcases bind_eq_error_iff.mp h with h | ⟨value, -, h⟩
      · exact .enters (.printed hkind) (fails_of_parseExpressionStatement h)
      · cases h
    · -- a conditional
      rename_i hkind
      rcases bind_eq_error_iff.mp h with h | ⟨condition, hcondition, h⟩
      · exact .enters (.condition hkind) (fails_of_parseExpression h)
      have hcondition' := parses_of_parseExpression hcondition
      have hshorter := condition.shorter
      rcases bind_eq_error_iff.mp h with h | ⟨⟨thenBranch, rest, hless⟩, hthen, h⟩
      · exact .enters (.thenBranch hkind hcondition') (fails_of_parseDeclaration h)
      have hthen' := parses_of_parseDeclaration hthen
      rcases bind_eq_error_iff.mp h with h | ⟨⟨skips, after, hless'⟩, hskips, h⟩
      · obtain ⟨rfl, rfl⟩ := skipToken_eq_error_iff.mp h
        exact .stuck (.thenBranch hkind hcondition' hthen')
      rcases skipToken_eq_ok hskips with ⟨rfl, next, rfl, helse⟩ | ⟨rfl, -, -⟩
      · rcases bind_eq_error_iff.mp h with h | ⟨elseBranch, -, h⟩
        · have hless'' : after.length + 1 < condition.rest.length := hless
          exact .enters (.elseBranch hkind hcondition' hthen' helse) (fails_of_parseDeclaration h)
        · cases h
      · cases h
    · -- a block
      rename_i hkind
      rcases bind_eq_error_iff.mp h with h | ⟨body, -, h⟩
      · exact .enters (.braces hkind) (fails_of_parseBlockBody h)
      · cases h
    · refine .enters (.plain ?_) (fails_of_parseExpressionStatement h)
      cases hkind : t.kind <;> first | rfl | contradiction
termination_by 2 * tokens.length
decreasing_by all_goals (subst_vars; simp only [List.length_cons]; omega)

theorem fails_of_parseBlockBody {tokens : List Token} {failure : ParseFailure}
    (h : parseBlockBody lastLine tokens = .error failure) :
    Fails lastLine .block tokens failure := by
  cases tokens with
  | nil =>
    rw [parseBlockBody] at h
    cases h
    exact .stuck (.outOfTokens _)
  | cons t rest =>
    rw [parseBlockBody] at h
    by_cases hclose : t.kind = .rbrace
    · rw [if_pos hclose] at h
      cases h
    by_cases heof : t.kind = .eof
    · rw [if_neg hclose, if_pos heof] at h
      cases h
      exact .stuck (.block heof)
    rw [if_neg hclose, if_neg heof] at h
    rcases bind_eq_error_iff.mp h with h | ⟨first, hfirst, h⟩
    · exact .enters (.blockNext hclose heof) (fails_of_parseDeclaration h)
    rcases bind_eq_error_iff.mp h with h | ⟨others, -, h⟩
    · have hshorter : first.rest.length < rest.length + 1 := first.shorter
      exact .enters (.blockRest hclose heof (parses_of_parseDeclaration hfirst))
        (fails_of_parseBlockBody h)
    · cases h
termination_by 2 * tokens.length + 1
decreasing_by all_goals (subst_vars; simp only [List.length_cons]; omega)

end

theorem fails_of_parseStatements {tokens : List Token} {failure : ParseFailure}
    (h : parseStatements lastLine tokens = .error failure) :
    Fails lastLine .program tokens failure := by
  cases tokens with
  | nil =>
    rw [parseStatements] at h
    cases h
    exact .stuck (.outOfTokens _)
  | cons t rest =>
    rw [parseStatements] at h
    by_cases heof : t.kind = .eof
    · rw [if_pos heof] at h
      cases h
    rw [if_neg heof] at h
    rcases bind_eq_error_iff.mp h with h | ⟨first, hfirst, h⟩
    · exact .enters (.programNext heof) (fails_of_parseDeclaration h)
    rcases bind_eq_error_iff.mp h with h | ⟨others, -, h⟩
    · have hshorter : first.rest.length < rest.length + 1 := first.shorter
      exact .enters (.programRest heof (parses_of_parseDeclaration hfirst))
        (fails_of_parseStatements h)
    · cases h
termination_by tokens.length
decreasing_by all_goals (subst_vars; simp only [List.length_cons]; omega)

/-! ### A path makes parsing fail -/

/-- Parsing fails at a goal. -/
def Goal.IsFailed (lastLine : Option Line) (ts : List Token) (failure : ParseFailure) : Goal → Prop
  | expression power => parseExpression lastLine power ts = .error failure
  | operand => parseOperand lastLine ts = .error failure
  | operators power left => parseOperators lastLine power left ts = .error failure
  | arguments => parseArguments lastLine ts = .error failure
  | parameters => parseParameters lastLine ts = .error failure
  | simple => parseExpressionStatement lastLine ts = .error failure
  | statement => parseDeclaration lastLine ts = .error failure
  | block => parseBlockBody lastLine ts = .error failure
  | program => parseStatements lastLine ts = .error failure

/-- A phrase fails with its part. -/
theorem Enters.isFailed {goal goal' : Goal} {ts ts' : List Token} {failure : ParseFailure}
    (h : Enters goal ts goal' ts') (hpart : goal'.IsFailed lastLine ts' failure) :
    goal.IsFailed lastLine ts failure := by
  -- Each rule is one branch of a parser, in which the parts before the last are parsed.
  cases h with
  | operand =>
    rw [Goal.IsFailed, parseExpression]
    exact bind_eq_error_of_error hpart
  | operators hoperand =>
    obtain ⟨_, hparsed⟩ := hoperand.isParsed
    rw [Goal.IsFailed, parseExpression]
    exact bind_eq_error_of_ok hparsed (bind_eq_error_of_error hpart)
  | assigned hkind hnext =>
    rw [Goal.IsFailed, parseOperand.eq_def]
    simp only [hkind, if_pos hnext]
    exact bind_eq_error_of_error hpart
  | negated hkind =>
    rw [Goal.IsFailed, parseOperand.eq_def]
    rcases hkind with hkind | hkind
    all_goals
      simp only [hkind]
      exact bind_eq_error_of_error hpart
  | right hpower hop =>
    rw [Goal.IsFailed, parseOperators, if_neg (Nat.not_le_of_lt hpower)]
    simp only [hop]
    exact bind_eq_error_of_error hpart
  | afterRight hpower hop hright =>
    obtain ⟨_, hparsed⟩ := hright.isParsed
    rw [Goal.IsFailed, parseOperators, if_neg (Nat.not_le_of_lt hpower)]
    simp only [hop]
    exact bind_eq_error_of_ok hparsed (bind_eq_error_of_error hpart)
  | arguments hpower hkind =>
    have hop : BinaryOp.ofToken? .lparen = none := rfl
    rw [Goal.IsFailed, parseOperators, if_neg (Nat.not_le_of_lt hpower)]
    simp only [hkind, hop, if_pos]
    exact bind_eq_error_of_error hpart
  | afterArguments hpower hkind hargs =>
    obtain ⟨_, hparsed⟩ := hargs.isParsed
    have hop : BinaryOp.ofToken? .lparen = none := rfl
    rw [Goal.IsFailed, parseOperators, if_neg (Nat.not_le_of_lt hpower)]
    simp only [hkind, hop, if_pos]
    exact bind_eq_error_of_ok hparsed (bind_eq_error_of_error hpart)
  | argument hclose heof =>
    rw [Goal.IsFailed, parseArguments, if_neg hclose, if_neg heof]
    exact bind_eq_error_of_error hpart
  | afterArgument hclose heof hfirst hcomma =>
    obtain ⟨_, hparsed⟩ := hfirst.isParsed
    rw [Goal.IsFailed, parseArguments, if_neg hclose, if_neg heof]
    refine bind_eq_error_of_ok hparsed ?_
    dsimp only
    rw [if_pos hcomma]
    exact bind_eq_error_of_error hpart
  | afterParameter hkind hcomma =>
    rw [Goal.IsFailed, parseParameters.eq_def]
    dsimp only
    rw [if_neg (by simp [hkind]), if_neg (by simp [hkind]), if_pos hkind, if_pos hcomma]
    exact bind_eq_error_of_error hpart
  | simple => exact bind_eq_error_of_error hpart
  | @declared t name next _ hkind hname hequal =>
    have hvariable : parseVariable lastLine t.line (name :: next :: ts') = .error failure := by
      refine bind_eq_error_of_ok (expectToken_of_kind hname) ?_
      refine bind_eq_error_of_ok (skipToken_of_kind hequal) ?_
      exact bind_eq_error_of_error hpart
    rw [Goal.IsFailed, parseDeclaration.eq_def]
    simp only [hkind]
    exact bind_eq_error_of_error hvariable
  | parameters hkind hname hopen =>
    rw [Goal.IsFailed, parseDeclaration.eq_def]
    simp only [hkind]
    refine bind_eq_error_of_ok (expectToken_of_kind hname) ?_
    refine bind_eq_error_of_ok (expectToken_of_kind hopen) ?_
    exact bind_eq_error_of_error hpart
  | body hkind hname hopen hparams hbrace =>
    obtain ⟨_, hparsed⟩ := hparams.isParsed
    rw [Goal.IsFailed, parseDeclaration.eq_def]
    simp only [hkind]
    refine bind_eq_error_of_ok (expectToken_of_kind hname) ?_
    refine bind_eq_error_of_ok (expectToken_of_kind hopen) ?_
    refine bind_eq_error_of_ok hparsed ?_
    refine bind_eq_error_of_ok (expectToken_of_kind hbrace) ?_
    exact bind_eq_error_of_error hpart
  | printed hkind | condition hkind | braces hkind =>
    rw [Goal.IsFailed, parseDeclaration.eq_def]
    simp only [hkind]
    exact bind_eq_error_of_error hpart
  | thenBranch hkind hcondition =>
    obtain ⟨_, hparsed⟩ := hcondition.isParsed
    rw [Goal.IsFailed, parseDeclaration.eq_def]
    simp only [hkind]
    exact bind_eq_error_of_ok hparsed (bind_eq_error_of_error hpart)
  | elseBranch hkind hcondition hthen helse =>
    obtain ⟨_, hparsed⟩ := hcondition.isParsed
    obtain ⟨_, hparsed'⟩ := hthen.isParsed
    rw [Goal.IsFailed, parseDeclaration.eq_def]
    simp only [hkind]
    refine bind_eq_error_of_ok hparsed ?_
    refine bind_eq_error_of_ok hparsed' ?_
    refine bind_eq_error_of_ok (skipToken_of_kind helse) ?_
    exact bind_eq_error_of_error hpart
  | @plain t rest hstart =>
    rw [Goal.IsFailed, parseDeclaration.eq_def]
    cases hkind : t.kind <;> simp only [hkind] <;>
      first
      | exact hpart
      | exact absurd hstart (by simp [hkind, TokenKind.startsStatement])
  | blockNext hclose heof =>
    rw [Goal.IsFailed, parseBlockBody, if_neg hclose, if_neg heof]
    exact bind_eq_error_of_error hpart
  | blockRest hclose heof hfirst =>
    obtain ⟨_, hparsed⟩ := hfirst.isParsed
    rw [Goal.IsFailed, parseBlockBody, if_neg hclose, if_neg heof]
    exact bind_eq_error_of_ok hparsed (bind_eq_error_of_error hpart)
  | programNext heof =>
    rw [Goal.IsFailed, parseStatements, if_neg heof]
    exact bind_eq_error_of_error hpart
  | programRest heof hfirst =>
    obtain ⟨_, hparsed⟩ := hfirst.isParsed
    rw [Goal.IsFailed, parseStatements, if_neg heof]
    exact bind_eq_error_of_ok hparsed (bind_eq_error_of_error hpart)

theorem expectToken_of_noneOf {kind : TokenKind} {ts : List Token} (h : NoneOf [kind] ts) :
    expectToken lastLine kind ts = .error (missingToken lastLine kind ts) :=
  expectToken_eq_error_iff.mpr ⟨h, rfl⟩

theorem isFailed_nil (goal : Goal) :
    goal.IsFailed lastLine [] ⟨.unexpectedEnd lastLine, []⟩ := by
  -- expressions and what starts with them fail with their first operand
  have hoperand : parseOperand lastLine [] = outOfTokens lastLine := by rw [parseOperand]
  have hexpression (power : Nat) : parseExpression lastLine power [] = outOfTokens lastLine := by
    rw [parseExpression, hoperand]
    rfl
  cases goal with
  | expression power => exact hexpression power
  | operand => exact hoperand
  | operators power left =>
    rw [Goal.IsFailed, parseOperators]
    rfl
  | arguments =>
    rw [Goal.IsFailed, parseArguments]
    rfl
  | parameters =>
    rw [Goal.IsFailed, parseParameters]
    rfl
  | simple => exact bind_eq_error_of_error (hexpression 0)
  | statement =>
    rw [Goal.IsFailed, parseDeclaration]
    rfl
  | block =>
    rw [Goal.IsFailed, parseBlockBody]
    rfl
  | program =>
    rw [Goal.IsFailed, parseStatements]
    rfl

/-- Where a phrase is stuck, parsing fails. -/
theorem Stuck.isFailed {goal : Goal} {ts : List Token} {failure : ParseFailure}
    (h : Stuck lastLine goal ts failure) : goal.IsFailed lastLine ts failure := by
  cases h with
  | outOfTokens => exact isFailed_nil goal
  | number hkind hnone =>
    rw [Goal.IsFailed, parseOperand.eq_def]
    simp only [hkind, hnone]
  | name hkind =>
    rw [Goal.IsFailed, parseOperand.eq_def]
    simp only [hkind]
    rfl
  | operandEnd hkind =>
    rw [Goal.IsFailed, parseOperand.eq_def]
    simp only [hkind]
  | @operand t rest hstart heof =>
    rw [Goal.IsFailed, parseOperand.eq_def]
    cases hkind : t.kind <;> simp only [hkind] <;>
      first
      | exact absurd hkind heof
      | exact absurd hstart (by simp [hkind, TokenKind.startsOperand])
  | operator hpower hop hkind =>
    rw [Goal.IsFailed, parseOperators, if_neg (Nat.not_le_of_lt hpower)]
    simp only [hop, if_neg hkind]
  | arguments heof =>
    rw [Goal.IsFailed, parseArguments, if_neg (by simp [heof]), if_pos heof]
    rfl
  | @argument t e rest ts hclose heof hfirst hnone =>
    obtain ⟨hless, hparsed⟩ := hfirst.isParsed
    rw [Goal.IsFailed, parseArguments, if_neg hclose, if_neg heof]
    refine bind_eq_error_of_ok hparsed ?_
    cases ts with
    | nil => rfl
    | cons next after =>
      -- neither of the two marks that may follow an argument stands there
      obtain ⟨hcomma, hlast⟩ : next.kind ≠ .comma ∧ next.kind ≠ .rparen := by
        simpa using hnone next rfl
      dsimp only
      rw [if_neg hcomma, if_neg hlast]
      rfl
  | parameters heof =>
    rw [Goal.IsFailed, parseParameters.eq_def]
    dsimp only
    rw [if_neg (by simp [heof]), if_pos heof]
    rfl
  | parameterName hclose heof hidentifier =>
    rw [Goal.IsFailed, parseParameters.eq_def]
    dsimp only
    rw [if_neg hclose, if_neg heof, if_neg hidentifier]
    rfl
  | @parameter t ts hidentifier hnone =>
    rw [Goal.IsFailed, parseParameters.eq_def]
    dsimp only
    rw [if_neg (by simp [hidentifier]), if_neg (by simp [hidentifier]), if_pos hidentifier]
    cases ts with
    | nil => rfl
    | cons next after =>
      obtain ⟨hcomma, hlast⟩ : next.kind ≠ .comma ∧ next.kind ≠ .rparen := by
        simpa using hnone next rfl
      dsimp only
      rw [if_neg hcomma, if_neg hlast]
      rfl
  | @declaredName t ts hkind hnone =>
    have hvariable : parseVariable lastLine t.line ts =
        .error (missingToken lastLine .identifier ts) :=
      bind_eq_error_of_error (expectToken_of_noneOf hnone)
    rw [Goal.IsFailed, parseDeclaration.eq_def]
    simp only [hkind]
    exact bind_eq_error_of_error hvariable
  | @declared t name ts hkind hname hnone =>
    have hvariable : parseVariable lastLine t.line (name :: ts) =
        .error (missingToken lastLine .semicolon ts) := by
      refine bind_eq_error_of_ok (expectToken_of_kind hname) ?_
      cases ts with
      | nil => rfl
      | cons next after =>
        -- `=` may be left out, `;` may not
        obtain ⟨hequal, hsemicolon⟩ : next.kind ≠ .equal ∧ next.kind ≠ .semicolon := by
          simpa using hnone next rfl
        refine bind_eq_error_of_ok (skipToken_of_ne hequal) ?_
        exact bind_eq_error_of_error (expectToken_of_noneOf (.cons (by simpa using hsemicolon)))
    rw [Goal.IsFailed, parseDeclaration.eq_def]
    simp only [hkind]
    exact bind_eq_error_of_error hvariable
  | functionName hkind hnone =>
    rw [Goal.IsFailed, parseDeclaration.eq_def]
    simp only [hkind]
    exact bind_eq_error_of_error (expectToken_of_noneOf hnone)
  | functionOpening hkind hname hnone =>
    rw [Goal.IsFailed, parseDeclaration.eq_def]
    simp only [hkind]
    refine bind_eq_error_of_ok (expectToken_of_kind hname) ?_
    exact bind_eq_error_of_error (expectToken_of_noneOf hnone)
  | functionBrace hkind hname hopen hparams hnone =>
    obtain ⟨_, hparsed⟩ := hparams.isParsed
    rw [Goal.IsFailed, parseDeclaration.eq_def]
    simp only [hkind]
    refine bind_eq_error_of_ok (expectToken_of_kind hname) ?_
    refine bind_eq_error_of_ok (expectToken_of_kind hopen) ?_
    refine bind_eq_error_of_ok hparsed ?_
    exact bind_eq_error_of_error (expectToken_of_noneOf hnone)
  | thenBranch hkind hcondition hthen =>
    -- the branch took the last token, so there is none to tell whether `else` follows
    obtain ⟨_, hparsed⟩ := hcondition.isParsed
    obtain ⟨_, hparsed'⟩ := hthen.isParsed
    rw [Goal.IsFailed, parseDeclaration.eq_def]
    simp only [hkind]
    exact bind_eq_error_of_ok hparsed (bind_eq_error_of_ok hparsed' (bind_eq_error_of_error rfl))
  | block heof =>
    rw [Goal.IsFailed, parseBlockBody, if_neg (by simp [heof]), if_pos heof]
    rfl

theorem Fails.isFailed {goal : Goal} {ts : List Token} {failure : ParseFailure}
    (h : Fails lastLine goal ts failure) : goal.IsFailed lastLine ts failure := by
  induction h with
  | stuck hstuck => exact hstuck.isFailed
  | enters henters _ ih => exact henters.isFailed ih

end

/-- Parsing fails as the paths say. -/
theorem parseProgram_eq_error_iff {tokens : List Token} {failure : ParseFailure} :
    parseProgram tokens = .error failure ↔
      Fails (lastLine? tokens) .program tokens failure :=
  ⟨fails_of_parseStatements, Fails.isFailed⟩

end StackScript
