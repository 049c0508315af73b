import StackScript.Source.Program
import StackScript.Numeral

/-!
# Parsing

Statements are read by recursive descent and expressions by binding power: an expression read at a
power takes every operator that binds tighter than it. A list of tokens is read from the front,
and what a step leaves over is shorter than what it was given; that is why parsing ends.

Parsing looks only at the next token. It stops at the first token that marks the end, and a list
without one fails when it runs out.

## Main definitions

* `ParseError`, `ParseFailure`: why parsing fails, and the tokens that were left.
* `Parsed`: a value read from the front of a list, with the rest.
* `parseExpression`, `parseDeclaration`: one expression, one statement.
* `parseProgram`: all statements up to the end.
-/

namespace StackScript

/-- Why tokens are no program. -/
inductive ParseError where
  /-- Another token stands where a certain one must. -/
  | expectedToken (expected actual : TokenKind) (line : Line)
  /-- A token continues an expression, and there is no rule for it. -/
  | unexpectedToken (kind : TokenKind) (line : Option Line)
  /-- A token cannot start an expression. -/
  | expectedPrimary (kind : TokenKind) (line : Line)
  /-- The tokens end where another is needed. -/
  | unexpectedEnd (line : Option Line)
  /-- A number cannot be read, because it has too many digits or is no number. -/
  | malformedNumber (lexeme : String)
  deriving DecidableEq, Repr

/-- What a parse error tells its reader. A number that cannot be read is a fault of the token and
has no message here. -/
def ParseError.diagnostic? : ParseError → Option Diagnostic
  | expectedToken expected actual line =>
    some { message := s!"Expected {expected.name}, got {actual.name}", line := some line }
  | unexpectedToken kind line => some { message := s!"Unexpected token {kind.name}", line := line }
  | expectedPrimary kind line =>
    some { message := s!"Expected primary expression, got {kind.name}", line := some line }
  | unexpectedEnd line => some { message := "Unexpected end of input", line := line }
  | malformedNumber _ => none

/-- The binary operator that a token writes. -/
def BinaryOp.ofToken (kind : TokenKind) (line : Option Line) : Except ParseError BinaryOp :=
  match BinaryOp.ofToken? kind with
  | some op => .ok op
  | none => .error (.unexpectedToken kind line)

/-- The unary operator that a token writes. -/
def UnaryOp.ofToken (kind : TokenKind) (line : Option Line) : Except ParseError UnaryOp :=
  match UnaryOp.ofToken? kind with
  | some op => .ok op
  | none => .error (.unexpectedToken kind line)

/-- A parse error, with the tokens that were left when it arose. -/
structure ParseFailure where
  error : ParseError
  rest : List Token
  deriving DecidableEq, Repr

/-- A value read from the front of a list of tokens, and the tokens after it, of which there are
fewer than `bound`. -/
structure Parsed (α : Type) (bound : Nat) where
  value : α
  rest : List Token
  shorter : rest.length < bound

namespace Parsed

/-- The same, below a larger bound. -/
def widen {α : Type} {m n : Nat} (p : Parsed α m) (h : m ≤ n) : Parsed α n :=
  ⟨p.value, p.rest, Nat.lt_of_lt_of_le p.shorter h⟩

/-- Another value, read from the same tokens. -/
def map {α β : Type} {n : Nat} (f : α → β) (p : Parsed α n) : Parsed β n :=
  ⟨f p.value, p.rest, p.shorter⟩

end Parsed

/-- The number that a token denotes: a double if it has a point, otherwise an integer. -/
def numberOfLexeme? (lexeme : String) : Option Datum :=
  if lexeme.toList.contains '.' then (Numeral.real? lexeme).map .real
  else (Numeral.integer? lexeme).map .int

section

variable (lastLine : Option Line)

/-- The failure of a list that has run out of tokens; it is reported at the line of the last. -/
def outOfTokens {α : Type} : Except ParseFailure α :=
  .error ⟨.unexpectedEnd lastLine, []⟩

/-- Reads a token of a certain kind. -/
def expectToken (kind : TokenKind) :
    (tokens : List Token) → Except ParseFailure (Parsed Token tokens.length)
  | [] => outOfTokens lastLine
  | t :: rest =>
    if t.kind = kind then .ok ⟨t, rest, by simp⟩
    else .error ⟨.expectedToken kind t.kind t.line, t :: rest⟩

/-- Reads a token of a certain kind if it comes next; the value tells whether it did. -/
def skipToken (kind : TokenKind) :
    (tokens : List Token) → Except ParseFailure (Parsed Bool (tokens.length + 1))
  | [] => outOfTokens lastLine
  | t :: rest =>
    if t.kind = kind then .ok ⟨true, rest, by simp only [List.length_cons]; omega⟩
    else .ok ⟨false, t :: rest, by simp⟩

/-! ### Expressions -/

mutual

/-- Reads an expression whose operators all bind tighter than `power`. -/
def parseExpression (power : Nat) (tokens : List Token) :
    Except ParseFailure (Parsed Expr tokens.length) := do
  let first ← parseOperand tokens
  have := first.shorter
  let whole ← parseOperators power first.value first.rest
  return whole.widen (by omega)
termination_by 3 * tokens.length + 1

/-- Reads an expression without an operator behind its first operand. -/
def parseOperand :
    (tokens : List Token) → Except ParseFailure (Parsed Expr tokens.length)
  | [] => outOfTokens lastLine
  | t :: rest =>
    match t.kind with
    | .number =>
      match numberOfLexeme? t.lexeme with
      | some value => .ok ⟨.literal .number value t.line, rest, by simp⟩
      | none => .error ⟨.malformedNumber t.lexeme, rest⟩
    | .string => .ok ⟨.literal .string (.text t.lexeme) t.line, rest, by simp⟩
    | .trueKw => .ok ⟨.literal .true (.truth true) t.line, rest, by simp⟩
    | .falseKw => .ok ⟨.literal .false (.truth false) t.line, rest, by simp⟩
    | .identifier =>
      match rest with
      | [] => outOfTokens lastLine
      | next :: after =>
        -- an assignment, whatever operator stands before the name
        if next.kind = .equal then do
          let value ← parseExpression 0 after
          return (value.map fun value => .assign t.lexeme value t.line).widen (by simp; omega)
        else .ok ⟨.get t.lexeme t.line, next :: after, by simp⟩
    | .bang => do
      let operand ← parseExpression unaryBindingPower rest
      return (operand.map fun operand => .unary .not operand t.line).widen (by simp)
    | .minus => do
      let operand ← parseExpression unaryBindingPower rest
      return (operand.map fun operand => .unary .negate operand t.line).widen (by simp)
    | .eof => .error ⟨.unexpectedEnd (some t.line), t :: rest⟩
    | kind => .error ⟨.expectedPrimary kind t.line, t :: rest⟩
termination_by tokens => 3 * tokens.length

/-- Reads the operators that follow the operand `left` and bind tighter than `power`. -/
def parseOperators (power : Nat) (left : Expr) :
    (tokens : List Token) → Except ParseFailure (Parsed Expr (tokens.length + 1))
  | [] => outOfTokens lastLine
  | t :: rest =>
    if t.kind.bindingPower ≤ power then .ok ⟨left, t :: rest, by simp⟩
    else match BinaryOp.ofToken? t.kind with
      | some op => do
        -- the right side leaves equal powers to this level, so they associate to the left
        let right ← parseExpression t.kind.bindingPower rest
        have := right.shorter
        let whole ← parseOperators power (.binary left op right.value t.line) right.rest
        return whole.widen (by simp only [List.length_cons]; omega)
      | none =>
        if t.kind = .lparen then do
          let args ← parseArguments rest
          have := args.shorter
          let whole ← parseOperators power (.call left args.value t.line) args.rest
          return whole.widen (by simp only [List.length_cons]; omega)
        else .error ⟨.unexpectedToken t.kind (some t.line), t :: rest⟩
termination_by tokens => 3 * tokens.length

/-- Reads arguments up to and including the closing parenthesis. A comma may follow the last. -/
def parseArguments (tokens : List Token) :
    Except ParseFailure (Parsed (List Expr) tokens.length) :=
  match tokens with
  | [] => outOfTokens lastLine
  | t :: rest =>
    if t.kind = .rparen then .ok ⟨[], rest, by simp⟩
    else if t.kind = .eof then .error ⟨.expectedToken .rparen t.kind t.line, t :: rest⟩
    else do
      let first ← parseExpression 0 (t :: rest)
      match first with
      | ⟨_, [], _⟩ => outOfTokens lastLine
      | ⟨value, next :: after, shorter⟩ =>
        have : after.length + 1 < rest.length + 1 := shorter
        if next.kind = .comma then do
          let others ← parseArguments after
          return (others.map (value :: ·)).widen (by simp only [List.length_cons]; omega)
        else if next.kind = .rparen then
          .ok ⟨[value], after, by simp only [List.length_cons]; omega⟩
        else .error ⟨.expectedToken .rparen next.kind next.line, next :: after⟩
termination_by 3 * tokens.length + 2

end

/-! ### Statements -/

/-- Reads an expression and the semicolon behind it, if there is one. -/
def parseExpressionStatement (tokens : List Token) :
    Except ParseFailure (Parsed Expr tokens.length) := do
  let value ← parseExpression lastLine 0 tokens
  have := value.shorter
  let skipped ← skipToken lastLine .semicolon value.rest
  return (skipped.map fun _ => value.value).widen (by omega)

/-- Reads a declaration of a variable, of which the keyword has been read. Without a value the
variable starts at zero. -/
def parseVariable (line : Line) (tokens : List Token) :
    Except ParseFailure (Parsed Expr tokens.length) := do
  let name ← expectToken lastLine .identifier tokens
  have := name.shorter
  let skipped ← skipToken lastLine .equal name.rest
  have := skipped.shorter
  if skipped.value then
    let value ← parseExpressionStatement lastLine skipped.rest
    return (value.map fun value => .declare name.value.lexeme value line).widen (by omega)
  else
    let stop ← expectToken lastLine .semicolon skipped.rest
    let value : Expr := .literal .number (.int 0) line
    return (stop.map fun _ => .declare name.value.lexeme value line).widen (by omega)

/-- Reads parameters up to and including the closing parenthesis. A comma may follow the last. -/
def parseParameters :
    (tokens : List Token) → Except ParseFailure (Parsed (List String) tokens.length)
  | [] => outOfTokens lastLine
  | t :: rest =>
    if t.kind = .rparen then .ok ⟨[], rest, by simp⟩
    else if t.kind = .eof then .error ⟨.expectedToken .rparen t.kind t.line, t :: rest⟩
    else if t.kind = .identifier then
      match rest with
      | [] => outOfTokens lastLine
      | next :: after =>
        if next.kind = .comma then do
          let others ← parseParameters after
          return (others.map (t.lexeme :: ·)).widen (by simp only [List.length_cons]; omega)
        else if next.kind = .rparen then
          .ok ⟨[t.lexeme], after, by simp only [List.length_cons]; omega⟩
        else .error ⟨.expectedToken .rparen next.kind next.line, next :: after⟩
    else .error ⟨.expectedToken .identifier t.kind t.line, t :: rest⟩

mutual

/-- Reads one statement. -/
def parseDeclaration :
    (tokens : List Token) → Except ParseFailure (Parsed Expr tokens.length)
  | [] => outOfTokens lastLine
  | t :: rest =>
    match t.kind with
    | .letKw => do
      let declared ← parseVariable lastLine t.line rest
      return declared.widen (by simp)
    | .funKw => do
      let name ← expectToken lastLine .identifier rest
      have := name.shorter
      let opening ← expectToken lastLine .lparen name.rest
      have := opening.shorter
      let params ← parseParameters lastLine opening.rest
      have := params.shorter
      let brace ← expectToken lastLine .lbrace params.rest
      have := brace.shorter
      let body ← parseBlockBody brace.rest
      return (body.map fun body => .function name.value.lexeme params.value body t.line).widen
        (by simp only [List.length_cons]; omega)
    | .printKw => do
      let value ← parseExpressionStatement lastLine rest
      return (value.map fun value => .print value t.line).widen (by simp)
    | .ifKw => do
      let condition ← parseExpression lastLine 0 rest
      have := condition.shorter
      let thenBranch ← parseDeclaration condition.rest
      have := thenBranch.shorter
      let skipped ← skipToken lastLine .elseKw thenBranch.rest
      have := skipped.shorter
      if skipped.value then
        let elseBranch ← parseDeclaration skipped.rest
        return (elseBranch.map fun branch =>
          .ifElse condition.value thenBranch.value (some branch) t.line).widen
          (by simp only [List.length_cons]; omega)
      else
        return (skipped.map fun _ =>
          .ifElse condition.value thenBranch.value none t.line).widen
          (by simp only [List.length_cons]; omega)
    | .lbrace => do
      let body ← parseBlockBody rest
      return (body.map fun body => .block body t.line).widen (by simp)
    | _ => parseExpressionStatement lastLine (t :: rest)
termination_by tokens => 2 * tokens.length

/-- Reads statements up to and including the closing brace. -/
def parseBlockBody (tokens : List Token) :
    Except ParseFailure (Parsed (List Expr) tokens.length) :=
  match tokens with
  | [] => outOfTokens lastLine
  | t :: rest =>
    if t.kind = .rbrace then .ok ⟨[], rest, by simp⟩
    else if t.kind = .eof then .error ⟨.expectedToken .rbrace t.kind t.line, t :: rest⟩
    else do
      let first ← parseDeclaration (t :: rest)
      have : first.rest.length < rest.length + 1 := first.shorter
      let others ← parseBlockBody first.rest
      return (others.map (first.value :: ·)).widen (by simp only [List.length_cons]; omega)
termination_by 2 * tokens.length + 1

end

/-- Reads statements up to the first token that marks the end, and leaves that token. -/
def parseStatements (tokens : List Token) :
    Except ParseFailure (Parsed Program (tokens.length + 1)) :=
  match tokens with
  | [] => outOfTokens lastLine
  | t :: rest =>
    if t.kind = .eof then .ok ⟨[], t :: rest, by simp⟩
    else do
      let first ← parseDeclaration lastLine (t :: rest)
      have : first.rest.length < rest.length + 1 := first.shorter
      let others ← parseStatements first.rest
      return (others.map (first.value :: ·)).widen (by simp only [List.length_cons]; omega)
termination_by tokens.length

end

/-- The line of the last token. -/
def lastLine? (tokens : List Token) : Option Line :=
  tokens.getLast?.map Token.line

/-- The program that a list of tokens writes, with the tokens from the end mark on. -/
def parseProgram (tokens : List Token) :
    Except ParseFailure (Parsed Program (tokens.length + 1)) :=
  parseStatements (lastLine? tokens) tokens

end StackScript
