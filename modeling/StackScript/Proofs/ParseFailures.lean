import StackScript.Proofs.FailurePaths
import StackScript.Proofs.TokenWriting

/-!
# How parsing fails

Parsing has words for all its failures but one: a number that cannot be read. That failure comes
from a number among the tokens. The numbers of a program come from there too, except for the zero of
a declaration without a value.

## Main definitions

* `ParseError.CausedBy`: an error that has words, or a number among some tokens that cannot be read.
* `FailsFrom`: an outcome fails only with errors that some tokens cause.
* `Expr.literals`: the literals of a node.
* `LiteralOf`: a literal that comes from some tokens.

## Main results

* `parseProgram_failsFrom`: parsing fails in these ways only.
* `Parses.literals`: the literals of a program come from its tokens.
-/

namespace StackScript

/-! ### Failures -/

/-- An error that has words, or a number among some tokens that cannot be read. -/
def ParseError.CausedBy (tokens : List Token) : ParseError → Prop
  | .malformedNumber lexeme =>
    ∃ t ∈ tokens, t.kind = .number ∧ t.lexeme = lexeme ∧ numberOfLexeme? lexeme = none
  | _ => True

/-- An outcome fails only with errors that some tokens cause. -/
def FailsFrom {α : Type} (all : List Token) (outcome : Except ParseFailure α) : Prop :=
  ∀ failure, outcome = .error failure → failure.error.CausedBy all

/-- What a phrase leaves over is among the tokens it was read from. -/
theorem Parses.subset {all : List Token} {phrase : Phrase} {ts rest : List Token}
    (h : Parses phrase ts rest) (hsubset : ts ⊆ all) : rest ⊆ all :=
  List.Subset.trans h.suffix.subset hsubset

theorem missingToken_causedBy {lastLine : Option Line} {kind : TokenKind} {ts all : List Token} :
    (missingToken lastLine kind ts).error.CausedBy all := by
  cases ts <;> trivial

/-- A phrase that is stuck at a number has that number among its tokens. -/
theorem Stuck.causedBy {lastLine : Option Line} {goal : Goal} {ts all : List Token}
    {failure : ParseFailure} (h : Stuck lastLine goal ts failure) (hsubset : ts ⊆ all) :
    failure.error.CausedBy all := by
  cases h with
  | @number t _ hkind hnone => exact ⟨t, hsubset List.mem_cons_self, hkind, rfl, hnone⟩
  | outOfTokens | name | operandEnd | operand | operator | thenBranch => trivial
  | _ => exact missingToken_causedBy

theorem Fails.causedBy {lastLine : Option Line} {goal : Goal} {ts all : List Token}
    {failure : ParseFailure} (h : Fails lastLine goal ts failure) (hsubset : ts ⊆ all) :
    failure.error.CausedBy all := by
  induction h with
  | stuck hstuck => exact hstuck.causedBy hsubset
  | enters henters _ ih => exact ih (List.Subset.trans henters.consumes.suffix.subset hsubset)

/-- Parsing fails with a number that cannot be read only if there is one among the tokens. -/
theorem parseProgram_failsFrom (tokens : List Token) : FailsFrom tokens (parseProgram tokens) :=
  fun _ h => (parseProgram_eq_error_iff.mp h).causedBy (List.Subset.refl tokens)

/-! ### Literals -/

namespace Expr

mutual

/-- The literals of a node, in the order of the text. -/
def literals : Expr → List (LiteralKind × Datum)
  | block body _ => allLiterals body
  | binary left _ right _ => left.literals ++ right.literals
  | unary _ operand _ => operand.literals
  | declare _ value _ => value.literals
  | get _ _ => []
  | assign _ value _ => value.literals
  | print value _ => value.literals
  | ifElse condition thenBranch none _ => condition.literals ++ thenBranch.literals
  | ifElse condition thenBranch (some elseBranch) _ =>
    condition.literals ++ thenBranch.literals ++ elseBranch.literals
  | function _ _ body _ => allLiterals body
  | call callee args _ => callee.literals ++ allLiterals args
  | literal kind value _ => [(kind, value)]

/-- The literals of some nodes, in the order of the text. -/
def allLiterals : List Expr → List (LiteralKind × Datum)
  | [] => []
  | e :: rest => e.literals ++ allLiterals rest

end

end Expr

/-- A literal that comes from some tokens. Declarations without a value have a zero. -/
inductive LiteralOf (tokens : List Token) : LiteralKind × Datum → Prop
  | zero : LiteralOf tokens (.number, .int 0)
  | number {t : Token} {value : Datum} : t ∈ tokens → t.kind = .number →
      numberOfLexeme? t.lexeme = some value → LiteralOf tokens (.number, value)
  | string (text : String) : LiteralOf tokens (.string, .text text)
  | true (value : Datum) : LiteralOf tokens (.true, value)
  | false (value : Datum) : LiteralOf tokens (.false, value)

/-- The literals of a phrase. Those of operators are in the expression that they make. -/
def Phrase.literals : Phrase → List (LiteralKind × Datum)
  | expression _ e | operand e | operators _ _ e | simple e | statement e => e.literals
  | arguments list | block list | program list => Expr.allLiterals list
  | parameters _ => []

/-- The literals that were read before a phrase and belong to it. -/
def Phrase.givenLiterals : Phrase → List (LiteralKind × Datum)
  | operators _ left _ => left.literals
  | _ => []

/-- The literals of a phrase come from its tokens. -/
theorem Parses.literals {all : List Token} {phrase : Phrase} {ts rest : List Token}
    (h : Parses phrase ts rest) (hts : ts ⊆ all)
    (hgiven : ∀ literal ∈ phrase.givenLiterals, LiteralOf all literal) :
    ∀ literal ∈ phrase.literals, LiteralOf all literal := by
  -- A literal comes from a token of the source, or it stands for a value that was left out.
  induction h with
  | expression h _ ihoperand ihoperators =>
    exact ihoperators (h.subset hts) (ihoperand hts (List.forall_mem_nil _))
  | number hkind hvalue =>
    exact List.forall_mem_singleton.mpr (.number (hts List.mem_cons_self) hkind hvalue)
  | string => exact List.forall_mem_singleton.mpr (.string _)
  | true => exact List.forall_mem_singleton.mpr (.true _)
  | false => exact List.forall_mem_singleton.mpr (.false _)
  | assign _ _ _ ih => exact ih (List.cons_subset.mp (List.cons_subset.mp hts).2).2 hgiven
  | get => exact List.forall_mem_nil _
  | not _ _ ih | negate _ _ ih | print _ _ ih | braces _ _ ih =>
    exact ih (List.cons_subset.mp hts).2 (List.forall_mem_nil _)
  -- an operand that nothing follows passes on what was given
  | stop => exact hgiven
  | binary _ _ h _ ihright ihwhole =>
    have hrest := (List.cons_subset.mp hts).2
    refine ihwhole (h.subset hrest) ?_
    exact List.forall_mem_append.mpr ⟨hgiven, ihright hrest (List.forall_mem_nil _)⟩
  | call _ _ h _ ihargs ihwhole =>
    have hrest := (List.cons_subset.mp hts).2
    refine ihwhole (h.subset hrest) ?_
    exact List.forall_mem_append.mpr ⟨hgiven, ihargs hrest (List.forall_mem_nil _)⟩
  | noArguments | blockEnd | programEnd => exact List.forall_mem_nil _
  | argument _ _ h _ _ ih ihrest =>
    have hafter := (List.cons_subset.mp (h.subset hts)).2
    exact List.forall_mem_append.mpr
      ⟨ih hts (List.forall_mem_nil _), ihrest hafter (List.forall_mem_nil _)⟩
  | lastArgument _ _ _ _ ih =>
    exact List.forall_mem_append.mpr ⟨ih hts (List.forall_mem_nil _), List.forall_mem_nil _⟩
  | noParameters | parameter | lastParameter => exact List.forall_mem_nil _
  | ended _ _ ih | unended _ _ ih | plain _ _ ih => exact ih hts (List.forall_mem_nil _)
  | declare _ _ _ _ ih =>
    have hrest := (List.cons_subset.mp (List.cons_subset.mp (List.cons_subset.mp hts).2).2).2
    exact ih hrest (List.forall_mem_nil _)
  | declareZero => exact List.forall_mem_singleton.mpr .zero
  | function _ _ _ hparams _ _ _ ihbody =>
    have hrest := (List.cons_subset.mp (List.cons_subset.mp (List.cons_subset.mp hts).2).2).2
    exact ihbody (List.cons_subset.mp (hparams.subset hrest)).2 (List.forall_mem_nil _)
  | ifThen _ h _ _ ihcondition ihthen =>
    have hrest := (List.cons_subset.mp hts).2
    exact List.forall_mem_append.mpr
      ⟨ihcondition hrest (List.forall_mem_nil _), ihthen (h.subset hrest) (List.forall_mem_nil _)⟩
  | ifElse _ h h' _ _ ihcondition ihthen ihelse =>
    have hrest := (List.cons_subset.mp hts).2
    have hthen := h.subset hrest
    have helse := (List.cons_subset.mp (h'.subset hthen)).2
    exact List.forall_mem_append.mpr ⟨List.forall_mem_append.mpr
      ⟨ihcondition hrest (List.forall_mem_nil _), ihthen hthen (List.forall_mem_nil _)⟩,
      ihelse helse (List.forall_mem_nil _)⟩
  | blockNext _ _ h _ ih ihrest | programNext _ h _ ih ihrest =>
    exact List.forall_mem_append.mpr
      ⟨ih hts (List.forall_mem_nil _), ihrest (h.subset hts) (List.forall_mem_nil _)⟩

end StackScript
