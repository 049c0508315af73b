import StackScript.Proofs.Grammar

/-!
# Parsing by the rules

The rules of the grammar leave nothing open. What follows them is parsed, with the same value and the
same tokens left, so that a program is parsed if and only if the rules give it.

## Main definitions

* `Phrase.IsParsed`: parsing gives a phrase.

## Main results

* `Parses.isParsed`: what follows the rules is parsed.
* `parseProgram_eq_ok_iff`: parsing gives the programs of the rules.
-/

namespace StackScript

variable {lastLine : Option Line}

/-- Parsing gives a phrase and leaves some tokens. -/
def Phrase.IsParsed (lastLine : Option Line) (ts rest : List Token) : Phrase → Prop
  | expression power e => ∃ h, parseExpression lastLine power ts = .ok ⟨e, rest, h⟩
  | operand e => ∃ h, parseOperand lastLine ts = .ok ⟨e, rest, h⟩
  | operators power left whole =>
    ∃ h, parseOperators lastLine power left ts = .ok ⟨whole, rest, h⟩
  | arguments args => ∃ h, parseArguments lastLine ts = .ok ⟨args, rest, h⟩
  | parameters params => ∃ h, parseParameters lastLine ts = .ok ⟨params, rest, h⟩
  | simple e => ∃ h, parseExpressionStatement lastLine ts = .ok ⟨e, rest, h⟩
  | statement e => ∃ h, parseDeclaration lastLine ts = .ok ⟨e, rest, h⟩
  | block body => ∃ h, parseBlockBody lastLine ts = .ok ⟨body, rest, h⟩
  | program body => ∃ h, parseStatements lastLine ts = .ok ⟨body, rest, h⟩

section

variable {kind : TokenKind} {t : Token} {rest : List Token}

theorem expectToken_of_kind (h : t.kind = kind) :
    expectToken lastLine kind (t :: rest) = .ok ⟨t, rest, Nat.lt_succ_self _⟩ :=
  if_pos h

theorem skipToken_of_kind (h : t.kind = kind) : skipToken lastLine kind (t :: rest) =
    .ok ⟨true, rest, Nat.lt_succ_of_lt (Nat.lt_succ_self _)⟩ :=
  if_pos h

theorem skipToken_of_ne (h : t.kind ≠ kind) :
    skipToken lastLine kind (t :: rest) = .ok ⟨false, t :: rest, Nat.lt_succ_self _⟩ :=
  if_neg h

end

/-- What follows the rules is parsed. -/
theorem Parses.isParsed {phrase : Phrase} {ts rest : List Token} (h : Parses phrase ts rest) :
    phrase.IsParsed lastLine ts rest := by
  -- Each rule is one branch of a parser, on what its parts are parsed as. That tokens are used up is
  -- part of what is parsed, so every case has to show it from the lengths of its parts.
  induction h with
  | expression _ _ ihoperand ihoperators =>
    obtain ⟨_, hoperand⟩ := ihoperand
    obtain ⟨_, hoperators⟩ := ihoperators
    refine ⟨by omega, ?_⟩
    rw [parseExpression]
    exact bind_eq_ok_iff.mpr ⟨_, hoperand, bind_eq_ok_iff.mpr ⟨_, hoperators, rfl⟩⟩
  | number hkind hvalue =>
    refine ⟨by simp, ?_⟩
    rw [parseOperand.eq_def]
    simp only [hkind, hvalue]
  | string hkind | true hkind | false hkind =>
    refine ⟨by simp, ?_⟩
    rw [parseOperand.eq_def]
    simp only [hkind]
  | assign hkind hnext _ ih =>
    obtain ⟨hless, hvalue⟩ := ih
    refine ⟨by simp only [List.length_cons]; omega, ?_⟩
    rw [parseOperand.eq_def]
    simp only [hkind, if_pos hnext]
    exact bind_eq_ok_iff.mpr ⟨_, hvalue, rfl⟩
  | get hkind hnext =>
    refine ⟨by simp, ?_⟩
    rw [parseOperand.eq_def]
    simp only [hkind, if_neg hnext]
  | not hkind _ ih | negate hkind _ ih =>
    obtain ⟨hless, hoperand⟩ := ih
    refine ⟨by simp only [List.length_cons]; omega, ?_⟩
    rw [parseOperand.eq_def]
    simp only [hkind]
    exact bind_eq_ok_iff.mpr ⟨_, hoperand, rfl⟩
  | stop hpower =>
    refine ⟨by simp, ?_⟩
    rw [parseOperators, if_pos hpower]
  | binary hpower hop _ _ ihright ihwhole =>
    obtain ⟨hless, hright⟩ := ihright
    obtain ⟨hless', hwhole⟩ := ihwhole
    refine ⟨by simp only [List.length_cons]; omega, ?_⟩
    rw [parseOperators, if_neg (Nat.not_le_of_lt hpower)]
    simp only [hop]
    exact bind_eq_ok_iff.mpr ⟨_, hright, bind_eq_ok_iff.mpr ⟨_, hwhole, rfl⟩⟩
  | call hpower hkind _ _ ihargs ihwhole =>
    obtain ⟨hless, hargs⟩ := ihargs
    obtain ⟨hless', hwhole⟩ := ihwhole
    have hop : BinaryOp.ofToken? .lparen = none := rfl
    refine ⟨by simp only [List.length_cons]; omega, ?_⟩
    rw [parseOperators, if_neg (Nat.not_le_of_lt hpower)]
    simp only [hkind, hop, if_pos]
    exact bind_eq_ok_iff.mpr ⟨_, hargs, bind_eq_ok_iff.mpr ⟨_, hwhole, rfl⟩⟩
  | noArguments hkind =>
    refine ⟨by simp, ?_⟩
    rw [parseArguments, if_pos hkind]
  | argument hclose heof _ hcomma _ ih ihrest =>
    obtain ⟨hless, hfirst⟩ := ih
    obtain ⟨hless', hothers⟩ := ihrest
    simp only [List.length_cons] at hless
    refine ⟨by simp only [List.length_cons]; omega, ?_⟩
    rw [parseArguments, if_neg hclose, if_neg heof]
    refine bind_eq_ok_iff.mpr ⟨_, hfirst, ?_⟩
    dsimp only
    rw [if_pos hcomma]
    exact bind_eq_ok_iff.mpr ⟨_, hothers, rfl⟩
  | lastArgument hclose heof _ hlast ih =>
    obtain ⟨hless, hfirst⟩ := ih
    simp only [List.length_cons] at hless
    refine ⟨by simp only [List.length_cons]; omega, ?_⟩
    rw [parseArguments, if_neg hclose, if_neg heof]
    refine bind_eq_ok_iff.mpr ⟨_, hfirst, ?_⟩
    dsimp only
    rw [if_neg (by simp [hlast]), if_pos hlast]
  | noParameters hkind =>
    refine ⟨by simp, ?_⟩
    rw [parseParameters.eq_def]
    exact if_pos hkind
  | parameter hkind hcomma _ ih =>
    obtain ⟨hless, hothers⟩ := ih
    refine ⟨by simp only [List.length_cons]; omega, ?_⟩
    rw [parseParameters.eq_def]
    dsimp only
    rw [if_neg (by simp [hkind]), if_neg (by simp [hkind]), if_pos hkind, if_pos hcomma]
    exact bind_eq_ok_iff.mpr ⟨_, hothers, rfl⟩
  | lastParameter hkind hlast =>
    refine ⟨by simp only [List.length_cons]; omega, ?_⟩
    rw [parseParameters.eq_def]
    dsimp only
    rw [if_neg (by simp [hkind]), if_neg (by simp [hkind]), if_pos hkind, if_neg (by simp [hlast]),
      if_pos hlast]
  | ended _ hkind ih =>
    obtain ⟨hless, hvalue⟩ := ih
    simp only [List.length_cons] at hless
    exact ⟨by omega, bind_eq_ok_iff.mpr ⟨_, hvalue,
      bind_eq_ok_iff.mpr ⟨_, skipToken_of_kind hkind, rfl⟩⟩⟩
  | unended _ hkind ih =>
    obtain ⟨hless, hvalue⟩ := ih
    exact ⟨hless, bind_eq_ok_iff.mpr ⟨_, hvalue,
      bind_eq_ok_iff.mpr ⟨_, skipToken_of_ne hkind, rfl⟩⟩⟩
  | @declare t name next e rest ts hkind hname hequal _ ih =>
    obtain ⟨hless, hvalue⟩ := ih
    have hvariable : parseVariable lastLine t.line (name :: next :: rest) =
        .ok ⟨.declare name.lexeme e t.line, ts, by simp only [List.length_cons]; omega⟩ :=
      bind_eq_ok_iff.mpr ⟨_, expectToken_of_kind hname,
        bind_eq_ok_iff.mpr ⟨_, skipToken_of_kind hequal, bind_eq_ok_iff.mpr ⟨_, hvalue, rfl⟩⟩⟩
    refine ⟨by simp only [List.length_cons]; omega, ?_⟩
    rw [parseDeclaration.eq_def]
    simp only [hkind]
    exact bind_eq_ok_iff.mpr ⟨_, hvariable, rfl⟩
  | @declareZero t name next rest hkind hname hstop =>
    have hvariable : parseVariable lastLine t.line (name :: next :: rest) =
        .ok ⟨.declare name.lexeme (.literal .number (.int 0) t.line) t.line, rest,
          by simp only [List.length_cons]; omega⟩ :=
      bind_eq_ok_iff.mpr ⟨_, expectToken_of_kind hname,
        bind_eq_ok_iff.mpr ⟨_, skipToken_of_ne (by simp [hstop]),
          bind_eq_ok_iff.mpr ⟨_, expectToken_of_kind hstop, rfl⟩⟩⟩
    refine ⟨by simp only [List.length_cons]; omega, ?_⟩
    rw [parseDeclaration.eq_def]
    simp only [hkind]
    exact bind_eq_ok_iff.mpr ⟨_, hvariable, rfl⟩
  | function hkind hname hopen _ hbrace _ ihparams ihbody =>
    obtain ⟨hless, hparams⟩ := ihparams
    obtain ⟨hless', hbody⟩ := ihbody
    simp only [List.length_cons] at hless
    refine ⟨by simp only [List.length_cons]; omega, ?_⟩
    rw [parseDeclaration.eq_def]
    simp only [hkind]
    exact bind_eq_ok_iff.mpr ⟨_, expectToken_of_kind hname,
      bind_eq_ok_iff.mpr ⟨_, expectToken_of_kind hopen, bind_eq_ok_iff.mpr ⟨_, hparams,
        bind_eq_ok_iff.mpr ⟨_, expectToken_of_kind hbrace, bind_eq_ok_iff.mpr ⟨_, hbody, rfl⟩⟩⟩⟩⟩
  | print hkind _ ih | braces hkind _ ih =>
    obtain ⟨hless, hvalue⟩ := ih
    refine ⟨by simp only [List.length_cons]; omega, ?_⟩
    rw [parseDeclaration.eq_def]
    simp only [hkind]
    exact bind_eq_ok_iff.mpr ⟨_, hvalue, rfl⟩
  | ifThen hkind _ _ helse ihcondition ihthen =>
    obtain ⟨hless, hcondition⟩ := ihcondition
    obtain ⟨hless', hthen⟩ := ihthen
    simp only [List.length_cons] at hless'
    refine ⟨by simp only [List.length_cons]; omega, ?_⟩
    rw [parseDeclaration.eq_def]
    simp only [hkind]
    exact bind_eq_ok_iff.mpr ⟨_, hcondition, bind_eq_ok_iff.mpr ⟨_, hthen,
      bind_eq_ok_iff.mpr ⟨_, skipToken_of_ne helse, rfl⟩⟩⟩
  | ifElse hkind _ _ helse _ ihcondition ihthen ihelse =>
    obtain ⟨hless, hcondition⟩ := ihcondition
    obtain ⟨hless', hthen⟩ := ihthen
    obtain ⟨hless'', hother⟩ := ihelse
    simp only [List.length_cons] at hless'
    refine ⟨by simp only [List.length_cons]; omega, ?_⟩
    rw [parseDeclaration.eq_def]
    simp only [hkind]
    exact bind_eq_ok_iff.mpr ⟨_, hcondition, bind_eq_ok_iff.mpr ⟨_, hthen,
      bind_eq_ok_iff.mpr ⟨_, skipToken_of_kind helse, bind_eq_ok_iff.mpr ⟨_, hother, rfl⟩⟩⟩⟩
  | @plain t _ _ _ hstart _ ih =>
    obtain ⟨hless, hsimple⟩ := ih
    refine ⟨hless, ?_⟩
    rw [parseDeclaration.eq_def]
    -- No keyword and no brace is left for the token that starts an expression.
    cases hkind : t.kind <;> simp only [hkind] <;>
      first
      | exact hsimple
      | exact absurd hstart (by simp [hkind, TokenKind.startsStatement])
  | blockEnd hkind =>
    refine ⟨by simp, ?_⟩
    rw [parseBlockBody, if_pos hkind]
  | blockNext hclose heof _ _ ih ihrest =>
    obtain ⟨hless, hfirst⟩ := ih
    obtain ⟨hless', hothers⟩ := ihrest
    refine ⟨by omega, ?_⟩
    rw [parseBlockBody, if_neg hclose, if_neg heof]
    exact bind_eq_ok_iff.mpr ⟨_, hfirst, bind_eq_ok_iff.mpr ⟨_, hothers, rfl⟩⟩
  | programEnd heof =>
    refine ⟨by simp, ?_⟩
    rw [parseStatements, if_pos heof]
  | programNext heof _ _ ih ihrest =>
    obtain ⟨hless, hfirst⟩ := ih
    obtain ⟨hless', hothers⟩ := ihrest
    refine ⟨by omega, ?_⟩
    rw [parseStatements, if_neg heof]
    exact bind_eq_ok_iff.mpr ⟨_, hfirst, bind_eq_ok_iff.mpr ⟨_, hothers, rfl⟩⟩

/-- Parsing gives the programs of the rules. -/
theorem parseProgram_eq_ok_iff {tokens : List Token} {p : Parsed Program (tokens.length + 1)} :
    parseProgram tokens = .ok p ↔ Parses (.program p.value) tokens p.rest := by
  constructor
  · exact parses_of_parseProgram
  · intro h
    obtain ⟨_, hparsed⟩ := h.isParsed
    exact hparsed

end StackScript
