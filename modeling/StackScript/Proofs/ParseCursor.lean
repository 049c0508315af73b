import StackScript.Proofs.FailurePaths
import StackScript.Proofs.TokenWriting

/-!
# Parsing does not look ahead

Whether a phrase is read, and as what, depends on its own tokens and on the one behind them. So what
parsing gives depends on no token behind the one at which it ends, whether it fails there or not;
and it ends at an end mark at the latest, since it takes none.

## Main definitions

* `Replaces`: tokens that may stand behind a phrase in place of others.
* `parseOutcome`, `parseCursor`: what parsing gives, and where it ends.
* `ReadsNoFurther`: parsing ends, at an end mark at the latest, and has not looked further.

## Main results

* `Parses.relocate`, `Fails.relocate`: the tokens behind a phrase or a failure can be replaced.
* `parse_readsNoFurther`: parsing reads no further than it has to.
-/

namespace StackScript

/-! ### Tokens behind a phrase -/

/-- Two lists start with the same token. -/
inductive SameFirst : List Token → List Token → Prop
  | intro (t : Token) (rest rest' : List Token) : SameFirst (t :: rest) (t :: rest')

/-- The kinds of tokens that continue no phrase: they bind nothing, end no statement and start no
other branch. -/
def TokenKind.continuesNothing (kind : TokenKind) : Bool :=
  kind.bindingPower == 0 && kind != .semicolon && kind != .elseKw

theorem TokenKind.of_continuesNothing {kind : TokenKind} (h : kind.continuesNothing = true) :
    kind.bindingPower = 0 ∧ kind ≠ .equal ∧ kind ≠ .semicolon ∧ kind ≠ .elseKw := by
  simp only [continuesNothing, Bool.and_eq_true, beq_iff_eq, bne_iff_ne] at h
  obtain ⟨⟨hpower, hsemicolon⟩, helse⟩ := h
  exact ⟨hpower, fun heq => by simp [heq, bindingPower] at hpower, hsemicolon, helse⟩

/-- What may stand behind a phrase in place of other tokens: the same token, or one that continues
no phrase. -/
inductive Replaces : List Token → List Token → Prop
  | same {rest rest' : List Token} : SameFirst rest rest' → Replaces rest rest'
  | ended {rest rest' : List Token} {t : Token} : t.kind.continuesNothing = true →
      Replaces rest (t :: rest')

/-- What may stand behind a phrase in place of other tokens. Behind a program it starts with the
same end mark. -/
def Phrase.Allows (rest rest' : List Token) : Phrase → Prop
  | program _ => SameFirst rest rest'
  | _ => Replaces rest rest'

section

variable {rest rest' : List Token}

theorem SameFirst.append (h : SameFirst rest rest') (taken : List Token) :
    SameFirst (taken ++ rest) (taken ++ rest') := by
  cases taken with
  | nil => exact h
  | cons t taken => exact .intro t _ _

theorem Replaces.append (h : Replaces rest rest') (taken : List Token) :
    Replaces (taken ++ rest) (taken ++ rest') := by
  cases taken with
  | nil => exact h
  | cons t taken => exact .same (.intro t _ _)

/-- What stands in place of a token neither binds tighter nor starts what it did not start. -/
theorem Replaces.exists_first {t : Token} {ts : List Token} (h : Replaces (t :: rest) ts) :
    ∃ t' rest', ts = t' :: rest' ∧ t'.kind.bindingPower ≤ t.kind.bindingPower ∧
      ∀ kind ∈ [TokenKind.equal, .semicolon, .elseKw], t.kind ≠ kind → t'.kind ≠ kind := by
  cases h with
  | same h =>
    obtain ⟨_, _, rest'⟩ := h
    exact ⟨t, rest', rfl, Nat.le_refl _, fun _ _ h => h⟩
  | @ended rest' t' hnothing =>
    obtain ⟨hpower, hkinds⟩ := TokenKind.of_continuesNothing hnothing
    exact ⟨t', rest', rfl, hpower ▸ Nat.zero_le _, by simp [hkinds]⟩

end

/-- Whether every phrase of a sort takes a token. -/
def Phrase.TakesSome : Phrase → Prop
  | operators .. | program .. => False
  | _ => True

theorem Parses.length_lt {phrase : Phrase} {ts rest : List Token} (h : Parses phrase ts rest)
    (hsome : phrase.TakesSome) : rest.length < ts.length := by
  have hparsed := @Parses.isParsed none _ _ _ h
  cases phrase with
  | operators | program => exact hsome.elim
  | _ =>
    obtain ⟨hless, -⟩ := hparsed
    exact hless

/-- The first of the tokens that a phrase takes. -/
theorem Parses.exists_cons {phrase : Phrase} {t : Token} {rest taken left : List Token}
    (h : Parses phrase (t :: rest) left) (hsome : phrase.TakesSome)
    (htaken : t :: rest = taken ++ left) : ∃ front, taken = t :: front ∧ rest = front ++ left := by
  cases taken with
  | nil =>
    have hless := h.length_lt hsome
    rw [htaken] at hless
    exact absurd hless (Nat.lt_irrefl _)
  | cons t' front =>
    obtain ⟨rfl, rfl⟩ := List.cons.inj htaken
    exact ⟨front, rfl, rfl⟩

/-- A phrase is read as the same before other tokens that may stand behind it. -/
theorem Parses.relocate {phrase : Phrase} {ts rest : List Token} (h : Parses phrase ts rest) :
    ∀ {rest' : List Token}, phrase.Allows rest rest' →
      ∃ taken, ts = taken ++ rest ∧ Parses phrase (taken ++ rest') rest' := by
  -- The tokens behind the last part of a phrase are replaced first. The other parts then stand
  -- before the same token as they did, or before the replacement itself.
  induction h with
  | expression _ _ ihoperand ihoperators =>
    intro rest' hrest
    obtain ⟨taken', rfl, hoperators⟩ := ihoperators hrest
    obtain ⟨taken, rfl, hoperand⟩ := ihoperand (Replaces.append hrest taken')
    refine ⟨taken ++ taken', (List.append_assoc ..).symm, ?_⟩
    rw [List.append_assoc]
    exact .expression hoperand hoperators
  | number hkind hvalue => exact fun _ => ⟨[_], rfl, .number hkind hvalue⟩
  | string hkind => exact fun _ => ⟨[_], rfl, .string hkind⟩
  | true hkind => exact fun _ => ⟨[_], rfl, .true hkind⟩
  | false hkind => exact fun _ => ⟨[_], rfl, .false hkind⟩
  | @assign t next _ _ _ hkind hnext _ ih =>
    intro rest' hrest
    obtain ⟨taken, rfl, hvalue⟩ := ih hrest
    exact ⟨t :: next :: taken, rfl, .assign hkind hnext hvalue⟩
  | get hkind hnext =>
    intro rest' hrest
    obtain ⟨next', after', rfl, -, hkinds⟩ := Replaces.exists_first hrest
    exact ⟨[_], rfl, .get hkind (hkinds .equal (by simp) hnext)⟩
  | not hkind _ ih =>
    intro rest' hrest
    obtain ⟨taken, rfl, hoperand⟩ := ih hrest
    exact ⟨_ :: taken, rfl, .not hkind hoperand⟩
  | negate hkind _ ih =>
    intro rest' hrest
    obtain ⟨taken, rfl, hoperand⟩ := ih hrest
    exact ⟨_ :: taken, rfl, .negate hkind hoperand⟩
  | stop hpower =>
    intro rest' hrest
    obtain ⟨t', after', rfl, hle, -⟩ := Replaces.exists_first hrest
    exact ⟨[], rfl, .stop (Nat.le_trans hle hpower)⟩
  | @binary power left right whole op t _ _ _ hpower hop _ _ ihright ihwhole =>
    intro rest' hrest
    obtain ⟨taken', rfl, hwhole⟩ := ihwhole hrest
    obtain ⟨taken, rfl, hright⟩ := ihright (Replaces.append hrest taken')
    refine ⟨t :: taken ++ taken', by simp, ?_⟩
    rw [List.append_assoc]
    exact .binary hpower hop hright hwhole
  | @call power left whole args t _ _ _ hpower hkind _ _ ihargs ihwhole =>
    intro rest' hrest
    obtain ⟨taken', rfl, hwhole⟩ := ihwhole hrest
    obtain ⟨taken, rfl, hargs⟩ := ihargs (Replaces.append hrest taken')
    refine ⟨t :: taken ++ taken', by simp, ?_⟩
    rw [List.append_assoc]
    exact .call hpower hkind hargs hwhole
  | noArguments hkind => exact fun _ => ⟨[_], rfl, .noArguments hkind⟩
  | @argument t next _ _ _ _ _ hclose heof hfirst hcomma _ ihfirst ihrest =>
    intro rest' hrest
    obtain ⟨taken', rfl, hothers⟩ := ihrest hrest
    obtain ⟨taken, htaken, hfirst'⟩ := ihfirst (.same (.intro next _ (taken' ++ rest')))
    obtain ⟨front, rfl, rfl⟩ := hfirst.exists_cons trivial htaken
    refine ⟨t :: front ++ next :: taken', by simp, ?_⟩
    rw [List.append_assoc]
    exact .argument hclose heof hfirst' hcomma hothers
  | @lastArgument t next _ _ _ hclose heof hfirst hlast ih =>
    intro rest' _
    obtain ⟨taken, htaken, hfirst'⟩ := ih (.same (.intro next _ rest'))
    obtain ⟨front, rfl, rfl⟩ := hfirst.exists_cons trivial htaken
    refine ⟨t :: front ++ [next], by simp, ?_⟩
    rw [List.append_assoc]
    exact .lastArgument hclose heof hfirst' hlast
  | noParameters hkind => exact fun _ => ⟨[_], rfl, .noParameters hkind⟩
  | @parameter t next _ _ _ hkind hcomma _ ih =>
    intro rest' hrest
    obtain ⟨taken, rfl, hothers⟩ := ih hrest
    exact ⟨t :: next :: taken, rfl, .parameter hkind hcomma hothers⟩
  | lastParameter hkind hlast => exact fun _ => ⟨[_, _], rfl, .lastParameter hkind hlast⟩
  | @ended t _ _ _ _ hkind ih =>
    intro rest' _
    obtain ⟨taken, rfl, hvalue⟩ := ih (.same (.intro t _ rest'))
    refine ⟨taken ++ [t], by simp, ?_⟩
    rw [List.append_assoc]
    exact .ended hvalue hkind
  | unended _ hkind ih =>
    intro rest' hrest
    obtain ⟨taken, rfl, hvalue⟩ := ih hrest
    obtain ⟨t', after', rfl, -, hkinds⟩ := Replaces.exists_first hrest
    exact ⟨taken, rfl, .unended hvalue (hkinds .semicolon (by simp) hkind)⟩
  | @declare t name next _ _ _ hkind hname hequal _ ih =>
    intro rest' hrest
    obtain ⟨taken, rfl, hvalue⟩ := ih hrest
    exact ⟨t :: name :: next :: taken, rfl, .declare hkind hname hequal hvalue⟩
  | declareZero hkind hname hstop =>
    exact fun _ => ⟨[_, _, _], rfl, .declareZero hkind hname hstop⟩
  | @function t name opening brace _ _ _ _ _ hkind hname hopen _ hbrace _ ihparams ihbody =>
    intro rest' hrest
    obtain ⟨taken', rfl, hbody⟩ := ihbody hrest
    obtain ⟨taken, rfl, hparams⟩ := ihparams (.same (.intro brace _ (taken' ++ rest')))
    refine ⟨t :: name :: opening :: taken ++ brace :: taken', by simp, ?_⟩
    rw [List.append_assoc]
    exact .function hkind hname hopen hparams hbrace hbody
  | print hkind _ ih =>
    intro rest' hrest
    obtain ⟨taken, rfl, hvalue⟩ := ih hrest
    exact ⟨_ :: taken, rfl, .print hkind hvalue⟩
  | @ifThen t _ _ _ _ _ _ hkind _ _ helse ihcondition ihthen =>
    intro rest' hrest
    obtain ⟨taken', rfl, hthen⟩ := ihthen hrest
    obtain ⟨taken, rfl, hcondition⟩ := ihcondition (Replaces.append hrest taken')
    obtain ⟨next', after', rfl, -, hkinds⟩ := Replaces.exists_first hrest
    refine ⟨t :: taken ++ taken', by simp, ?_⟩
    rw [List.append_assoc]
    exact .ifThen hkind hcondition hthen (hkinds .elseKw (by simp) helse)
  | @ifElse t next _ _ _ _ _ _ _ hkind _ _ helse _ ihcondition ihthen ihother =>
    intro rest' hrest
    obtain ⟨taken'', rfl, hother⟩ := ihother hrest
    obtain ⟨taken', rfl, hthen⟩ := ihthen (.same (.intro next _ (taken'' ++ rest')))
    obtain ⟨taken, rfl, hcondition⟩ :=
      ihcondition (.same ((SameFirst.intro next _ _).append taken'))
    refine ⟨t :: taken ++ (taken' ++ next :: taken''), by simp, ?_⟩
    rw [List.append_assoc, List.append_assoc]
    exact .ifElse hkind hcondition hthen helse hother
  | braces hkind _ ih =>
    intro rest' hrest
    obtain ⟨taken, rfl, hbody⟩ := ih hrest
    exact ⟨_ :: taken, rfl, .braces hkind hbody⟩
  | plain hstart hsimple ih =>
    intro rest' hrest
    obtain ⟨taken, htaken, hvalue⟩ := ih hrest
    obtain ⟨front, rfl, rfl⟩ := hsimple.exists_cons trivial htaken
    exact ⟨_ :: front, rfl, .plain hstart hvalue⟩
  | blockEnd hkind => exact fun _ => ⟨[_], rfl, .blockEnd hkind⟩
  | @blockNext t _ _ _ _ _ hclose heof hfirst _ ihfirst ihrest =>
    intro rest' hrest
    obtain ⟨taken', rfl, hothers⟩ := ihrest hrest
    obtain ⟨taken, htaken, hfirst'⟩ := ihfirst (Replaces.append hrest taken')
    obtain ⟨front, rfl, rfl⟩ := hfirst.exists_cons trivial htaken
    refine ⟨t :: front ++ taken', by simp, ?_⟩
    rw [List.append_assoc]
    exact .blockNext hclose heof hfirst' hothers
  | programEnd heof =>
    intro rest' hrest
    obtain ⟨t, _, rest'⟩ := hrest
    exact ⟨[], rfl, .programEnd heof⟩
  | @programNext t _ _ _ _ _ heof hfirst _ ihfirst ihrest =>
    intro rest' hrest
    obtain ⟨taken', rfl, hothers⟩ := ihrest hrest
    obtain ⟨taken, htaken, hfirst'⟩ := ihfirst (.same (SameFirst.append hrest taken'))
    obtain ⟨front, rfl, rfl⟩ := hfirst.exists_cons trivial htaken
    refine ⟨t :: front ++ taken', by simp, ?_⟩
    rw [List.append_assoc]
    exact .programNext heof hfirst' hothers

/-! ### Tokens behind a failure -/

/-- A phrase comes to its parts in the same way before other tokens, if the first is the same. -/
theorem Enters.relocate {goal goal' : Goal} {ts ts' ts'' : List Token}
    (h : Enters goal ts goal' ts') (hfirst : SameFirst ts' ts'') :
    ∃ taken, ts = taken ++ ts' ∧ Enters goal (taken ++ ts'') goal' ts'' := by
  -- A phrase in front looks one token past its own, which the replaced tokens start with.
  cases h with
  | operand => exact ⟨[], rfl, .operand⟩
  | operators hoperand =>
    obtain ⟨taken, rfl, hoperand'⟩ := hoperand.relocate (.same hfirst)
    exact ⟨taken, rfl, .operators hoperand'⟩
  | assigned hkind hnext => exact ⟨[_, _], rfl, .assigned hkind hnext⟩
  | negated hkind => exact ⟨[_], rfl, .negated hkind⟩
  | right hpower hop => exact ⟨[_], rfl, .right hpower hop⟩
  | afterRight hpower hop hright =>
    obtain ⟨taken, rfl, hright'⟩ := hright.relocate (.same hfirst)
    exact ⟨_ :: taken, rfl, .afterRight hpower hop hright'⟩
  | arguments hpower hkind => exact ⟨[_], rfl, .arguments hpower hkind⟩
  | afterArguments hpower hkind hargs =>
    obtain ⟨taken, rfl, hargs'⟩ := hargs.relocate (.same hfirst)
    exact ⟨_ :: taken, rfl, .afterArguments hpower hkind hargs'⟩
  | argument hclose heof =>
    obtain ⟨t, _, rest'⟩ := hfirst
    exact ⟨[], rfl, .argument hclose heof⟩
  -- here the phrase in front ends at a mark that is taken as well
  | @afterArgument t next _ _ _ hclose heof hargument hcomma =>
    obtain ⟨taken, htaken, hargument'⟩ := hargument.relocate (.same (.intro next _ ts''))
    obtain ⟨front, rfl, rfl⟩ := hargument.exists_cons trivial htaken
    refine ⟨t :: front ++ [next], by simp, ?_⟩
    rw [List.append_assoc]
    exact .afterArgument hclose heof hargument' hcomma
  | afterParameter hkind hcomma => exact ⟨[_, _], rfl, .afterParameter hkind hcomma⟩
  | simple => exact ⟨[], rfl, .simple⟩
  | declared hkind hname hequal => exact ⟨[_, _, _], rfl, .declared hkind hname hequal⟩
  | parameters hkind hname hopen => exact ⟨[_, _, _], rfl, .parameters hkind hname hopen⟩
  | @body t name opening brace _ _ _ hkind hname hopen hparams hbrace =>
    obtain ⟨taken, rfl, hparams'⟩ := hparams.relocate (.same (.intro brace _ ts''))
    refine ⟨t :: name :: opening :: taken ++ [brace], by simp, ?_⟩
    rw [List.append_assoc]
    exact .body hkind hname hopen hparams' hbrace
  | printed hkind => exact ⟨[_], rfl, .printed hkind⟩
  | condition hkind => exact ⟨[_], rfl, .condition hkind⟩
  | thenBranch hkind hcondition =>
    obtain ⟨taken, rfl, hcondition'⟩ := hcondition.relocate (.same hfirst)
    exact ⟨_ :: taken, rfl, .thenBranch hkind hcondition'⟩
  | @elseBranch t next _ _ _ _ _ hkind hcondition hthen helse =>
    have hnext : SameFirst (next :: ts') (next :: ts'') := .intro next _ _
    obtain ⟨taken', rfl, hthen'⟩ := hthen.relocate (.same hnext)
    -- the condition ends where the branch starts, of which at least the first token stays
    obtain ⟨taken, rfl, hcondition'⟩ := hcondition.relocate (.same (hnext.append taken'))
    refine ⟨t :: taken ++ (taken' ++ [next]), by simp, ?_⟩
    rw [List.append_assoc, List.append_assoc]
    exact .elseBranch hkind hcondition' hthen' helse
  | braces hkind => exact ⟨[_], rfl, .braces hkind⟩
  | plain hstart =>
    obtain ⟨t, _, rest'⟩ := hfirst
    exact ⟨[], rfl, .plain hstart⟩
  | blockNext hclose heof =>
    obtain ⟨t, _, rest'⟩ := hfirst
    exact ⟨[], rfl, .blockNext hclose heof⟩
  | blockRest hclose heof hstatement =>
    obtain ⟨taken, htaken, hstatement'⟩ := hstatement.relocate (.same hfirst)
    obtain ⟨front, rfl, rfl⟩ := hstatement.exists_cons trivial htaken
    exact ⟨_ :: front, rfl, .blockRest hclose heof hstatement'⟩
  | programNext heof =>
    obtain ⟨t, _, rest'⟩ := hfirst
    exact ⟨[], rfl, .programNext heof⟩
  | programRest heof hstatement =>
    obtain ⟨taken, htaken, hstatement'⟩ := hstatement.relocate (.same hfirst)
    obtain ⟨front, rfl, rfl⟩ := hstatement.exists_cons trivial htaken
    exact ⟨_ :: front, rfl, .programRest heof hstatement'⟩

theorem missingToken_rest {lastLine : Option Line} {kind : TokenKind} (ts : List Token) :
    (missingToken lastLine kind ts).rest = ts := by
  cases ts <;> rfl

theorem NoneOf.relocate {kinds : List TokenKind} {t : Token} {rest : List Token}
    (h : NoneOf kinds (t :: rest)) (rest' : List Token) : NoneOf kinds (t :: rest') :=
  .cons (h t rfl)

/-- A phrase that is stuck at a token is stuck there whatever follows the token. -/
theorem Stuck.relocate {lastLine lastLine' : Option Line} {goal : Goal} {ts rest : List Token}
    {failure : ParseFailure} {t : Token} (h : Stuck lastLine goal ts failure)
    (hrest : failure.rest = t :: rest) (rest' : List Token) : ∃ taken, ts = taken ++ t :: rest ∧
      Stuck lastLine' goal (taken ++ t :: rest') ⟨failure.error, t :: rest'⟩ := by
  cases h with
  -- in these cases the tokens have run out
  | outOfTokens | name | thenBranch => cases hrest
  | number hkind hnone =>
    cases hrest
    exact ⟨[_], rfl, .number hkind hnone⟩
  | operandEnd heof =>
    cases hrest
    exact ⟨[], rfl, .operandEnd heof⟩
  | operand hstart heof =>
    cases hrest
    exact ⟨[], rfl, .operand hstart heof⟩
  | operator hpower hop hkind =>
    cases hrest
    exact ⟨[], rfl, .operator hpower hop hkind⟩
  | arguments heof =>
    cases hrest
    exact ⟨[], rfl, .arguments heof⟩
  | argument hclose heof hargument hnone =>
    obtain rfl := (missingToken_rest _).symm.trans hrest
    obtain ⟨taken, htaken, hargument'⟩ := hargument.relocate (.same (.intro t _ rest'))
    obtain ⟨front, rfl, rfl⟩ := hargument.exists_cons trivial htaken
    exact ⟨_ :: front, rfl, .argument hclose heof hargument' (hnone.relocate rest')⟩
  | parameters heof =>
    cases hrest
    exact ⟨[], rfl, .parameters heof⟩
  | parameterName hclose heof hidentifier =>
    cases hrest
    exact ⟨[], rfl, .parameterName hclose heof hidentifier⟩
  | parameter hkind hnone =>
    obtain rfl := (missingToken_rest _).symm.trans hrest
    exact ⟨[_], rfl, .parameter hkind (hnone.relocate rest')⟩
  | declaredName hkind hnone =>
    obtain rfl := (missingToken_rest _).symm.trans hrest
    exact ⟨[_], rfl, .declaredName hkind (hnone.relocate rest')⟩
  | declared hkind hname hnone =>
    obtain rfl := (missingToken_rest _).symm.trans hrest
    exact ⟨[_, _], rfl, .declared hkind hname (hnone.relocate rest')⟩
  | functionName hkind hnone =>
    obtain rfl := (missingToken_rest _).symm.trans hrest
    exact ⟨[_], rfl, .functionName hkind (hnone.relocate rest')⟩
  | functionOpening hkind hname hnone =>
    obtain rfl := (missingToken_rest _).symm.trans hrest
    exact ⟨[_, _], rfl, .functionOpening hkind hname (hnone.relocate rest')⟩
  | functionBrace hkind hname hopen hparams hnone =>
    obtain rfl := (missingToken_rest _).symm.trans hrest
    obtain ⟨taken, rfl, hparams'⟩ := hparams.relocate (.same (.intro t _ rest'))
    exact ⟨_ :: _ :: _ :: taken, rfl,
      .functionBrace hkind hname hopen hparams' (hnone.relocate rest')⟩
  | block heof =>
    cases hrest
    exact ⟨[], rfl, .block heof⟩

/-- A failure at a token is the same whatever follows the token. -/
theorem Fails.relocate {lastLine lastLine' : Option Line} {goal : Goal} {ts rest : List Token}
    {failure : ParseFailure} {t : Token} (h : Fails lastLine goal ts failure)
    (hrest : failure.rest = t :: rest) (rest' : List Token) : ∃ taken, ts = taken ++ t :: rest ∧
      Fails lastLine' goal (taken ++ t :: rest') ⟨failure.error, t :: rest'⟩ := by
  induction h with
  | stuck hstuck =>
    obtain ⟨taken, rfl, hstuck'⟩ := hstuck.relocate hrest rest'
    exact ⟨taken, rfl, .stuck hstuck'⟩
  | enters henters _ ih =>
    obtain ⟨taken', rfl, hfails⟩ := ih hrest
    obtain ⟨taken, rfl, henters'⟩ := henters.relocate ((SameFirst.intro t rest rest').append taken')
    refine ⟨taken ++ taken', (List.append_assoc ..).symm, ?_⟩
    rw [List.append_assoc]
    exact .enters henters' hfails

/-- What has been taken when parsing fails, and no end mark. -/
theorem Stuck.consumes {lastLine : Option Line} {goal : Goal} {ts : List Token}
    {failure : ParseFailure} (h : Stuck lastLine goal ts failure) : Consumes ts failure.rest := by
  cases h with
  | outOfTokens | operandEnd | operand | operator | arguments | parameters | parameterName
  | block => exact .refl _
  | number hkind | name hkind => exact .of_kind hkind (by decide) (.refl _)
  | argument _ _ h =>
    rw [missingToken_rest]
    exact h.consumes
  | parameter hkind | declaredName hkind | functionName hkind =>
    rw [missingToken_rest]
    exact .of_kind hkind (by decide) (.refl _)
  | declared hkind hname | functionOpening hkind hname =>
    rw [missingToken_rest]
    exact .of_kind hkind (by decide) (.of_kind hname (by decide) (.refl _))
  | functionBrace hkind hname hopen h =>
    rw [missingToken_rest]
    exact .of_kind hkind (by decide)
      (.of_kind hname (by decide) (.of_kind hopen (by decide) h.consumes))
  | thenBranch hkind h h' => exact .of_kind hkind (by decide) (h.consumes.trans h'.consumes)

theorem Fails.consumes {lastLine : Option Line} {goal : Goal} {ts : List Token}
    {failure : ParseFailure} (h : Fails lastLine goal ts failure) : Consumes ts failure.rest := by
  induction h with
  | stuck hstuck => exact hstuck.consumes
  | enters henters _ ih => exact henters.consumes.trans ih

/-! ### The cursor -/

/-- What parsing gives: a program, or why there is none. -/
def parseOutcome (tokens : List Token) : Except ParseError Program :=
  match parseProgram tokens with
  | .ok p => .ok p.value
  | .error failure => .error failure.error

/-- Where parsing ends: the number of tokens before those that are left. -/
def parseCursor (tokens : List Token) : Nat :=
  match parseProgram tokens with
  | .ok p => tokens.length - p.rest.length
  | .error failure => tokens.length - failure.rest.length

/-- Parsing ends as the rules of the grammar say. -/
theorem parse_of_parses {taken rest : List Token} {program : Program}
    (h : Parses (.program program) (taken ++ rest) rest) :
    parseOutcome (taken ++ rest) = .ok program ∧ parseCursor (taken ++ rest) = taken.length := by
  obtain ⟨hless, hparsed⟩ := @Parses.isParsed (lastLine? (taken ++ rest)) _ _ _ h
  have hprogram : parseProgram (taken ++ rest) = .ok ⟨program, rest, hless⟩ := hparsed
  constructor
  · simp only [parseOutcome, hprogram]
  · simp only [parseCursor, hprogram, List.length_append, Nat.add_sub_cancel]

/-- Parsing ends as the path of a failure says. -/
theorem parse_of_fails {taken rest : List Token} {error : ParseError}
    (h : Fails (lastLine? (taken ++ rest)) .program (taken ++ rest) ⟨error, rest⟩) :
    parseOutcome (taken ++ rest) = .error error ∧ parseCursor (taken ++ rest) = taken.length := by
  have hprogram := parseProgram_eq_error_iff.mpr h
  constructor
  · simp only [parseOutcome, hprogram]
  · simp only [parseCursor, hprogram, List.length_append, Nat.add_sub_cancel]

/-- Every list of tokens follows the rules of a program or the path of a failure. -/
theorem exists_parses_or_fails (tokens : List Token) : ∃ taken rest,
    tokens = taken ++ rest ∧ (∀ t ∈ taken, t.kind ≠ .eof) ∧
      ((∃ program, Parses (.program program) tokens rest) ∨
        ∃ error, Fails (lastLine? tokens) .program tokens ⟨error, rest⟩) := by
  cases h : parseProgram tokens with
  | ok p =>
    have hparses := parses_of_parseProgram h
    obtain ⟨taken, htokens, htaken⟩ := hparses.consumes.exists_append
    exact ⟨taken, p.rest, htokens, htaken, .inl ⟨p.value, hparses⟩⟩
  | error failure =>
    have hfails := parseProgram_eq_error_iff.mp h
    obtain ⟨taken, htokens, htaken⟩ := hfails.consumes.exists_append
    exact ⟨taken, failure.rest, htokens, htaken, .inr ⟨failure.error, hfails⟩⟩

/-- Parsing ends at an end mark at the latest, and has not looked behind the token at which it
ends. -/
structure ReadsNoFurther (tokens : List Token) : Prop where
  /-- Parsing ends with a program by the rules of the grammar, or with the path of a failure. -/
  ends :
    (∃ program, parseOutcome tokens = .ok program ∧
      Parses (.program program) tokens (tokens.drop (parseCursor tokens))) ∨
    ∃ error, parseOutcome tokens = .error error ∧
      Fails (lastLine? tokens) .program tokens ⟨error, tokens.drop (parseCursor tokens)⟩
  cursor_le : parseCursor tokens ≤ tokens.length
  /-- It takes no end mark. -/
  taken : ∀ t ∈ tokens.take (parseCursor tokens), t.kind ≠ .eof
  /-- A program ends at an end mark. -/
  accepted : ∀ program, parseOutcome tokens = .ok program →
    ∃ t, tokens[parseCursor tokens]? = some t ∧ t.kind = .eof
  /-- Tokens that agree up to the one at which it ends are parsed alike. -/
  determined : parseCursor tokens < tokens.length → ∀ tokens' : List Token,
    tokens'.take (parseCursor tokens + 1) = tokens.take (parseCursor tokens + 1) →
      parseOutcome tokens' = parseOutcome tokens ∧ parseCursor tokens' = parseCursor tokens

/-- Lists that agree up to a token start alike. -/
theorem eq_append_of_take_eq {taken rest tokens : List Token} {t : Token}
    (h : tokens.take (taken.length + 1) = (taken ++ t :: rest).take (taken.length + 1)) :
    tokens = taken ++ t :: tokens.drop (taken.length + 1) := by
  calc tokens = tokens.take (taken.length + 1) ++ tokens.drop (taken.length + 1) :=
        (List.take_append_drop _ _).symm
    _ = taken ++ [t] ++ tokens.drop (taken.length + 1) := by
        rw [h, List.append_cons, List.take_left' (by simp)]
    _ = taken ++ t :: tokens.drop (taken.length + 1) := List.append_assoc ..

/-- Parsing reads no further than it has to. -/
theorem parse_readsNoFurther (tokens : List Token) : ReadsNoFurther tokens := by
  obtain ⟨taken, rest, rfl, htaken, ⟨program, hparses⟩ | ⟨error, hfails⟩⟩ :=
    exists_parses_or_fails tokens
  · obtain ⟨houtcome, hcursor⟩ := parse_of_parses hparses
    obtain ⟨t, more, rfl, heof⟩ := hparses.exists_end
    refine ⟨.inl ⟨program, houtcome, ?_⟩, ?_, ?_, fun _ _ => ⟨t, ?_, heof⟩, fun _ tokens' h => ?_⟩
    · rwa [hcursor, List.drop_left]
    · simp [hcursor]
    · rwa [hcursor, List.take_left]
    · simp [hcursor]
    · rw [hcursor] at h
      rw [eq_append_of_take_eq h, houtcome, hcursor]
      obtain ⟨taken', hsame, hparses'⟩ := hparses.relocate (.intro t more (tokens'.drop _))
      obtain rfl := List.append_cancel_right hsame
      exact parse_of_parses hparses'
  · obtain ⟨houtcome, hcursor⟩ := parse_of_fails hfails
    refine ⟨.inr ⟨error, houtcome, ?_⟩, ?_, ?_, fun program h => ?_, fun hless tokens' h => ?_⟩
    · rwa [hcursor, List.drop_left]
    · simp [hcursor]
    · rwa [hcursor, List.take_left]
    · rw [houtcome] at h
      cases h
    · -- the tokens have not run out, so the failure is at one of them
      rw [hcursor] at h hless
      obtain ⟨t, more, rfl⟩ : ∃ t more, rest = t :: more :=
        List.exists_cons_of_ne_nil fun hnil => by simp [hnil] at hless
      rw [eq_append_of_take_eq h, houtcome, hcursor]
      obtain ⟨taken', hsame, hfails'⟩ := hfails.relocate rfl (tokens'.drop _)
      obtain rfl := List.append_cancel_right hsame
      exact parse_of_fails hfails'

end StackScript
