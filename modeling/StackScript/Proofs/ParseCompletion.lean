import StackScript.Proofs.ParseCursor

/-!
# Parsing fails no later than it has to

When parsing fails at a token, the tokens before it are the beginning of some program: each phrase
that has been begun can be ended. Only a number that cannot be read is taken before it is refused.

A phrase of which nothing has been read yet is completed by the shortest of its kind. Any other one
is completed by completing the part in which the failure is and then closing what is open around it.

## Main definitions

* `Goal.Reads`: some phrase of the kind is read.
* `Goal.shortest`: the shortest phrase of a kind.
* `Goal.Completable`: what has been read of a phrase can be completed.

## Main results

* `Fails.completable`: a phrase that fails can be completed where it fails.
* `exists_completion`: the tokens before a failure are the beginning of a program.
-/

namespace StackScript

/-- A token of a kind that is of no source. -/
def TokenKind.sample (kind : TokenKind) : Token :=
  ⟨kind, kind.spelling?.getD "x", ⟨0, 0, 0⟩⟩

namespace Goal

/-- Some phrase of the kind is read from the front of some tokens and leaves others. -/
def Reads (ts rest : List Token) : Goal → Prop
  | expression power => ∃ e, Parses (.expression power e) ts rest
  | operand => ∃ e, Parses (.operand e) ts rest
  | operators power left => ∃ whole, Parses (.operators power left whole) ts rest
  | arguments => ∃ args, Parses (.arguments args) ts rest
  | parameters => ∃ params, Parses (.parameters params) ts rest
  | simple => ∃ e, Parses (.simple e) ts rest
  | statement => ∃ e, Parses (.statement e) ts rest
  | block => ∃ body, Parses (.block body) ts rest
  | program => ∃ body, Parses (.program body) ts rest

/-- Whether a phrase of the kind always ends before a token. -/
def stopsAt : Goal → TokenKind → Bool
  | program, kind => kind == .eof
  | _, kind => kind.continuesNothing

/-- Some tokens start with one before which a phrase of the kind always ends. -/
def Stops (goal : Goal) (after : List Token) : Prop :=
  ∃ t ∈ after.head?, goal.stopsAt t.kind = true

/-- The shortest phrase of a kind. -/
def shortest : Goal → List Token
  | expression _ | operand | simple | statement => [TokenKind.trueKw.sample]
  | operators _ _ | program => []
  | arguments | parameters => [TokenKind.rparen.sample]
  | block => [TokenKind.rbrace.sample]

/-- What has been read of a phrase when some tokens are left can be completed: nothing has been
read, or there are words that complete it. -/
def Completable (goal : Goal) (ts rest : List Token) : Prop :=
  rest = ts ∨ ∃ t front words, ts = t :: front ++ rest ∧ (∀ t ∈ words, t.kind ≠ .eof) ∧
    ∀ after, goal.Stops after → goal.Reads (t :: front ++ (words ++ after)) after

/-! ### The shortest phrases -/

theorem Stops.exists_cons {goal : Goal} {after : List Token} (h : goal.Stops after) :
    ∃ t more, after = t :: more ∧ t.kind.continuesNothing = true ∧ goal.stopsAt t.kind = true := by
  obtain ⟨t, ht, hstops⟩ := h
  obtain ⟨more, rfl⟩ := List.head?_eq_some_iff.mp ht
  refine ⟨t, more, rfl, ?_, hstops⟩
  cases goal with
  | program =>
    rw [beq_iff_eq.mp hstops]
    rfl
  | _ => exact hstops

theorem noEnd_shortest (goal : Goal) : ∀ t ∈ goal.shortest, t.kind ≠ .eof := by
  cases goal <;> simp [shortest, TokenKind.sample]

/-- The shortest phrase of a kind can stand in place of any tokens. -/
theorem replaces_shortest {goal : Goal} {after : List Token} (h : goal.Stops after)
    (ts : List Token) : Replaces ts (goal.shortest ++ after) := by
  obtain ⟨t, more, rfl, hnothing, -⟩ := h.exists_cons
  cases goal with
  | operators | program => exact .ended hnothing
  | _ => exact .ended rfl

section

variable {t : Token} {more : List Token} (hnothing : t.kind.continuesNothing = true)

include hnothing

theorem parses_stop (power : Nat) (left : Expr) :
    Parses (.operators power left left) (t :: more) (t :: more) :=
  .stop ((TokenKind.of_continuesNothing hnothing).1 ▸ Nat.zero_le power)

theorem parses_simple {e : Expr} {ts : List Token} (h : Parses (.expression 0 e) ts (t :: more)) :
    Parses (.simple e) ts (t :: more) :=
  .unended h (TokenKind.of_continuesNothing hnothing).2.2.1

end

theorem reads_shortest {goal : Goal} {after : List Token} (h : goal.Stops after) :
    goal.Reads (goal.shortest ++ after) after := by
  obtain ⟨t, more, rfl, hnothing, hstops⟩ := h.exists_cons
  have htrue (power : Nat) : Parses (.expression power (.literal .true (.truth true) 0))
      (TokenKind.trueKw.sample :: t :: more) (t :: more) :=
    .expression (.true rfl) (parses_stop hnothing power _)
  cases goal with
  | expression power => exact ⟨_, htrue power⟩
  | operand => exact ⟨_, .true rfl⟩
  | operators power left => exact ⟨left, parses_stop hnothing power left⟩
  | arguments => exact ⟨[], .noArguments rfl⟩
  | parameters => exact ⟨[], .noParameters rfl⟩
  | simple => exact ⟨_, parses_simple hnothing (htrue 0)⟩
  | statement => exact ⟨_, .plain rfl (parses_simple hnothing (htrue 0))⟩
  | block => exact ⟨[], .blockEnd rfl⟩
  | program => exact ⟨[], .programEnd (beq_iff_eq.mp hstops)⟩

end Goal

/-! ### Completing a phrase by its parts -/

/-- The tokens that a phrase takes, before whatever may stand behind it. -/
theorem Parses.exists_taken {phrase : Phrase} {ts rest : List Token} (h : Parses phrase ts rest)
    (hsome : phrase.TakesSome) : ∃ t front, ts = t :: front ++ rest ∧
      ∀ rest', phrase.Allows rest rest' → Parses phrase (t :: front ++ rest') rest' := by
  obtain ⟨taken, rfl, -⟩ := h.consumes.exists_append
  have hmove (rest' : List Token) (hallows : phrase.Allows rest rest') :
      Parses phrase (taken ++ rest') rest' := by
    obtain ⟨taken', hsame, hmoved⟩ := h.relocate hallows
    rwa [List.append_cancel_right hsame]
  cases taken with
  | nil => exact absurd (h.length_lt hsome) (Nat.lt_irrefl _)
  | cons t front => exact ⟨t, front, rfl, hmove⟩

namespace Goal.Completable

variable {goal goal' : Goal} {ts ts' rest : List Token}

/-- The words that complete a phrase, and what then stands in place of its tokens. -/
theorem exists_words (h : goal.Completable ts rest) : ∃ before words, ts = before ++ rest ∧
    (∀ t ∈ words, t.kind ≠ .eof) ∧ ∀ after, goal.Stops after →
      Replaces ts (before ++ (words ++ after)) ∧ goal.Reads (before ++ (words ++ after)) after := by
  rcases h with rfl | ⟨t, front, words, rfl, hwords, hreads⟩
  · exact ⟨[], goal.shortest, rfl, noEnd_shortest goal, fun after hafter =>
      ⟨replaces_shortest hafter _, reads_shortest hafter⟩⟩
  · exact ⟨t :: front, words, rfl, hwords, fun after hafter =>
      ⟨.same (.intro t _ _), hreads after hafter⟩⟩

/-- A phrase can be completed if a part of it can, behind which it is closed. -/
theorem of_part (hpart : goal'.Completable ts' rest) (t : Token) (front closing : List Token)
    (hts : ts = t :: front ++ ts') (hclosing : ∀ t ∈ closing, t.kind ≠ .eof)
    (hstops : ∀ after, goal.Stops after → goal'.Stops (closing ++ after))
    (hreads : ∀ ts'' after, goal.Stops after → Replaces ts' ts'' →
      goal'.Reads ts'' (closing ++ after) → goal.Reads (t :: front ++ ts'') after) :
    goal.Completable ts rest := by
  subst hts
  obtain ⟨before, words, rfl, hwords, hcompleted⟩ := hpart.exists_words
  refine .inr ⟨t, front ++ before, words ++ closing, by simp,
    List.forall_mem_append.mpr ⟨hwords, hclosing⟩, fun after hafter => ?_⟩
  obtain ⟨hreplaces, hread⟩ := hcompleted _ (hstops after hafter)
  simpa using hreads _ after hafter hreplaces hread

/-- A phrase can be completed if its last part can. -/
theorem of_last (hpart : goal'.Completable ts' rest) (t : Token) (front : List Token)
    (hts : ts = t :: front ++ ts') (hstops : ∀ after, goal.Stops after → goal'.Stops after)
    (hreads : ∀ ts'' after, goal.Stops after → Replaces ts' ts'' →
      goal'.Reads ts'' after → goal.Reads (t :: front ++ ts'') after) :
    goal.Completable ts rest :=
  hpart.of_part t front [] hts nofun hstops hreads

/-- A phrase can be completed if its first part can, behind which it is closed. -/
theorem of_first (hpart : goal'.Completable ts rest) (closing : List Token)
    (hclosing : ∀ t ∈ closing, t.kind ≠ .eof)
    (hstops : ∀ after, goal.Stops after → goal'.Stops (closing ++ after))
    (hreads : ∀ ts' after, goal.Stops after → SameFirst ts ts' →
      goal'.Reads ts' (closing ++ after) → goal.Reads ts' after) :
    goal.Completable ts rest := by
  rcases hpart with rfl | ⟨t, front, words, rfl, hwords, hread⟩
  · exact .inl rfl
  · refine .inr ⟨t, front, words ++ closing, rfl,
      List.forall_mem_append.mpr ⟨hwords, hclosing⟩, fun after hafter => ?_⟩
    rw [List.append_assoc]
    exact hreads _ after hafter (.intro t _ _) (hread _ (hstops after hafter))

end Goal.Completable

/-! ### Completing a failure -/

/-- A phrase that has come to a part of it can be completed where the part can. -/
theorem Enters.completable {goal goal' : Goal} {ts ts' rest : List Token}
    (h : Enters goal ts goal' ts') (hpart : goal'.Completable ts' rest) :
    goal.Completable ts rest := by
  -- The parts before the one that is completed stand before the same token as they did, or before
  -- one that continues none of them.
  cases h with
  | operand =>
    refine hpart.of_first [] nofun (fun _ hafter => hafter) fun _ _ hafter _ ⟨e, he⟩ => ?_
    obtain ⟨t, more, rfl, hnothing, -⟩ := hafter.exists_cons
    exact ⟨e, .expression he (Goal.parses_stop hnothing _ e)⟩
  | operators hoperand =>
    obtain ⟨t, front, rfl, hmoved⟩ := hoperand.exists_taken trivial
    exact hpart.of_last t front rfl (fun _ h => h) fun _ _ _ hreplaces ⟨_, hwhole⟩ =>
      ⟨_, .expression (hmoved _ hreplaces) hwhole⟩
  | @assigned t next _ hkind hnext =>
    exact hpart.of_last t [next] rfl (fun _ h => h) fun _ _ _ _ ⟨_, hvalue⟩ =>
      ⟨_, .assign hkind hnext hvalue⟩
  | @negated t _ hkind =>
    refine hpart.of_last t [] rfl (fun _ h => h) fun _ _ _ _ ⟨e, he⟩ => ?_
    rcases hkind with hkind | hkind
    · exact ⟨_, .not hkind he⟩
    · exact ⟨_, .negate hkind he⟩
  | @right power left op t _ hpower hop =>
    refine hpart.of_last t [] rfl (fun _ h => h) fun _ _ hafter _ ⟨e, he⟩ => ?_
    obtain ⟨t', more, rfl, hnothing, -⟩ := hafter.exists_cons
    exact ⟨_, .binary hpower hop he (Goal.parses_stop hnothing power _)⟩
  | @afterRight power left right op t _ _ hpower hop hright =>
    obtain ⟨t', front, rfl, hmoved⟩ := hright.exists_taken trivial
    exact hpart.of_last t (t' :: front) rfl (fun _ h => h) fun _ _ _ hreplaces ⟨_, hwhole⟩ =>
      ⟨_, .binary hpower hop (hmoved _ hreplaces) hwhole⟩
  | @arguments power left t _ hpower hkind =>
    refine hpart.of_last t [] rfl (fun _ h => h) fun _ _ hafter _ ⟨args, hargs⟩ => ?_
    obtain ⟨t', more, rfl, hnothing, -⟩ := hafter.exists_cons
    exact ⟨_, .call hpower hkind hargs (Goal.parses_stop hnothing power _)⟩
  | @afterArguments power left args t _ _ hpower hkind hargs =>
    obtain ⟨t', front, rfl, hmoved⟩ := hargs.exists_taken trivial
    exact hpart.of_last t (t' :: front) rfl (fun _ h => h) fun _ _ _ hreplaces ⟨_, hwhole⟩ =>
      ⟨_, .call hpower hkind (hmoved _ hreplaces) hwhole⟩
  | argument hclose heof =>
    refine hpart.of_first [TokenKind.rparen.sample] (by decide) (fun _ _ => ⟨_, rfl, rfl⟩)
      fun _ _ _ hfirst ⟨e, he⟩ => ?_
    obtain ⟨t, _, rest'⟩ := hfirst
    exact ⟨[e], .lastArgument hclose heof he rfl⟩
  | @afterArgument t next _ _ _ hclose heof hargument hcomma =>
    obtain ⟨t', front, hts, hmoved⟩ := hargument.exists_taken trivial
    obtain ⟨rfl, rfl⟩ := List.cons.inj hts
    have hlist (ts'' : List Token) :
        t :: front ++ next :: ts'' = t :: (front ++ [next]) ++ ts'' := by simp
    refine hpart.of_last t (front ++ [next]) (hlist ts') (fun _ h => h)
      fun ts'' _ _ _ ⟨_, hothers⟩ => ?_
    rw [← hlist]
    exact ⟨_, .argument hclose heof (hmoved _ (.same (.intro next _ ts''))) hcomma hothers⟩
  | @afterParameter t next _ hkind hcomma =>
    exact hpart.of_last t [next] rfl (fun _ h => h) fun _ _ _ _ ⟨_, hparams⟩ =>
      ⟨_, .parameter hkind hcomma hparams⟩
  | simple =>
    refine hpart.of_first [] nofun (fun _ hafter => hafter) fun _ _ hafter _ ⟨e, he⟩ => ?_
    obtain ⟨t, more, rfl, hnothing, -⟩ := hafter.exists_cons
    exact ⟨e, Goal.parses_simple hnothing he⟩
  | @declared t name next _ hkind hname hequal =>
    exact hpart.of_last t [name, next] rfl (fun _ h => h) fun _ _ _ _ ⟨_, hvalue⟩ =>
      ⟨_, .declare hkind hname hequal hvalue⟩
  | @parameters t name opening _ hkind hname hopen =>
    exact hpart.of_part t [name, opening] [TokenKind.lbrace.sample, TokenKind.rbrace.sample]
      rfl (by decide) (fun _ _ => ⟨_, rfl, rfl⟩) fun _ _ _ _ ⟨_, hparams⟩ =>
        ⟨_, .function hkind hname hopen hparams rfl (.blockEnd rfl)⟩
  | @body t name opening brace _ _ _ hkind hname hopen hparams hbrace =>
    obtain ⟨t', front, rfl, hmoved⟩ := hparams.exists_taken trivial
    have hlist (ts'' : List Token) : t :: name :: opening :: (t' :: front ++ brace :: ts'') =
        t :: (name :: opening :: t' :: front ++ [brace]) ++ ts'' := by simp
    refine hpart.of_last t _ (hlist ts') (fun _ h => h) fun ts'' _ _ _ ⟨_, hbody⟩ => ?_
    rw [← hlist]
    exact ⟨_, .function hkind hname hopen (hmoved _ (.same (.intro brace _ ts''))) hbrace hbody⟩
  | @printed t _ hkind =>
    exact hpart.of_last t [] rfl (fun _ h => h) fun _ _ _ _ ⟨_, hvalue⟩ => ⟨_, .print hkind hvalue⟩
  | @condition t _ hkind =>
    refine hpart.of_part t [] [TokenKind.trueKw.sample] rfl (by decide) (fun _ _ => ⟨_, rfl, rfl⟩)
      fun _ _ hafter _ ⟨e, he⟩ => ?_
    obtain ⟨next, more, rfl, hnothing, -⟩ := hafter.exists_cons
    have hstops : Goal.statement.Stops (next :: more) := ⟨next, rfl, hnothing⟩
    obtain ⟨_, hthen⟩ := Goal.reads_shortest hstops
    exact ⟨_, .ifThen hkind he hthen (TokenKind.of_continuesNothing hnothing).2.2.2⟩
  | @thenBranch t _ _ _ hkind hcondition =>
    obtain ⟨t', front, rfl, hmoved⟩ := hcondition.exists_taken trivial
    refine hpart.of_last t (t' :: front) rfl (fun _ h => h)
      fun _ _ hafter hreplaces ⟨_, hthen⟩ => ?_
    obtain ⟨next, more, rfl, hnothing, -⟩ := hafter.exists_cons
    exact ⟨_, .ifThen hkind (hmoved _ hreplaces) hthen
      (TokenKind.of_continuesNothing hnothing).2.2.2⟩
  | @elseBranch t next _ _ _ _ _ hkind hcondition hthen helse =>
    obtain ⟨t₂, front₂, rfl, hmoved₂⟩ := hthen.exists_taken trivial
    obtain ⟨t₁, front₁, rfl, hmoved₁⟩ := hcondition.exists_taken trivial
    have hlist (ts'' : List Token) : t :: (t₁ :: front₁ ++ (t₂ :: front₂ ++ next :: ts'')) =
        t :: (t₁ :: front₁ ++ (t₂ :: front₂ ++ [next])) ++ ts'' := by simp
    refine hpart.of_last t _ (hlist ts') (fun _ h => h) fun ts'' _ _ _ ⟨_, helse'⟩ => ?_
    rw [← hlist]
    exact ⟨_, .ifElse hkind (hmoved₁ _ (.same (.intro t₂ _ _)))
      (hmoved₂ _ (.same (.intro next _ ts''))) helse helse'⟩
  | @braces t _ hkind =>
    exact hpart.of_last t [] rfl (fun _ h => h) fun _ _ _ _ ⟨_, hbody⟩ => ⟨_, .braces hkind hbody⟩
  | plain hstart =>
    refine hpart.of_first [] nofun (fun _ hafter => hafter) fun _ _ _ hfirst ⟨e, he⟩ => ?_
    obtain ⟨t, _, rest'⟩ := hfirst
    exact ⟨e, .plain hstart he⟩
  | blockNext hclose heof =>
    refine hpart.of_first [TokenKind.rbrace.sample] (by decide) (fun _ _ => ⟨_, rfl, rfl⟩)
      fun _ _ _ hfirst ⟨e, he⟩ => ?_
    obtain ⟨t, _, rest'⟩ := hfirst
    exact ⟨[e], .blockNext hclose heof he (.blockEnd rfl)⟩
  | blockRest hclose heof hstatement =>
    obtain ⟨t', front, hts, hmoved⟩ := hstatement.exists_taken trivial
    obtain ⟨rfl, rfl⟩ := List.cons.inj hts
    exact hpart.of_last _ front rfl (fun _ h => h) fun _ _ _ hreplaces ⟨_, hothers⟩ =>
      ⟨_, .blockNext hclose heof (hmoved _ hreplaces) hothers⟩
  | programNext heof =>
    refine hpart.of_first [] nofun (fun _ h => ?_) fun _ _ hafter hfirst ⟨e, he⟩ => ?_
    · obtain ⟨t, more, rfl, hnothing, -⟩ := h.exists_cons
      exact ⟨t, rfl, hnothing⟩
    · obtain ⟨t, _, rest'⟩ := hfirst
      obtain ⟨_, hend⟩ := Goal.reads_shortest hafter
      exact ⟨_, .programNext heof he hend⟩
  | programRest heof hstatement =>
    obtain ⟨t', front, hts, hmoved⟩ := hstatement.exists_taken trivial
    obtain ⟨rfl, rfl⟩ := List.cons.inj hts
    exact hpart.of_last _ front rfl (fun _ h => h) fun _ _ _ hreplaces ⟨_, hothers⟩ =>
      ⟨_, .programNext heof (hmoved _ hreplaces) hothers⟩

/-- A phrase that is stuck can be completed, unless it is stuck at a number. -/
theorem Stuck.completable {lastLine : Option Line} {goal : Goal} {ts : List Token}
    {failure : ParseFailure} (h : Stuck lastLine goal ts failure)
    (hwords : failure.error.diagnostic?.isSome = true) : goal.Completable ts failure.rest := by
  cases h with
  -- nothing of these phrases has been read
  | outOfTokens | operandEnd | operand | operator | arguments | parameters | parameterName
  | block => exact .inl rfl
  | number => cases hwords
  | @name t hkind =>
    refine .inr ⟨t, [], [], rfl, nofun, fun after hafter => ?_⟩
    obtain ⟨next, more, rfl, hnothing, -⟩ := hafter.exists_cons
    exact ⟨_, .get hkind (TokenKind.of_continuesNothing hnothing).2.1⟩
  | argument hclose heof hargument =>
    rw [missingToken_rest]
    obtain ⟨t', front, hts, hmoved⟩ := hargument.exists_taken trivial
    obtain ⟨rfl, rfl⟩ := List.cons.inj hts
    exact .inr ⟨_, front, [TokenKind.rparen.sample], rfl, by decide, fun _ _ =>
      ⟨_, .lastArgument hclose heof (hmoved _ (.ended rfl)) rfl⟩⟩
  | parameter hkind =>
    rw [missingToken_rest]
    exact .inr ⟨_, [], [TokenKind.rparen.sample], rfl, by decide, fun _ _ =>
      ⟨_, .lastParameter hkind rfl⟩⟩
  | declaredName hkind =>
    rw [missingToken_rest]
    exact .inr ⟨_, [], [TokenKind.identifier.sample, TokenKind.semicolon.sample], rfl, by decide,
      fun _ _ => ⟨_, .declareZero hkind rfl rfl⟩⟩
  | @declared t name _ hkind hname =>
    rw [missingToken_rest]
    exact .inr ⟨_, [name], [TokenKind.semicolon.sample], rfl, by decide, fun _ _ =>
      ⟨_, .declareZero hkind hname rfl⟩⟩
  | functionName hkind =>
    rw [missingToken_rest]
    exact .inr ⟨_, [],
      [TokenKind.identifier, .lparen, .rparen, .lbrace, .rbrace].map TokenKind.sample, rfl,
      by decide, fun _ _ => ⟨_, .function hkind rfl rfl (.noParameters rfl) rfl (.blockEnd rfl)⟩⟩
  | @functionOpening t name _ hkind hname =>
    rw [missingToken_rest]
    exact .inr ⟨_, [name], [TokenKind.lparen, .rparen, .lbrace, .rbrace].map TokenKind.sample, rfl,
      by decide, fun _ _ => ⟨_, .function hkind hname rfl (.noParameters rfl) rfl (.blockEnd rfl)⟩⟩
  | @functionBrace t name opening _ _ _ hkind hname hopen hparams =>
    rw [missingToken_rest]
    obtain ⟨t', front, rfl, hmoved⟩ := hparams.exists_taken trivial
    exact .inr ⟨t, name :: opening :: t' :: front,
      [TokenKind.lbrace, .rbrace].map TokenKind.sample, rfl, by decide, fun _ _ =>
        ⟨_, .function hkind hname hopen (hmoved _ (.ended rfl)) rfl (.blockEnd rfl)⟩⟩
  | @thenBranch t _ _ _ _ hkind hcondition hthen =>
    obtain ⟨t₂, front₂, rfl, hmoved₂⟩ := hthen.exists_taken trivial
    obtain ⟨t₁, front₁, rfl, hmoved₁⟩ := hcondition.exists_taken trivial
    refine .inr ⟨t, t₁ :: front₁ ++ t₂ :: front₂, [], by simp, nofun, fun after hafter => ?_⟩
    obtain ⟨next, more, rfl, hnothing, -⟩ := hafter.exists_cons
    have hcondition' := hmoved₁ (t₂ :: front₂ ++ next :: more) (.same (.intro t₂ _ _))
    rw [← List.append_assoc] at hcondition'
    exact ⟨_, .ifThen hkind hcondition' (hmoved₂ _ (.ended hnothing))
      (TokenKind.of_continuesNothing hnothing).2.2.2⟩

/-- A phrase that fails can be completed where it fails, unless it fails at a number. -/
theorem Fails.completable {lastLine : Option Line} {goal : Goal} {ts : List Token}
    {failure : ParseFailure} (h : Fails lastLine goal ts failure)
    (hwords : failure.error.diagnostic?.isSome = true) : goal.Completable ts failure.rest := by
  induction h with
  | stuck hstuck => exact hstuck.completable hwords
  | enters henters _ ih => exact henters.completable (ih hwords)

/-- The tokens before a failure that has words are the beginning of a program. -/
theorem exists_completion {tokens : List Token} {error : ParseError}
    (h : parseOutcome tokens = .error error) (hwords : error.diagnostic?.isSome = true) :
    ∃ completion, EndsOnce completion ∧ ∃ program,
      parseOutcome (tokens.take (parseCursor tokens) ++ completion) = .ok program := by
  obtain ⟨taken, rest, rfl, -, ⟨program, hparses⟩ | ⟨error', hfails⟩⟩ :=
    exists_parses_or_fails tokens
  · rw [(parse_of_parses hparses).1] at h
    cases h
  obtain ⟨houtcome, hcursor⟩ := parse_of_fails hfails
  obtain rfl : error' = error := by
    rw [houtcome] at h
    exact Except.error.inj h
  obtain ⟨before, words, hbefore, hnoEnd, hreads⟩ := (hfails.completable hwords).exists_words
  obtain rfl := List.append_cancel_right hbefore
  -- an end mark is put behind the words that complete the program
  have hend : Goal.program.Stops [TokenKind.eof.sample] := ⟨_, rfl, rfl⟩
  obtain ⟨program, hprogram⟩ := (hreads _ hend).2
  refine ⟨words ++ [TokenKind.eof.sample], ⟨words, _, rfl, rfl, hnoEnd⟩, program, ?_⟩
  rw [hcursor, List.take_left]
  rw [← List.append_assoc] at hprogram ⊢
  exact (parse_of_parses hprogram).1

/-- A call whose arguments end too early, inside a branch of a function. -/
def cutTokens : List Token :=
  [(.funKw, "fun"), (.identifier, "f"), (.lparen, "("), (.identifier, "x"), (.rparen, ")"),
    (.lbrace, "\x7b"), (.ifKw, "if"), (.identifier, "x"), (.printKw, "print"), (.identifier, "f"),
    (.lparen, "("), (.number, "1"), (.semicolon, ";"), (.eof, "")].map fun (kind, lexeme) =>
      ⟨kind, lexeme, ⟨0, 0, 0⟩⟩

/-- The arguments, the call, the branch and the function can be ended before the semicolon. -/
theorem exists_completion_cutTokens :
    parseOutcome cutTokens = .error (.expectedToken .rparen .semicolon 0) ∧
      ∃ completion, EndsOnce completion ∧ ∃ program,
        parseOutcome (cutTokens.take 12 ++ completion) = .ok program := by
  have hcursor : parseCursor cutTokens = 12 := by decide +kernel
  have herror : (match parseOutcome cutTokens with
      | .error error => some error
      | .ok _ => none) = some (.expectedToken .rparen .semicolon 0) := by
    decide +kernel
  cases houtcome : parseOutcome cutTokens with
  | ok program =>
    rw [houtcome] at herror
    cases herror
  | error error =>
    rw [houtcome] at herror
    cases herror
    exact ⟨rfl, hcursor ▸ exists_completion houtcome rfl⟩

end StackScript
