import StackScript.Proofs.GrammarParsing
import StackScript.Proofs.TokenWriting

/-!
# Parsing a written program

There is no way to group a part of an expression, so a program is written without any. Still the
tokens that a program is written with are parsed as the same program. What is written can differ from
what was read only by separators, and by the lines. Every rule that was used can be used again, as
long as the token behind a phrase does not let it go on.

## Main definitions

* `Expr.unlined`: a node without its lines.
* `Follows`: a token that ends a phrase where another one did.
* `Phrase.Rereads`: a phrase is read from other tokens, apart from lines.

## Main results

* `Parses.rereads`: each rule can be used again on what it writes.
* `parseProgram_unparse`: what a program is written with is parsed as this program.
-/

namespace StackScript

/-! ### Lines -/

namespace Expr

mutual

/-- A node without its lines. -/
def unlined : Expr → Expr
  | block body _ => block (unlinedAll body) 0
  | binary left op right _ => binary left.unlined op right.unlined 0
  | unary op operand _ => unary op operand.unlined 0
  | declare name value _ => declare name value.unlined 0
  | get name _ => get name 0
  | assign name value _ => assign name value.unlined 0
  | print value _ => print value.unlined 0
  | ifElse condition thenBranch none _ => ifElse condition.unlined thenBranch.unlined none 0
  | ifElse condition thenBranch (some elseBranch) _ =>
    ifElse condition.unlined thenBranch.unlined (some elseBranch.unlined) 0
  | function name params body _ => function name params (unlinedAll body) 0
  | call callee args _ => call callee.unlined (unlinedAll args) 0
  | literal kind value _ => literal kind value 0

/-- Nodes without their lines. -/
def unlinedAll : List Expr → List Expr
  | [] => []
  | e :: rest => e.unlined :: unlinedAll rest

end

end Expr

/-! ### What a token says -/

namespace Token

variable {t : Token}

theorem kind_of_said_mark {kind : TokenKind} (h : t.said = .mark kind) : t.kind = kind := by
  rw [← kind_said, h]
  rfl

theorem kind_of_said_identifier {name : String} (h : t.said = .identifier name) :
    t.kind = .identifier ∧ t.lexeme = name := by
  have hkind : t.kind = .identifier := by
    rw [← kind_said, h]
    rfl
  rw [said_identifier hkind] at h
  cases h
  exact ⟨hkind, rfl⟩

theorem kind_of_said_number {value : Datum} (h : t.said = .number value) :
    t.kind = .number ∧ numberOfLexeme? t.lexeme = some value := by
  have hkind : t.kind = .number := by
    rw [← kind_said, h]
    rfl
  rw [said_number hkind] at h
  exact ⟨hkind, congrArg Symbol.content h⟩

theorem kind_of_said_string {text : String} (h : t.said = ⟨.string, some (.text text)⟩) :
    t.kind = .string ∧ t.lexeme = text := by
  have hkind : t.kind = .string := by rw [← kind_said, h]
  rw [said_string hkind] at h
  cases h
  exact ⟨hkind, rfl⟩

end Token

/-! ### Tokens behind a phrase -/

/-- The first tokens are of one kind. -/
inductive SameHead : List Token → List Token → Prop
  | intro {t t' : Token} {rest rest' : List Token} (hkind : t'.kind = t.kind) :
      SameHead (t :: rest) (t' :: rest')

/-- A token that ends a phrase wherever another one did. It binds no tighter, and it makes neither an
assignment nor a second branch. -/
inductive Follows : List Token → List Token → Prop
  | intro {t t' : Token} {rest rest' : List Token}
      (hpower : t'.kind.bindingPower ≤ t.kind.bindingPower)
      (hequal : t'.kind = .equal → t.kind = .equal) (helse : t'.kind = .elseKw → t.kind = .elseKw) :
      Follows (t :: rest) (t' :: rest')

theorem SameHead.follows {ts ts' : List Token} (h : SameHead ts ts') : Follows ts ts' := by
  obtain ⟨hkind⟩ := h
  exact .intro (Nat.le_of_eq (by rw [hkind])) (hkind ▸ id) (hkind ▸ id)

/-- A token that continues nothing. -/
theorem Follows.of_kind {t t' : Token} {rest rest' : List Token} {kind : TokenKind}
    (hkind : t'.kind = kind) (hpower : kind.bindingPower = 0) (helse : kind ≠ .elseKw) :
    Follows (t :: rest) (t' :: rest') := by
  subst hkind
  refine .intro (hpower ▸ Nat.zero_le _) (fun hequal => ?_) (fun h => absurd h helse)
  rw [hequal] at hpower
  cases hpower

/-! ### The rules again -/

/-- A phrase that was read from `ts` is read from `ts'` up to `rest'`, apart from lines. -/
def Phrase.Rereads (ts ts' rest' : List Token) : Phrase → Prop
  | expression power e => SameHead ts ts' ∧
    ∃ e' : Expr, e'.unlined = e.unlined ∧ Parses (.expression power e') ts' rest'
  | operand e => SameHead ts ts' ∧
    ∃ e' : Expr, e'.unlined = e.unlined ∧ Parses (.operand e') ts' rest'
  | operators power left whole => Follows ts ts' ∧ ∀ left' : Expr, left'.unlined = left.unlined →
    ∃ whole' : Expr, whole'.unlined = whole.unlined ∧
      Parses (.operators power left' whole') ts' rest'
  | arguments args =>
    ∃ args', Expr.unlinedAll args' = Expr.unlinedAll args ∧ Parses (.arguments args') ts' rest'
  | parameters params => Parses (.parameters params) ts' rest'
  | simple e => SameHead ts ts' ∧
    ∃ e' : Expr, e'.unlined = e.unlined ∧ Parses (.simple e') ts' rest'
  | statement e => SameHead ts ts' ∧
    ∃ e' : Expr, e'.unlined = e.unlined ∧ Parses (.statement e') ts' rest'
  | block body => SameHead ts ts' ∧
    ∃ body', Expr.unlinedAll body' = Expr.unlinedAll body ∧ Parses (.block body') ts' rest'
  | program body => (∀ t ∈ rest'.head?, t.kind = .eof) → SameHead ts ts' ∧
    ∃ body', Expr.unlinedAll body' = Expr.unlinedAll body ∧ Parses (.program body') ts' rest'

/-- Operators leave what they are given in front. -/
theorem Parses.exists_symbols_append {power : Nat} {left whole : Expr} {ts rest : List Token}
    (h : Parses (.operators power left whole) ts rest) :
    ∃ more, whole.symbols = left.symbols ++ more := by
  generalize hphrase : Phrase.operators power left whole = phrase at h
  induction h generalizing left with
  | stop _ =>
    cases hphrase
    exact ⟨[], (List.append_nil _).symm⟩
  | binary _ _ _ _ _ ih =>
    cases hphrase
    obtain ⟨more, hmore⟩ := ih rfl
    exact ⟨_, by rw [hmore, Expr.symbols, List.append_assoc]⟩
  | call _ _ _ _ _ ih =>
    cases hphrase
    obtain ⟨more, hmore⟩ := ih rfl
    exact ⟨_, by rw [hmore, Expr.symbols, List.append_assoc]⟩
  | _ => cases hphrase

/-- Whether a phrase is an expression that can be asked for a value. -/
def Phrase.YieldsValue : Phrase → Prop
  | expression _ e | operand e | simple e => e.yieldsValue = true
  | operators _ left whole => left.yieldsValue = true → whole.yieldsValue = true
  | _ => True

theorem Parses.yieldsValue {phrase : Phrase} {ts rest : List Token} (h : Parses phrase ts rest) :
    phrase.YieldsValue := by
  induction h with
  | expression _ _ ihoperand ihoperators => exact ihoperators ihoperand
  | stop _ => exact id
  | binary _ _ _ _ _ ih => exact fun _ => ih rfl
  | call _ _ _ _ _ ih => exact fun _ => ih rfl
  | ended _ _ ih => exact ih
  | unended _ _ ih => exact ih
  | number | string | true | false | assign | get | not | negate => rfl
  | _ => trivial

section

variable {written : List Token} {rest : List Symbol}

/-- The token of a kind that is spelled in one way. -/
theorem exists_mark {kind : TokenKind} (h : written.map Token.said = .mark kind :: rest) :
    ∃ t after, written = t :: after ∧ t.kind = kind ∧ after.map Token.said = rest := by
  obtain ⟨t, after, rfl, hsaid, hafter⟩ := List.map_eq_cons_iff.mp h
  exact ⟨t, after, rfl, Token.kind_of_said_mark hsaid, hafter⟩

theorem exists_identifier {name : String} (h : written.map Token.said = .identifier name :: rest) :
    ∃ t after, written = t :: after ∧ t.kind = .identifier ∧ t.lexeme = name ∧
      after.map Token.said = rest := by
  obtain ⟨t, after, rfl, hsaid, hafter⟩ := List.map_eq_cons_iff.mp h
  obtain ⟨hkind, hlexeme⟩ := Token.kind_of_said_identifier hsaid
  exact ⟨t, after, rfl, hkind, hlexeme, hafter⟩

/-- A token at the end. -/
theorem exists_append_mark {front : List Symbol} {kind : TokenKind}
    (h : written.map Token.said = front ++ [.mark kind]) :
    ∃ before t, written = before ++ [t] ∧ before.map Token.said = front ∧ t.kind = kind := by
  obtain ⟨before, last, rfl, hbefore, hlast⟩ := List.map_eq_append_iff.mp h
  obtain ⟨t, after, rfl, hkind, hafter⟩ := exists_mark hlast
  obtain rfl := List.map_eq_nil_iff.mp hafter
  exact ⟨before, t, rfl, hbefore, hkind⟩

end

/-! The rules that look at the first token ask for its kind only. -/

namespace SameHead

variable {t : Token} {e : Expr} {rest ts' after : List Token}

theorem argument {next : Token} {args : List Expr} {ts : List Token}
    (hhead : SameHead (t :: rest) ts') (hclose : t.kind ≠ .rparen) (heof : t.kind ≠ .eof)
    (he : Parses (.expression 0 e) ts' (next :: after)) (hcomma : next.kind = .comma)
    (hargs : Parses (.arguments args) after ts) : Parses (.arguments (e :: args)) ts' ts := by
  obtain ⟨hkind⟩ := hhead
  exact .argument (hkind ▸ hclose) (hkind ▸ heof) he hcomma hargs

theorem lastArgument {next : Token} (hhead : SameHead (t :: rest) ts') (hclose : t.kind ≠ .rparen)
    (heof : t.kind ≠ .eof) (he : Parses (.expression 0 e) ts' (next :: after))
    (hlast : next.kind = .rparen) : Parses (.arguments [e]) ts' after := by
  obtain ⟨hkind⟩ := hhead
  exact .lastArgument (hkind ▸ hclose) (hkind ▸ heof) he hlast

theorem plain (hhead : SameHead (t :: rest) ts') (hstart : t.kind.startsStatement = false)
    (he : Parses (.simple e) ts' after) : Parses (.statement e) ts' after := by
  obtain ⟨hkind⟩ := hhead
  exact .plain (hkind ▸ hstart) he

theorem blockNext {body : List Expr} {ts : List Token} (hhead : SameHead (t :: rest) ts')
    (hclose : t.kind ≠ .rbrace) (heof : t.kind ≠ .eof) (he : Parses (.statement e) ts' after)
    (hbody : Parses (.block body) after ts) : Parses (.block (e :: body)) ts' ts := by
  obtain ⟨hkind⟩ := hhead
  exact .blockNext (hkind ▸ hclose) (hkind ▸ heof) he hbody

theorem programNext {body : List Expr} {ts : List Token} (hhead : SameHead (t :: rest) ts')
    (heof : t.kind ≠ .eof) (he : Parses (.statement e) ts' after)
    (hbody : Parses (.program body) after ts) : Parses (.program (e :: body)) ts' ts := by
  obtain ⟨hkind⟩ := hhead
  exact .programNext (hkind ▸ heof) he hbody

end SameHead

section

variable {written rest rest' : List Token}

/-- The last argument is written without a comma behind it, whether one was read or not. -/
theorem rereads_lastArgument {t next : Token} {e : Expr} {after : List Token}
    (hclose : t.kind ≠ .rparen) (heof : t.kind ≠ .eof)
    (ih : ∀ {first rest' : List Token}, first.map Token.said = e.symbols →
      Follows (next :: after) rest' → (Phrase.expression 0 e).Rereads (t :: rest) (first ++ rest') rest')
    (hwritten : written.map Token.said = closing [e.symbols]) :
    (Phrase.arguments [e]).Rereads (t :: rest) (written ++ rest') rest' := by
  obtain ⟨first, stop, rfl, hfirst, hstop⟩ := exists_append_mark hwritten
  rw [List.append_assoc]
  obtain ⟨hhead, e', he', hparses⟩ := ih hfirst (.of_kind hstop rfl (by decide))
  refine ⟨[e'], ?_, hhead.lastArgument hclose heof hparses hstop⟩
  rw [Expr.unlinedAll, Expr.unlinedAll, he']
  rfl

theorem parses_lastParameter {name : String}
    (hwritten : written.map Token.said = closing [[.identifier name]]) :
    Parses (.parameters [name]) (written ++ rest') rest' := by
  obtain ⟨t', after, rfl, hkind', hlexeme, hafter⟩ := exists_identifier hwritten
  obtain ⟨stop, after, rfl, hstop, hafter⟩ := exists_mark hafter
  obtain rfl := List.map_eq_nil_iff.mp hafter
  exact hlexeme ▸ .lastParameter hkind' hstop

end

/-- Each rule can be used again on what it writes. -/
theorem Parses.rereads {phrase : Phrase} {ts rest : List Token} (h : Parses phrase ts rest) :
    ∀ {written rest' : List Token}, phrase.givenSymbols ++ written.map Token.said = phrase.symbols →
      Follows rest rest' → phrase.Rereads ts (written ++ rest') rest' := by
  -- What is written behind a phrase is not what was read there. So the induction is for all tokens
  -- that may follow, and each case asks its last part first, which tells what follows the others.
  induction h with
  | expression _ hoperators ihoperand ihoperators =>
    intro written rest' hwritten hfollows
    obtain ⟨more, hmore⟩ := hoperators.exists_symbols_append
    obtain ⟨first, others, rfl, hfirst, hothers⟩ :=
      List.map_eq_append_iff.mp (hwritten.trans hmore)
    obtain ⟨hnext, hwhole⟩ := ihoperators ((congrArg _ hothers).trans hmore.symm) hfollows
    obtain ⟨hhead, e', he', hparses⟩ := ihoperand hfirst hnext
    obtain ⟨whole', hwhole', hparses'⟩ := hwhole e' he'
    rw [List.append_assoc]
    exact ⟨hhead, whole', hwhole', .expression hparses hparses'⟩
  | @number t value _ hkind _ =>
    intro written rest' hwritten _
    obtain ⟨t', after, rfl, hsaid, hafter⟩ := List.map_eq_cons_iff.mp hwritten
    obtain rfl := List.map_eq_nil_iff.mp hafter
    obtain ⟨hkind', hvalue'⟩ := Token.kind_of_said_number hsaid
    refine ⟨.intro (hkind'.trans hkind.symm), _, ?_, .number hkind' hvalue'⟩
    rfl
  | @string t _ hkind =>
    intro written rest' hwritten _
    obtain ⟨t', after, rfl, hsaid, hafter⟩ := List.map_eq_cons_iff.mp hwritten
    obtain rfl := List.map_eq_nil_iff.mp hafter
    obtain ⟨hkind', hlexeme⟩ := Token.kind_of_said_string hsaid
    refine ⟨.intro (hkind'.trans hkind.symm), _, ?_, .string hkind'⟩
    rw [hlexeme]
    rfl
  | true hkind =>
    intro written rest' hwritten _
    obtain ⟨t', after, rfl, hkind', hafter⟩ := exists_mark hwritten
    obtain rfl := List.map_eq_nil_iff.mp hafter
    refine ⟨.intro (hkind'.trans hkind.symm), _, ?_, .true hkind'⟩
    rfl
  | false hkind =>
    intro written rest' hwritten _
    obtain ⟨t', after, rfl, hkind', hafter⟩ := exists_mark hwritten
    obtain rfl := List.map_eq_nil_iff.mp hafter
    refine ⟨.intro (hkind'.trans hkind.symm), _, ?_, .false hkind'⟩
    rfl
  | assign hkind hnext _ ih =>
    intro written rest' hwritten hfollows
    obtain ⟨t', after, rfl, hkind', hlexeme, hafter⟩ := exists_identifier hwritten
    obtain ⟨next', value', rfl, hnext', hvalue'⟩ := exists_mark hafter
    obtain ⟨-, e', he', hparses⟩ := ih hvalue' hfollows
    refine ⟨.intro (hkind'.trans hkind.symm), _, ?_, .assign hkind' hnext' hparses⟩
    rw [Expr.unlined, Expr.unlined, hlexeme, he']
  | get hkind hnext =>
    intro written rest' hwritten hfollows
    obtain ⟨t', after, rfl, hkind', hlexeme, hafter⟩ := exists_identifier hwritten
    obtain rfl := List.map_eq_nil_iff.mp hafter
    obtain ⟨-, hequal, -⟩ := hfollows
    refine ⟨.intro (hkind'.trans hkind.symm), _, ?_, .get hkind' fun h => hnext (hequal h)⟩
    rw [hlexeme]
    rfl
  | not hkind _ ih =>
    intro written rest' hwritten hfollows
    obtain ⟨t', after, rfl, hkind', hafter⟩ := exists_mark hwritten
    obtain ⟨-, e', he', hparses⟩ := ih hafter hfollows
    refine ⟨.intro (hkind'.trans hkind.symm), _, ?_, .not hkind' hparses⟩
    rw [Expr.unlined, Expr.unlined, he']
  | negate hkind _ ih =>
    intro written rest' hwritten hfollows
    obtain ⟨t', after, rfl, hkind', hafter⟩ := exists_mark hwritten
    obtain ⟨-, e', he', hparses⟩ := ih hafter hfollows
    refine ⟨.intro (hkind'.trans hkind.symm), _, ?_, .negate hkind' hparses⟩
    rw [Expr.unlined, Expr.unlined, he']
  | stop hpower =>
    intro written rest' hwritten hfollows
    obtain rfl := List.map_eq_nil_iff.mp (List.append_right_eq_self.mp hwritten)
    refine ⟨hfollows, fun left' hleft => ?_⟩
    obtain ⟨hpower', -, -⟩ := hfollows
    exact ⟨left', hleft, .stop (Nat.le_trans hpower' hpower)⟩
  | @binary _ left right whole op t _ _ _ hpower hop _ hoperators ihright ihwhole =>
    intro written rest' hwritten hfollows
    obtain ⟨more, hmore⟩ := hoperators.exists_symbols_append
    have hsaid : written.map Token.said = .mark op.tokenKind :: (right.symbols ++ more) := by
      refine List.append_cancel_left (hwritten.trans (hmore.trans ?_))
      rw [Expr.symbols, List.append_assoc]
      rfl
    have hkind := BinaryOp.ofToken?_eq_some_iff.mp hop
    obtain ⟨t', after, rfl, hkind', hafter⟩ := exists_mark hsaid
    obtain ⟨right', others, rfl, hright, hothers⟩ := List.map_eq_append_iff.mp hafter
    obtain ⟨hnext, hwhole⟩ := ihwhole ((congrArg _ hothers).trans hmore.symm) hfollows
    obtain ⟨-, e', he', hparses⟩ := ihright hright hnext
    have hsame : t'.kind = t.kind := hkind'.trans hkind.symm
    refine ⟨(SameHead.intro hsame).follows, fun left' hleft => ?_⟩
    obtain ⟨whole', hwhole', hparses'⟩ := hwhole (.binary left' op e' t'.line)
      (by rw [Expr.unlined, Expr.unlined, hleft, he'])
    rw [List.cons_append, List.append_assoc]
    exact ⟨whole', hwhole', .binary (hsame ▸ hpower) (hsame ▸ hop) (hsame ▸ hparses) hparses'⟩
  | @call _ left whole args t _ _ _ hpower hkind _ hoperators ihargs ihwhole =>
    intro written rest' hwritten hfollows
    obtain ⟨more, hmore⟩ := hoperators.exists_symbols_append
    have hsaid : written.map Token.said =
        .mark .lparen :: (closing (Expr.itemSymbols args) ++ more) := by
      refine List.append_cancel_left (hwritten.trans (hmore.trans ?_))
      rw [Expr.symbols, List.append_assoc]
      rfl
    obtain ⟨t', after, rfl, hkind', hafter⟩ := exists_mark hsaid
    obtain ⟨args', others, rfl, hargs, hothers⟩ := List.map_eq_append_iff.mp hafter
    obtain ⟨hnext, hwhole⟩ := ihwhole ((congrArg _ hothers).trans hmore.symm) hfollows
    obtain ⟨list', hlist', hparses⟩ := ihargs hargs hnext
    have hsame : t'.kind = t.kind := hkind'.trans hkind.symm
    refine ⟨(SameHead.intro hsame).follows, fun left' hleft => ?_⟩
    obtain ⟨whole', hwhole', hparses'⟩ := hwhole (.call left' list' t'.line)
      (by rw [Expr.unlined, Expr.unlined, hleft, hlist'])
    rw [List.cons_append, List.append_assoc]
    exact ⟨whole', hwhole', .call (hsame ▸ hpower) hkind' hparses hparses'⟩
  | noArguments hkind =>
    intro written rest' hwritten _
    obtain ⟨t', after, rfl, hkind', hafter⟩ := exists_mark hwritten
    obtain rfl := List.map_eq_nil_iff.mp hafter
    exact ⟨[], rfl, .noArguments hkind'⟩
  | @argument t _ e args _ _ _ hclose heof _ hcomma _ ih ihrest =>
    intro written rest' hwritten hfollows
    cases args with
    | nil => exact rereads_lastArgument hclose heof ih hwritten
    | cons other args =>
      obtain ⟨first, after, rfl, hfirst, hafter⟩ := List.map_eq_append_iff.mp hwritten
      obtain ⟨comma, others, rfl, hcomma', hothers⟩ := exists_mark hafter
      rw [List.append_assoc]
      obtain ⟨hhead, e', he', hparses⟩ := ih hfirst (.of_kind hcomma' rfl (by decide))
      obtain ⟨args', hargs', hparses'⟩ := ihrest hothers hfollows
      refine ⟨e' :: args', ?_, hhead.argument hclose heof hparses hcomma' hparses'⟩
      rw [Expr.unlinedAll, he', hargs']
      rfl
  | lastArgument hclose heof _ _ ih =>
    intro written rest' hwritten _
    exact rereads_lastArgument hclose heof ih hwritten
  | noParameters hkind =>
    intro written rest' hwritten _
    obtain ⟨t', after, rfl, hkind', hafter⟩ := exists_mark hwritten
    obtain rfl := List.map_eq_nil_iff.mp hafter
    exact .noParameters hkind'
  | @parameter _ _ params _ _ hkind hcomma _ ih =>
    intro written rest' hwritten hfollows
    cases params with
    | nil => exact parses_lastParameter hwritten
    | cons other params =>
      obtain ⟨t', after, rfl, hkind', hlexeme, hafter⟩ := exists_identifier hwritten
      obtain ⟨comma, others, rfl, hcomma', hothers⟩ := exists_mark hafter
      exact hlexeme ▸ .parameter hkind' hcomma' (ih hothers hfollows)
  | lastParameter _ _ =>
    intro written rest' hwritten _
    exact parses_lastParameter hwritten
  | ended _ _ ih | unended _ _ ih =>
    -- A semicolon that was left out is written, and it continues nothing.
    intro written rest' hwritten _
    obtain ⟨before, stop, rfl, hbefore, hstop⟩ := exists_append_mark hwritten
    rw [List.append_assoc]
    obtain ⟨hhead, e', he', hparses⟩ := ih hbefore (.of_kind hstop rfl (by decide))
    exact ⟨hhead, e', he', .ended hparses hstop⟩
  | declare hkind hname hequal _ ih =>
    intro written rest' hwritten hfollows
    obtain ⟨t', after, rfl, hkind', hafter⟩ := exists_mark hwritten
    obtain ⟨name', after, rfl, hname', hlexeme, hafter⟩ := exists_identifier hafter
    obtain ⟨next', after, rfl, hequal', hafter⟩ := exists_mark hafter
    obtain ⟨-, e', he', hparses⟩ := ih (hafter.trans (List.append_nil _)) hfollows
    refine ⟨.intro (hkind'.trans hkind.symm), _, ?_, .declare hkind' hname' hequal' hparses⟩
    rw [Expr.unlined, Expr.unlined, hlexeme, he']
  | declareZero hkind hname hstop =>
    intro written rest' hwritten _
    obtain ⟨t', after, rfl, hkind', hafter⟩ := exists_mark hwritten
    obtain ⟨name', after, rfl, hname', hlexeme, hafter⟩ := exists_identifier hafter
    obtain ⟨next', after, rfl, hequal', hafter⟩ := exists_mark hafter
    -- The zero that was left out is read by the rule for a declaration with a value.
    obtain ⟨zero, after, rfl, hzero, hafter⟩ := List.map_eq_cons_iff.mp hafter
    obtain ⟨stop, after, rfl, hstop', hafter⟩ := exists_mark hafter
    obtain rfl := List.map_eq_nil_iff.mp hafter
    obtain ⟨hnumber, hvalue⟩ := Token.kind_of_said_number hzero
    have hpower : stop.kind.bindingPower ≤ 0 := Nat.le_of_eq (hstop' ▸ rfl)
    refine ⟨.intro (hkind'.trans hkind.symm), _, ?_, .declare hkind' hname' hequal'
      (.ended (.expression (.number hnumber hvalue) (.stop hpower)) hstop')⟩
    rw [Expr.unlined, Expr.unlined, hlexeme]
    rfl
  | @function _ name _ brace params body _ ts _ hkind hname hopen _ hbrace _ ihparams ihbody =>
    intro written rest' hwritten hfollows
    have hsymbols : written.map Token.said = .mark .funKw :: .identifier name.lexeme ::
        .mark .lparen :: (closing (params.map fun param => [.identifier param]) ++
          .mark .lbrace :: (Expr.statementSymbols body ++ [.mark .rbrace])) := by
      refine hwritten.trans ((List.append_nil _).trans ?_)
      rw [Expr.symbols, List.append_assoc, List.append_assoc]
      rfl
    obtain ⟨t', after, rfl, hkind', hafter⟩ := exists_mark hsymbols
    obtain ⟨name', after, rfl, hname', hlexeme, hafter⟩ := exists_identifier hafter
    obtain ⟨opening', after, rfl, hopen', hafter⟩ := exists_mark hafter
    obtain ⟨params', after, rfl, hparams, hafter⟩ := List.map_eq_append_iff.mp hafter
    obtain ⟨brace', body', rfl, hbrace', hbody⟩ := exists_mark hafter
    obtain ⟨-, list', hlist', hparses⟩ := ihbody hbody hfollows
    have hnext : SameHead (brace :: ts) (brace' :: (body' ++ rest')) :=
      .intro (hbrace'.trans hbrace.symm)
    rw [List.cons_append, List.cons_append, List.cons_append, List.append_assoc]
    refine ⟨.intro (hkind'.trans hkind.symm), _, ?_,
      .function hkind' hname' hopen' (ihparams hparams hnext.follows) hbrace' hparses⟩
    rw [Expr.unlined, Expr.unlined, hlexeme, hlist']
  | print hkind _ ih =>
    intro written rest' hwritten hfollows
    obtain ⟨t', after, rfl, hkind', hafter⟩ := exists_mark hwritten
    obtain ⟨-, e', he', hparses⟩ := ih (hafter.trans (List.append_nil _)) hfollows
    refine ⟨.intro (hkind'.trans hkind.symm), _, ?_, .print hkind' hparses⟩
    rw [Expr.unlined, Expr.unlined, he']
  | ifThen hkind _ _ helse ihcondition ihthen =>
    intro written rest' hwritten hfollows
    obtain ⟨t', after, rfl, hkind', hafter⟩ := exists_mark (hwritten.trans (List.append_nil _))
    obtain ⟨front, branch, rfl, hfront, hbranch⟩ := List.map_eq_append_iff.mp hafter
    obtain ⟨hhead, then', hthen', hparses'⟩ := ihthen hbranch hfollows
    obtain ⟨-, condition', hcondition', hparses⟩ := ihcondition hfront hhead.follows
    -- No `else` follows, since none did before.
    obtain ⟨-, -, helse'⟩ := hfollows
    rw [List.cons_append, List.append_assoc]
    refine ⟨.intro (hkind'.trans hkind.symm), _, ?_,
      .ifThen hkind' hparses hparses' fun h => helse (helse' h)⟩
    rw [Expr.unlined, Expr.unlined, hcondition', hthen']
  | @ifElse _ next condition thenBranch elseBranch _ _ ts' _ hkind _ _ helse _ ihcondition ihthen
      ihelse =>
    intro written rest' hwritten hfollows
    have hsymbols : written.map Token.said = .mark .ifKw :: (condition.symbols ++
        ((thenBranch.symbols ++ thenBranch.terminator) ++
          .mark .elseKw :: (elseBranch.symbols ++ elseBranch.terminator))) := by
      refine hwritten.trans ((List.append_nil _).trans ?_)
      rw [Expr.symbols, List.append_assoc]
      rfl
    obtain ⟨t', after, rfl, hkind', hafter⟩ := exists_mark hsymbols
    obtain ⟨front, after, rfl, hfront, hafter⟩ := List.map_eq_append_iff.mp hafter
    obtain ⟨branch, after, rfl, hbranch, hafter⟩ := List.map_eq_append_iff.mp hafter
    obtain ⟨next', other, rfl, helse', hother⟩ := exists_mark hafter
    obtain ⟨-, else', helseBranch, hparses''⟩ := ihelse hother hfollows
    have hnext : SameHead (next :: ts') (next' :: (other ++ rest')) :=
      .intro (helse'.trans helse.symm)
    obtain ⟨hhead, then', hthen', hparses'⟩ := ihthen hbranch hnext.follows
    obtain ⟨-, condition', hcondition', hparses⟩ := ihcondition hfront hhead.follows
    rw [List.cons_append, List.append_assoc, List.append_assoc]
    refine ⟨.intro (hkind'.trans hkind.symm), _, ?_,
      .ifElse hkind' hparses hparses' helse' hparses''⟩
    rw [Expr.unlined, Expr.unlined, hcondition', hthen', helseBranch]
  | braces hkind _ ih =>
    intro written rest' hwritten hfollows
    obtain ⟨t', after, rfl, hkind', hafter⟩ := exists_mark hwritten
    obtain ⟨-, body', hbody', hparses⟩ := ih (hafter.trans (List.append_nil _)) hfollows
    refine ⟨.intro (hkind'.trans hkind.symm), _, ?_, .braces hkind' hparses⟩
    rw [Expr.unlined, Expr.unlined, hbody']
  | @plain _ e _ _ hstart hsimple ih =>
    intro written rest' hwritten hfollows
    have hterminator : e.terminator = [.mark .semicolon] := if_pos hsimple.yieldsValue
    have hsymbols : written.map Token.said = e.symbols ++ [.mark .semicolon] :=
      hterminator ▸ hwritten
    obtain ⟨hhead, e', he', hparses⟩ := ih hsymbols hfollows
    exact ⟨hhead, e', he', hhead.plain hstart hparses⟩
  | blockEnd hkind =>
    intro written rest' hwritten _
    obtain ⟨t', after, rfl, hkind', hafter⟩ := exists_mark hwritten
    obtain rfl := List.map_eq_nil_iff.mp hafter
    exact ⟨.intro (hkind'.trans hkind.symm), [], rfl, .blockEnd hkind'⟩
  | @blockNext _ e body _ _ _ hclose heof _ _ ih ihrest =>
    intro written rest' hwritten hfollows
    have hsymbols : written.map Token.said = (e.symbols ++ e.terminator) ++
        (Expr.statementSymbols body ++ [.mark .rbrace]) := by
      refine hwritten.trans ?_
      rw [← List.append_assoc]
      rfl
    obtain ⟨first, others, rfl, hfirst, hothers⟩ := List.map_eq_append_iff.mp hsymbols
    obtain ⟨hnext, body', hbody', hparses'⟩ := ihrest hothers hfollows
    obtain ⟨hhead, e', he', hparses⟩ := ih hfirst hnext.follows
    rw [List.append_assoc]
    refine ⟨hhead, e' :: body', ?_, hhead.blockNext hclose heof hparses hparses'⟩
    rw [Expr.unlinedAll, Expr.unlinedAll, he', hbody']
  | programEnd heof =>
    intro written rest' hwritten hfollows hend
    obtain rfl := List.map_eq_nil_iff.mp hwritten
    obtain ⟨-, -, -⟩ := hfollows
    have hkind := hend _ rfl
    exact ⟨.intro (hkind.trans heof.symm), [], rfl, .programEnd hkind⟩
  | programNext heof _ _ ih ihrest =>
    intro written rest' hwritten hfollows hend
    obtain ⟨first, others, rfl, hfirst, hothers⟩ := List.map_eq_append_iff.mp hwritten
    obtain ⟨hnext, body', hbody', hparses'⟩ := ihrest hothers hfollows hend
    obtain ⟨hhead, e', he', hparses⟩ := ih hfirst hnext.follows
    rw [List.append_assoc]
    refine ⟨hhead, e' :: body', ?_, hhead.programNext heof hparses hparses'⟩
    rw [Expr.unlinedAll, Expr.unlinedAll, he', hbody']

/-! ### Tokens for symbols -/

/-- Some token says this, and is spelled as its kind is. -/
def Symbol.IsWritten (s : Symbol) : Prop :=
  ∃ t : Token, t.IsSpelled ∧ t.said = s

namespace Symbol

theorem isWritten_mark {kind : TokenKind} (h : kind.spelling?.isSome = true) :
    (mark kind).IsWritten := by
  obtain ⟨text, htext⟩ := Option.isSome_iff_exists.mp h
  refine ⟨⟨kind, text, ⟨0, 0, 0⟩⟩, fun other hother => ?_, Token.said_mark rfl h⟩
  exact Option.some.inj (htext.symm.trans hother)

theorem isWritten_identifier (name : String) : (identifier name).IsWritten := by
  refine ⟨⟨.identifier, name, ⟨0, 0, 0⟩⟩, ?_, Token.said_identifier rfl⟩
  intro text htext
  cases htext

theorem isWritten_number {lexeme : String} {value : Datum}
    (h : numberOfLexeme? lexeme = some value) : (number value).IsWritten := by
  refine ⟨⟨.number, lexeme, ⟨0, 0, 0⟩⟩, ?_, ?_⟩
  · intro text htext
    cases htext
  · rw [Token.said_number rfl, h]
    rfl

theorem isWritten_string (text : String) : IsWritten ⟨.string, some (.text text)⟩ := by
  refine ⟨⟨.string, text, ⟨0, 0, 0⟩⟩, ?_, Token.said_string rfl⟩
  intro text htext
  cases htext

end Symbol

/-- Tokens can be found for all of these symbols. -/
def AllWritten (symbols : List Symbol) : Prop := ∀ s ∈ symbols, s.IsWritten

namespace AllWritten

variable {symbols more : List Symbol}

theorem nil : AllWritten [] := fun _ h => nomatch h

theorem cons {s : Symbol} (hs : s.IsWritten) (h : AllWritten symbols) : AllWritten (s :: symbols) :=
  List.forall_mem_cons.mpr ⟨hs, h⟩

theorem mark {kind : TokenKind} (hkind : kind.spelling?.isSome = true) (h : AllWritten symbols) :
    AllWritten (.mark kind :: symbols) :=
  .cons (Symbol.isWritten_mark hkind) h

theorem append (h : AllWritten symbols) (hmore : AllWritten more) : AllWritten (symbols ++ more) :=
  List.forall_mem_append.mpr ⟨h, hmore⟩

theorem closing_cons {item : List Symbol} {items : List (List Symbol)} (hitem : AllWritten item)
    (h : AllWritten (closing items)) : AllWritten (closing (item :: items)) := by
  cases items with
  | nil => exact hitem.append h
  | cons next items => exact hitem.append (.mark rfl h)

theorem terminator (e : Expr) : AllWritten e.terminator := by
  unfold Expr.terminator
  split
  · exact .mark rfl .nil
  · exact .nil

/-- The tokens of symbols. -/
theorem exists_tokens (h : AllWritten symbols) :
    ∃ tokens : List Token, (∀ t ∈ tokens, t.IsSpelled) ∧ tokens.map Token.said = symbols := by
  induction symbols with
  | nil => exact ⟨[], by simp, rfl⟩
  | cons s symbols ih =>
    obtain ⟨⟨t, hspelled, hsaid⟩, hrest⟩ := List.forall_mem_cons.mp h
    obtain ⟨tokens, htokens, hsymbols⟩ := ih hrest
    refine ⟨t :: tokens, List.forall_mem_cons.mpr ⟨hspelled, htokens⟩, ?_⟩
    rw [List.map_cons, hsaid, hsymbols]

end AllWritten

/-- Whatever is read can be written. -/
theorem Parses.allWritten {phrase : Phrase} {ts rest : List Token} (h : Parses phrase ts rest) :
    AllWritten phrase.givenSymbols → AllWritten phrase.symbols := by
  -- Each rule writes its own marks around what its parts write.
  induction h with
  | expression _ _ ihoperand ihoperators => exact fun _ => ihoperators (ihoperand .nil)
  | number _ hvalue => exact fun _ => .cons (Symbol.isWritten_number hvalue) .nil
  | string _ => exact fun _ => .cons (Symbol.isWritten_string _) .nil
  | true _ | false _ | noArguments _ | noParameters _ | blockEnd _ => exact fun _ => .mark rfl .nil
  | assign _ _ _ ih => exact fun _ => .cons (Symbol.isWritten_identifier _) (.mark rfl (ih .nil))
  | get _ _ => exact fun _ => .cons (Symbol.isWritten_identifier _) .nil
  | not _ _ ih | negate _ _ ih => exact fun _ => .mark rfl (ih .nil)
  | stop _ | programEnd _ => exact id
  | binary _ _ _ _ ihright ihwhole =>
    exact fun hleft => ihwhole (hleft.append (.mark (BinaryOp.isSome_spelling _) (ihright .nil)))
  | call _ _ _ _ ihargs ihwhole => exact fun hleft => ihwhole (hleft.append (.mark rfl (ihargs .nil)))
  | argument _ _ _ _ _ ih ihrest => exact fun _ => .closing_cons (ih .nil) (ihrest .nil)
  | lastArgument _ _ _ _ ih => exact fun _ => .closing_cons (ih .nil) (.mark rfl .nil)
  | parameter _ _ _ ih =>
    exact fun _ => .closing_cons (.cons (Symbol.isWritten_identifier _) .nil) (ih .nil)
  | lastParameter _ _ => exact fun _ => .cons (Symbol.isWritten_identifier _) (.mark rfl .nil)
  | ended _ _ ih | unended _ _ ih => exact fun _ => (ih .nil).append (.mark rfl .nil)
  | declare _ _ _ _ ih =>
    exact fun _ => .append
      (.mark rfl (.cons (Symbol.isWritten_identifier _) (.mark rfl (ih .nil)))) .nil
  | declareZero _ _ _ =>
    -- a declaration without a value is written with the one it stands for
    have hzero : numberOfLexeme? "0" = some (.int 0) := by decide
    exact fun _ => .mark rfl (.cons (Symbol.isWritten_identifier _)
      (.mark rfl (.cons (Symbol.isWritten_number hzero) (.mark rfl .nil))))
  | function _ _ _ _ _ _ ihparams ihbody =>
    intro _
    refine .append ?_ .nil
    rw [Expr.symbols, List.append_assoc]
    exact .append (.mark rfl (.cons (Symbol.isWritten_identifier _) (.mark rfl (ihparams .nil))))
      (.mark rfl (ihbody .nil))
  | print _ _ ih | braces _ _ ih => exact fun _ => .append (.mark rfl (ih .nil)) .nil
  | ifThen _ _ _ _ ihcondition ihthen =>
    exact fun _ => .append (.mark rfl ((ihcondition .nil).append (ihthen .nil))) .nil
  | ifElse _ _ _ _ _ ihcondition ihthen ihelse =>
    exact fun _ => .append (.append (.mark rfl ((ihcondition .nil).append (ihthen .nil)))
      (.mark rfl (ihelse .nil))) .nil
  | plain _ _ ih => exact fun _ => .append (List.forall_mem_append.mp (ih .nil)).1 (.terminator _)
  | blockNext _ _ _ _ ih ihrest =>
    intro _
    rw [Phrase.symbols, Expr.statementSymbols, List.append_assoc]
    exact (ih .nil).append (ihrest .nil)
  | programNext _ _ _ ih ihrest => exact fun _ => (ih .nil).append (ihrest .nil)

/-! ### Programs -/

/-- What a program is written with is parsed as this program, apart from lines. The numbers may be
written with any lexemes of their values. -/
theorem parseProgram_unparse {tokens : List Token} {p : Parsed Program (tokens.length + 1)}
    (h : parseProgram tokens = .ok p) :
    (∃ written : List Token, (∀ t ∈ written, t.IsSpelled) ∧
        written.map Token.said = unparse p.value) ∧
      ∀ written : List Token, written.map Token.said = unparse p.value →
        ∃ q, parseProgram written = .ok q ∧
          Expr.unlinedAll q.value = Expr.unlinedAll p.value := by
  have hparses := parses_of_parseProgram h
  refine ⟨(((hparses.allWritten .nil).append (.mark rfl .nil))).exists_tokens, ?_⟩
  intro written hwritten
  obtain ⟨body, stop, rfl, hbody, hstop⟩ := exists_append_mark hwritten
  -- The end mark that is written stands where the one that was read did.
  obtain ⟨t, tail, hrest, hkind⟩ := hparses.exists_end
  have hfollows : SameHead p.rest [stop] := hrest ▸ .intro (hstop.trans hkind.symm)
  obtain ⟨-, program, hunlined, hreparses⟩ := hparses.rereads hbody hfollows.follows
    (by simpa using hstop)
  obtain ⟨hless, hparsed⟩ := hreparses.isParsed
  exact ⟨_, hparsed, hunlined⟩

/-- Tokens without some separators are parsed, and so is what the program is written with. -/
theorem parseProgram_unparse_looseTokens :
    ∃ p written q, parseProgram looseTokens = .ok p ∧ written.map Token.said = unparse p.value ∧
      parseProgram written = .ok q ∧ Expr.unlinedAll q.value = Expr.unlinedAll p.value := by
  have hok : (parseProgram looseTokens).isOk = true := by decide +kernel
  obtain ⟨p, h⟩ := exists_of_isOk hok
  obtain ⟨⟨written, -, hwritten⟩, hparses⟩ := parseProgram_unparse h
  obtain ⟨q, hq, hunlined⟩ := hparses written hwritten
  exact ⟨p, written, q, h, hwritten, hq, hunlined⟩

end StackScript
