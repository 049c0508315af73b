import StackScript.Proofs.Grammar

/-!
# Programs as tokens

A program is written with the tokens that it was read from, apart from separators: every statement
that is an expression ends with a semicolon, no comma stands before a closing parenthesis, and a
variable has its first value. Parsing takes and gives nothing else. Without semicolons, without commas
before a closing parenthesis and with the zeros that are left out, the tokens of a program are those
that it is written with.

Tokens are compared by what they say. That is the lexeme, and for a number its value. Of the kinds
that are spelled in one way only the kind is ever looked at.

## Main definitions

* `Symbol`, `Token.symbol`: what a token says.
* `Token.said`: what a token says if it is spelled as its kind is.
* `Expr.symbols`, `unparse`: the symbols of a node and of a program.
* `normalize`: symbols without separators that may be left out.

## Main results

* `Expr.standalone_symbols`: what follows a node is normalized by itself.
* `Parses.normalize_eq`: each rule keeps the tokens that it reads.
* `normalize_unparse`: the tokens of a program are those that it is written with.
-/

namespace StackScript

/-! ### Symbols -/

/-- What a token says: its kind, and its lexeme or the value of a number. -/
structure Symbol where
  kind : TokenKind
  content : Option Datum
  deriving DecidableEq

/-- The spelling of the kinds that are spelled in one way. -/
def TokenKind.spelling? : TokenKind → Option String
  | lparen => some "("
  | rparen => some ")"
  | lbracket => some "["
  | rbracket => some "]"
  | lbrace => some "\x7b"
  | rbrace => some "\x7d"
  | comma => some ","
  | dot => some "."
  | semicolon => some ";"
  | minus => some "-"
  | plus => some "+"
  | star => some "*"
  | slash => some "/"
  | bang => some "!"
  | bangEqual => some "!="
  | equal => some "="
  | equalEqual => some "=="
  | less => some "<"
  | lessEqual => some "<="
  | greater => some ">"
  | greaterEqual => some ">="
  | trueKw => some "true"
  | falseKw => some "false"
  | letKw => some "let"
  | printKw => some "print"
  | ifKw => some "if"
  | elseKw => some "else"
  | funKw => some "fun"
  | eof => some ""
  | string | number | identifier => none

namespace Symbol

/-- A kind that is spelled in one way. -/
def mark (kind : TokenKind) : Symbol := ⟨kind, kind.spelling?.map .text⟩

/-- A name. -/
def identifier (name : String) : Symbol := ⟨.identifier, some (.text name)⟩

/-- A number. -/
def number (value : Datum) : Symbol := ⟨.number, some value⟩

/-- A symbol whose kind is spelled as it should be. -/
def respelled (s : Symbol) : Symbol :=
  if s.kind.spelling?.isSome then mark s.kind else s

end Symbol

namespace Token

/-- What a token says. -/
def symbol (t : Token) : Symbol :=
  ⟨t.kind, if t.kind = .number then numberOfLexeme? t.lexeme else some (.text t.lexeme)⟩

/-- What a token says if its kind is spelled as it should be. -/
def said (t : Token) : Symbol := t.symbol.respelled

/-- A token is spelled as its kind is, if that is spelled in one way. -/
def IsSpelled (t : Token) : Prop := ∀ text ∈ t.kind.spelling?, t.lexeme = text

instance (t : Token) : Decidable t.IsSpelled :=
  inferInstanceAs (Decidable (∀ text ∈ t.kind.spelling?, t.lexeme = text))

variable {t : Token}

@[simp] theorem kind_said (t : Token) : t.said.kind = t.kind := by
  unfold said Symbol.respelled
  split <;> rfl

theorem said_mark {kind : TokenKind} (hkind : t.kind = kind) (hspelled : kind.spelling?.isSome = true) :
    t.said = .mark kind := by
  subst hkind
  exact if_pos hspelled

theorem said_identifier (hkind : t.kind = .identifier) : t.said = .identifier t.lexeme := by
  unfold said Symbol.respelled symbol
  rw [hkind]
  rfl

theorem said_string (hkind : t.kind = .string) : t.said = ⟨.string, some (.text t.lexeme)⟩ := by
  unfold said Symbol.respelled symbol
  rw [hkind]
  rfl

theorem said_number (hkind : t.kind = .number) : t.said = ⟨.number, numberOfLexeme? t.lexeme⟩ := by
  unfold said Symbol.respelled symbol
  rw [hkind]
  rfl

theorem IsSpelled.said_eq (h : t.IsSpelled) : t.said = t.symbol := by
  unfold said Symbol.respelled
  split
  · rename_i hspelled
    obtain ⟨text, htext⟩ := Option.isSome_iff_exists.mp hspelled
    have hnumber : t.kind ≠ .number := by
      intro hkind
      rw [symbol, hkind] at htext
      cases htext
    have hlexeme := h text htext
    rw [Symbol.mark, htext, symbol, if_neg hnumber, hlexeme]
    rfl
  · rfl

end Token

/-! ### Writing -/

/-- The kind of the token that writes a binary operator. -/
def BinaryOp.tokenKind : BinaryOp → TokenKind
  | subtract => .minus
  | add => .plus
  | divide => .slash
  | multiply => .star
  | equal => .equalEqual
  | notEqual => .bangEqual
  | greater => .greater
  | greaterEqual => .greaterEqual
  | less => .less
  | lessEqual => .lessEqual

theorem BinaryOp.ofToken?_eq_some_iff {kind : TokenKind} {op : BinaryOp} :
    BinaryOp.ofToken? kind = some op ↔ kind = op.tokenKind := by
  cases kind <;> cases op <;> decide

/-- The kind of the token that writes a unary operator. -/
def UnaryOp.tokenKind : UnaryOp → TokenKind
  | negate => .minus
  | not => .bang

/-- The symbol of a literal. -/
def LiteralKind.symbol (kind : LiteralKind) (value : Datum) : Symbol :=
  match kind with
  | number => .number value
  | string => ⟨.string, some value⟩
  | true => .mark .trueKw
  | false => .mark .falseKw

/-- Items with commas between them and a closing parenthesis behind them. -/
def closing : List (List Symbol) → List Symbol
  | [] => [.mark .rparen]
  | [item] => item ++ [.mark .rparen]
  | item :: next :: rest => item ++ .mark .comma :: closing (next :: rest)

namespace Expr

/-- The semicolon behind a statement, which only an expression needs. -/
def terminator (e : Expr) : List Symbol :=
  if e.yieldsValue then [.mark .semicolon] else []

mutual

/-- The symbols of a node in their order, without a semicolon behind an expression. -/
def symbols : Expr → List Symbol
  | block body _ => .mark .lbrace :: statementSymbols body ++ [.mark .rbrace]
  | binary left op right _ => left.symbols ++ .mark op.tokenKind :: right.symbols
  | unary op operand _ => .mark op.tokenKind :: operand.symbols
  | declare name value _ =>
    [.mark .letKw, .identifier name, .mark .equal] ++ value.symbols ++ [.mark .semicolon]
  | get name _ => [.identifier name]
  | assign name value _ => [.identifier name, .mark .equal] ++ value.symbols
  | print value _ => .mark .printKw :: value.symbols ++ [.mark .semicolon]
  | ifElse condition thenBranch none _ =>
    .mark .ifKw :: condition.symbols ++ (thenBranch.symbols ++ thenBranch.terminator)
  | ifElse condition thenBranch (some elseBranch) _ =>
    .mark .ifKw :: condition.symbols ++ (thenBranch.symbols ++ thenBranch.terminator) ++
      .mark .elseKw :: (elseBranch.symbols ++ elseBranch.terminator)
  | function name params body _ =>
    [.mark .funKw, .identifier name, .mark .lparen] ++
      closing (params.map fun param => [.identifier param]) ++
      .mark .lbrace :: statementSymbols body ++ [.mark .rbrace]
  | call callee args _ => callee.symbols ++ .mark .lparen :: closing (itemSymbols args)
  | literal kind value _ => [kind.symbol value]

/-- The symbols of statements in their order. -/
def statementSymbols : List Expr → List Symbol
  | [] => []
  | e :: rest => e.symbols ++ e.terminator ++ statementSymbols rest

/-- The symbols of each of some expressions. -/
def itemSymbols : List Expr → List (List Symbol)
  | [] => []
  | e :: rest => e.symbols :: itemSymbols rest

end

end Expr

/-- The symbols that a program is written with. -/
def unparse (program : Program) : List Symbol :=
  Expr.statementSymbols program ++ [.mark .eof]

/-! ### Separators that may be left out -/

/-- Symbols with the zero of every variable that is declared without a value. -/
def fillZeros : List Symbol → List Symbol
  | first :: name :: stop :: rest =>
    if first.kind = .letKw ∧ name.kind = .identifier ∧ stop.kind = .semicolon then
      first :: name :: .mark .equal :: .number (.int 0) :: fillZeros rest
    else first :: fillZeros (name :: stop :: rest)
  | symbols => symbols

/-- Whether the next symbol is a closing parenthesis. -/
def startsClosing (symbols : List Symbol) : Bool :=
  symbols.head?.any fun s => s.kind = .rparen

/-- Symbols without semicolons, and without commas directly before a closing parenthesis. -/
def eraseSeparators : List Symbol → List Symbol
  | [] => []
  | s :: rest =>
    if s.kind = .semicolon ∨ (s.kind = .comma ∧ startsClosing rest = true) then eraseSeparators rest
    else s :: eraseSeparators rest

/-- Symbols without separators that may be left out, and with the zeros that may be. -/
def normalize (symbols : List Symbol) : List Symbol :=
  eraseSeparators (fillZeros symbols)

/-- The kinds of tokens that are kept, whatever follows them. -/
def TokenKind.isKept : TokenKind → Bool
  | letKw | semicolon | comma => false
  | _ => true

theorem fillZeros_cons {s : Symbol} (h : s.kind ≠ .letKw) (rest : List Symbol) :
    fillZeros (s :: rest) = s :: fillZeros rest := by
  rcases rest with _ | ⟨second, _ | ⟨third, rest⟩⟩
  · rfl
  · rfl
  · rw [fillZeros, if_neg fun hlet => h hlet.1]

theorem startsClosing_fillZeros (symbols : List Symbol) :
    startsClosing (fillZeros symbols) = startsClosing symbols := by
  unfold fillZeros
  split
  · split <;> rfl
  · rfl

@[simp] theorem normalize_nil : normalize [] = [] := rfl

section

variable {s : Symbol} {rest : List Symbol}

/-- Most symbols are kept and do not touch what follows them. -/
theorem normalize_cons (h : s.kind.isKept = true) :
    normalize (s :: rest) = s :: normalize rest := by
  have hlet : s.kind ≠ .letKw := fun hkind => by simp [hkind, TokenKind.isKept] at h
  have hseparator : ¬ (s.kind = .semicolon ∨
      (s.kind = .comma ∧ startsClosing (fillZeros rest) = true)) := by
    rintro (hkind | ⟨hkind, -⟩) <;> simp [hkind, TokenKind.isKept] at h
  rw [normalize, fillZeros_cons hlet, eraseSeparators, if_neg hseparator]
  rfl

theorem normalize_semicolon (h : s.kind = .semicolon) :
    normalize (s :: rest) = normalize rest := by
  rw [normalize, fillZeros_cons (by simp [h]), eraseSeparators, if_pos (.inl h)]
  rfl

theorem normalize_comma (h : s.kind = .comma) :
    normalize (s :: rest) = if startsClosing rest then normalize rest else s :: normalize rest := by
  rw [normalize, fillZeros_cons (by simp [h]), eraseSeparators, startsClosing_fillZeros]
  by_cases hclosing : startsClosing rest = true
  · rw [if_pos (.inr ⟨h, hclosing⟩), if_pos hclosing]
    rfl
  · rw [if_neg (by simp [h, hclosing]), if_neg hclosing]
    rfl

/-- A declaration with a value is kept. -/
theorem normalize_declare (name : String) (rest : List Symbol) :
    normalize (.mark .letKw :: .identifier name :: .mark .equal :: rest) =
      .mark .letKw :: .identifier name :: .mark .equal :: normalize rest := by
  rw [normalize, fillZeros, if_neg (by simp [Symbol.mark])]
  change .mark .letKw :: normalize (.identifier name :: .mark .equal :: rest) = _
  rw [normalize_cons rfl, normalize_cons rfl]

/-- A declaration without a value gets a zero. -/
theorem normalize_declareZero (name : String) (rest : List Symbol) :
    normalize (.mark .letKw :: .identifier name :: .mark .semicolon :: rest) =
      .mark .letKw :: .identifier name :: .mark .equal :: .number (.int 0) :: normalize rest := by
  rw [normalize, fillZeros, if_pos (by simp [Symbol.mark, Symbol.identifier])]
  rfl

end

/-- Symbols that do not touch what follows them. -/
def Closed (symbols : List Symbol) : Prop :=
  ∀ rest, normalize (symbols ++ rest) = normalize symbols ++ normalize rest

namespace Closed

variable {symbols more : List Symbol}

theorem nil : Closed [] := fun _ => rfl

theorem append (h : Closed symbols) (hmore : Closed more) : Closed (symbols ++ more) := by
  intro rest
  rw [List.append_assoc, h, hmore, h more, List.append_assoc]

/-- A symbol that is kept, in front of others. -/
theorem cons {s : Symbol} (hs : s.kind.isKept = true) (h : Closed symbols) :
    Closed (s :: symbols) := by
  intro rest
  rw [List.cons_append, normalize_cons hs, h, normalize_cons hs, List.cons_append]

theorem semicolon : Closed [.mark .semicolon] := fun _ => normalize_semicolon rfl

/-- A comma before something that is no closing parenthesis. -/
theorem comma {s : Symbol} (hs : s.kind ≠ .rparen) (h : Closed (s :: symbols)) :
    Closed (.mark .comma :: s :: symbols) := by
  have hkept (rest : List Symbol) : normalize (.mark .comma :: s :: rest) =
      .mark .comma :: normalize (s :: rest) := by
    rw [normalize_comma rfl, if_neg (by simp [startsClosing, hs])]
  intro rest
  change normalize (.mark .comma :: s :: (symbols ++ rest)) = _
  rw [hkept, hkept]
  exact congrArg _ (h rest)

theorem declare (name : String) : Closed [.mark .letKw, .identifier name, .mark .equal] :=
  fun rest => by
    rw [normalize_declare name []]
    exact normalize_declare name rest

end Closed

/-! ### What follows a node -/

/-- The symbols of a node do not touch what follows them, and do not close a parenthesis. -/
structure Standalone (symbols : List Symbol) : Prop where
  closed : Closed symbols
  first : ∃ s rest, symbols = s :: rest ∧ s.kind ≠ .rparen

namespace Standalone

variable {symbols more : List Symbol} {s : Symbol}

theorem cons (hs : s.kind.isKept = true) (hfirst : s.kind ≠ .rparen) (h : Closed symbols) :
    Standalone (s :: symbols) :=
  ⟨.cons hs h, s, symbols, rfl, hfirst⟩

theorem append (h : Standalone symbols) (hmore : Closed more) : Standalone (symbols ++ more) := by
  obtain ⟨s, rest, rfl, hfirst⟩ := h.first
  exact ⟨h.closed.append hmore, s, rest ++ more, rfl, hfirst⟩

theorem exists_closing_eq_cons {item : List Symbol} {items : List (List Symbol)}
    (h : ∀ other ∈ item :: items, Standalone other) :
    ∃ s more, closing (item :: items) = s :: more ∧ s.kind ≠ .rparen := by
  obtain ⟨s, more, rfl, hfirst⟩ := (h item List.mem_cons_self).first
  cases items with
  | nil => exact ⟨s, _, rfl, hfirst⟩
  | cons next items => exact ⟨s, _, rfl, hfirst⟩

/-- Items with commas between them. -/
theorem closed_closing : ∀ {items : List (List Symbol)}, (∀ item ∈ items, Standalone item) →
    Closed (closing items)
  | [], _ => .cons rfl .nil
  | [item], h => (h item List.mem_cons_self).closed.append (.cons rfl .nil)
  | item :: next :: rest, h => by
    obtain ⟨hitem, hrest⟩ := List.forall_mem_cons.mp h
    obtain ⟨s, more, hmore, hfirst⟩ := exists_closing_eq_cons hrest
    have hclosing := closed_closing hrest
    -- What comes behind the comma is an item, and no item starts with a closing parenthesis.
    rw [closing]
    refine hitem.closed.append ?_
    rw [hmore] at hclosing ⊢
    exact .comma hfirst hclosing

end Standalone

theorem LiteralKind.isKept_symbol (kind : LiteralKind) (value : Datum) :
    (kind.symbol value).kind.isKept = Bool.true ∧ (kind.symbol value).kind ≠ .rparen := by
  cases kind <;> exact ⟨rfl, by simp [LiteralKind.symbol, Symbol.number, Symbol.mark]⟩

theorem BinaryOp.isKept_tokenKind (op : BinaryOp) : op.tokenKind.isKept = true := by
  cases op <;> rfl

theorem BinaryOp.isSome_spelling (op : BinaryOp) : op.tokenKind.spelling?.isSome = true := by
  cases op <;> rfl

theorem UnaryOp.isKept_tokenKind (op : UnaryOp) :
    op.tokenKind.isKept = true ∧ op.tokenKind ≠ .rparen := by
  cases op <;> decide

namespace Expr

theorem closed_terminator (e : Expr) : Closed e.terminator := by
  unfold terminator
  split
  · exact .semicolon
  · exact .nil

theorem closed_parameters (params : List String) :
    Closed (closing (params.map fun param => [.identifier param])) :=
  Standalone.closed_closing
    (List.forall_mem_map.mpr fun _ _ => .cons rfl (by simp [Symbol.identifier]) .nil)

mutual

/-- The symbols of a node stand for themselves. -/
theorem standalone_symbols : ∀ e : Expr, Standalone e.symbols
  | block body _ => by
    rw [symbols]
    exact .cons rfl (by decide) ((closed_statementSymbols body).append (.cons rfl .nil))
  | binary left op right _ => by
    rw [symbols]
    exact (standalone_symbols left).append
      (.cons op.isKept_tokenKind (standalone_symbols right).closed)
  | unary op operand _ => by
    rw [symbols]
    exact .cons op.isKept_tokenKind.1 op.isKept_tokenKind.2 (standalone_symbols operand).closed
  | declare name value _ => by
    rw [symbols]
    exact Standalone.append ⟨(Closed.declare name).append (standalone_symbols value).closed,
      _, _, rfl, by decide⟩ .semicolon
  | get name _ => by
    rw [symbols]
    exact .cons rfl (by simp [Symbol.identifier]) .nil
  | assign name value _ => by
    rw [symbols]
    exact .cons rfl (by simp [Symbol.identifier]) (.cons rfl (standalone_symbols value).closed)
  | print value _ => by
    rw [symbols]
    exact .cons rfl (by decide) ((standalone_symbols value).closed.append .semicolon)
  | ifElse condition thenBranch none _ => by
    rw [symbols]
    exact .cons rfl (by decide) ((standalone_symbols condition).closed.append
      ((standalone_symbols thenBranch).closed.append thenBranch.closed_terminator))
  | ifElse condition thenBranch (some elseBranch) _ => by
    rw [symbols]
    exact Standalone.append (.cons rfl (by decide) ((standalone_symbols condition).closed.append
      ((standalone_symbols thenBranch).closed.append thenBranch.closed_terminator)))
      (.cons rfl ((standalone_symbols elseBranch).closed.append elseBranch.closed_terminator))
  | function name params body _ => by
    rw [symbols]
    -- the heading, the parameters and the body follow one another between marks
    have hheading : Standalone [.mark .funKw, .identifier name, .mark .lparen] :=
      .cons rfl (by decide) (.cons rfl (.cons rfl .nil))
    exact ((hheading.append (closed_parameters params)).append
      (.cons rfl (closed_statementSymbols body))).append (.cons rfl .nil)
  | call callee args _ => by
    rw [symbols]
    exact (standalone_symbols callee).append
      (.cons rfl (Standalone.closed_closing (standalone_itemSymbols args)))
  | literal kind value _ => by
    rw [symbols]
    exact .cons (kind.isKept_symbol value).1 (kind.isKept_symbol value).2 .nil

theorem closed_statementSymbols : ∀ list : List Expr, Closed (statementSymbols list)
  | [] => .nil
  | e :: rest => by
    rw [statementSymbols]
    exact ((standalone_symbols e).closed.append e.closed_terminator).append
      (closed_statementSymbols rest)

theorem standalone_itemSymbols : ∀ list : List Expr, ∀ item ∈ itemSymbols list, Standalone item
  | [] => by simp [itemSymbols]
  | e :: rest => by
    rw [itemSymbols]
    exact List.forall_mem_cons.mpr ⟨standalone_symbols e, standalone_itemSymbols rest⟩

end

end Expr

/-! ### Parsing keeps the tokens -/

/-- The symbols of a phrase. Those of operators are in the expression that they make. -/
def Phrase.symbols : Phrase → List Symbol
  | expression _ e | operand e | operators _ _ e => e.symbols
  | arguments args => closing (Expr.itemSymbols args)
  | parameters params => closing (params.map fun param => [.identifier param])
  | simple e => e.symbols ++ [.mark .semicolon]
  | statement e => e.symbols ++ e.terminator
  | block body => Expr.statementSymbols body ++ [.mark .rbrace]
  | program body => Expr.statementSymbols body

/-- The symbols that were read before a phrase and belong to it. -/
def Phrase.givenSymbols : Phrase → List Symbol
  | operators _ left _ => left.symbols
  | _ => []

/-- Tokens without separators that may be left out. -/
def normalTokens (tokens : List Token) : List Symbol :=
  normalize (tokens.map Token.said)

section

variable {t : Token} {rest : List Token} {kind : TokenKind}

theorem normalTokens_cons (h : t.kind.isKept = true) :
    normalTokens (t :: rest) = t.said :: normalTokens rest :=
  normalize_cons (by rwa [Token.kind_said])

theorem normalTokens_mark (hkind : t.kind = kind) (hspelled : kind.spelling?.isSome = true)
    (hkept : kind.isKept = true) : normalTokens (t :: rest) = .mark kind :: normalTokens rest := by
  rw [normalTokens_cons (hkind ▸ hkept), Token.said_mark hkind hspelled]

theorem normalTokens_identifier (hkind : t.kind = .identifier) :
    normalTokens (t :: rest) = .identifier t.lexeme :: normalTokens rest := by
  rw [normalTokens_cons (by rw [hkind]; rfl), Token.said_identifier hkind]

theorem normalTokens_semicolon (hkind : t.kind = .semicolon) :
    normalTokens (t :: rest) = normalTokens rest :=
  normalize_semicolon (by rwa [Token.kind_said])

theorem normalTokens_comma {closes : Bool} (hkind : t.kind = .comma)
    (hrest : startsClosing (rest.map Token.said) = closes) :
    normalTokens (t :: rest) = (if closes then [] else [.mark .comma]) ++ normalTokens rest := by
  unfold normalTokens
  rw [List.map_cons, normalize_comma (by rwa [Token.kind_said]), hrest, Token.said_mark hkind rfl]
  cases closes <;> rfl

theorem normalTokens_declare {name next : Token} (hkind : t.kind = .letKw)
    (hname : name.kind = .identifier) (hequal : next.kind = .equal) :
    normalTokens (t :: name :: next :: rest) =
      .mark .letKw :: .identifier name.lexeme :: .mark .equal :: normalTokens rest := by
  unfold normalTokens
  rw [List.map_cons, List.map_cons, List.map_cons, Token.said_mark hkind rfl,
    Token.said_identifier hname, Token.said_mark hequal rfl, normalize_declare]

theorem normalTokens_declareZero {name next : Token} (hkind : t.kind = .letKw)
    (hname : name.kind = .identifier) (hstop : next.kind = .semicolon) :
    normalTokens (t :: name :: next :: rest) =
      .mark .letKw :: .identifier name.lexeme :: .mark .equal :: .number (.int 0) ::
        normalTokens rest := by
  unfold normalTokens
  rw [List.map_cons, List.map_cons, List.map_cons, Token.said_mark hkind rfl,
    Token.said_identifier hname, Token.said_mark hstop rfl, normalize_declareZero]

end

section

variable {e : Expr} {rest : List Symbol}

theorem normalize_mark {kind : TokenKind} (h : kind.isKept = true) :
    normalize (.mark kind :: rest) = .mark kind :: normalize rest :=
  normalize_cons h

theorem normalize_identifier {name : String} :
    normalize (.identifier name :: rest) = .identifier name :: normalize rest :=
  normalize_cons rfl

theorem normalize_symbols_append :
    normalize (e.symbols ++ rest) = normalize e.symbols ++ normalize rest :=
  e.standalone_symbols.closed rest

theorem normalize_parameters_append {params : List String} :
    normalize (closing (params.map fun param => [.identifier param]) ++ rest) =
      normalize (closing (params.map fun param => [.identifier param])) ++ normalize rest :=
  Expr.closed_parameters params rest

/-- A semicolon behind a statement does not matter. -/
theorem normalize_terminator_append : normalize (e.terminator ++ rest) = normalize rest := by
  unfold Expr.terminator
  split
  · exact normalize_semicolon rfl
  · rfl

theorem normalize_statement : normalize (e.symbols ++ e.terminator) = normalize e.symbols := by
  rw [normalize_symbols_append, ← List.append_nil e.terminator, normalize_terminator_append,
    normalize_nil, List.append_nil]

theorem normalize_ended : normalize (e.symbols ++ [.mark .semicolon]) = normalize e.symbols := by
  rw [normalize_symbols_append, normalize_semicolon rfl, normalize_nil, List.append_nil]

/-- Only between items is a comma kept. -/
theorem normalize_closing_cons {item : List Symbol} {items : List (List Symbol)}
    (hitem : Closed item) (h : ∀ item ∈ items, Standalone item) :
    normalize (closing (item :: items)) =
      normalize item ++ ((if items.isEmpty then [] else [.mark .comma]) ++
        normalize (closing items)) := by
  cases items with
  | nil => exact hitem _
  | cons next items =>
    obtain ⟨s, more, hstarts, hfirst⟩ := Standalone.exists_closing_eq_cons h
    rw [closing, hitem, normalize_comma rfl, hstarts, if_neg (by simp [startsClosing, hfirst])]
    rfl

variable {name : String} {value condition thenBranch elseBranch : Expr} {params : List String}
  {body : List Expr} {line : Line}

theorem normalize_assign : normalize (Expr.assign name value line).symbols =
    .identifier name :: .mark .equal :: normalize value.symbols := by
  rw [Expr.symbols, List.cons_append, normalize_identifier, List.singleton_append,
    normalize_mark rfl]

theorem normalize_unary {op : UnaryOp} : normalize (Expr.unary op value line).symbols =
    .mark op.tokenKind :: normalize value.symbols := by
  rw [Expr.symbols, normalize_mark op.isKept_tokenKind.1]

theorem normalize_symbols_declare : normalize (Expr.declare name value line).symbols =
    .mark .letKw :: .identifier name :: .mark .equal :: normalize value.symbols := by
  rw [Expr.symbols, List.append_assoc, Closed.declare name, normalize_declare, normalize_ended]
  rfl

theorem normalize_print : normalize (Expr.print value line).symbols =
    .mark .printKw :: normalize value.symbols := by
  rw [Expr.symbols, List.cons_append, normalize_mark rfl, normalize_ended]

theorem normalize_block : normalize (Expr.block body line).symbols =
    .mark .lbrace :: normalize (Expr.statementSymbols body ++ [.mark .rbrace]) := by
  rw [Expr.symbols, List.cons_append, normalize_mark rfl]

theorem normalize_function : normalize (Expr.function name params body line).symbols =
    .mark .funKw :: .identifier name :: .mark .lparen ::
      (normalize (closing (params.map fun param => [.identifier param])) ++
        .mark .lbrace :: normalize (Expr.statementSymbols body ++ [.mark .rbrace])) := by
  rw [Expr.symbols, List.append_assoc, List.append_assoc, List.cons_append, normalize_mark rfl,
    List.cons_append, normalize_identifier, List.cons_append, normalize_mark rfl,
    List.nil_append, normalize_parameters_append, List.cons_append, normalize_mark rfl]

theorem normalize_ifThen : normalize (Expr.ifElse condition thenBranch none line).symbols =
    .mark .ifKw :: (normalize condition.symbols ++ normalize thenBranch.symbols) := by
  rw [Expr.symbols, List.cons_append, normalize_mark rfl, normalize_symbols_append,
    normalize_statement]

theorem normalize_ifElse :
    normalize (Expr.ifElse condition thenBranch (some elseBranch) line).symbols =
      .mark .ifKw :: (normalize condition.symbols ++ (normalize thenBranch.symbols ++
        .mark .elseKw :: normalize elseBranch.symbols)) := by
  rw [Expr.symbols, List.append_assoc, List.cons_append, normalize_mark rfl,
    normalize_symbols_append, List.append_assoc, normalize_symbols_append,
    normalize_terminator_append, normalize_mark rfl, normalize_statement]

end

/-- Only where there are no arguments does a closing parenthesis come first. -/
theorem Parses.startsClosing_arguments {args : List Expr} {ts rest : List Token}
    (h : Parses (.arguments args) ts rest) :
    startsClosing (ts.map Token.said) = (Expr.itemSymbols args).isEmpty := by
  cases h with
  | noArguments hkind => simp [startsClosing, hkind, Expr.itemSymbols]
  | argument hclose => simp [startsClosing, hclose, Expr.itemSymbols]
  | lastArgument hclose => simp [startsClosing, hclose, Expr.itemSymbols]

theorem Parses.startsClosing_parameters {params : List String} {ts rest : List Token}
    (h : Parses (.parameters params) ts rest) :
    startsClosing (ts.map Token.said) = params.isEmpty := by
  cases h with
  | noParameters hkind => simp [startsClosing, hkind]
  | parameter hkind => simp [startsClosing, hkind]
  | lastParameter hkind => simp [startsClosing, hkind]

/-- Each rule keeps the tokens that it reads, apart from separators that may be left out. -/
theorem Parses.normalize_eq {phrase : Phrase} {ts rest : List Token} (h : Parses phrase ts rest) :
    normalize phrase.symbols ++ normalTokens rest =
      normalize phrase.givenSymbols ++ normalTokens ts := by
  -- Operators read on from a left operand, so the induction carries the symbols of that operand along.
  induction h with
    simp only [Phrase.symbols, Phrase.givenSymbols, normalize_statement, normalize_ended,
      normalize_nil, List.nil_append] at *
  | expression _ _ ihoperand ihoperators => exact ihoperators.trans ihoperand
  | number hkind hvalue =>
    rw [normalTokens_cons (by rw [hkind]; rfl), Token.said_number hkind, hvalue]
    rfl
  | string hkind =>
    rw [normalTokens_cons (by rw [hkind]; rfl), Token.said_string hkind]
    rfl
  | true hkind | false hkind | noArguments hkind | noParameters hkind | blockEnd hkind =>
    rw [normalTokens_mark hkind rfl rfl]
    rfl
  | assign hkind hnext _ ih =>
    rw [normalTokens_identifier hkind, normalTokens_mark hnext rfl rfl, ← ih, normalize_assign]
    rfl
  | get hkind _ =>
    rw [normalTokens_identifier hkind]
    rfl
  | not hkind _ ih | negate hkind _ ih =>
    rw [normalTokens_mark hkind rfl rfl, ← ih, normalize_unary]
    rfl
  | @binary _ _ _ _ op _ _ _ _ _ hop _ _ ihright ihwhole =>
    -- The operator and its right operand join what stands to the left.
    have hkind := BinaryOp.ofToken?_eq_some_iff.mp hop
    rw [ihwhole, Expr.symbols, normalize_symbols_append, normalize_mark op.isKept_tokenKind,
      List.append_assoc, List.cons_append, ihright,
      normalTokens_mark hkind op.isSome_spelling op.isKept_tokenKind]
  | call _ hkind _ _ ihargs ihwhole =>
    rw [ihwhole, Expr.symbols, normalize_symbols_append, normalize_mark rfl, List.append_assoc,
      List.cons_append, ihargs, normalTokens_mark hkind rfl rfl]
  | @argument _ _ e args _ _ _ _ _ _ hcomma hargs ih ihrest =>
    -- The comma is kept if and only if another argument follows.
    rw [← ih, normalTokens_comma hcomma hargs.startsClosing_arguments, ← ihrest, Expr.itemSymbols,
      normalize_closing_cons e.standalone_symbols.closed (Expr.standalone_itemSymbols args)]
    simp only [List.append_assoc]
  | lastArgument _ _ _ hclose ih =>
    rw [← ih, normalTokens_mark hclose rfl rfl, Expr.itemSymbols, Expr.itemSymbols, closing,
      normalize_symbols_append, List.append_assoc]
    rfl
  | @parameter t _ params _ _ hkind hcomma hparams ih =>
    rw [normalTokens_identifier hkind, normalTokens_comma hcomma hparams.startsClosing_parameters,
      ← ih, List.map_cons, normalize_closing_cons (.cons rfl .nil)
      (List.forall_mem_map.mpr fun _ _ => .cons rfl (by simp [Symbol.identifier]) .nil),
      List.isEmpty_map]
    simp only [List.append_assoc]
    rfl
  | lastParameter hkind hclose =>
    rw [normalTokens_identifier hkind, normalTokens_mark hclose rfl rfl]
    rfl
  | ended _ hkind ih => rw [← ih, normalTokens_semicolon hkind]
  | unended _ _ ih | plain _ _ ih => exact ih
  | declare hkind hname hequal _ ih =>
    rw [normalTokens_declare hkind hname hequal, ← ih, normalize_symbols_declare]
    rfl
  | declareZero hkind hname hstop =>
    rw [normalTokens_declareZero hkind hname hstop, normalize_symbols_declare]
    rfl
  | function hkind hname hopen _ hbrace _ ihparams ihbody =>
    rw [normalTokens_mark hkind rfl rfl, normalTokens_identifier hname,
      normalTokens_mark hopen rfl rfl, ← ihparams, normalTokens_mark hbrace rfl rfl, ← ihbody,
      normalize_function]
    simp only [List.cons_append, List.append_assoc]
  | print hkind _ ih =>
    rw [normalTokens_mark hkind rfl rfl, ← ih, normalize_print]
    rfl
  | ifThen hkind _ _ _ ihcondition ihthen =>
    rw [normalTokens_mark hkind rfl rfl, ← ihcondition, ← ihthen, normalize_ifThen]
    simp only [List.cons_append, List.append_assoc]
  | ifElse hkind _ _ helse _ ihcondition ihthen ihelse =>
    rw [normalTokens_mark hkind rfl rfl, ← ihcondition, ← ihthen, normalTokens_mark helse rfl rfl,
      ← ihelse, normalize_ifElse]
    simp only [List.cons_append, List.append_assoc]
  | braces hkind _ ih =>
    rw [normalTokens_mark hkind rfl rfl, ← ih, normalize_block]
    rfl
  | blockNext _ _ _ _ ih ihrest =>
    rw [← ih, ← ihrest, Expr.statementSymbols, List.append_assoc, List.append_assoc,
      normalize_symbols_append, normalize_terminator_append, List.append_assoc]
  | programEnd _ => rfl
  | programNext _ _ _ ih ihrest =>
    rw [← ih, ← ihrest, Expr.statementSymbols, List.append_assoc,
      normalize_symbols_append, normalize_terminator_append, List.append_assoc]

/-- Each rule takes tokens from the front only. -/
theorem Parses.suffix {phrase : Phrase} {ts rest : List Token} (h : Parses phrase ts rest) :
    rest <:+ ts :=
  h.consumes.suffix

/-- A program is read up to an end mark. -/
theorem Parses.exists_end {body : List Expr} {ts rest : List Token}
    (h : Parses (.program body) ts rest) : ∃ t tail, rest = t :: tail ∧ t.kind = .eof := by
  generalize hphrase : Phrase.program body = phrase at h
  induction h generalizing body with
  | programEnd hkind => exact ⟨_, _, rfl, hkind⟩
  | programNext _ _ _ _ ih => exact ih rfl
  | _ => cases hphrase

/-- There is one end mark, and it is the last token. -/
def EndsOnce (tokens : List Token) : Prop :=
  ∃ front last, tokens = front ++ [last] ∧ last.kind = .eof ∧ ∀ t ∈ front, t.kind ≠ .eof

/-- What is left of tokens with one end mark, from an end mark on. -/
theorem EndsOnce.tail_eq_nil {tokens tail : List Token} {t : Token} (h : EndsOnce tokens)
    (hsuffix : t :: tail <:+ tokens) (hkind : t.kind = .eof) : tail = [] := by
  obtain ⟨front, last, rfl, -, hfront⟩ := h
  obtain ⟨before, hbefore⟩ := hsuffix
  rcases List.eq_nil_or_concat tail with rfl | ⟨init, other, rfl⟩
  · rfl
  · -- An end mark with a token behind it would be in front of the last one.
    have heq : (before ++ t :: init) ++ [other] = front ++ [last] := by
      rw [← hbefore]
      simp
    have hmem : t ∈ front := by
      rw [← (List.append_inj_left' heq rfl)]
      simp
    exact absurd hkind (hfront t hmem)

/-- The tokens of a program are those that it is written with, apart from separators that may be
left out. -/
theorem normalize_unparse {tokens : List Token} {p : Parsed Program (tokens.length + 1)}
    (hends : EndsOnce tokens) (h : parseProgram tokens = .ok p) :
    normalize (tokens.map Token.said) = normalize (unparse p.value) ∧
      ((∀ t ∈ tokens, t.IsSpelled) →
        normalize (tokens.map Token.symbol) = normalize (unparse p.value)) := by
  have hparses := parses_of_parseProgram h
  obtain ⟨t, tail, hrest, hkind⟩ := hparses.exists_end
  have htail : tail = [] := hends.tail_eq_nil (hrest ▸ hparses.suffix) hkind
  have hsaid : normalize (tokens.map Token.said) = normalize (unparse p.value) := by
    calc normalize (tokens.map Token.said)
        = normalize (Expr.statementSymbols p.value) ++ normalTokens p.rest := hparses.normalize_eq.symm
      _ = normalize (Expr.statementSymbols p.value) ++ [.mark .eof] := by
        rw [hrest, htail, normalTokens_mark hkind rfl rfl]
        rfl
      _ = normalize (unparse p.value) := (Expr.closed_statementSymbols p.value [.mark .eof]).symm
  refine ⟨hsaid, fun hspelled => ?_⟩
  rw [← hsaid, List.map_congr_left fun t ht => (hspelled t ht).said_eq]

/-- A variable without a value, a comma behind the last argument, and statements that end without a
semicolon. -/
def looseTokens : List Token :=
  [(.letKw, "let"), (.identifier, "x"), (.semicolon, ";"), (.printKw, "print"), (.identifier, "f"),
    (.lparen, "("), (.identifier, "x"), (.comma, ","), (.number, "1.50"), (.comma, ","),
    (.rparen, ")"), (.identifier, "x"), (.eof, "")].map fun (kind, lexeme) =>
      ⟨kind, lexeme, ⟨0, 0, 0⟩⟩

/-- The separators of the written program differ from those that were read. -/
theorem normalize_unparse_looseTokens :
    ∃ p, parseProgram looseTokens = .ok p ∧ looseTokens.map Token.symbol ≠ unparse p.value ∧
      normalize (looseTokens.map Token.symbol) = normalize (unparse p.value) := by
  have hok : (parseProgram looseTokens).toOption.any (fun p =>
      looseTokens.map Token.symbol ≠ unparse p.value) = true := by
    decide +kernel
  have hends : EndsOnce looseTokens :=
    ⟨looseTokens.dropLast, ⟨.eof, "", ⟨0, 0, 0⟩⟩, rfl, rfl, by decide⟩
  cases h : parseProgram looseTokens with
  | error failure =>
    rw [h] at hok
    cases hok
  | ok p =>
    rw [h] at hok
    exact ⟨p, rfl, of_decide_eq_true hok, (normalize_unparse hends h).2 (by decide)⟩

end StackScript
