import StackScript.Diagnostic
import StackScript.Text.Quoted

/-!
# Tokens

A token has a kind, the text it was read from, and its place in the source: the offsets of its first
character and of the one after its last, counted in characters, and the line on which it ends.

## Main definitions

* `TokenKind`: the kinds of tokens.
* `TokenKind.ofWord`: the kind of a word, a keyword or an identifier.
* `Span`, `Token`: a token and its place.
* `Token.describe`: a token with all its parts, for people.
-/

namespace StackScript

/-- The kinds of tokens. -/
inductive TokenKind where
  | lparen | rparen | lbracket | rbracket | lbrace | rbrace
  | comma | dot | semicolon
  | minus | plus | star | slash
  | bang | bangEqual | equal | equalEqual | less | lessEqual | greater | greaterEqual
  | string | number | trueKw | falseKw
  | letKw | printKw | ifKw | elseKw | funKw
  | identifier
  | eof
  deriving DecidableEq, Repr

namespace TokenKind

/-- All kinds, in the order of their declaration. -/
def all : List TokenKind :=
  [lparen, rparen, lbracket, rbracket, lbrace, rbrace, comma, dot, semicolon, minus, plus, star,
    slash, bang, bangEqual, equal, equalEqual, less, lessEqual, greater, greaterEqual, string,
    number, trueKw, falseKw, letKw, printKw, ifKw, elseKw, funKw, identifier, eof]

/-- The name of a kind in messages. -/
def name : TokenKind → String
  | lparen => "LPAREN"
  | rparen => "RPAREN"
  | lbracket => "LBRACKET"
  | rbracket => "RBRACKET"
  | lbrace => "LBRACE"
  | rbrace => "RBRACE"
  | comma => "COMMA"
  | dot => "DOT"
  | semicolon => "SEMICOLON"
  | minus => "MINUS"
  | plus => "PLUS"
  | star => "STAR"
  | slash => "SLASH"
  | bang => "BANG"
  | bangEqual => "BANG_EQUAL"
  | equal => "EQUAL"
  | equalEqual => "EQUAL_EQUAL"
  | less => "LESS"
  | lessEqual => "LESS_EQUAL"
  | greater => "GREATER"
  | greaterEqual => "GREATER_EQUAL"
  | string => "STRING"
  | number => "NUMBER"
  | trueKw => "TRUE"
  | falseKw => "FALSE"
  | letKw => "LET"
  | printKw => "PRINT"
  | ifKw => "IF"
  | elseKw => "ELSE"
  | funKw => "FUN"
  | identifier => "IDENTIFIER"
  | eof => "EOF"

/-- The kind with a given name. -/
def ofName? (name : String) : Option TokenKind :=
  all.find? fun kind => kind.name == name

/-- The reserved words and their kinds. -/
def keywords : List (String × TokenKind) :=
  [("fun", funKw), ("let", letKw), ("print", printKw), ("if", ifKw), ("else", elseKw),
    ("true", trueKw), ("false", falseKw)]

/-- The kind of a word: its own if the word is reserved, otherwise an identifier. -/
def ofWord (word : String) : TokenKind :=
  (keywords.lookup word).getD identifier

/-- Whether tokens of the kind are reserved words. -/
def isKeyword (kind : TokenKind) : Bool :=
  keywords.any fun entry => entry.2 == kind

/-- Whether tokens of the kind denote a value by themselves. -/
def isLiteral : TokenKind → Bool
  | number | string | trueKw | falseKw => true
  | _ => false

end TokenKind

/-- A place in a source: the offsets of the first character and of the one after the last, and a
line. -/
structure Span where
  start : Nat
  stop : Nat
  line : Line
  deriving DecidableEq, Repr

/-- A token of a source. -/
structure Token where
  kind : TokenKind
  lexeme : String
  span : Span
  deriving DecidableEq, Repr

namespace Token

/-- The line on which a token ends. -/
def line (t : Token) : Line := t.span.line

/-- A token with all its parts, for people. -/
def describe (t : Token) : String :=
  s!"Token({t.kind.name}, {quoted t.lexeme}, {t.span.start}..{t.span.stop}, line={t.span.line})"

end Token

end StackScript
