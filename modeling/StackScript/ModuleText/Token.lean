import StackScript.ModuleText.ReadError
import StackScript.Source.Scanner
import StackScript.Text.Utf8

/-!
# Tokens of module text

Module text is made of parentheses, strings and atoms. Blanks and comments separate them: a comment
runs from two semicolons to the end of the line, or from `(;` to `;)`. A string stands for bytes;
inside it a backslash starts an escape, and any other character stands for its UTF-8 bytes. A lone
surrogate has none, so it may stand in an atom or a comment but not in a string.

## Main definitions

* `TextToken`: the tokens.
* `escapeBytes`: bytes as they are written between the quotes of a string.
* `readString`: the bytes of a string, and the text after it.
* `nextPiece`: the token or the separator at a code point.
* `tokenizeText`: the tokens of a text.

## Main results

* `length_readString_le`, `length_nextPiece_le`: what is left over gets shorter.
-/

namespace StackScript

/-- A token of module text. -/
inductive TextToken where
  | lparen
  | rparen
  | atom (name : Text)
  | string (data : Bytes)
  deriving DecidableEq, Repr

/-! ### Strings -/

/-- One byte of a string: a printable ASCII character other than the quote and the backslash stands
for itself, any other byte is written in hexadecimal. -/
def escapeByte (b : UInt8) : List Char :=
  let c := Char.ofNat b.toNat
  if c = '"' || c = '\\' || b < 0x20 || 0x7f ≤ b then '\\' :: hexDigits 2 b.toNat else [c]

/-- Bytes as they are written between the quotes of a string. -/
def escapeBytes (data : Bytes) : List Char :=
  data.flatMap escapeByte

/-- The byte of an escape that is one letter. -/
def namedEscape? : CodePoint → Option UInt8
  | .char 'n' => some 10
  | .char 't' => some 9
  | .char 'r' => some 13
  | .char '"' => some 34
  | .char '\'' => some 39
  | .char '\\' => some 92
  | _ => none

/-- The value of a hexadecimal digit. -/
def hexDigit? (c : Char) : Option Nat :=
  if c.isDigit then some (c.toNat - '0'.toNat)
  else if 'a' ≤ c && c ≤ 'f' then some (c.toNat - 'a'.toNat + 10)
  else if 'A' ≤ c && c ≤ 'F' then some (c.toNat - 'A'.toNat + 10)
  else none

/-- The byte of an escape that is two hexadecimal digits. -/
def hexEscape? (high low : CodePoint) : Option UInt8 := do
  return UInt8.ofNat (16 * (← high.char?.bind hexDigit?) + (← low.char?.bind hexDigit?))

/-- Reads a string whose opening quote has been read: its bytes, and the text after it. -/
def readString : List CodePoint → Except ReadError (Bytes × List CodePoint)
  | [] => .error .unterminatedString
  | .char '"' :: rest => .ok ([], rest)
  | .char '\\' :: [] => .error (.invalidEscape none)
  | .char '\\' :: c :: rest =>
    match namedEscape? c with
    | some b => do
      let (data, after) ← readString rest
      return (b :: data, after)
    | none =>
      match rest with
      | [] => .error (.invalidEscape (some c))
      | d :: more =>
        match hexEscape? c d with
        | some b => do
          let (data, after) ← readString more
          return (b :: data, after)
        | none => .error (.invalidEscape (some c))
  | c :: rest =>
    match c.utf8? with
    | some bytes => do
      let (data, after) ← readString rest
      return (bytes ++ data, after)
    | none => .error .loneSurrogate

theorem length_readString_le {text after : List CodePoint} {data : Bytes}
    (h : readString text = .ok (data, after)) : after.length ≤ text.length := by
  fun_induction readString text generalizing data after with
  | case1 => simp at h
  | case2 rest =>
    simp only [Except.ok.injEq, Prod.mk.injEq] at h
    simp [← h.2]
  | case3 => simp at h
  | case4 c rest b hb ih =>
    cases hr : readString rest with
    | error e => simp [hr, bind, Except.bind] at h
    | ok p =>
      obtain ⟨data, after⟩ := p
      simp only [hr, bind, Except.bind, pure, Except.pure, Except.ok.injEq, Prod.mk.injEq] at h
      have := ih hr
      simp only [List.length_cons, ← h.2]
      omega
  | case5 => simp at h
  | case6 c hc d more b hb ih =>
    cases hr : readString more with
    | error e => simp [hr, bind, Except.bind] at h
    | ok p =>
      obtain ⟨data, after⟩ := p
      simp only [hr, bind, Except.bind, pure, Except.pure, Except.ok.injEq, Prod.mk.injEq] at h
      have := ih hr
      simp only [List.length_cons, ← h.2]
      omega
  | case7 => simp at h
  | case8 c rest _ _ _ bytes hbytes ih =>
    cases hr : readString rest with
    | error e => simp [hr, bind, Except.bind] at h
    | ok p =>
      obtain ⟨data, after⟩ := p
      simp only [hr, bind, Except.bind, pure, Except.pure, Except.ok.injEq, Prod.mk.injEq] at h
      have := ih hr
      simp only [List.length_cons, ← h.2]
      omega
  | case9 => simp at h

/-! ### Text -/

/-- The characters of an atom. -/
def isAtomCharacter (c : Char) : Bool :=
  !(isSeparator c || c == '(' || c == ')' || c == '"' || c == ';')

/-- The code points of an atom. -/
def isAtomPoint : CodePoint → Bool
  | .char c => isAtomCharacter c
  | .surrogate _ => true

/-- The text after the end of a comment between parentheses. -/
def afterComment? : List CodePoint → Option (List CodePoint)
  | [] => none
  | .char ';' :: .char ')' :: rest => some rest
  | _ :: rest => afterComment? rest

theorem length_afterComment?_le {text after : List CodePoint}
    (h : afterComment? text = some after) : after.length ≤ text.length := by
  fun_induction afterComment? text with
  | case1 => simp at h
  | case2 rest =>
    simp only [Option.some.injEq] at h
    simp only [List.length_cons, ← h]
    omega
  | case3 c rest _ ih =>
    have := ih h
    simp only [List.length_cons]
    omega

/-- What starts at the code point `c`, which `rest` follows: a token or a separator, and the text
after it. The length of the whole text only serves to report where an error is. -/
def nextPiece (total : Nat) (c : CodePoint) (rest : List CodePoint) :
    Except ReadError (Option TextToken × List CodePoint) :=
  if c.satisfies isSeparator then .ok (none, rest)
  else if c = .char ';' then
    match rest with
    | .char ';' :: _ => .ok (none, rest.dropWhile (· != .char '\n'))
    | _ => .error (.unexpectedSemicolon (total - (rest.length + 1)))
  else if c = .char '(' then
    match rest with
    | .char ';' :: more =>
      match afterComment? more with
      | some after => .ok (none, after)
      | none => .error .unterminatedComment
    | _ => .ok (some .lparen, rest)
  else if c = .char ')' then .ok (some .rparen, rest)
  else if c = .char '"' then do
    let (data, after) ← readString rest
    return (some (.string data), after)
  else
    .ok (some (.atom (.ofPoints (c :: rest.takeWhile isAtomPoint))), rest.dropWhile isAtomPoint)

theorem length_nextPiece_le {total : Nat} {c : CodePoint} {rest after : List CodePoint}
    {found : Option TextToken} (h : nextPiece total c rest = .ok (found, after)) :
    after.length ≤ rest.length := by
  unfold nextPiece at h
  split at h
  · simp only [Except.ok.injEq, Prod.mk.injEq] at h
    simp [← h.2]
  split at h
  · split at h
    · simp only [Except.ok.injEq, Prod.mk.injEq] at h
      rw [← h.2]
      exact length_dropWhile_le _ _
    · simp at h
  split at h
  · split at h
    · split at h
      · rename_i heq
        simp only [Except.ok.injEq, Prod.mk.injEq] at h
        have := length_afterComment?_le heq
        simp only [List.length_cons, ← h.2]
        omega
      · simp at h
    · simp only [Except.ok.injEq, Prod.mk.injEq] at h
      simp [← h.2]
  split at h
  · simp only [Except.ok.injEq, Prod.mk.injEq] at h
    simp [← h.2]
  split at h
  · cases hr : readString rest with
    | error e => simp [hr, bind, Except.bind] at h
    | ok p =>
      obtain ⟨data, after⟩ := p
      simp only [hr, bind, Except.bind, pure, Except.pure, Except.ok.injEq, Prod.mk.injEq] at h
      rw [← h.2]
      exact length_readString_le hr
  · simp only [Except.ok.injEq, Prod.mk.injEq] at h
    rw [← h.2]
    exact length_dropWhile_le _ _

/-- The tokens of a text that is the end of one of `total` code points. -/
def textTokens (total : Nat) (text : List CodePoint) : Except ReadError (List TextToken) :=
  match text with
  | [] => .ok []
  | c :: rest =>
    match h : nextPiece total c rest with
    | .error e => .error e
    | .ok (none, after) =>
      have := length_nextPiece_le h
      textTokens total after
    | .ok (some t, after) =>
      have := length_nextPiece_le h
      (textTokens total after).map (t :: ·)
termination_by text.length
decreasing_by all_goals simp only [List.length_cons]; omega

/-- The tokens of a text. -/
def tokenizeText (text : Text) : Except ReadError (List TextToken) :=
  textTokens text.length text.points

end StackScript
