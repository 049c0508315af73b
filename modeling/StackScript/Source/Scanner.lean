import StackScript.Source.Token
import StackScript.Text.Numeric

/-!
# Scanning source text

`recognize` tells which token, string or comment starts at a character, and what text follows it,
without regard to positions; it takes the longest match. A `Scanner` adds the positions: it skips
blanks, recognises, and moves past the match. `Scanner.run` repeats this to the end of the source or
to the first failure.

An operator that could be continued (`/`, `!`, `=`, `<`, `>`) cannot be the last character of a
source.

## Main definitions

* `recognize`: what starts at a character.
* `Scanner`, `Scanner.next`: one step of scanning, with positions.
* `Scanner.run`, `Scan`: all steps over a source.
* `tokenize`: the tokens of a source.

## Main results

* `Recognized.rest_length_le`: what follows a match is no longer than what followed its first
  character.
* `Scanner.length_next_lt`: a step that does not end the scan shortens the rest.
-/

namespace StackScript

/-- Why a source cannot be scanned. -/
inductive LexError where
  /-- A character that starts no token. -/
  | unexpectedCharacter (c : Char) (line : Line)
  /-- The source ends inside a string. -/
  | unterminatedString (line : Line)
  /-- The source ends after an operator that could be continued. -/
  | unexpectedEnd (line : Line)
  deriving DecidableEq, Repr

/-- What a scanning failure tells its reader. -/
def LexError.diagnostic : LexError → Diagnostic
  | .unexpectedCharacter c line =>
    { message := s!"Unexpected character: {quoted c.toString}", line := some line }
  | .unterminatedString line => { message := "Unterminated string", line := some line }
  | .unexpectedEnd line => { message := "Unexpected end of input", line := some line }

/-- The characters that separate tokens. -/
def isSeparator (c : Char) : Bool :=
  c == ' ' || c == '\t' || c == '\n' || c == '\r'

/-- The tokens that are one character and nothing else. -/
def singleCharacter? : Char → Option TokenKind
  | '(' => some .lparen
  | ')' => some .rparen
  | '[' => some .lbracket
  | ']' => some .rbracket
  | '\x7b' => some .lbrace
  | '\x7d' => some .rbrace
  | ',' => some .comma
  | '.' => some .dot
  | '+' => some .plus
  | '-' => some .minus
  | '*' => some .star
  | ';' => some .semicolon
  | _ => none

/-- The tokens that an equals sign may continue: the kind without it, and the kind with it. -/
def continuable? : Char → Option (TokenKind × TokenKind)
  | '!' => some (.bang, .bangEqual)
  | '=' => some (.equal, .equalEqual)
  | '<' => some (.less, .lessEqual)
  | '>' => some (.greater, .greaterEqual)
  | _ => none

/-- What starts at a character of a source. -/
inductive Recognized where
  /-- A token written as `text`, followed by `rest`. -/
  | token (kind : TokenKind) (text rest : List Char)
  /-- A string of the characters `text`, whose closing quote is followed by `rest`. -/
  | string (text rest : List Char)
  /-- A comment written as `text`, followed by `rest`. -/
  | comment (text rest : List Char)
  /-- The character starts no token. -/
  | unexpectedCharacter
  /-- A string that the source does not close. -/
  | unterminatedString
  /-- The source ends where the character could be continued. -/
  | unexpectedEnd
  deriving DecidableEq

/-- The word that starts with `c`. -/
def recognizeWord (c : Char) (rest : List Char) : Recognized :=
  let text := c :: rest.takeWhile isWordCharacter
  .token (.ofWord (String.ofList text)) text (rest.dropWhile isWordCharacter)

/-- The number that starts with the digit `c`: digits, and a fraction if a digit follows the point.
-/
def recognizeNumber (c : Char) (rest : List Char) : Recognized :=
  let whole := c :: rest.takeWhile Char.isDigit
  match rest.dropWhile Char.isDigit with
  | '.' :: d :: more =>
    if d.isDigit then
      .token .number (whole ++ '.' :: d :: more.takeWhile Char.isDigit)
        (more.dropWhile Char.isDigit)
    else .token .number whole ('.' :: d :: more)
  | other => .token .number whole other

/-- The string after an opening quote. -/
def recognizeString (rest : List Char) : Recognized :=
  match rest.dropWhile (· != '"') with
  | [] => .unterminatedString
  | _ :: other => .string (rest.takeWhile (· != '"')) other

/-- What follows a slash: a comment up to the end of the line, or the operator. -/
def recognizeSlash (rest : List Char) : Recognized :=
  match rest with
  | [] => .unexpectedEnd
  | '/' :: _ => .comment ('/' :: rest.takeWhile (· != '\n')) (rest.dropWhile (· != '\n'))
  | _ => .token .slash ['/'] rest

/-- An operator that an equals sign may continue. -/
def recognizeContinuable (c : Char) (single double : TokenKind) (rest : List Char) : Recognized :=
  match rest with
  | [] => .unexpectedEnd
  | '=' :: other => .token double [c, '='] other
  | _ => .token single [c] rest

/-- What starts at the character `c`, which `rest` follows; the longest match. -/
def recognize (c : Char) (rest : List Char) : Recognized :=
  if isLetter c then recognizeWord c rest
  else if c.isDigit then recognizeNumber c rest
  else match singleCharacter? c with
    | some kind => .token kind [c] rest
    | none =>
      if c = '/' then recognizeSlash rest
      else match continuable? c with
        | some (single, double) => recognizeContinuable c single double rest
        | none => if c = '"' then recognizeString rest else .unexpectedCharacter

/-- What follows a match; nothing after a failure. -/
def Recognized.rest : Recognized → List Char
  | .token _ _ rest | .string _ rest | .comment _ rest => rest
  | _ => []

theorem length_dropWhile_le {α : Type} (p : α → Bool) (l : List α) :
    (l.dropWhile p).length ≤ l.length :=
  (List.dropWhile_suffix p).length_le

/-- What follows a match is no longer than what followed its first character. -/
theorem Recognized.rest_length_le (c : Char) (rest : List Char) :
    (recognize c rest).rest.length ≤ rest.length := by
  have hdigits := length_dropWhile_le Char.isDigit rest
  have hquote := length_dropWhile_le (· != '"') rest
  unfold recognize
  split
  · exact length_dropWhile_le _ _
  split
  · unfold recognizeNumber
    split
    · rename_i d more heq
      rw [heq] at hdigits
      have hmore := length_dropWhile_le Char.isDigit more
      simp only [List.length_cons] at hdigits
      split <;> simp only [Recognized.rest, List.length_cons] <;> omega
    · simpa [Recognized.rest] using hdigits
  split
  · simp [Recognized.rest]
  split
  · unfold recognizeSlash
    split <;> simp only [Recognized.rest, List.length_nil, Nat.le_refl]
    exact length_dropWhile_le _ _
  split
  · unfold recognizeContinuable
    split <;> simp [Recognized.rest]
  split
  · unfold recognizeString
    split
    · simp [Recognized.rest]
    · rename_i heq
      rw [heq] at hquote
      simp only [List.length_cons] at hquote
      simp only [Recognized.rest]
      omega
  · simp [Recognized.rest]

/-- A place in a source: what is left of it, the offset of the token being read, the offset and the
line of the next character. -/
structure Scanner where
  rest : List Char
  start : Nat := 0
  position : Nat := 0
  line : Nat := 1
  deriving DecidableEq, Repr

/-- What one step of scanning finds. -/
inductive ScanStep where
  | token (t : Token)
  | comment
  /-- The end of the source, with its token. -/
  | finish (t : Token)
  | failure (e : LexError)
  deriving DecidableEq, Repr

namespace Scanner

/-- A scanner at the beginning of a source. -/
def ofSource (source : String) : Scanner where
  rest := source.toList

/-- The scanner after the characters `text`, which `rest` follows. -/
def moveTo (s : Scanner) (text rest : List Char) : Scanner :=
  { s with rest := rest, position := s.position + text.length, line := s.line + text.count '\n' }

/-- The scanner at the next character that is no separator. -/
def skipSeparators (s : Scanner) : Scanner :=
  s.moveTo (s.rest.takeWhile isSeparator) (s.rest.dropWhile isSeparator)

/-- Reads at the character `c`, which `rest` follows. -/
def read (s : Scanner) (c : Char) (rest : List Char) : ScanStep × Scanner :=
  let s := { s with start := s.position }
  match recognize c rest with
  | .token kind text after =>
    let s' := s.moveTo text after
    (.token ⟨kind, String.ofList text, ⟨s.position, s'.position, s'.line⟩⟩, s')
  | .string text after =>
    let s' := s.moveTo ('"' :: text ++ ['"']) after
    -- the token is what stands between the quotes, at the line of the closing one
    (.token ⟨.string, String.ofList text, ⟨s.position + 1, s'.position - 1, s'.line⟩⟩, s')
  | .comment text after => (.comment, s.moveTo text after)
  | .unexpectedCharacter => (.failure (.unexpectedCharacter c s.line), s.moveTo [c] rest)
  | .unterminatedString =>
    let s' := s.moveTo (c :: rest) []
    (.failure (.unterminatedString s'.line), s')
  | .unexpectedEnd => (.failure (.unexpectedEnd s.line), s.moveTo [c] rest)

/-- One step of scanning. -/
def next (s : Scanner) : ScanStep × Scanner :=
  let s := s.skipSeparators
  match s.rest with
  | [] => (.finish ⟨.eof, "", ⟨s.position, s.position, s.line⟩⟩, s)
  | c :: rest => s.read c rest

/-- A step that finds a token or a comment shortens the rest. -/
theorem length_read_lt {s s' : Scanner} {c : Char} {rest : List Char} {step : ScanStep}
    (h : s.read c rest = (step, s')) (hstep : ∀ e, step ≠ .failure e) :
    s'.rest.length ≤ rest.length := by
  have hrest := Recognized.rest_length_le c rest
  unfold read at h
  split at h <;> rename_i heq <;> simp only [Prod.mk.injEq] at h <;> obtain ⟨rfl, rfl⟩ := h
  · rw [heq] at hrest
    exact hrest
  · rw [heq] at hrest
    exact hrest
  · rw [heq] at hrest
    exact hrest
  · exact absurd rfl (hstep _)
  · exact absurd rfl (hstep _)
  · exact absurd rfl (hstep _)

/-- A step that does not end the scan shortens the rest. -/
theorem length_next_lt {s s' : Scanner} {step : ScanStep} (h : s.next = (step, s'))
    (hfinish : ∀ t, step ≠ .finish t) (hfailure : ∀ e, step ≠ .failure e) :
    s'.rest.length < s.rest.length := by
  have hskip := length_dropWhile_le isSeparator s.rest
  unfold next at h
  simp only [skipSeparators] at h
  split at h
  · simp only [Prod.mk.injEq] at h
    exact absurd h.1.symm (hfinish _)
  · rename_i c rest heq
    simp only [moveTo] at heq
    have hread := length_read_lt h hfailure
    rw [heq, List.length_cons] at hskip
    omega

end Scanner

/-- All steps over a source: what was found in order (nothing for a comment), the failure that ended
the scan if there was one, and where the scanner stopped. -/
structure Scan where
  found : List (Option Token)
  failure : Option LexError
  scanner : Scanner

namespace Scan

/-- The scan with one more finding in front. -/
def cons (first : Option Token) (scan : Scan) : Scan :=
  { scan with found := first :: scan.found }

/-- The tokens of a scan, or its failure. -/
def tokens (scan : Scan) : Except LexError (List Token) :=
  match scan.failure with
  | some e => .error e
  | none => .ok (scan.found.filterMap id)

end Scan

/-- Scans to the end of the source or to the first failure. -/
def Scanner.run (s : Scanner) : Scan :=
  match h : s.next with
  | (.token t, s') =>
    have := length_next_lt h (by simp) (by simp)
    (run s').cons (some t)
  | (.comment, s') =>
    have := length_next_lt h (by simp) (by simp)
    (run s').cons none
  | (.finish t, s') => ⟨[some t], none, s'⟩
  | (.failure e, s') => ⟨[], some e, s'⟩
termination_by s.rest.length

/-- The tokens of a source, the last of which marks its end. -/
def tokenize (source : String) : Except LexError (List Token) :=
  (Scanner.ofSource source).run.tokens

end StackScript
