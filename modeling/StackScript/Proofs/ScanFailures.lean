import StackScript.Proofs.ScanCrossing

/-!
# Where scanning breaks off

A source cannot be scanned exactly if it is made of spacing and tokens up to a place where nothing
can be read: a character that starts nothing, the quote of a string that is not closed, or an
operator that could be continued and is the last character. There is only one such place.

Of these failures a separator behind the source repairs the last, and no other.

## Main definitions

* `Covers`: a text is made of spacing and tokens.
* `LexError.ArisesAt`: nothing can be read from some characters.
* `BreaksOff`: a source is covered up to a place where nothing can be read.

## Main results

* `Covers.crosses`: what is covered is crossed.
* `Scanner.step_of_error`: a scan that fails does so at once or behind an item.
* `Scanner.exists_breaksOff`, `BreaksOff.unique`: a scan that fails breaks off at one place.
* `tokenize_eq_error_iff`: scanning fails exactly where a source breaks off.
-/

namespace StackScript

/-! ### What starts nothing -/

/-- The characters of operators and delimiters. -/
def punctuation : List Char :=
  ['(', ')', '[', ']', '\x7b', '\x7d', ',', '.', '+', '-', '*', ';', '/', '!', '=', '<', '>']

/-- A character starts neither spacing nor a token. -/
structure StartsNothing (c : Char) : Prop where
  letter : isLetter c = false
  digit : c.isDigit = false
  separator : isSeparator c = false
  quote : c ≠ '"'
  mark : c ∉ punctuation

/-- The operators that could be continued. -/
def openOperator? : Char → Option TokenKind
  | '/' => some .slash
  | '!' => some .bang
  | '=' => some .equal
  | '<' => some .less
  | '>' => some .greater
  | _ => none

/-- Nothing can be read from some characters that start on a line, and which error says so. -/
inductive LexError.ArisesAt (line : Nat) : List Char → LexError → Prop
  | unexpectedCharacter {c : Char} {rest : List Char} : StartsNothing c →
      ArisesAt line (c :: rest) (.unexpectedCharacter c line)
  | unterminatedString {rest : List Char} : '"' ∉ rest →
      ArisesAt line ('"' :: rest) (.unterminatedString (line + rest.count '\n' : Nat))
  | unexpectedEnd {c : Char} {kind : TokenKind} : openOperator? c = some kind →
      ArisesAt line [c] (.unexpectedEnd line)

theorem singleCharacter_eq_none_iff {c : Char} : singleCharacter? c = none ↔
    c ∉ ['(', ')', '[', ']', '\x7b', '\x7d', ',', '.', '+', '-', '*', ';'] := by
  unfold singleCharacter?
  split <;> simp_all

theorem continuable_eq_none_iff {c : Char} :
    continuable? c = none ↔ c ∉ ['!', '=', '<', '>'] := by
  unfold continuable?
  split <;> simp_all

theorem not_mem_punctuation_iff {c : Char} :
    c ∉ punctuation ↔ singleCharacter? c = none ∧ c ≠ '/' ∧ continuable? c = none := by
  rw [singleCharacter_eq_none_iff, continuable_eq_none_iff]
  simp only [punctuation, List.mem_cons, List.not_mem_nil, or_false, not_or, ne_eq, and_assoc]

theorem openOperator_eq {c : Char} :
    openOperator? c = if c = '/' then some .slash else (continuable? c).map Prod.fst := by
  unfold openOperator? continuable?
  split <;> simp_all

/-- Why nothing was recognized at a character. -/
def Recognized.FailsAt (c : Char) (rest : List Char) : Recognized → Prop
  | unexpectedCharacter => isLetter c = false ∧ c.isDigit = false ∧ c ≠ '"' ∧ c ∉ punctuation
  | unterminatedString => c = '"' ∧ '"' ∉ rest
  | unexpectedEnd => (∃ kind, openOperator? c = some kind) ∧ rest = []
  | _ => True

section

variable {c : Char} {rest : List Char}

theorem recognize_failsAt : (recognize c rest).FailsAt c rest := by
  apply recognize_cases (motive := Recognized.FailsAt c rest)
  case word => exact fun _ => trivial
  case number =>
    intro _
    unfold recognizeNumber
    split
    · split <;> trivial
    · trivial
  case single => exact fun _ _ => trivial
  case slash =>
    rintro rfl
    unfold recognizeSlash
    split
    · exact ⟨⟨.slash, rfl⟩, rfl⟩
    · trivial
    · trivial
  case continuable =>
    intro short long hslash hcontinuable
    have hopen : openOperator? c = some short := by
      rw [openOperator_eq, if_neg hslash, hcontinuable, Option.map_some]
    unfold recognizeContinuable
    split
    · exact ⟨⟨short, hopen⟩, rfl⟩
    · trivial
    · trivial
  case string =>
    intro hquote
    unfold recognizeString
    split
    · rename_i hdrop
      -- a quote would have stopped the string
      refine ⟨hquote, fun hmem => ?_⟩
      exact absurd (List.dropWhile_eq_nil_iff.mp hdrop _ hmem) (by decide)
    · trivial
  case other =>
    intro hletter hdigit hsingle hslash hcontinuable hquote
    exact ⟨hletter, hdigit, hquote,
      not_mem_punctuation_iff.mpr ⟨hsingle, hslash, hcontinuable⟩⟩

/-- Where nothing is recognized, an error arises. -/
theorem exists_arisesAt (hc : isSeparator c = false) (h : (recognize c rest).item? = none)
    (line : Nat) : ∃ e, LexError.ArisesAt line (c :: rest) e := by
  have hfails : (recognize c rest).FailsAt c rest := recognize_failsAt
  cases hrecognized : recognize c rest with
  | unexpectedCharacter =>
    rw [hrecognized] at hfails
    obtain ⟨hletter, hdigit, hquote, hmark⟩ := hfails
    exact ⟨_, .unexpectedCharacter ⟨hletter, hdigit, hc, hquote, hmark⟩⟩
  | unterminatedString =>
    rw [hrecognized] at hfails
    obtain ⟨rfl, hrest⟩ := hfails
    exact ⟨_, .unterminatedString hrest⟩
  | unexpectedEnd =>
    rw [hrecognized] at hfails
    obtain ⟨⟨kind, hkind⟩, rfl⟩ := hfails
    exact ⟨_, .unexpectedEnd hkind⟩
  | _ =>
    rw [hrecognized] at h
    cases h

theorem recognize_of_startsNothing (h : StartsNothing c) :
    recognize c rest = .unexpectedCharacter := by
  obtain ⟨hsingle, hslash, hcontinuable⟩ := not_mem_punctuation_iff.mp h.mark
  rw [recognize, h.letter, h.digit, hsingle, hcontinuable]
  simp [hslash, h.quote]

theorem recognize_of_unclosed (h : '"' ∉ rest) : recognize '"' rest = .unterminatedString := by
  have hdrop : rest.dropWhile (· != '"') = [] :=
    List.dropWhile_eq_nil_iff.mpr fun c hc => bne_iff_ne.mpr (ne_of_mem_of_not_mem hc h)
  change recognizeString rest = _
  rw [recognizeString, hdrop]

theorem openOperator_cases {kind : TokenKind} (h : openOperator? c = some kind) :
    c = '/' ∧ kind = .slash ∨ ∃ double, continuable? c = some (kind, double) := by
  rw [openOperator_eq] at h
  by_cases hslash : c = '/'
  · rw [if_pos hslash] at h
    exact .inl ⟨hslash, (Option.some.inj h).symm⟩
  · rw [if_neg hslash] at h
    obtain ⟨⟨single, double⟩, hcontinuable, rfl⟩ := Option.map_eq_some_iff.mp h
    exact .inr ⟨double, hcontinuable⟩

theorem recognize_open_nil {kind : TokenKind} (h : openOperator? c = some kind) :
    recognize c [] = .unexpectedEnd := by
  rcases openOperator_cases h with ⟨rfl, -⟩ | ⟨double, hcontinuable⟩
  · rfl
  · rw [recognize_continuable hcontinuable]
    rfl

/-- An operator that could be continued is recognized before a separator. -/
theorem recognize_open_separator {kind : TokenKind} (h : openOperator? c = some kind) {d : Char}
    (hd : isSeparator d = true) : recognize c [d] = .token kind [c] [d] := by
  obtain ⟨-, -, -, hequal, hslash, -⟩ := of_isSeparator hd
  rcases openOperator_cases h with ⟨rfl, rfl⟩ | ⟨double, hcontinuable⟩
  · exact recognize_slash (List.cons_ne_nil _ _) (by simpa using hslash)
  · exact recognize_operator hcontinuable (List.cons_ne_nil _ _) (by simpa using hequal)

end

/-- Where an error arises, a step fails with it. -/
theorem LexError.ArisesAt.next_eq {s : Scanner} {e : LexError} (h : e.ArisesAt s.line s.rest) :
    ∃ s', s.next = (.failure e, s') ∧ s'.start = s.position := by
  generalize hrest : s.rest = characters at h
  cases h with
  | unexpectedCharacter hc =>
    have hnext := Scanner.next_eq_read hrest hc.separator
    rw [Scanner.read, recognize_of_startsNothing hc] at hnext
    exact ⟨_, hnext, rfl⟩
  | @unterminatedString rest hclosed =>
    have hnext := Scanner.next_eq_read hrest rfl
    rw [Scanner.read, recognize_of_unclosed hclosed] at hnext
    -- the opening quote is no line end, so the lines are those of the text
    have hcount : ('"' :: rest).count '\n' = rest.count '\n' := List.count_cons_of_ne (by decide)
    simp only [Scanner.moveTo, hcount] at hnext
    exact ⟨_, hnext, rfl⟩
  | @unexpectedEnd c kind hkind =>
    have hnothing : recognize c [] ≠ .unexpectedCharacter := by
      rw [recognize_open_nil hkind]
      exact Recognized.noConfusion
    have hnext := Scanner.next_eq_read hrest (Scanner.isSeparator_eq_false hnothing)
    rw [Scanner.read, recognize_open_nil hkind] at hnext
    exact ⟨_, hnext, rfl⟩

/-! ### What is scanned before a failure -/

/-- A text is made of spacing and tokens, none of which is continued by what follows it. -/
inductive Covers (after : List Char) : List Char → Prop
  | nil : Covers after []
  | spacing {text more : List Char} : IsSpacing text → Covers after more →
      Covers after (text ++ more)
  | token {kind : TokenKind} {text more : List Char} : kind.WrittenAs text →
      kind.MaximalBefore text (more ++ after) → Covers after more → Covers after (text ++ more)
  | string {text more : List Char} : '"' ∉ text → Covers after more →
      Covers after ('"' :: text ++ ['"'] ++ more)

/-- What is covered is crossed. -/
theorem Covers.crosses {text after : List Char} (h : Covers after text) (hafter : after ≠ [])
    {s : Scanner} (hrest : s.rest = text ++ after) :
    ∃ found s', s'.rest = after ∧ s.Crosses text found s' := by
  induction h generalizing s with
  | nil => exact ⟨[], s, hrest, .refl s⟩
  | spacing hspacing _ ih =>
    rw [List.append_assoc] at hrest
    obtain ⟨s₁, hrest₁, hfirst⟩ := hspacing.crosses hrest
    obtain ⟨found, s', hend, hcrosses⟩ := ih hrest₁
    exact ⟨_, s', hend, hfirst.trans hcrosses⟩
  | @token _ text more hwritten hmaximal _ ih =>
    rw [List.append_assoc] at hrest
    -- a token is recognized only where something follows it
    obtain ⟨s₁, hrest₁, hfirst⟩ := Scanner.exists_crosses_written hrest hwritten hmaximal
      (List.append_ne_nil_of_right_ne_nil more hafter)
    obtain ⟨found, s', hend, hcrosses⟩ := ih hrest₁
    exact ⟨_, s', hend, hfirst.trans hcrosses⟩
  | string htext _ ih =>
    rw [List.append_assoc, List.append_assoc] at hrest
    obtain ⟨s₁, hrest₁, hfirst⟩ := Scanner.exists_crosses_string hrest htext
    obtain ⟨found, s', hend, hcrosses⟩ := ih hrest₁
    exact ⟨_, s', hend, hfirst.trans hcrosses⟩

/-- A separator behind a source continues none of its tokens. -/
theorem Covers.append_separator {text after : List Char} (h : Covers after text) {c : Char}
    (hc : isSeparator c = true) : Covers (after ++ [c]) text := by
  induction h with
  | nil => exact .nil
  | spacing hspacing _ ih => exact .spacing hspacing ih
  | token hwritten hmaximal _ ih =>
    refine .token hwritten ?_ ih
    rw [← List.append_assoc]
    exact hmaximal.append_separator hc
  | string htext _ ih => exact .string htext ih

theorem Scanner.Crosses.error {s s' : Scanner} {text : List Char} {found : List Lexeme}
    {e : LexError} (h : s.Crosses text found s') (herror : s.lexemes = .error e) :
    s'.lexemes = .error e := by
  rw [h.lexemes] at herror
  cases hlexemes : s'.lexemes with
  | error e' =>
    rw [hlexemes] at herror
    exact herror
  | ok found' =>
    rw [hlexemes] at herror
    cases herror

/-- A scan that fails does so at once or behind an item. -/
theorem Scanner.step_of_error {s : Scanner} {e : LexError} (h : s.lexemes = .error e) :
    e.ArisesAt s.line s.rest ∨ ∃ text found s', text ≠ [] ∧ s.Crosses text found s' ∧
      ∀ before after, s'.rest = before ++ after → Covers after before →
        Covers after (text ++ before) := by
  cases hrest : s.rest with
  | nil =>
    rw [lexemes_of_rest_nil hrest] at h
    cases h
  | cons c rest =>
    by_cases hc : isSeparator c = true
    · exact .inr ⟨_, _, _, List.cons_ne_nil _ _, crosses_separator hrest hc, fun _ _ _ hcovers =>
        .spacing (.separator hc .nil) hcovers⟩
    have hlongest := recognize_isLongest c rest
    cases hrecognized : recognize c rest with
    | token kind text rest' =>
      rw [hrecognized] at hlongest
      obtain ⟨hwritten, hmaximal⟩ := hlongest
      obtain ⟨s', rfl, hcrosses⟩ :=
        exists_crosses_recognized hrest (congrArg Recognized.item? hrecognized)
      refine .inr ⟨text, _, s', hwritten.text_ne_nil, hcrosses, fun _ _ hsplit hcovers => ?_⟩
      exact .token hwritten (hsplit ▸ hmaximal) hcovers
    | string text rest' =>
      rw [hrecognized] at hlongest
      obtain ⟨s', rfl, hcrosses⟩ :=
        exists_crosses_recognized hrest (congrArg Recognized.item? hrecognized)
      exact .inr ⟨_, _, s', List.cons_ne_nil _ _, hcrosses, fun _ _ _ hcovers =>
        .string hlongest hcovers⟩
    | comment text rest' =>
      rw [hrecognized] at hlongest
      obtain ⟨body, rfl, hbody, hend⟩ := hlongest
      obtain ⟨s', rfl, hcrosses⟩ :=
        exists_crosses_recognized hrest (congrArg Recognized.item? hrecognized)
      cases hrest' : s'.rest with
      | nil =>
        -- a comment at the end of the source is not followed by a failure
        have herror := hcrosses.error h
        rw [lexemes_of_rest_nil hrest'] at herror
        cases herror
      | cons d more =>
        rw [hrest'] at hend
        obtain rfl := hend d rfl
        refine .inr ⟨_, _, _, List.cons_ne_nil _ _,
          hcrosses.trans (crosses_separator hrest' rfl), fun _ _ _ hcovers => ?_⟩
        exact .spacing (.comment hbody .nil) hcovers
    | _ =>
      have hnone : (recognize c rest).item? = none := by
        rw [hrecognized]
        rfl
      obtain ⟨e', harises⟩ := exists_arisesAt (by simpa using hc) hnone s.line
      rw [← hrest] at harises ⊢
      obtain ⟨s', hnext, -⟩ := harises.next_eq
      rw [lexemes_of_failure hnext] at h
      cases h
      exact .inl harises

/-- Characters that start on a line are covered up to a place where nothing can be read. -/
def BreaksOff (line : Nat) (characters before : List Char) (e : LexError) : Prop :=
  ∃ after, characters = before ++ after ∧ Covers after before ∧
    e.ArisesAt (line + before.count '\n') after

/-- A scan that fails breaks off somewhere. -/
theorem Scanner.exists_breaksOff (s : Scanner) {e : LexError} (h : s.lexemes = .error e) :
    ∃ before, BreaksOff s.line s.rest before e := by
  -- the induction is on what is left, since a comment is crossed with the end of its line
  induction hlength : s.rest.length using Nat.strongRecOn generalizing s with
  | ind length ih =>
    rcases step_of_error h with harises | ⟨text, found, s', htext, hcrosses, hcovers⟩
    · exact ⟨[], s.rest, rfl, .nil, harises⟩
    have hless : s'.rest.length < length := by
      have hpos := List.length_pos_iff.mpr htext
      rw [← hlength, hcrosses.rest, List.length_append]
      omega
    obtain ⟨before, after, hrest, hbefore, harises⟩ := ih _ hless s' (hcrosses.error h) rfl
    refine ⟨text ++ before, after, ?_, hcovers before after hrest hbefore, ?_⟩
    · rw [hcrosses.rest, hrest, List.append_assoc]
    · rwa [List.count_append, ← Nat.add_assoc, ← hcrosses.line]

/-- Where a scan breaks off, it fails, and the scanner tells the place. -/
theorem BreaksOff.scan_eq {s : Scanner} {before : List Char} {e : LexError}
    (h : BreaksOff s.line s.rest before e) :
    s.lexemes = .error e ∧ s.run.scanner.start = s.position + before.length := by
  obtain ⟨after, hrest, hcovers, harises⟩ := h
  -- no error arises at the end, so something follows each token
  have hafter : after ≠ [] := by
    rintro rfl
    cases harises
  obtain ⟨found, s', rfl, hcrosses⟩ := hcovers.crosses hafter hrest
  rw [← hcrosses.line] at harises
  obtain ⟨s'', hnext, hstart⟩ := harises.next_eq
  constructor
  · rw [hcrosses.lexemes, Scanner.lexemes_of_failure hnext]
    rfl
  · rw [hcrosses.scanner, Scanner.run_of_failure hnext, ← hcrosses.position]
    exact hstart

/-- There is one place at most where a source breaks off. -/
theorem BreaksOff.unique {s : Scanner} {before before' : List Char} {e : LexError}
    (h : BreaksOff s.line s.rest before e) (h' : BreaksOff s.line s.rest before' e) :
    before = before' := by
  have hlength : before.length = before'.length :=
    Nat.add_left_cancel (h.scan_eq.2.symm.trans h'.scan_eq.2)
  obtain ⟨after, hrest, -⟩ := h
  obtain ⟨after', hrest', -⟩ := h'
  exact (List.append_inj (hrest.symm.trans hrest') hlength).1

/-! ### A separator behind a source -/

/-- A separator behind a source makes it scanned if it breaks off at an operator, which is then the
last token, and in no other case. -/
theorem BreaksOff.lexemes_separator {s : Scanner} {characters before : List Char} {e : LexError}
    (h : BreaksOff s.line characters before e) {c : Char} (hc : isSeparator c = true)
    (hrest : s.rest = characters ++ [c]) :
    ((∃ line, e = .unexpectedEnd line) ∧ ∃ operator kind found, characters = before ++ [operator] ∧
      openOperator? operator = some kind ∧
      s.lexemes = .ok (found ++ [(kind, String.ofList [operator]), (.eof, "")])) ∨
    (∀ line, e ≠ .unexpectedEnd line) ∧ ∃ e', s.lexemes = .error e' := by
  obtain ⟨after, rfl, hcovers, harises⟩ := h
  have hcovers' := hcovers.append_separator hc
  rw [List.append_assoc] at hrest
  cases harises with
  | unexpectedCharacter hstarts =>
    have hbreaks : BreaksOff s.line s.rest before _ :=
      ⟨_, hrest, hcovers', .unexpectedCharacter hstarts⟩
    exact .inr ⟨nofun, _, hbreaks.scan_eq.1⟩
  | @unterminatedString rest hclosed =>
    -- a separator does not close a string
    have hclosed' : '"' ∉ rest ++ [c] := by
      simp [hclosed, (of_isSeparator hc).2.2.2.2.2.symm]
    have hbreaks : BreaksOff s.line s.rest before _ :=
      ⟨_, hrest, hcovers', .unterminatedString hclosed'⟩
    exact .inr ⟨nofun, _, hbreaks.scan_eq.1⟩
  | @unexpectedEnd operator kind hkind =>
    -- with a separator behind it, the operator is complete and the scan goes on
    obtain ⟨found, s₁, hrest₁, hbefore⟩ := hcovers'.crosses (List.cons_ne_nil _ _) hrest
    obtain ⟨s₂, hrest₂, hoperator⟩ := Scanner.exists_crosses_recognized hrest₁
      (congrArg Recognized.item? (recognize_open_separator hkind hc))
    have hseparator := Scanner.crosses_separator hrest₂ hc
    refine .inl ⟨⟨_, rfl⟩, operator, kind, found, rfl, hkind, ?_⟩
    rw [((hbefore.trans hoperator).trans hseparator).lexemes, Scanner.lexemes_of_rest_nil rfl]
    simp [Except.map]

/-- The last token of a source before its end is an operator, at which another source ends. -/
def EndsInOperator (characters : List Char) (tokens : List Token) : Prop :=
  ∃ before operator kind found, characters = before ++ [operator] ∧
    openOperator? operator = some kind ∧
    tokens.map Token.toLexeme = found ++ [(kind, String.ofList [operator]), (.eof, "")]

/-- Scanning fails exactly where a source breaks off, which is one place at most. A separator behind
the source repairs only an operator at its end. -/
theorem tokenize_eq_error_iff (source : String) (error : LexError) :
    (tokenize source = .error error ↔ ∃! before, BreaksOff 1 source.toList before error) ∧
    (tokenize source = .error error → ∀ c, isSeparator c = true →
      ((∃ tokens, tokenize (source.push c) = .ok tokens) ↔ ∃ line, error = .unexpectedEnd line) ∧
      ∀ tokens, tokenize (source.push c) = .ok tokens → EndsInOperator source.toList tokens) := by
  have hexists (h : tokenize source = .error error) :
      ∃ before, BreaksOff 1 source.toList before error :=
    (Scanner.ofSource source).exists_breaksOff (lexemes_eq_error_iff.mpr h)
  refine ⟨⟨fun h => ?_, fun ⟨before, hbreaks, _⟩ => ?_⟩, fun h c hc => ?_⟩
  · obtain ⟨before, hbreaks⟩ := hexists h
    exact ⟨before, hbreaks, fun before' hbreaks' =>
      BreaksOff.unique (s := .ofSource source) hbreaks' hbreaks⟩
  · exact lexemes_eq_error_iff.mp (BreaksOff.scan_eq (s := .ofSource source) hbreaks).1
  · obtain ⟨before, hbreaks⟩ := hexists h
    have hrest : (Scanner.ofSource (source.push c)).rest = source.toList ++ [c] :=
      String.toList_push c
    rcases BreaksOff.lexemes_separator hbreaks hc hrest with
      ⟨hend, operator, kind, found, hsource, hkind, hlexemes⟩ | ⟨hend, e', hlexemes⟩
    · obtain ⟨tokens, htokens, heq⟩ := exists_tokens_of_lexemes hlexemes
      refine ⟨⟨fun _ => hend, fun _ => ⟨tokens, htokens⟩⟩, fun tokens' htokens' => ?_⟩
      obtain rfl : tokens = tokens' := Except.ok.inj (htokens.symm.trans htokens')
      exact ⟨before, operator, kind, found, hsource, hkind, heq⟩
    · -- the source with the separator fails too
      have hfails (tokens : List Token) : tokenize (source.push c) ≠ .ok tokens := by
        rw [lexemes_eq_error_iff.mp hlexemes]
        exact nofun
      exact ⟨⟨fun ⟨tokens, htokens⟩ => absurd htokens (hfails tokens),
        fun ⟨line, hline⟩ => absurd hline (hend line)⟩,
        fun tokens htokens => absurd htokens (hfails tokens)⟩

/-- An operator on the second line, behind a comment and a string. -/
theorem tokenize_eq_error_iff_operator :
    tokenize "//\"\n\"!\" <" = .error (.unexpectedEnd 2) ∧
      (∃! before, BreaksOff 1 "//\"\n\"!\" <".toList before (.unexpectedEnd 2)) ∧
      (∃ tokens, tokenize "//\"\n\"!\" <\t" = .ok tokens) ∧
      ∀ tokens, tokenize "//\"\n\"!\" <\t" = .ok tokens →
        EndsInOperator "//\"\n\"!\" <".toList tokens := by
  have hfails : tokenize "//\"\n\"!\" <" = .error (.unexpectedEnd 2) := by decide +kernel
  have hpush : "//\"\n\"!\" <".push '\t' = "//\"\n\"!\" <\t" := by decide +kernel
  obtain ⟨hbreaks, hrepaired⟩ := tokenize_eq_error_iff "//\"\n\"!\" <" (.unexpectedEnd 2)
  obtain ⟨hscanned, hoperator⟩ := hrepaired hfails '\t' rfl
  rw [hpush] at hscanned hoperator
  exact ⟨hfails, hbreaks.mp hfails, hscanned.mpr ⟨2, rfl⟩, hoperator⟩

end StackScript
