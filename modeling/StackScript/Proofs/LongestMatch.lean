import StackScript.Proofs.NumeralReading
import StackScript.Proofs.SourceWords
import StackScript.Proofs.TokenWriting

/-!
# The longest match

Which texts are tokens of a kind, and what must not follow them, said without the scanner. A word is
not followed by a word character, a number not by what would continue it, an operator not by the
character that would make it another operator or a comment. What the scanner recognizes at a
character is the one token that starts there and keeps this rule.

The end of the source is special: an operator that could be continued is refused there. Before a
blank it is recognized, so rules about the end are stated with a blank behind it.

## Main definitions

* `TokenKind.WrittenAs`: the texts of the tokens of a kind.
* `TokenKind.MaximalBefore`: a token is not continued by what follows it.
* `Recognized.IsLongest`: what was recognized keeps these rules.

## Main results

* `recognize_isLongest`: what is recognized is a token that is not continued, a string up to its
  closing quote or a comment up to the end of its line.
* `recognize_eq_token`, `recognize_string`: a token that is not continued, or a string, is
  recognized.
-/

namespace StackScript

namespace TokenKind

/-- The texts of the tokens of a kind: one for most kinds, otherwise a word that is not reserved, or
digits with or without a fraction. A string is not written by its text alone. -/
inductive WrittenAs : TokenKind → List Char → Prop
  | fixed {kind : TokenKind} {text : String} : kind.spelling? = some text → kind ≠ .eof →
      WrittenAs kind text.toList
  | identifier {c : Char} {text : List Char} : isLetter c = true →
      (∀ d ∈ text, isWordCharacter d = true) →
      String.ofList (c :: text) ∉ keywords.map Prod.fst → WrittenAs .identifier (c :: text)
  | whole {digits : List Char} : digits ≠ [] → (∀ d ∈ digits, d.isDigit = true) →
      WrittenAs .number digits
  | fraction {digits decimals : List Char} : digits ≠ [] → (∀ d ∈ digits, d.isDigit = true) →
      decimals ≠ [] → (∀ d ∈ decimals, d.isDigit = true) →
      WrittenAs .number (digits ++ '.' :: decimals)

/-- A token of a kind, written as `text`, is not continued by the characters `after` that follow
it. -/
structure MaximalBefore (kind : TokenKind) (text after : List Char) : Prop where
  word : kind = .identifier ∨ kind.isKeyword = true → ∀ c ∈ after.head?, isWordCharacter c = false
  whole : kind = .number → '.' ∉ text →
    (∀ c ∈ after.head?, c.isDigit = false) ∧ ∀ d more, after = '.' :: d :: more → d.isDigit = false
  fraction : kind = .number → '.' ∈ text → ∀ c ∈ after.head?, c.isDigit = false
  operator : kind ∈ [.bang, .equal, .less, .greater] → after.head? ≠ some '='
  slash : kind = .slash → after.head? ≠ some '/'

end TokenKind

open TokenKind

/-! ### Words -/

/-- A word is written as a token of its kind. -/
theorem writtenAs_ofWord {c : Char} {text : List Char} (hc : isLetter c = true)
    (htext : ∀ d ∈ text, isWordCharacter d = true) :
    (ofWord (String.ofList (c :: text))).WrittenAs (c :: text) := by
  have hspelling : ∀ entry ∈ keywords, entry.2.spelling? = some entry.1 ∧ entry.2 ≠ .eof := by
    decide
  unfold ofWord
  cases hlookup : keywords.lookup (String.ofList (c :: text)) with
  | none =>
    refine .identifier hc htext fun hmem => ?_
    obtain ⟨entry, hentry, heq⟩ := List.mem_map.mp hmem
    exact bne_iff_ne.mp (List.lookup_eq_none_iff.mp hlookup entry hentry) heq.symm
  | some kind =>
    obtain ⟨before, after, hsplit, -⟩ := List.lookup_eq_some_iff.mp hlookup
    have hmem : (String.ofList (c :: text), kind) ∈ keywords := by simp [hsplit]
    obtain ⟨hkind, hne⟩ := hspelling _ hmem
    simpa using WrittenAs.fixed hkind hne

/-- A word is reserved or an identifier. -/
theorem ofWord_cases (word : String) :
    ofWord word = .identifier ∨ (ofWord word).isKeyword = true := by
  unfold ofWord
  cases hlookup : keywords.lookup word with
  | none => exact .inl rfl
  | some kind =>
    obtain ⟨before, after, hsplit, -⟩ := List.lookup_eq_some_iff.mp hlookup
    refine .inr (List.any_eq_true.mpr ⟨(word, kind), by simp [hsplit], ?_⟩)
    exact beq_self_eq_true _

/-- The other rules do not concern words. -/
theorem maximalBefore_word {kind : TokenKind} (hkind : kind = .identifier ∨ kind.isKeyword = true)
    {text after : List Char} (hafter : ∀ c ∈ after.head?, isWordCharacter c = false) :
    kind.MaximalBefore text after := by
  have hne : kind ∉ [.number, .bang, .equal, .less, .greater, .slash] := by
    revert hkind
    cases kind <;> decide
  simp only [List.mem_cons, List.not_mem_nil, or_false, not_or] at hne
  refine ⟨fun _ => hafter, fun h => absurd h hne.1, fun h => absurd h hne.1, fun h => ?_,
    fun h => absurd h hne.2.2.2.2.2⟩
  simp [hne] at h

/-- A word that no word character follows is recognized. -/
theorem recognize_word {c : Char} {text after : List Char} (hc : isLetter c = true)
    (htext : ∀ d ∈ text, isWordCharacter d = true)
    (hafter : ∀ d ∈ after.head?, isWordCharacter d = false) :
    recognize c (text ++ after) =
      .token (ofWord (String.ofList (c :: text))) (c :: text) after := by
  obtain ⟨htake, hdrop⟩ := takeWhile_dropWhile_append htext hafter
  rw [recognize, if_pos hc, recognizeWord, htake, hdrop]

/-! ### Numbers -/

theorem isLetter_of_isDigit {c : Char} (h : c.isDigit = true) : isLetter c = false := by
  have hbounds := toNat_le_of_isDigit h
  rw [isLetter_of_lt (by omega), Bool.eq_false_iff]
  intro halpha
  have hupper : c.isUpper = true → 65 ≤ c.toNat := fun h => (of_decide_eq_true h).1
  have hlower : c.isLower = true → 97 ≤ c.toNat := fun h =>
    of_decide_eq_true (Bool.and_eq_true_iff.mp h).1
  rcases Bool.or_eq_true_iff.mp halpha with h | h
  · have hle := hupper h
    omega
  · have hle := hlower h
    omega

/-- The other rules do not concern numbers. -/
theorem maximalBefore_number {text after : List Char}
    (hdigit : ∀ c ∈ after.head?, c.isDigit = false)
    (hpoint : '.' ∉ text → ∀ d more, after = '.' :: d :: more → d.isDigit = false) :
    TokenKind.number.MaximalBefore text after where
  word := fun h => absurd h (by decide)
  whole := fun _ hwhole => ⟨hdigit, hpoint hwhole⟩
  fraction := fun _ _ => hdigit
  operator := fun h => absurd h (by decide)
  slash := fun h => absurd h (by decide)

/-- Digits that neither a digit nor a fraction follows are recognized. -/
theorem recognizeNumber_whole {c : Char} {digits after : List Char}
    (hdigits : ∀ d ∈ digits, d.isDigit = true) (hafter : ∀ d ∈ after.head?, d.isDigit = false)
    (hpoint : ∀ d more, after = '.' :: d :: more → d.isDigit = false) :
    recognizeNumber c (digits ++ after) = .token .number (c :: digits) after := by
  obtain ⟨htake, hdrop⟩ := takeWhile_dropWhile_append hdigits hafter
  unfold recognizeNumber
  rw [htake, hdrop]
  split
  · rename_i d more
    rw [if_neg (Bool.eq_false_iff.mp (hpoint d more rfl))]
  · rfl

/-- Digits and a fraction that no digit follows are recognized. -/
theorem recognizeNumber_fraction {c d : Char} {digits decimals after : List Char}
    (hdigits : ∀ x ∈ digits, x.isDigit = true) (hd : d.isDigit = true)
    (hdecimals : ∀ x ∈ decimals, x.isDigit = true)
    (hafter : ∀ x ∈ after.head?, x.isDigit = false) :
    recognizeNumber c (digits ++ '.' :: d :: (decimals ++ after)) =
      .token .number (c :: digits ++ '.' :: d :: decimals) after := by
  have hpoint : ∀ x ∈ ('.' :: d :: (decimals ++ after)).head?, x.isDigit = false := by
    rintro x ⟨⟩
    rfl
  obtain ⟨htake, hdrop⟩ := takeWhile_dropWhile_append hdigits hpoint
  obtain ⟨htake', hdrop'⟩ := takeWhile_dropWhile_append hdecimals hafter
  unfold recognizeNumber
  rw [htake, hdrop]
  split
  · rename_i heq
    cases heq
    rw [if_pos hd, htake', hdrop']
  · rename_i hother
    exact absurd rfl (hother d (decimals ++ after))

theorem head?_dropWhile_eq_false {p : Char → Bool} {text : List Char} :
    ∀ c ∈ (text.dropWhile p).head?, p c = false := by
  intro c hc
  have hnot := List.head?_dropWhile_not p text
  rw [Option.mem_def.mp hc] at hnot
  simpa using hnot

/-! ### What is recognized is a longest match -/

/-- No rule concerns the kinds that nothing could continue. -/
theorem maximalBefore_other {kind : TokenKind}
    (hword : ¬ (kind = .identifier ∨ kind.isKeyword = true)) (hnumber : kind ≠ .number)
    (hoperator : kind ∉ [.bang, .equal, .less, .greater]) (hslash : kind ≠ .slash)
    (text after : List Char) : kind.MaximalBefore text after where
  word := fun h => absurd h hword
  whole := fun h => absurd h hnumber
  fraction := fun h => absurd h hnumber
  operator := fun h => absurd h hoperator
  slash := fun h => absurd h hslash

/-- What was recognized is a token that is not continued, a string without a quote inside, or a
comment up to the end of its line. -/
def Recognized.IsLongest : Recognized → Prop
  | token kind text rest => kind.WrittenAs text ∧ kind.MaximalBefore text rest
  | string text _ => '"' ∉ text
  | comment text rest =>
    ∃ body, text = '/' :: '/' :: body ∧ '\n' ∉ body ∧ ∀ c ∈ rest.head?, c = '\n'
  | _ => True

section

variable (c : Char) (rest : List Char)

theorem recognizeWord_isLongest (hc : isLetter c = true) : (recognizeWord c rest).IsLongest := by
  refine ⟨writtenAs_ofWord hc fun d hd => List.mem_takeWhile_imp hd, ?_⟩
  exact maximalBefore_word (ofWord_cases _) head?_dropWhile_eq_false

theorem recognizeNumber_isLongest (hc : c.isDigit = true) : (recognizeNumber c rest).IsLongest := by
  have hwhole : ∀ d ∈ c :: rest.takeWhile Char.isDigit, d.isDigit = true :=
    List.forall_mem_cons.mpr ⟨hc, fun d hd => List.mem_takeWhile_imp hd⟩
  have hdrop : ∀ d ∈ (rest.dropWhile Char.isDigit).head?, d.isDigit = false :=
    head?_dropWhile_eq_false
  unfold recognizeNumber
  split
  · rename_i d more hmore
    rw [hmore] at hdrop
    by_cases hd : d.isDigit = true
    · -- a digit follows the point, so the fraction belongs to the number
      rw [if_pos hd]
      refine ⟨.fraction (List.cons_ne_nil _ _) hwhole (List.cons_ne_nil _ _) ?_, ?_⟩
      · exact List.forall_mem_cons.mpr ⟨hd, fun x hx => List.mem_takeWhile_imp hx⟩
      · refine maximalBefore_number head?_dropWhile_eq_false fun hpoint => absurd ?_ hpoint
        simp
    · rw [if_neg hd]
      -- no digit follows the point, so the number ends before it
      refine ⟨.whole (List.cons_ne_nil _ _) hwhole, maximalBefore_number hdrop fun _ => ?_⟩
      rintro d' more' heq
      cases heq
      simpa using hd
  · rename_i hother
    refine ⟨.whole (List.cons_ne_nil _ _) hwhole, maximalBefore_number hdrop fun _ => ?_⟩
    intro d more heq
    exact absurd heq (hother d more)

theorem recognizeSlash_isLongest : (recognizeSlash rest).IsLongest := by
  unfold recognizeSlash
  split
  · trivial
  · rename_i after
    refine ⟨after.takeWhile (· != '\n'), ?_, fun hmem => ?_, fun d hd => ?_⟩
    · rfl
    · exact absurd (List.mem_takeWhile_imp hmem) (by decide)
    · simpa using head?_dropWhile_eq_false (p := (· != '\n')) d hd
  · rename_i hslash
    have hspelling : TokenKind.slash.spelling? = some "/" := rfl
    refine ⟨WrittenAs.fixed hspelling (by decide), ?_⟩
    refine ⟨fun h => absurd h (by decide), fun h => absurd h (by decide),
      fun h => absurd h (by decide), fun h => absurd h (by decide), fun _ hhead => ?_⟩
    obtain ⟨after, rfl⟩ := List.head?_eq_some_iff.mp hhead
    exact hslash after rfl

theorem recognizeContinuable_isLongest {single double : TokenKind}
    (h : continuable? c = some (single, double)) :
    (recognizeContinuable c single double rest).IsLongest := by
  have hsingle : single.spelling? = some (String.ofList [c]) ∧ single ≠ .eof ∧
      ¬ (single = .identifier ∨ single.isKeyword = true) ∧ single ≠ .number ∧ single ≠ .slash := by
    unfold continuable? at h
    -- there are four such characters, and the facts are checked for each
    split at h <;> cases h <;> decide
  have hdouble : double.spelling? = some (String.ofList [c, '=']) ∧ double ≠ .eof ∧
      ¬ (double = .identifier ∨ double.isKeyword = true) ∧ double ≠ .number ∧ double ≠ .slash ∧
      double ∉ [.bang, .equal, .less, .greater] := by
    unfold continuable? at h
    split at h <;> cases h <;> decide
  unfold recognizeContinuable
  split
  · trivial
  · obtain ⟨hspelling, heof, hword, hnumber, hslash, hoperator⟩ := hdouble
    -- a double operator is never continued
    exact ⟨by simpa using WrittenAs.fixed hspelling heof,
      maximalBefore_other hword hnumber hoperator hslash _ _⟩
  · rename_i hequal
    obtain ⟨hspelling, heof, hword, hnumber, hslash⟩ := hsingle
    refine ⟨by simpa using WrittenAs.fixed hspelling heof, fun h => absurd h hword,
      fun h => absurd h hnumber, fun h => absurd h hnumber, fun _ hhead => ?_,
      fun h => absurd h hslash⟩
    obtain ⟨after, rfl⟩ := List.head?_eq_some_iff.mp hhead
    exact hequal after rfl

theorem recognizeString_isLongest : (recognizeString rest).IsLongest := by
  unfold recognizeString
  split
  · trivial
  · exact fun hmem => absurd (List.mem_takeWhile_imp hmem) (by decide)

theorem singleCharacter_isLongest {kind : TokenKind} (h : singleCharacter? c = some kind) :
    (Recognized.token kind [c] rest).IsLongest := by
  obtain ⟨hspelling, heof, hword, hnumber, hslash, hoperator⟩ :
      kind.spelling? = some (String.ofList [c]) ∧ kind ≠ .eof ∧
      ¬ (kind = .identifier ∨ kind.isKeyword = true) ∧ kind ≠ .number ∧ kind ≠ .slash ∧
      kind ∉ [.bang, .equal, .less, .greater] := by
    unfold singleCharacter? at h
    split at h <;> cases h <;> decide
  exact ⟨by simpa using WrittenAs.fixed hspelling heof,
    maximalBefore_other hword hnumber hoperator hslash _ _⟩

/-- What is recognized is a longest match. -/
theorem recognize_isLongest : (recognize c rest).IsLongest := by
  apply recognize_cases
  case word => exact recognizeWord_isLongest c rest
  case number => exact recognizeNumber_isLongest c rest
  case single => exact fun _ => singleCharacter_isLongest c rest
  case slash => exact fun _ => recognizeSlash_isLongest rest
  case continuable => exact fun _ _ _ => recognizeContinuable_isLongest c rest
  case string => exact fun _ => recognizeString_isLongest rest
  case other => exact fun _ _ _ _ _ _ => trivial

end

/-! ### A longest match is recognized -/

/-- A kind that is spelled in one way is a reserved word, one character, or an operator that could
be continued or is. -/
theorem spelling_cases {kind : TokenKind} {text : String} (h : kind.spelling? = some text)
    (hkind : kind ≠ .eof) :
    (text, kind) ∈ keywords ∨ (∃ c, text.toList = [c] ∧ singleCharacter? c = some kind) ∨
      (kind = .slash ∧ text.toList = ['/']) ∨
      ∃ c single double, continuable? c = some (single, double) ∧
        (kind = single ∧ kind ∈ [.bang, .equal, .less, .greater] ∧ text.toList = [c] ∨
          kind = double ∧ text.toList = [c, '=']) := by
  -- A fixed spelling is that of a keyword, a single character, the slash, or an operator that
  -- `=` may continue.
  cases kind with
  | trueKw | falseKw | letKw | printKw | ifKw | elseKw | funKw =>
    cases h
    exact .inl (by decide)
  | lparen | rparen | lbracket | rbracket | lbrace | rbrace | comma | dot | semicolon | minus | plus
  | star =>
    cases h
    exact .inr (.inl ⟨_, rfl, rfl⟩)
  | slash =>
    cases h
    exact .inr (.inr (.inl ⟨rfl, rfl⟩))
  | bang | equal | less | greater =>
    cases h
    exact .inr (.inr (.inr ⟨_, _, _, rfl, .inl ⟨rfl, by decide, rfl⟩⟩))
  | bangEqual | equalEqual | lessEqual | greaterEqual =>
    cases h
    exact .inr (.inr (.inr ⟨_, _, _, rfl, .inr ⟨rfl, rfl⟩⟩))
  | string | number | identifier => cases h
  | eof => exact absurd rfl hkind

/-- The characters of marks start neither a word nor a number. -/
theorem recognize_single {c : Char} {kind : TokenKind} (h : singleCharacter? c = some kind)
    (rest : List Char) : recognize c rest = .token kind [c] rest := by
  obtain ⟨hletter, hdigit⟩ : isLetter c = false ∧ c.isDigit = false := by
    unfold singleCharacter? at h
    split at h <;> cases h <;> decide
  rw [recognize, hletter, hdigit, h]
  rfl

theorem recognize_continuable {c : Char} {single double : TokenKind}
    (h : continuable? c = some (single, double)) (rest : List Char) :
    recognize c rest = recognizeContinuable c single double rest := by
  obtain ⟨hletter, hdigit, hsingle, hslash⟩ :
      isLetter c = false ∧ c.isDigit = false ∧ singleCharacter? c = none ∧ c ≠ '/' := by
    unfold continuable? at h
    split at h <;> cases h <;> decide
  rw [recognize, hletter, hdigit, hsingle, h]
  simp [hslash]

/-- A reserved word that no word character follows is recognized. -/
theorem recognize_keyword {word : String} {kind : TokenKind} (h : (word, kind) ∈ keywords)
    {c : Char} {rest after : List Char} (hafter : ∀ d ∈ after.head?, isWordCharacter d = false)
    (heq : c :: rest = word.toList ++ after) :
    recognize c rest = .token kind word.toList after := by
  have hwords : ∀ entry ∈ keywords, entry.1.toList.all isLetter = true ∧ entry.1 ≠ "" ∧
      ofWord entry.1 = entry.2 := by
    decide
  obtain ⟨hletters, hne, hof⟩ := hwords _ h
  rw [List.all_eq_true] at hletters
  cases hword : word.toList with
  | nil => exact absurd (String.toList_eq_nil_iff.mp hword) hne
  | cons first letters =>
    rw [hword] at hletters
    rw [hword, List.cons_append] at heq
    obtain ⟨rfl, rfl⟩ := List.cons.inj heq
    obtain ⟨hfirst, hrest⟩ := List.forall_mem_cons.mp hletters
    rw [recognize_word hfirst (fun d hd => isWordCharacter_of_isLetter (hrest d hd)) hafter,
      ← hword, String.ofList_toList, hof]

/-- A number that is not continued is recognized. -/
theorem recognize_number {text after : List Char} {c : Char} {rest : List Char}
    (hwritten : TokenKind.number.WrittenAs text)
    (hmaximal : TokenKind.number.MaximalBefore text after) (heq : c :: rest = text ++ after) :
    recognize c rest = .token .number text after := by
  -- both forms start with a digit
  have hnumber (hc : c.isDigit = true) : recognize c rest = recognizeNumber c rest := by
    rw [recognize, isLetter_of_isDigit hc, hc]
    rfl
  cases hwritten with
  | fixed hspelling => cases hspelling
  | whole hne hdigits =>
    obtain ⟨d, digits, rfl⟩ := List.exists_cons_of_ne_nil hne
    rw [List.cons_append] at heq
    obtain ⟨rfl, rfl⟩ := List.cons.inj heq
    have hpoint : '.' ∉ c :: digits := fun hmem => absurd (hdigits _ hmem) (by decide)
    obtain ⟨hc, hrest⟩ := List.forall_mem_cons.mp hdigits
    obtain ⟨hdigit, hfraction⟩ := hmaximal.whole rfl hpoint
    rw [hnumber hc, recognizeNumber_whole hrest hdigit hfraction]
  | fraction hne hdigits hne' hdecimals =>
    obtain ⟨d, digits, rfl⟩ := List.exists_cons_of_ne_nil hne
    obtain ⟨e, decimals, rfl⟩ := List.exists_cons_of_ne_nil hne'
    rw [List.append_assoc, List.cons_append, List.cons_append, List.cons_append] at heq
    obtain ⟨rfl, rfl⟩ := List.cons.inj heq
    obtain ⟨hc, hrest⟩ := List.forall_mem_cons.mp hdigits
    obtain ⟨he, hmore⟩ := List.forall_mem_cons.mp hdecimals
    have hdigit := hmaximal.fraction rfl (by simp)
    rw [hnumber hc, recognizeNumber_fraction hrest he hmore hdigit]

/-- An operator that is not continued is recognized if something follows it. -/
theorem recognize_operator {c : Char} {single double : TokenKind}
    (h : continuable? c = some (single, double)) {after : List Char} (hafter : after ≠ [])
    (hequal : after.head? ≠ some '=') : recognize c after = .token single [c] after := by
  rw [recognize_continuable h]
  unfold recognizeContinuable
  split
  · exact absurd rfl hafter
  · exact absurd rfl hequal
  · rfl

theorem recognize_slash {after : List Char} (hafter : after ≠ [])
    (hslash : after.head? ≠ some '/') : recognize '/' after = .token .slash ['/'] after := by
  change recognizeSlash after = _
  unfold recognizeSlash
  split
  · exact absurd rfl hafter
  · exact absurd rfl hslash
  · rfl

/-- A token that is not continued by what follows it is recognized, unless it stands at the end. -/
theorem recognize_eq_token {kind : TokenKind} {text after : List Char} {c : Char}
    {rest : List Char} (hwritten : kind.WrittenAs text) (hmaximal : kind.MaximalBefore text after)
    (hafter : after ≠ []) (heq : c :: rest = text ++ after) :
    recognize c rest = .token kind text after := by
  cases hwritten with
  | @fixed _ word hspelling hkind =>
    rcases spelling_cases hspelling hkind with
      hkeyword | ⟨d, hd, hsingle⟩ | ⟨rfl, hslash⟩ | ⟨d, single, double, hd, hcase⟩
    · have hreserved : kind.isKeyword = true :=
        List.any_eq_true.mpr ⟨_, hkeyword, beq_self_eq_true _⟩
      exact recognize_keyword hkeyword (hmaximal.word (.inr hreserved)) heq
    · rw [hd] at heq ⊢
      cases heq
      exact recognize_single hsingle after
    · rw [hslash] at heq ⊢
      cases heq
      exact recognize_slash hafter (hmaximal.slash rfl)
    · rcases hcase with ⟨rfl, hoperator, hword⟩ | ⟨rfl, hword⟩
      · rw [hword] at heq ⊢
        cases heq
        exact recognize_operator hd hafter (hmaximal.operator hoperator)
      · rw [hword] at heq ⊢
        cases heq
        rw [recognize_continuable hd]
        rfl
  | @identifier d letters hd hletters hnew =>
    rw [List.cons_append] at heq
    obtain ⟨rfl, rfl⟩ := List.cons.inj heq
    rw [recognize_word hd hletters (hmaximal.word (.inl rfl))]
    -- a name is none of the keywords, so the lookup keeps it an identifier
    have hlookup : keywords.lookup (String.ofList (c :: letters)) = none := by
      refine List.lookup_eq_none_iff.mpr fun entry hentry => bne_iff_ne.mpr fun hsame => hnew ?_
      exact List.mem_map.mpr ⟨entry, hentry, hsame.symm⟩
    rw [ofWord, hlookup, Option.getD_none]
  | whole hne hdigits => exact recognize_number (.whole hne hdigits) hmaximal heq
  | fraction hne hdigits hne' hdecimals =>
    exact recognize_number (.fraction hne hdigits hne' hdecimals) hmaximal heq

/-- A string is recognized up to the first quote. -/
theorem recognize_string {text : List Char} (htext : '"' ∉ text) (after : List Char) :
    recognize '"' (text ++ '"' :: after) = .string text after := by
  have hinside : ∀ c ∈ text, (c != '"') = true := fun c hc =>
    bne_iff_ne.mpr (ne_of_mem_of_not_mem hc htext)
  have hquote : ∀ c ∈ ('"' :: after).head?, (c != '"') = false := by simp
  obtain ⟨htake, hdrop⟩ := takeWhile_dropWhile_append (p := (· != '"')) hinside hquote
  change recognizeString (text ++ '"' :: after) = _
  rw [recognizeString, htake, hdrop]

/-- A separator continues no token. -/
theorem of_isSeparator {c : Char} (hc : isSeparator c = true) :
    isWordCharacter c = false ∧ c.isDigit = false ∧ c ≠ '.' ∧ c ≠ '=' ∧ c ≠ '/' ∧ c ≠ '"' := by
  simp only [isSeparator, Bool.or_eq_true, beq_iff_eq] at hc
  rcases hc with ((rfl | rfl) | rfl) | rfl <;> decide

theorem maximalBefore_separator {c : Char} (hc : isSeparator c = true) (kind : TokenKind)
    (text after : List Char) : kind.MaximalBefore text (c :: after) := by
  obtain ⟨hword, hdigit, hpoint, hequal, hslash, -⟩ := of_isSeparator hc
  refine ⟨fun _ => ?_, fun _ _ => ⟨?_, fun d more heq => ?_⟩, fun _ _ => ?_, fun _ => ?_,
    fun _ => ?_⟩
  · simpa using hword
  · simpa using hdigit
  · exact absurd (List.cons.inj heq).1 hpoint
  · simpa using hdigit
  · simpa using hequal
  · simpa using hslash

/-- Before a separator, a token is no more continued than before the end. -/
theorem TokenKind.MaximalBefore.append_separator {kind : TokenKind} {text after : List Char}
    (h : kind.MaximalBefore text after) {c : Char} (hc : isSeparator c = true) :
    kind.MaximalBefore text (after ++ [c]) := by
  cases after with
  | nil => exact maximalBefore_separator hc kind text []
  | cons d rest =>
    refine ⟨h.word, fun hkind htext => ⟨(h.whole hkind htext).1, ?_⟩, h.fraction, h.operator,
      h.slash⟩
    intro d more heq
    cases rest with
    | nil =>
      cases heq
      exact (of_isSeparator hc).2.1
    | cons e rest =>
      cases heq
      exact (h.whole hkind htext).2 _ _ rfl

end StackScript
