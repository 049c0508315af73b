import StackScript.Proofs.SourceTiling

/-!
# Crossing a part of a source

Scanning goes over a source item by item: a separator, a comment with the end of its line, a token.
What it gives is the lexeme of the item, if there is one, followed by what scanning gives behind it.
So a part of a source that is made of items can be crossed, and what stands behind it is left to be
scanned.

Positions are left out of what scanning gives, apart from the line in a failure.

## Main definitions

* `Scanner.lexemes`: what is left of a source, as kinds and texts.
* `Scanner.Crosses`: scanning goes over a text and finds some lexemes in it.
* `IsSpacing`: separators and comments that end with their lines.

## Main results

* `Scanner.exists_crosses_written`, `Scanner.exists_crosses_string`: tokens are crossed.
* `IsSpacing.crosses`: spacing is crossed, and there are no lexemes in it.
-/

namespace StackScript

namespace Scanner

variable {s s' s'' : Scanner} {c : Char} {rest : List Char}

/-! ### Runs by their first step -/

theorem run_of_token {t : Token} (h : s.next = (.token t, s')) :
    s.run = s'.run.cons (some t) := by
  rw [run]
  split <;> rename_i heq <;> rw [h] at heq <;> cases heq
  rfl

theorem run_of_comment (h : s.next = (.comment, s')) :
    s.run = s'.run.cons none := by
  rw [run]
  split <;> rename_i heq <;> rw [h] at heq <;> cases heq
  rfl

theorem run_of_finish {t : Token} (h : s.next = (.finish t, s')) :
    s.run = ⟨[some t], none, s'⟩ := by
  rw [run]
  split <;> rename_i heq <;> rw [h] at heq <;> cases heq
  rfl

theorem run_of_failure {e : LexError} (h : s.next = (.failure e, s')) :
    s.run = ⟨[], some e, s'⟩ := by
  rw [run]
  split <;> rename_i heq <;> rw [h] at heq <;> cases heq
  rfl

/-- A run is determined by its first step. -/
theorem run_congr (h : s.next = s'.next) : s.run = s'.run := by
  obtain ⟨step, s'', hnext⟩ : ∃ step s'', s.next = (step, s'') := ⟨_, _, rfl⟩
  have hnext' := h.symm.trans hnext
  cases step with
  | token => rw [run_of_token hnext, run_of_token hnext']
  | comment => rw [run_of_comment hnext, run_of_comment hnext']
  | finish => rw [run_of_finish hnext, run_of_finish hnext']
  | failure => rw [run_of_failure hnext, run_of_failure hnext']

theorem next_separator (hrest : s.rest = c :: rest) (hc : isSeparator c = true) :
    s.next = (s.moveTo [c] rest).next := by
  have hskip : s.skipSeparators = (s.moveTo [c] rest).skipSeparators := by
    simp only [skipSeparators, moveTo, hrest, List.takeWhile_cons_of_pos hc,
      List.dropWhile_cons_of_pos hc, List.length_cons, List.length_nil, List.count_cons,
      List.count_nil, Scanner.mk.injEq, true_and]
    omega
  unfold next
  rw [hskip]

theorem next_eq_read (hrest : s.rest = c :: rest) (hc : isSeparator c = false) :
    s.next = s.read c rest := by
  have hskip : s.skipSeparators = s := by
    have hneg : ¬ isSeparator c = true := Bool.eq_false_iff.mp hc
    rw [skipSeparators, hrest, List.takeWhile_cons_of_neg hneg, List.dropWhile_cons_of_neg hneg,
      ← hrest]
    rfl
  unfold next
  rw [hskip]
  simp only [hrest]

theorem next_nil (hrest : s.rest = []) :
    s.next = (.finish ⟨.eof, "", ⟨s.position, s.position, s.line⟩⟩, s) := by
  have hskip : s.skipSeparators = s := by
    obtain ⟨rest, start, position, line⟩ := s
    cases hrest
    rfl
  unfold next
  rw [hskip]
  simp only [hrest]

/-! ### Crossing -/

/-- What is left of a source as kinds and texts, or why it cannot be scanned. -/
def lexemes (s : Scanner) : Except LexError (List Lexeme) :=
  s.run.tokens.map (List.map Token.toLexeme)

/-- Scanning goes over a text, finds some lexemes in it and goes on behind it. -/
structure Crosses (s : Scanner) (text : List Char) (found : List Lexeme) (s' : Scanner) : Prop where
  rest : s.rest = text ++ s'.rest
  position : s'.position = s.position + text.length
  line : s'.line = s.line + text.count '\n'
  scanner : s.run.scanner = s'.run.scanner
  lexemes : s.lexemes = s'.lexemes.map (found ++ ·)

theorem Crosses.refl (s : Scanner) : s.Crosses [] [] s := by
  refine ⟨rfl, rfl, rfl, rfl, ?_⟩
  cases s.lexemes <;> rfl

theorem Crosses.trans {text text' : List Char} {found found' : List Lexeme}
    (h : s.Crosses text found s') (h' : s'.Crosses text' found' s'') :
    s.Crosses (text ++ text') (found ++ found') s'' := by
  refine ⟨?_, ?_, ?_, h.scanner.trans h'.scanner, ?_⟩
  · rw [h.rest, h'.rest, List.append_assoc]
  · rw [h'.position, h.position, List.length_append, Nat.add_assoc]
  · rw [h'.line, h.line, List.count_append, Nat.add_assoc]
  · rw [h.lexemes, h'.lexemes]
    cases s''.lexemes with
    | error e => rfl
    | ok found'' => exact congrArg Except.ok (List.append_assoc found found' found'').symm

theorem crosses_separator (hrest : s.rest = c :: rest) (hc : isSeparator c = true) :
    s.Crosses [c] [] (s.moveTo [c] rest) := by
  have hrun := run_congr (next_separator hrest hc)
  refine ⟨hrest, rfl, rfl, by rw [hrun], ?_⟩
  rw [lexemes, hrun]
  exact (Crosses.refl _).lexemes

/-- Separators start nothing that is recognized. -/
theorem isSeparator_eq_false (h : recognize c rest ≠ .unexpectedCharacter) :
    isSeparator c = false := by
  rw [Bool.eq_false_iff]
  intro hc
  simp only [isSeparator, Bool.or_eq_true, beq_iff_eq] at hc
  rcases hc with ((rfl | rfl) | rfl) | rfl <;> exact h rfl

/-! What a run finds, by its first step. -/

theorem lexemes_of_token {t : Token} (h : s.next = (.token t, s')) :
    s.lexemes = s'.lexemes.map ([t.toLexeme] ++ ·) := by
  rw [lexemes, lexemes, run_of_token h]
  unfold Scan.tokens Scan.cons
  cases s'.run.failure <;> rfl

theorem lexemes_of_comment (h : s.next = (.comment, s')) :
    s.lexemes = s'.lexemes.map ([] ++ ·) := by
  rw [lexemes, lexemes, run_of_comment h]
  unfold Scan.tokens Scan.cons
  cases s'.run.failure <;> rfl

theorem lexemes_of_rest_nil (h : s.rest = []) : s.lexemes = .ok [(.eof, "")] := by
  rw [lexemes, run_of_finish (next_nil h)]
  rfl

theorem lexemes_of_failure {e : LexError} (h : s.next = (.failure e, s')) :
    s.lexemes = .error e := by
  rw [lexemes, run_of_failure h]
  rfl

end Scanner

/-- What is recognized as a text, the lexemes in it and what follows it; nothing for a failure. -/
def Recognized.item? : Recognized → Option (List Char × List Lexeme × List Char)
  | token kind text rest => some (text, [(kind, String.ofList text)], rest)
  | string text rest => some ('"' :: text ++ ['"'], [(.string, String.ofList text)], rest)
  | comment text rest => some (text, [], rest)
  | _ => none

namespace Scanner

variable {s : Scanner} {c : Char} {rest text after : List Char} {found : List Lexeme}

/-- What is recognized is crossed. -/
theorem exists_crosses_recognized (hrest : s.rest = c :: rest)
    (h : (recognize c rest).item? = some (text, found, after)) :
    ∃ s', s'.rest = after ∧ s.Crosses text found s' := by
  have htaken := recognize_takenFrom c rest
  have hc : isSeparator c = false := isSeparator_eq_false fun hnone => by
    rw [hnone] at h
    cases h
  have hnext := next_eq_read hrest hc
  unfold read at hnext
  -- tokens, strings and comments are crossed; everything else gives no item
  cases hrecognized : recognize c rest with
  | token kind text rest' =>
    rw [hrecognized] at h htaken hnext
    cases h
    refine ⟨_, rfl, hrest.trans htaken.1, rfl, rfl, ?_, lexemes_of_token hnext⟩
    rw [run_of_token hnext]
    rfl
  | string text rest' =>
    rw [hrecognized] at h htaken hnext
    cases h
    refine ⟨_, rfl, ?_, rfl, rfl, ?_, lexemes_of_token hnext⟩
    · exact (hrest.trans htaken).trans (List.append_cons _ _ _)
    · rw [run_of_token hnext]
      rfl
  | comment text rest' =>
    rw [hrecognized] at h htaken hnext
    have hsplit : c :: rest = text ++ rest' := htaken
    cases h
    refine ⟨_, rfl, hrest.trans hsplit, rfl, rfl, ?_, lexemes_of_comment hnext⟩
    rw [run_of_comment hnext]
    rfl
  | _ =>
    rw [hrecognized] at h
    cases h

/-- A token that is not continued is crossed if something follows it. -/
theorem exists_crosses_written {kind : TokenKind} (hrest : s.rest = text ++ after)
    (hwritten : kind.WrittenAs text) (hmaximal : kind.MaximalBefore text after)
    (hafter : after ≠ []) :
    ∃ s', s'.rest = after ∧ s.Crosses text [(kind, String.ofList text)] s' := by
  obtain ⟨c, rest, rfl⟩ := List.exists_cons_of_ne_nil hwritten.text_ne_nil
  exact exists_crosses_recognized hrest
    (congrArg Recognized.item? (recognize_eq_token hwritten hmaximal hafter rfl))

/-- A string is crossed up to its closing quote. -/
theorem exists_crosses_string (hrest : s.rest = '"' :: text ++ '"' :: after) (htext : '"' ∉ text) :
    ∃ s', s'.rest = after ∧ s.Crosses ('"' :: text ++ ['"']) [(.string, String.ofList text)] s' :=
  exists_crosses_recognized hrest (congrArg Recognized.item? (recognize_string htext after))

end Scanner

/-! ### Whole sources -/

theorem exists_tokens_of_lexemes {source : String} {found : List Lexeme}
    (h : (Scanner.ofSource source).lexemes = .ok found) :
    ∃ tokens, tokenize source = .ok tokens ∧ tokens.map Token.toLexeme = found := by
  change (tokenize source).map (List.map Token.toLexeme) = .ok found at h
  cases htokens : tokenize source with
  | error e =>
    rw [htokens] at h
    cases h
  | ok tokens =>
    rw [htokens] at h
    exact ⟨tokens, rfl, Except.ok.inj h⟩

theorem lexemes_eq_error_iff {source : String} {e : LexError} :
    (Scanner.ofSource source).lexemes = .error e ↔ tokenize source = .error e := by
  change (tokenize source).map (List.map Token.toLexeme) = .error e ↔ _
  cases tokenize source with
  | error e' => exact ⟨congrArg _ ∘ Except.error.inj, congrArg _ ∘ Except.error.inj⟩
  | ok tokens => exact ⟨nofun, nofun⟩

/-! ### Spacing -/

/-- Separators and comments that end with their lines. -/
inductive IsSpacing : List Char → Prop
  | nil : IsSpacing []
  | separator {c : Char} {rest : List Char} : isSeparator c = true → IsSpacing rest →
      IsSpacing (c :: rest)
  | comment {body rest : List Char} : '\n' ∉ body → IsSpacing rest →
      IsSpacing ('/' :: '/' :: body ++ '\n' :: rest)

theorem recognize_comment {body rest : List Char} (hbody : '\n' ∉ body) :
    recognize '/' ('/' :: body ++ '\n' :: rest) = .comment ('/' :: '/' :: body) ('\n' :: rest) := by
  have hinside : ∀ c ∈ '/' :: body, (c != '\n') = true :=
    List.forall_mem_cons.mpr ⟨rfl, fun c hc => bne_iff_ne.mpr (ne_of_mem_of_not_mem hc hbody)⟩
  have hstop : ∀ c ∈ ('\n' :: rest).head?, (c != '\n') = false := by simp
  obtain ⟨htake, hdrop⟩ := takeWhile_dropWhile_append hinside hstop
  change Recognized.comment ('/' :: List.takeWhile _ _) (List.dropWhile _ _) = _
  rw [htake, hdrop]

/-- Spacing is crossed, and there are no lexemes in it. -/
theorem IsSpacing.crosses {text : List Char} (h : IsSpacing text) {s : Scanner}
    {after : List Char} (hrest : s.rest = text ++ after) :
    ∃ s', s'.rest = after ∧ s.Crosses text [] s' := by
  induction h generalizing s with
  | nil => exact ⟨s, hrest, .refl s⟩
  | separator hc _ ih =>
    obtain ⟨s', hafter, hcrosses⟩ := ih (s := s.moveTo [_] _) rfl
    exact ⟨s', hafter, (Scanner.crosses_separator hrest hc).trans hcrosses⟩
  | @comment body rest hbody _ ih =>
    -- the end of the line is a separator behind the comment
    rw [List.append_assoc] at hrest
    obtain ⟨s₁, hrest₁, hcomment⟩ := Scanner.exists_crosses_recognized hrest
      (congrArg Recognized.item? (recognize_comment hbody))
    obtain ⟨s', hafter, hcrosses⟩ := ih (s := s₁.moveTo ['\n'] _) rfl
    exact ⟨s', hafter, hcomment.trans ((Scanner.crosses_separator hrest₁ rfl).trans hcrosses)⟩

end StackScript
