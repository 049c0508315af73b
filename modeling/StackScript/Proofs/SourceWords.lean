import StackScript.Proofs.DataLayout
import StackScript.Proofs.Evaluation
import StackScript.Proofs.Grammar
import StackScript.Script

/-!
# The words of a source

The names and the string literals of a program are words of its source. Scanning cuts the source
into lexemes, and parsing keeps those of names and literals in their order. So every name is a word,
and the literals together have no more bytes than the source.

## Main definitions

* `Recognized.TakenFrom`: what was recognized stands at the front of some characters.
* `Lexeme`: the kind of a token and the text it was read from.
* `Expr.lexemes`: the names and the string literals of a node.
* `IsNameAmong`: a text is a name among some lexemes.
* `Program.WordsOf`: the names and the string literals of a program are words of a source.

## Main results

* `recognize_cases`: what is recognized at a character, by the character.
* `recognize_takenFrom`: what is recognized at a character stands there.
* `Scanner.run_lexemes`: identifiers are words, and lexemes do not overlap.
* `Parses.lexemes_sublist`: names and literals are read in order.
* `wordsOf_of_parseSource`: the program of a source has its words.
-/

namespace StackScript

/-! ### Scanning -/

/-- What is recognized at a character, by the character. -/
theorem recognize_cases {c : Char} {rest : List Char} {motive : Recognized → Prop}
    (word : isLetter c = true → motive (recognizeWord c rest))
    (number : c.isDigit = true → motive (recognizeNumber c rest))
    (single : ∀ kind, singleCharacter? c = some kind → motive (.token kind [c] rest))
    (slash : c = '/' → motive (recognizeSlash rest))
    (continuable : ∀ short long, c ≠ '/' → continuable? c = some (short, long) →
      motive (recognizeContinuable c short long rest))
    (string : c = '"' → motive (recognizeString rest))
    (other : isLetter c = false → c.isDigit = false → singleCharacter? c = none → c ≠ '/' →
      continuable? c = none → c ≠ '"' → motive .unexpectedCharacter) :
    motive (recognize c rest) := by
  -- The tests are made in the scanner's order, and each case knows that those before it failed.
  unfold recognize
  by_cases hletter : isLetter c = true
  · rw [if_pos hletter]
    exact word hletter
  rw [if_neg hletter]
  by_cases hdigit : c.isDigit = true
  · rw [if_pos hdigit]
    exact number hdigit
  rw [if_neg hdigit]
  split
  · rename_i kind hsingle
    exact single kind hsingle
  rename_i hsingle
  by_cases hslash : c = '/'
  · rw [if_pos hslash]
    exact slash hslash
  rw [if_neg hslash]
  split
  · rename_i short long hcontinuable
    exact continuable short long hslash hcontinuable
  rename_i hcontinuable
  by_cases hquote : c = '"'
  · rw [if_pos hquote]
    exact string hquote
  · rw [if_neg hquote]
    exact other (Bool.eq_false_iff.mpr hletter) (Bool.eq_false_iff.mpr hdigit) hsingle hslash
      hcontinuable hquote

/-- What was recognized stands at the front of some characters, and an identifier is a word. -/
def Recognized.TakenFrom (characters : List Char) : Recognized → Prop
  | token kind text rest =>
    characters = text ++ rest ∧ (kind = .identifier → ∀ c ∈ text, isWordCharacter c = true)
  | string text rest => characters = '"' :: text ++ '"' :: rest
  | comment text rest => characters = text ++ rest
  | _ => True

section

variable (c : Char) (rest : List Char)

theorem recognizeWord_takenFrom (h : isLetter c = true) :
    (recognizeWord c rest).TakenFrom (c :: rest) := by
  refine ⟨?_, fun _ => ?_⟩
  · rw [List.cons_append, List.takeWhile_append_dropWhile]
  · refine List.forall_mem_cons.mpr ⟨isWordCharacter_of_isLetter h, fun x hx => ?_⟩
    exact List.mem_takeWhile_imp hx

theorem recognizeNumber_takenFrom : (recognizeNumber c rest).TakenFrom (c :: rest) := by
  have hdigits := List.takeWhile_append_dropWhile (p := Char.isDigit) (l := rest)
  unfold recognizeNumber
  split
  · rename_i d more hmore
    rw [hmore] at hdigits
    by_cases hd : d.isDigit = true
    · rw [if_pos hd]
      refine ⟨?_, fun hkind => by cases hkind⟩
      rw [List.append_assoc, List.cons_append, List.cons_append, List.cons_append,
        List.takeWhile_append_dropWhile, hdigits]
    · rw [if_neg hd]
      exact ⟨by rw [List.cons_append, hdigits], fun hkind => by cases hkind⟩
  · exact ⟨by rw [List.cons_append, hdigits], fun hkind => by cases hkind⟩

theorem recognizeSlash_takenFrom : (recognizeSlash rest).TakenFrom ('/' :: rest) := by
  unfold recognizeSlash
  split
  · trivial
  · change '/' :: _ = '/' :: _ ++ _
    rw [List.cons_append, List.takeWhile_append_dropWhile]
  · exact ⟨rfl, fun hkind => by cases hkind⟩

theorem recognizeContinuable_takenFrom {single double : TokenKind}
    (h : continuable? c = some (single, double)) :
    (recognizeContinuable c single double rest).TakenFrom (c :: rest) := by
  have hkinds : single ≠ .identifier ∧ double ≠ .identifier := by
    unfold continuable? at h
    split at h <;> cases h <;> decide
  unfold recognizeContinuable
  split
  · trivial
  · exact ⟨rfl, fun hkind => absurd hkind hkinds.2⟩
  · exact ⟨rfl, fun hkind => absurd hkind hkinds.1⟩

theorem recognizeString_takenFrom : (recognizeString rest).TakenFrom ('"' :: rest) := by
  have hclosing := List.head?_dropWhile_not (· != '"') rest
  have hsplit := List.takeWhile_append_dropWhile (p := (· != '"')) (l := rest)
  unfold recognizeString
  split
  · trivial
  · rename_i closing other hdrop
    rw [hdrop] at hclosing hsplit
    have hquote : closing = '"' := by simpa using hclosing
    rw [hquote] at hsplit
    change '"' :: rest = '"' :: _ ++ _
    rw [List.cons_append, hsplit]

/-- What is recognized at a character stands there. -/
theorem recognize_takenFrom : (recognize c rest).TakenFrom (c :: rest) := by
  apply recognize_cases (motive := Recognized.TakenFrom (c :: rest))
  case word => exact recognizeWord_takenFrom c rest
  case number => exact fun _ => recognizeNumber_takenFrom c rest
  case single =>
    intro kind hsingle
    refine ⟨rfl, fun hkind => ?_⟩
    -- no single character is an identifier
    rw [hkind] at hsingle
    unfold singleCharacter? at hsingle
    split at hsingle <;> cases hsingle
  case slash =>
    rintro rfl
    exact recognizeSlash_takenFrom rest
  case continuable => exact fun _ _ _ h => recognizeContinuable_takenFrom c rest h
  case string =>
    rintro rfl
    exact recognizeString_takenFrom rest
  case other => exact fun _ _ _ _ _ _ => trivial

end

/-- The kind of a token and the text it was read from. -/
abbrev Lexeme := TokenKind × String

/-- The lexeme of a token. -/
def Token.toLexeme (t : Token) : Lexeme := (t.kind, t.lexeme)

/-- An identifier is a word. -/
def Lexeme.IsSpelled (l : Lexeme) : Prop :=
  l.1 = .identifier → ∀ c ∈ l.2.toList, isWordCharacter c = true

/-- The number of bytes of lexemes. -/
def bytesOf (lexemes : List Lexeme) : Nat :=
  totalLength (lexemes.map fun l => utf8 l.2)

@[simp] theorem bytesOf_append (lexemes more : List Lexeme) :
    bytesOf (lexemes ++ more) = bytesOf lexemes + bytesOf more := by
  simp [bytesOf]

@[simp] theorem bytesOf_cons (l : Lexeme) (lexemes : List Lexeme) :
    bytesOf (l :: lexemes) = (utf8 l.2).length + bytesOf lexemes := by
  simp [bytesOf, totalLength]

theorem bytesOf_le_of_sublist {lexemes all : List Lexeme} (h : lexemes.Sublist all) :
    bytesOf lexemes ≤ bytesOf all := by
  induction h with
  | slnil => exact Nat.le_refl _
  | cons l _ ih =>
    rw [bytesOf_cons]
    omega
  | cons_cons l _ ih =>
    rw [bytesOf_cons, bytesOf_cons]
    omega

theorem utf8Characters_append (text more : List Char) :
    utf8Characters (text ++ more) = utf8Characters text ++ utf8Characters more :=
  List.flatMap_append

namespace Scanner

/-- A step takes a token from what is left, or leaves no more than it found. -/
def Steps (before after : List Char) : ScanStep → Prop
  | .token t => t.toLexeme.IsSpelled ∧
    (utf8 t.lexeme).length + (utf8Characters after).length ≤ (utf8Characters before).length
  | .comment => (utf8Characters after).length ≤ (utf8Characters before).length
  | .finish t => t.toLexeme = (.eof, "")
  | .failure _ => True

theorem read_steps (s : Scanner) (c : Char) (rest : List Char) :
    Steps (c :: rest) (s.read c rest).2.rest (s.read c rest).1 := by
  have htaken := recognize_takenFrom c rest
  unfold Scanner.read
  split
  · -- a token takes exactly the bytes of its text
    rename_i kind text after hrecognize
    rw [hrecognize] at htaken
    obtain ⟨heq, hword⟩ := htaken
    change Lexeme.IsSpelled (kind, .ofList text) ∧
      (utf8 (.ofList text)).length + (utf8Characters after).length ≤ _
    rw [heq, utf8Characters_append, List.length_append, utf8, String.toList_ofList]
    refine ⟨fun hkind => ?_, Nat.le_refl _⟩
    rw [String.toList_ofList]
    exact hword hkind
  · -- a string takes its two quotes as well
    rename_i text after hrecognize
    rw [hrecognize] at htaken
    change Lexeme.IsSpelled (.string, .ofList text) ∧
      (utf8 (.ofList text)).length + (utf8Characters after).length ≤ _
    refine ⟨fun hkind => (by cases hkind), ?_⟩
    have heq : c :: rest = ['"'] ++ (text ++ (['"'] ++ after)) := htaken.trans (by simp)
    simp only [heq, utf8Characters_append, List.length_append, utf8, String.toList_ofList]
    omega
  · -- a comment takes bytes and gives nothing
    rename_i text after hrecognize
    rw [hrecognize] at htaken
    change (utf8Characters after).length ≤ _
    rw [(htaken : c :: rest = text ++ after), utf8Characters_append, List.length_append]
    omega
  all_goals trivial

theorem Steps.append {before after : List Char} {step : ScanStep} (h : Steps before after step)
    (skipped : List Char) : Steps (skipped ++ before) after step := by
  cases step with
  | token t =>
    refine ⟨h.1, h.2.trans ?_⟩
    rw [utf8Characters_append, List.length_append]
    omega
  | comment =>
    refine Nat.le_trans h ?_
    rw [utf8Characters_append, List.length_append]
    omega
  | finish t => exact h
  | failure e => trivial

theorem next_steps (s : Scanner) : Steps s.rest s.next.2.rest s.next.1 := by
  have hsplit := List.takeWhile_append_dropWhile (p := isSeparator) (l := s.rest)
  rw [← hsplit]
  refine Steps.append ?_ _
  have hrest : s.skipSeparators.rest = s.rest.dropWhile isSeparator := rfl
  unfold Scanner.next
  rw [← hrest]
  dsimp only
  split
  · rfl
  · rename_i c rest heq
    rw [heq]
    exact read_steps _ c rest

/-- The tokens of a scan: identifiers are words, and the lexemes have no more bytes than what was
left. -/
theorem run_lexemes (s : Scanner) :
    (∀ t ∈ s.run.found.filterMap id, t.toLexeme.IsSpelled) ∧
      bytesOf ((s.run.found.filterMap id).map Token.toLexeme) ≤ (utf8Characters s.rest).length := by
  fun_induction Scanner.run s with
  | case1 s t s' hnext _ ih =>
    have hstep := s.next_steps
    rw [hnext] at hstep
    obtain ⟨hspelled, hbytes⟩ := hstep
    obtain ⟨hall, hrest⟩ := ih
    refine ⟨List.forall_mem_cons.mpr ⟨hspelled, hall⟩, ?_⟩
    -- the token and what follows it share the bytes that were there
    exact (Nat.add_le_add_left hrest _).trans hbytes
  | case2 s s' hnext _ ih =>
    have hstep := s.next_steps
    rw [hnext] at hstep
    exact ⟨ih.1, ih.2.trans hstep⟩
  | case3 s t s' hnext =>
    have hstep := s.next_steps
    rw [hnext] at hstep
    have heof : t.toLexeme = (.eof, "") := hstep
    refine ⟨List.forall_mem_singleton.mpr ?_, ?_⟩
    · rw [heof]
      exact fun hkind => by cases hkind
    · change bytesOf [t.toLexeme] ≤ _
      rw [heof]
      exact Nat.zero_le _
  | case4 s e s' hnext => exact ⟨by simp, Nat.zero_le _⟩

end Scanner

theorem tokenize_lexemes {source : String} {tokens : List Token}
    (h : tokenize source = .ok tokens) :
    (∀ t ∈ tokens, t.toLexeme.IsSpelled) ∧
      bytesOf (tokens.map Token.toLexeme) ≤ (utf8 source).length := by
  have hrun := (Scanner.ofSource source).run_lexemes
  unfold tokenize Scan.tokens at h
  split at h
  · cases h
  · cases h
    exact hrun

/-! ### Programs -/

namespace Expr

mutual

/-- The names and the string literals of a node, in the order of the text. -/
@[simp] def lexemes : Expr → List Lexeme
  | block body _ => allLexemes body
  | binary left _ right _ => left.lexemes ++ right.lexemes
  | unary _ operand _ => operand.lexemes
  | declare name value _ => (.identifier, name) :: value.lexemes
  | get name _ => [(.identifier, name)]
  | assign name value _ => (.identifier, name) :: value.lexemes
  | print value _ => value.lexemes
  | ifElse condition thenBranch none _ => condition.lexemes ++ thenBranch.lexemes
  | ifElse condition thenBranch (some elseBranch) _ =>
    condition.lexemes ++ thenBranch.lexemes ++ elseBranch.lexemes
  | function name params body _ =>
    (.identifier, name) :: params.map (TokenKind.identifier, ·) ++ allLexemes body
  | call callee args _ => callee.lexemes ++ allLexemes args
  | literal .string (.text (.plain text)) _ => [(.string, text)]
  | literal _ _ _ => []

/-- The names and the string literals of some nodes, in the order of the text. -/
@[simp] def allLexemes : List Expr → List Lexeme
  | [] => []
  | e :: rest => e.lexemes ++ allLexemes rest

end

end Expr

/-- The names and the string literals of a phrase. Those of operators are in the expression that
they make. -/
@[simp] def Phrase.lexemes : Phrase → List Lexeme
  | expression _ e | operand e | operators _ _ e | simple e | statement e => e.lexemes
  | arguments list | block list | program list => Expr.allLexemes list
  | parameters params => params.map (TokenKind.identifier, ·)

/-- The names and the string literals that were read before a phrase and belong to it. -/
@[simp] def Phrase.given : Phrase → List Lexeme
  | operators _ left _ => left.lexemes
  | _ => []

theorem Token.toLexeme_eq {t : Token} {kind : TokenKind} (h : t.kind = kind) :
    t.toLexeme = (kind, t.lexeme) := by
  rw [Token.toLexeme, h]

/-- A phrase after another. -/
theorem sublist_of_append {α : Type} {first second after between all : List α}
    (hsecond : (second ++ after).Sublist between) (hfirst : (first ++ between).Sublist all) :
    (first ++ second ++ after).Sublist all := by
  rw [List.append_assoc]
  exact (hsecond.append_left first).trans hfirst

/-- Names and literals are read in their order. -/
theorem Parses.lexemes_sublist {phrase : Phrase} {ts rest : List Token}
    (h : Parses phrase ts rest) :
    (phrase.lexemes ++ rest.map Token.toLexeme).Sublist
      (phrase.given ++ ts.map Token.toLexeme) := by
  induction h with
  | expression _ _ ihoperand ihoperators => exact ihoperators.trans ihoperand
  | string hkind => simp [Token.toLexeme_eq hkind]
  | assign hkind _ _ ih =>
    simp only [Phrase.lexemes, Phrase.given, Expr.lexemes, List.map_cons, Token.toLexeme_eq hkind]
    exact (ih.cons _).cons_cons _
  | get hkind _ => simp [Token.toLexeme_eq hkind]
  | not _ _ ih => exact ih.cons _
  | negate _ _ ih => exact ih.cons _
  | stop _ => exact .refl _
  | binary _ _ _ _ ihright ihwhole =>
    -- the operand on the left was read before, the one on the right comes behind the operator
    refine ihwhole.trans ?_
    simp only [Phrase.given, Expr.lexemes, List.append_assoc]
    exact (ihright.cons _).append_left _
  | call _ _ _ _ ihargs ihwhole =>
    refine ihwhole.trans ?_
    simp only [Phrase.given, Expr.lexemes, List.append_assoc]
    exact (ihargs.cons _).append_left _
  | argument _ _ _ _ _ ih ihrest => exact sublist_of_append (ihrest.cons _) ih
  | lastArgument _ _ _ _ ih => exact sublist_of_append (List.sublist_cons_self _ _) ih
  | parameter hkind _ _ ih =>
    simp only [Phrase.lexemes, Phrase.given, List.map_cons, Token.toLexeme_eq hkind]
    exact (ih.cons _).cons_cons _
  | lastParameter hkind _ => simp [Token.toLexeme_eq hkind]
  | ended _ _ ih => exact ((List.sublist_cons_self _ _).append_left _).trans ih
  | unended _ _ ih => exact ih
  | declare _ hname _ _ ih =>
    simp only [Phrase.lexemes, Phrase.given, Expr.lexemes, List.map_cons, Token.toLexeme_eq hname]
    exact ((ih.cons _).cons_cons _).cons _
  | declareZero _ hname _ =>
    simp only [Phrase.lexemes, Phrase.given, Expr.lexemes, List.map_cons, Token.toLexeme_eq hname]
    exact ((List.sublist_cons_self _ _).cons_cons _).cons _
  | function _ hname _ _ _ _ ihparams ihbody =>
    simp only [Phrase.lexemes, Phrase.given, Expr.lexemes, List.map_cons, Token.toLexeme_eq hname]
    exact (((sublist_of_append (ihbody.cons _) ihparams).cons _).cons_cons _).cons _
  | print _ _ ih => exact ih.cons _
  | ifThen _ _ _ _ ihcondition ihthen => exact (sublist_of_append ihthen ihcondition).cons _
  | ifElse _ _ _ _ _ ihcondition ihthen ihelse =>
    exact (sublist_of_append (ihelse.cons _) (sublist_of_append ihthen ihcondition)).cons _
  | braces _ _ ih => exact ih.cons _
  | plain _ _ ih => exact ih
  | blockNext _ _ _ _ ih ihrest => exact sublist_of_append ihrest ih
  | programEnd _ => exact .refl _
  | programNext _ _ _ ih ihrest => exact sublist_of_append ihrest ih
  | _ => exact List.sublist_cons_self _ _

/-- A text is one of the names among some lexemes. -/
def IsNameAmong (lexemes : List Lexeme) (text : Text) : Prop :=
  ∃ name : String, text = name ∧ (TokenKind.identifier, name) ∈ lexemes

theorem IsNameAmong.mono {lexemes more : List Lexeme} {text : Text} (h : IsNameAmong lexemes text)
    (hsubset : lexemes ⊆ more) : IsNameAmong more text := by
  obtain ⟨name, rfl, hname⟩ := h
  exact ⟨name, rfl, hsubset hname⟩

/-- The names of a function: its own, those of its parameters, and those that its body declares. -/
def FunctionDef.names (d : FunctionDef) : List Text :=
  d.name :: d.params ++ Expr.allLets d.body

namespace Expr

mutual

/-- The names that a statement declares are among its names. -/
theorem isNameAmong_of_mem_lets : ∀ (e : Expr) {x : Text}, x ∈ e.lets → IsNameAmong e.lexemes x
  | block body _, _, h => isNameAmong_of_mem_allLets body h
  | declare name _ _, _, h => by
    cases List.mem_singleton.mp h
    exact ⟨name, rfl, List.mem_cons_self⟩
  | ifElse condition thenBranch none _, _, h =>
    (isNameAmong_of_mem_lets thenBranch h).mono (List.subset_append_right _ _)
  | ifElse condition thenBranch (some elseBranch) _, _, h => by
    rcases List.mem_append.mp h with h | h
    · exact (isNameAmong_of_mem_lets thenBranch h).mono
        (List.subset_append_of_subset_left _ (List.subset_append_right _ _))
    · exact (isNameAmong_of_mem_lets elseBranch h).mono (List.subset_append_right _ _)
  | binary .., _, h | unary .., _, h | get .., _, h | assign .., _, h | print .., _, h
  | function .., _, h | call .., _, h | literal .., _, h => by cases h

theorem isNameAmong_of_mem_allLets : ∀ (list : List Expr) {x : Text}, x ∈ allLets list →
    IsNameAmong (allLexemes list) x
  | [], _, h => by cases h
  | e :: rest, _, h => by
    rcases List.mem_append.mp h with h | h
    · exact (isNameAmong_of_mem_lets e h).mono (List.subset_append_left _ _)
    · exact (isNameAmong_of_mem_allLets rest h).mono (List.subset_append_right _ _)

end

/-- The names of a definition are among its names and those of its body. -/
theorem isNameAmong_function {name : String} {params : List String} {body : List Expr} {x : Text}
    (h : x ∈ FunctionDef.names ⟨name, params.map .plain, body⟩) (line : Line) :
    IsNameAmong (function name params body line).lexemes x := by
  rcases List.mem_append.mp h with h | h
  · rcases List.mem_cons.mp h with rfl | h
    · exact ⟨name, rfl, List.mem_cons_self⟩
    · obtain ⟨param, hparam, rfl⟩ := List.mem_map.mp h
      exact ⟨param, rfl,
        List.mem_append_left _ (List.mem_cons_of_mem _ (List.mem_map_of_mem hparam))⟩
  · exact (isNameAmong_of_mem_allLets body h).mono (List.subset_append_right _ _)

mutual

/-- The names of the functions that a statement defines are among its names. -/
theorem isNameAmong_of_mem_functions : ∀ (e : Expr) {d : FunctionDef}, d ∈ e.functions →
    ∀ x ∈ d.names, IsNameAmong e.lexemes x
  | block body _, _, h, x, hx => isNameAmong_of_mem_allFunctions body h x hx
  | ifElse condition thenBranch none _, _, h, x, hx =>
    (isNameAmong_of_mem_functions thenBranch h x hx).mono (List.subset_append_right _ _)
  | ifElse condition thenBranch (some elseBranch) _, _, h, x, hx => by
    rcases List.mem_append.mp h with h | h
    · exact (isNameAmong_of_mem_functions thenBranch h x hx).mono
        (List.subset_append_of_subset_left _ (List.subset_append_right _ _))
    · exact (isNameAmong_of_mem_functions elseBranch h x hx).mono (List.subset_append_right _ _)
  | function _ _ _ line, _, h, x, hx => by
    cases List.mem_singleton.mp h
    exact isNameAmong_function hx line
  | binary .., _, h, _, _ | unary .., _, h, _, _ | declare .., _, h, _, _ | get .., _, h, _, _
  | assign .., _, h, _, _ | print .., _, h, _, _ | call .., _, h, _, _
  | literal .., _, h, _, _ => by
    cases h

theorem isNameAmong_of_mem_allFunctions : ∀ (list : List Expr) {d : FunctionDef},
    d ∈ allFunctions list → ∀ x ∈ d.names, IsNameAmong (allLexemes list) x
  | [], _, h, _, _ => by cases h
  | e :: rest, _, h, x, hx => by
    rcases List.mem_append.mp h with h | h
    · exact (isNameAmong_of_mem_functions e h x hx).mono (List.subset_append_left _ _)
    · exact (isNameAmong_of_mem_allFunctions rest h x hx).mono (List.subset_append_right _ _)

end

mutual

/-- The string literals of a node have no more bytes than its lexemes. -/
theorem totalLength_strings_le : ∀ e : Expr, totalLength e.strings ≤ bytesOf e.lexemes
  | block body _ => totalLength_allStrings_le body
  | binary left _ right _ => by
    simpa using Nat.add_le_add (totalLength_strings_le left) (totalLength_strings_le right)
  | unary _ operand _ => totalLength_strings_le operand
  | declare _ value _ => by
    simpa using Nat.le_add_left_of_le (totalLength_strings_le value)
  | get _ _ => Nat.zero_le _
  | assign _ value _ => by
    simpa using Nat.le_add_left_of_le (totalLength_strings_le value)
  | print value _ => totalLength_strings_le value
  | ifElse condition thenBranch none _ => by
    simpa using
      Nat.add_le_add (totalLength_strings_le condition) (totalLength_strings_le thenBranch)
  | ifElse condition thenBranch (some elseBranch) _ => by
    simpa using Nat.add_le_add (totalLength_strings_le condition)
      (Nat.add_le_add (totalLength_strings_le thenBranch) (totalLength_strings_le elseBranch))
  | function _ params body _ => by
    -- the names count towards the bytes, and hold no texts
    have hbody := totalLength_allStrings_le body
    simp only [strings, lexemes, List.cons_append, bytesOf_cons, bytesOf_append]
    omega
  | call _ args _ => by
    simpa using Nat.le_add_left_of_le (totalLength_allStrings_le args)
  | literal kind value _ => by
    unfold strings
    split <;> simp_all [totalLength, bytesOf]

theorem totalLength_allStrings_le : ∀ list : List Expr,
    totalLength (allStrings list) ≤ bytesOf (allLexemes list)
  | [] => Nat.le_refl _
  | e :: rest => by
    simpa using Nat.add_le_add (totalLength_strings_le e) (totalLength_allStrings_le rest)

end

end Expr

/-! ### Sources -/

/-- Every name and every string literal of a program is a lexeme of its source. -/
structure Program.WordsOf (source : String) (program : Program) : Prop where
  spelled : ∀ l ∈ Expr.allLexemes program, l.IsSpelled
  bytes : bytesOf (Expr.allLexemes program) ≤ (utf8 source).length

/-- The program of a source is read from its tokens. -/
theorem exists_parses_of_parseSource {source : String} {program : Program}
    (h : parseSource source = .ok program) :
    ∃ tokens rest, tokenize source = .ok tokens ∧ Parses (.program program) tokens rest := by
  unfold parseSource readSource at h
  cases htokens : tokenize source with
  | error e =>
    rw [htokens] at h
    cases h
  | ok tokens =>
    rw [htokens] at h
    dsimp only at h
    cases hparse : parseProgram tokens with
    | error e =>
      rw [hparse] at h
      cases h
    | ok parsed =>
      rw [hparse] at h
      cases h
      exact ⟨tokens, parsed.rest, rfl, parses_of_parseProgram hparse⟩

theorem wordsOf_of_parseSource {source : String} {program : Program}
    (h : parseSource source = .ok program) : program.WordsOf source := by
  obtain ⟨tokens, rest, htokens, hparses⟩ := exists_parses_of_parseSource h
  obtain ⟨hspelled, hbytes⟩ := tokenize_lexemes htokens
  have hprogram : (Expr.allLexemes program).Sublist (tokens.map Token.toLexeme) :=
    (List.sublist_append_left _ _).trans hparses.lexemes_sublist
  refine ⟨fun l hl => ?_, (bytesOf_le_of_sublist hprogram).trans hbytes⟩
  obtain ⟨t, ht, rfl⟩ := List.mem_map.mp (hprogram.subset hl)
  exact hspelled t ht

end StackScript
