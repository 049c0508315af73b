import StackScript.Proofs.ImportNames
import StackScript.Proofs.LoweringFailures
import StackScript.Proofs.SourceTiling

/-!
# How compiling fails

A source is compiled to a text or fails in a way that its writer is told about, at the stage that
finds the fault: scanning, parsing or lowering. What is found can always be written.

Two failures have no words, and both come from a number of the source that has no fraction. One with
too many digits is not read at all. In a module of floats, one beyond the range of doubles is read
but has no value. A fraction is harmless: it is read as the nearest double, which may be infinite,
and a module of integers refuses it with words.

## Main definitions

* `WholeNumberOf`: a number without a fraction among the tokens of a source.
* `Failure.ArisesFrom`: the ways in which compiling a source may fail.

## Main results

* `numberOfLexeme?_cases`: what a number token is read as.
* `doubleOfInt_eq_error`: the integers that have no double.
* `stopsOnly_constant_int`, `stopsOnly_constant_real`: how pushing a number fails.
* `exists_writeModule_of_compileModule`: a module that a source is compiled to can be written.
* `compileText_ok_or_arisesFrom`: compiling gives a text or fails in one of these ways.
-/

namespace StackScript

/-! ### Number tokens -/

/-- A number without a fraction among the tokens of a source. -/
def WholeNumberOf (source lexeme : String) : Prop :=
  ∃ tokens, tokenize source = .ok tokens ∧
    ∃ t ∈ tokens, t.kind = .number ∧ t.lexeme = lexeme ∧ '.' ∉ lexeme.toList

namespace Numeral

/-- Digits are read as an integer unless there are too many of them. -/
theorem integer?_digits {digits : List Char} (hne : digits ≠ [])
    (hdigits : ∀ c ∈ digits, c.isDigit = true) :
    integer? (String.ofList digits) =
      if maxDigits < digits.length then none else some (natOfDigits digits : Int) := by
  have hmagnitude := isMagnitude_of_digits hdigits hne
  have hnormal := hmagnitude.normalize_signedText false
  have hsign := hmagnitude.splitSign_signedText false
  have hall : digits.all Char.isDigit = true := List.all_eq_true.mpr hdigits
  change normalize digits = some digits at hnormal
  change splitSign digits = (false, digits) at hsign
  unfold integer?
  rw [String.toList_ofList, hnormal]
  simp only [Option.bind_eq_bind, Option.bind_some, hsign, hall, Bool.not_true, Bool.or_false,
    List.isEmpty_eq_false_iff.mpr hne, Bool.false_or, decide_eq_true_eq, Bool.false_eq_true,
    if_false]

/-- Digits around a point are always read. -/
theorem exists_real?_point {whole fraction : List Char} (hne : whole ≠ [])
    (hwhole : ∀ c ∈ whole, c.isDigit = true) (hfraction : ∀ c ∈ fraction, c.isDigit = true) :
    ∃ x, real? (String.ofList (whole ++ '.' :: fraction)) = some x := by
  have hmagnitude : IsMagnitude (whole ++ '.' :: fraction) :=
    (isMagnitude_of_digits hwhole hne).append
      (List.forall_mem_cons.mpr ⟨rfl, fun c hc => isNumberCharacter_of_isDigit (hfraction c hc)⟩)
  have hdecimal : decimal? (whole ++ '.' :: (fraction ++ [])) =
      some ⟨natOfDigits (whole ++ fraction), 0 - fraction.length⟩ :=
    decimal?_point hwhole hne hfraction (by simp) rfl
  rw [List.append_nil] at hdecimal
  exact ⟨_, hmagnitude.real?_eq hdecimal false⟩

end Numeral

/-- What a number token is read as. Only one without a fraction can fail, and only if it is too
long. -/
theorem numberOfLexeme?_cases {lexeme : String} (h : TokenKind.number.WrittenAs lexeme.toList) :
    ('.' ∉ lexeme.toList ∧ Numeral.maxDigits < lexeme.length ∧ numberOfLexeme? lexeme = none) ∨
      ('.' ∉ lexeme.toList ∧
        numberOfLexeme? lexeme = some (.int (Numeral.natOfDigits lexeme.toList))) ∨
      ∃ x, numberOfLexeme? lexeme = some (.real x) := by
  obtain ⟨text, rfl⟩ : ∃ text, lexeme = String.ofList text := ⟨_, String.ofList_toList.symm⟩
  rw [String.toList_ofList] at h ⊢
  cases h with
  | fixed hspelling => cases hspelling
  | whole hne hdigits =>
    have hpoint : '.' ∉ text := fun hmem => absurd (hdigits '.' hmem) (by decide)
    have hread : numberOfLexeme? (String.ofList text) =
        (Numeral.integer? (String.ofList text)).map .int := by
      rw [numberOfLexeme?, String.toList_ofList, if_neg (by simpa using hpoint)]
    -- without a point, only the number of digits can stop the reading
    rw [hread, Numeral.integer?_digits hne hdigits, String.length_ofList]
    split
    · rename_i hlong
      exact .inl ⟨hpoint, hlong, rfl⟩
    · exact .inr (.inl ⟨hpoint, rfl⟩)
  | @fraction digits decimals hne hdigits _ hdecimals =>
    obtain ⟨x, hx⟩ := Numeral.exists_real?_point hne hdigits hdecimals
    refine .inr (.inr ⟨x, ?_⟩)
    rw [numberOfLexeme?, String.toList_ofList, if_pos (by simp), hx]
    rfl

/-! ### Literals -/

/-- An integer has a double unless it lies beyond their range by half a place or more. -/
theorem doubleOfInt_eq_error {n : Int} {error : ConversionError}
    (h : Datum.doubleOfInt n = .error error) :
    error = .overflow ∧ 2 ^ 1024 - 2 ^ 970 ≤ n.natAbs := by
  have hlimit : (2 * Format.binary64.significandBound - 1) * 2 ^ Format.binary64.maxExponent.toNat =
      2 * (2 ^ 1024 - 2 ^ 970) := by
    decide +kernel
  unfold Datum.doubleOfInt at h
  dsimp only at h
  split at h
  · rename_i hinfinite
    cases h
    refine ⟨rfl, ?_⟩
    -- below the limit, the integer rounds to a finite number
    by_contra hsmall
    have hlt : 2 * n.natAbs < 2 * (2 ^ 1024 - 2 ^ 970) :=
      Nat.mul_lt_mul_of_pos_left (Nat.lt_of_not_le hsmall) Nat.two_pos
    rw [← hlimit] at hlt
    obtain ⟨m, e, hcanonical, hfinite⟩ := Floating.ofInt_eq_finite_of_lt (by decide) (by decide) hlt
    rw [hfinite] at hinfinite
    cases hinfinite
  · cases h

/-- A whole double has an integer part. -/
theorem Floating.exists_truncate {fmt : Format} {x : Floating fmt} (h : x.isWhole = true) :
    ∃ n, x.truncate = .ok n := by
  cases x with
  | nan => cases h
  | infinite => cases h
  | finite negative m e hcanonical => exact ⟨_, rfl⟩

section Literals

open Lower

variable {P : CompileError → Prop}

theorem stopsOnly_ofConversion {α : Type} {x : Except ConversionError α}
    (h : ∀ error, x = .error error → P (.literal error)) : StopsOnly P (ofConversion x) := by
  cases x with
  | ok a => exact stopsOnly_pure a
  | error e => exact stopsOnly_stop (h e rfl)

theorem isFloat_of_width? {t : ValueType} (h : t.width? = none) : t.isFloat = true := by
  cases t with
  | i32 | i64 => cases h
  | f32 | f64 => rfl

variable (hfault : ∀ fault line, P (.fault fault line))

include hfault

/-- A number that has an integer part is pushed if that is in range. -/
theorem stopsOnly_range {t : ValueType} {width : Nat} {number : Datum} {n : Int} {line : Line}
    (hn : number.toInteger = .ok n) : StopsOnly P (do
      let k ← ofConversion number.toInteger
      if wrap width k = k then emit (.const (.int k)) else fail (.literalOutOfRange k t) line) := by
  refine (stopsOnly_ofConversion ?_).bind fun k => ?_
  · intro error herror
    rw [hn] at herror
    cases herror
  · split
    · exact stopsOnly_emit _
    · exact stopsOnly_fail hfault _ _

/-- An integer has a value of a type unless it has no double or is out of range. -/
theorem stopsOnly_constant_int (t : ValueType) (n : Int) (line : Line)
    (h : t.isFloat = true → ∀ error, Datum.doubleOfInt n = .error error → P (.literal error)) :
    StopsOnly P (constant t (.int n) line) := by
  unfold constant
  split
  · rename_i hwidth
    refine (stopsOnly_ofConversion ?_).bind fun _ => stopsOnly_emit _
    exact h (isFloat_of_width? hwidth)
  · exact stopsOnly_range hfault rfl

/-- A double has a value of a type unless it is not whole or out of range. -/
theorem stopsOnly_constant_real (t : ValueType) (x : Double) (line : Line) :
    StopsOnly P (constant t (.real x) line) := by
  unfold constant
  split
  · refine (stopsOnly_ofConversion ?_).bind fun _ => stopsOnly_emit _
    intro error herror
    cases herror
  · dsimp only
    split
    · rename_i hwhole
      obtain ⟨n, hn⟩ := Floating.exists_truncate hwhole
      exact stopsOnly_range hfault hn
    · -- an infinity has no integer part, but this comes first
      exact stopsOnly_fail hfault _ _

end Literals

/-! ### Sources -/

/-- The ways in which compiling a source may fail. -/
inductive Failure.ArisesFrom (options : Options) (source : String) : Failure → Prop
  | scanning (error : LexError) : ArisesFrom options source (.lex error)
  | parsing {error : ParseError} : error.diagnostic?.isSome = true →
      ArisesFrom options source (.parse error)
  | lowering (fault : CompileFault) (line : Line) :
      ArisesFrom options source (.compile (.fault fault line))
  | tooLong {lexeme : String} : WholeNumberOf source lexeme → Numeral.maxDigits < lexeme.length →
      ArisesFrom options source (.parse (.malformedNumber lexeme))
  | tooLarge {lexeme : String} : WholeNumberOf source lexeme → options.valueType.isFloat = true →
      2 ^ 1024 - 2 ^ 970 ≤ Numeral.natOfDigits lexeme.toList →
      ArisesFrom options source (.compile (.literal .overflow))

section Sources

variable {options : Options} {source : String} {tokens : List Token}

/-- How the number tokens of a source are written. -/
theorem writtenAs_of_mem (h : tokenize source = .ok tokens) {t : Token} (ht : t ∈ tokens)
    (hkind : t.kind = .number) : TokenKind.number.WrittenAs t.lexeme.toList := by
  have hmatch := (tilesFrom_tokenize h).matched t ht
  rw [← hkind]
  exact hmatch.written (by rw [hkind]; decide) (by rw [hkind]; decide)

/-- A number token that cannot be read is too long. -/
theorem arisesFrom_parse (h : tokenize source = .ok tokens) {error : ParseError}
    (hcause : error.CausedBy tokens) : Failure.ArisesFrom options source (.parse error) := by
  cases error with
  | malformedNumber lexeme =>
    obtain ⟨t, ht, hkind, rfl, hnone⟩ := hcause
    rcases numberOfLexeme?_cases (writtenAs_of_mem h ht hkind) with
      ⟨hpoint, hlong, -⟩ | ⟨-, hsome⟩ | ⟨x, hsome⟩
    · exact .tooLong ⟨tokens, h, t, ht, hkind, rfl, hpoint⟩ hlong
    · rw [hnone] at hsome
      cases hsome
    · rw [hnone] at hsome
      cases hsome
  | expectedToken | unexpectedToken | expectedPrimary | unexpectedEnd => exact .parsing rfl

/-- The literals of a source stop only at numbers that are too large. -/
theorem literalsStopOnly_of_parses (h : tokenize source = .ok tokens) {program : Program}
    {rest : List Token} (hparses : Parses (.program program) tokens rest) :
    LiteralsStopOnly (fun error => Failure.ArisesFrom options source (.compile error)) options
      (Expr.allLiterals program) := by
  have hfault : ∀ fault line, Failure.ArisesFrom options source (.compile (.fault fault line)) :=
    .lowering
  -- the numbers that do not come from number tokens are zero and one
  have hsmall {n : Int} (hn : n.natAbs < 2) (line : Line) :
      Lower.StopsOnly (fun error => Failure.ArisesFrom options source (.compile error))
        (Lower.constant options.valueType (.int n) line) := by
    have hlimit : 2 < 2 ^ 1024 - 2 ^ 970 := by decide +kernel
    refine stopsOnly_constant_int hfault _ n line fun _ error herror => ?_
    exact absurd (doubleOfInt_eq_error herror).2 (Nat.not_le.mpr (hn.trans hlimit))
  intro literal hmem line
  cases hparses.literals (List.Subset.refl _) (List.forall_mem_nil _) literal hmem with
  | zero => exact hsmall (by decide) line
  | true => exact hsmall (by decide) line
  | false => exact hsmall (by decide) line
  | string text => exact (Lower.stopsOnly_modify _).bind fun _ => Lower.stopsOnly_emit _
  | @number t value ht hkind hvalue =>
    rcases numberOfLexeme?_cases (writtenAs_of_mem h ht hkind) with
      ⟨-, -, hnone⟩ | ⟨hpoint, hsome⟩ | ⟨x, hsome⟩
    · rw [hvalue] at hnone
      cases hnone
    · cases hvalue.symm.trans hsome
      refine stopsOnly_constant_int hfault _ _ line fun hfloat error herror => ?_
      obtain ⟨rfl, hlarge⟩ := doubleOfInt_eq_error herror
      exact .tooLarge ⟨tokens, h, t, ht, hkind, rfl, hpoint⟩ hfloat hlarge
    · cases hvalue.symm.trans hsome
      exact stopsOnly_constant_real hfault _ x line

/-- Without a text to write, compiling fails in one of these ways. -/
theorem arisesFrom_of_compileModule {failure : Failure}
    (h : compileModule options source = .error failure) : failure.ArisesFrom options source := by
  unfold compileModule parseSource readSource at h
  cases htokens : tokenize source with
  | error e =>
    rw [htokens] at h
    cases h
    exact .scanning e
  | ok tokens =>
    rw [htokens] at h
    dsimp only at h
    cases hparse : parseProgram tokens with
    | error e =>
      rw [hparse] at h
      cases h
      exact arisesFrom_parse htokens (parseProgram_failsFrom tokens e hparse)
    | ok parsed =>
      rw [hparse] at h
      -- a literal holds the number its lexeme was read as, so only a lexeme can fail to fit
      have hliterals : LiteralsStopOnly _ options _ :=
        literalsStopOnly_of_parses htokens (parses_of_parseProgram hparse)
      change generateModule options parsed.value = _ at h
      unfold generateModule at h
      split at h
      · rename_i error herror
        cases h
        exact generate_stopsOnly .lowering hliterals herror
      · cases h

/-- The module of a source can be written, whatever its import is called. -/
theorem exists_writeModule_of_compileModule {m : Module}
    (hsize : (utf8 source).length < 10 ^ Numeral.maxDigits)
    (h : compileModule options source = .ok m) : ∃ text, writeModule m = .ok text := by
  obtain ⟨program, hwords, hgenerate⟩ := exists_program_of_compileModule h
  obtain ⟨c, final, hcompiled⟩ := exists_compiledProgram hgenerate
  have hname : IsUnquoted "env" := by decide
  exact exists_writeModule_of_importing (hcompiled.wellFormed_importing hwords hsize hname)

end Sources

/-- Compiling gives a text or fails in one of these ways. No source comes near the size that is
excluded. It bounds the addresses of strings, which have to be written. -/
theorem compileText_ok_or_arisesFrom (options : Options) (source : String)
    (hsize : (utf8 source).length < 10 ^ Numeral.maxDigits) :
    (∃ text, compileText options source = .ok text) ∨
      ∃ failure, compileText options source = .error failure ∧
        failure.ArisesFrom options source := by
  unfold compileText
  cases h : compileModule options source with
  | error failure => exact .inr ⟨failure, rfl, arisesFrom_of_compileModule h⟩
  | ok m =>
    obtain ⟨text, htext⟩ := exists_writeModule_of_compileModule hsize h
    refine .inl ⟨text, ?_⟩
    change moduleText m = .ok text
    rw [moduleText, htext]

/-- A fraction in a module of integers. -/
theorem compileText_arisesFrom_fraction :
    ∃ failure, compileText { valueType := .i64 } "print 1.5;" = .error failure ∧
      failure.ArisesFrom { valueType := .i64 } "print 1.5;" := by
  have hfails : (compileText { valueType := .i64 } "print 1.5;").isOk = false := by
    decide +kernel
  have hsize : (utf8 "print 1.5;").length < 10 ^ Numeral.maxDigits :=
    Numeral.lt_pow_maxDigits 2 (by decide) (by decide)
  rcases compileText_ok_or_arisesFrom { valueType := .i64 } "print 1.5;" hsize with
    ⟨text, htext⟩ | h
  · rw [htext] at hfails
    cases hfails
  · exact h

end StackScript
