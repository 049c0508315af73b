import StackScript.Proofs.CompiledText
import StackScript.Proofs.Outcome

/-!
# Names of imports in text

The name of the host's module is written between quotes as it is, and read as a string in which a
backslash starts an escape. So it survives if it has no quote, no backslash and no lone surrogate.
No other name does. A quote ends the string early, whatever forms follow it, and an escape has fewer
bytes than characters. Only a backslash at the end lets the string go on behind its quote, up to the
next one, and then it ends with the blank between them. A lone surrogate has no bytes to be read as.

## Main definitions

* `ReadsAs`: the bytes that are read for a name, compared with the name.

## Main results

* `readsAs_of_readString`: what is read for a name.
* `isPlain_of_readModule`: a name with a quote, a backslash or a lone surrogate is not read back.
* `importModule_survives_iff`: of compiled modules, just those with plain names are read back.
-/

namespace StackScript

open TextPiece (lparen rparen parens)

/-! ### Strings -/

/-- The bytes that are read for a name that is written between quotes, compared with the name. -/
inductive ReadsAs (name : List Char) (data : Bytes) : Prop
  | plain (hname : ∀ c ∈ name, c ≠ '"' ∧ c ≠ '\\') (hdata : data = utf8Characters name)
  | shorter (hlength : data.length < (utf8Characters name).length)
  /-- The quote behind the name is escaped, and the string ends at the next quote. -/
  | overrun (front : List Char) (before : Bytes) (hname : name = front ++ ['\\'])
      (hdata : data = before ++ utf8Characters [' '])

theorem length_utf8Characters_cons (c : Char) (text : List Char) :
    (utf8Characters text).length < (utf8Characters (c :: text)).length := by
  have hsize := c.utf8Size_pos
  have hone : (utf8Characters [c]).length = c.utf8Size := by
    rw [utf8Characters, List.flatMap_singleton, String.length_utf8EncodeChar]
  rw [← List.singleton_append, utf8Characters_append, List.length_append, hone]
  exact Nat.lt_add_of_pos_left hsize

namespace ReadsAs

variable {name : List Char} {data : Bytes}

/-- A character that is read as it is. -/
theorem character {c : Char} (hquote : c ≠ '"') (hbackslash : c ≠ '\\') (h : ReadsAs name data) :
    ReadsAs (c :: name) (String.utf8EncodeChar c ++ data) := by
  cases h with
  | plain hname hdata =>
    refine .plain (List.forall_mem_cons.mpr ⟨⟨hquote, hbackslash⟩, hname⟩) ?_
    rw [hdata, utf8Characters, utf8Characters, List.flatMap_cons]
  | shorter hlength =>
    refine .shorter ?_
    rw [utf8Characters, List.flatMap_cons, List.length_append, List.length_append]
    exact Nat.add_lt_add_left hlength _
  | overrun front before hname hdata =>
    refine .overrun (c :: front) (String.utf8EncodeChar c ++ before) ?_ ?_
    · rw [hname, List.cons_append]
    · rw [hdata, List.append_assoc]

/-- A backslash and at least one more character that are read as one byte. -/
theorem escape (b : UInt8) {c : Char} {s : List Char} (h : ReadsAs name data) :
    ReadsAs ('\\' :: c :: s ++ name) (b :: data) := by
  have hlonger : (utf8Characters name).length + 1 <
      (utf8Characters ('\\' :: c :: s ++ name)).length := by
    have hskipped : (utf8Characters name).length ≤ (utf8Characters (s ++ name)).length := by
      rw [utf8Characters_append, List.length_append]
      exact Nat.le_add_left _ _
    have hcharacter := length_utf8Characters_cons c (s ++ name)
    have hbackslash := length_utf8Characters_cons '\\' (c :: (s ++ name))
    exact Nat.lt_of_le_of_lt (Nat.succ_le_of_lt (Nat.lt_of_le_of_lt hskipped hcharacter)) hbackslash
  -- One byte stands for two characters or more, so nothing behind them can make up for it.
  cases h with
  | plain hname hdata =>
    refine .shorter ?_
    rw [hdata, List.length_cons]
    exact hlonger
  | shorter hlength =>
    refine .shorter ?_
    rw [List.length_cons]
    omega
  | overrun front before hname hdata =>
    refine .overrun ('\\' :: c :: s ++ front) (b :: before) ?_ ?_
    · rw [hname, List.append_assoc]
    · rw [hdata, List.cons_append]

/-- Only a plain name is read back. -/
theorem isPlain (h : ReadsAs name data) (hdata : data = utf8Characters name) :
    ∀ c ∈ name, c ≠ '"' ∧ c ≠ '\\' := by
  cases h with
  | plain hname _ => exact hname
  | shorter hlength => exact absurd (congrArg List.length hdata) (Nat.ne_of_lt hlength)
  | overrun front before hname hdata' =>
    -- The name ends with a backslash, and what is read with a blank.
    rw [hdata', hname, utf8Characters_append] at hdata
    exact absurd (List.append_inj_right' hdata rfl) (by decide)

end ReadsAs

theorem readString_quote (rest : List CodePoint) :
    readString (.char '"' :: rest) = .ok ([], rest) := by
  rw [readString]

theorem hexEscape?_quote (c : CodePoint) : hexEscape? c (.char '"') = none := by
  unfold hexEscape?
  cases c.char?.bind hexDigit? <;> rfl

/-- What an escape is read as: one byte, for one character or for two. -/
theorem exists_of_readString_backslash {c : CodePoint} {rest after : List CodePoint} {data : Bytes}
    (h : readString (.char '\\' :: c :: rest) = .ok (data, after)) :
    ∃ b data', data = b :: data' ∧ (readString rest = .ok (data', after) ∨
      ∃ d rest', rest = d :: rest' ∧ (hexEscape? c d).isSome = true ∧
        readString rest' = .ok (data', after)) := by
  cases hnamed : namedEscape? c with
  | some b =>
    rw [readString.eq_def] at h
    simp only [hnamed] at h
    obtain ⟨⟨data', after'⟩, hrest, h⟩ := bind_eq_ok_iff.mp h
    cases h
    exact ⟨b, data', rfl, .inl hrest⟩
  | none =>
    cases rest with
    | nil =>
      simp only [readString, hnamed] at h
      cases h
    | cons d rest =>
      cases hhex : hexEscape? c d with
      | none =>
        simp only [readString, hnamed, hhex] at h
        cases h
      | some b =>
        simp only [readString, hnamed, hhex] at h
        obtain ⟨⟨data', after'⟩, hrest, h⟩ := bind_eq_ok_iff.mp h
        cases h
        exact ⟨b, data', rfl, .inr ⟨d, rest, rfl, by rw [hhex]; rfl, hrest⟩⟩

/-- What is read for a name between quotes, with a blank and another quote behind it. -/
theorem readsAs_of_readString {name : List Char} {more after : List CodePoint} {data : Bytes}
    (h : readString (name.map .char ++ .char '"' :: .char ' ' :: .char '"' :: more) =
      .ok (data, after)) : ReadsAs name data := by
  cases name with
  | nil =>
    rw [List.map_nil, List.nil_append, readString_quote] at h
    cases h
    exact .plain (by simp) rfl
  | cons c rest =>
    by_cases hquote : c = '"'
    · rw [hquote, List.map_cons, List.cons_append, readString_quote] at h
      cases h
      exact .shorter (Nat.lt_of_le_of_lt (Nat.zero_le _) (length_utf8Characters_cons _ _))
    by_cases hbackslash : c = '\\'
    · subst hbackslash
      cases rest with
      | nil =>
        -- The quote behind the name is escaped.
        have hread : readString (.char '\\' :: .char '"' :: .char ' ' :: .char '"' :: more) =
            .ok ([34, 32], more) := rfl
        rw [List.map_singleton, List.singleton_append, hread] at h
        cases h
        exact .overrun [] [34] rfl rfl
      | cons d rest =>
        obtain ⟨b, data', rfl, hrest | ⟨e, rest', hrest', hhex, hrest⟩⟩ :=
          exists_of_readString_backslash h
        · exact (readsAs_of_readString hrest).escape b (s := [])
        · cases rest with
          | nil =>
            -- The quote behind the name is no digit.
            cases hrest'
            rw [hexEscape?_quote] at hhex
            cases hhex
          | cons f rest =>
            cases hrest'
            exact (readsAs_of_readString hrest).escape b (s := [f])
    · rw [List.map_cons, List.cons_append, readString_character hquote hbackslash] at h
      obtain ⟨⟨data', after'⟩, hrest, h⟩ := map_eq_ok_iff.mp h
      cases h
      exact (readsAs_of_readString hrest).character hquote hbackslash
termination_by name.length
decreasing_by
  all_goals
    subst_vars
    simp only [List.length_cons]
    omega

/-! ### The first string of a text -/

theorem exists_of_textTokens_map {x : Except ReadError (List TextToken)} {token : TextToken}
    {tokens : List TextToken} (h : x.map (token :: ·) = .ok tokens) :
    ∃ rest, x = .ok rest ∧ tokens = token :: rest := by
  obtain ⟨rest, hrest, rfl⟩ := map_eq_ok_iff.mp h
  exact ⟨rest, hrest, rfl⟩

theorem exists_of_textTokens_quote {total : Nat} {text : List CodePoint} {tokens : List TextToken}
    (h : textTokens total (.char '"' :: text) = .ok tokens) :
    ∃ data after rest, readString text = .ok (data, after) ∧ tokens = .string data :: rest := by
  cases hread : readString text with
  | error e =>
    -- an unreadable string stops the scan, so no tokens come of it
    have hpiece : nextPiece total (.char '"') text = .error e := by
      rw [nextPiece_quote, hread]
      rfl
    rw [textTokens_of_error hpiece] at h
    cases h
  | ok read =>
    obtain ⟨data, after⟩ := read
    have hpiece : nextPiece total (.char '"') text = .ok (some (.string data), after) := by
      rw [nextPiece_quote, hread]
      rfl
    rw [textTokens_of_some hpiece] at h
    obtain ⟨rest, -, hrest⟩ := exists_of_textTokens_map h
    exact ⟨data, after, rest, rfl, hrest⟩

/-- The lines of a module start with its import. -/
theorem exists_lines_of_moduleLines {m : Module} {lines : List TextLine}
    (h : moduleLines m = .ok lines) :
    ∃ rest, lines = ⟨0, [lparen, .word "module"]⟩ :: importLine m :: rest := by
  obtain ⟨memory, -, h⟩ := bind_eq_ok_iff.mp h
  obtain ⟨data, -, h⟩ := bind_eq_ok_iff.mp h
  obtain ⟨functions, -, h⟩ := bind_eq_ok_iff.mp h
  cases h
  exact ⟨_, rfl⟩

/-- What the line of an import starts with, up to the quote of the second string. -/
def importOpening (name : Text) (tail : List CodePoint) : List CodePoint :=
  .char '(' :: ((Text.plain "import").points ++ .char ' ' :: .char '"' ::
    (name.points ++ .char '"' :: .char ' ' :: .char '"' :: tail))

theorem exists_renderPieces_import (name : Text) (pieces : List TextPiece) :
    ∃ tail, renderPieces (lparen :: .word "import" :: .quote name :: .quote logFunction :: pieces) =
      importOpening name tail := by
  obtain ⟨tail, htail⟩ := exists_renderPieces_cons (.quote logFunction) pieces
  refine ⟨(Text.plain logFunction).points ++ .char '"' :: tail, ?_⟩
  rw [renderPieces, renderPieces, renderPieces, htail]
  simp [importOpening, TextPiece.render, TextPiece.gap]

theorem exists_render_importLine (m : Module) :
    ∃ tail, (importLine m).render =
      .char ' ' :: .char ' ' :: importOpening m.importModule tail := by
  obtain ⟨tail, htail⟩ := exists_renderPieces_import m.importModule _
  exact ⟨tail, congrArg (fun line => CodePoint.char ' ' :: CodePoint.char ' ' :: line) htail⟩

/-- How the text of a module starts. -/
theorem exists_text_of_writeModule {m : Module} {text : Text} (h : writeModule m = .ok text) :
    ∃ more, text.points = .char '(' :: ((Text.plain "module").points ++ .char '\n' :: .char ' ' ::
      .char ' ' :: importOpening m.importModule more) := by
  obtain ⟨lines, hlines, h⟩ := bind_eq_ok_iff.mp h
  have htext : renderLines lines = text := Except.ok.inj h
  obtain ⟨rest, rfl⟩ := exists_lines_of_moduleLines hlines
  obtain ⟨tail, htail⟩ := exists_render_importLine m
  refine ⟨tail ++ .char '\n' :: rest.flatMap fun line => line.render ++ [.char '\n'], ?_⟩
  rw [← htext, renderLines, Text.points_ofPoints, List.flatMap_cons, List.flatMap_cons, htail]
  simp [importOpening, TextLine.render, renderPieces, TextPiece.render, TextPiece.gap]

/-- The first string in the text of a module is read for the name of the import. -/
theorem exists_tokens_of_writeModule {m : Module} {text : Text} {tokens : List TextToken}
    (hwrite : writeModule m = .ok text) (h : tokenizeText text = .ok tokens) :
    ∃ data rest more after,
      readString (m.importModule.points ++ .char '"' :: .char ' ' :: .char '"' :: more) =
        .ok (data, after) ∧
      tokens = .lparen :: .atom "module" :: .lparen :: .atom "import" :: .string data :: rest := by
  obtain ⟨more, hmore⟩ := exists_text_of_writeModule hwrite
  have hmodule : IsWord "module" := by decide
  have himport : IsWord "import" := by decide
  rw [tokenizeText, hmore, textTokens_lparen (by simp)] at h
  obtain ⟨_, h₁, rfl⟩ := exists_of_textTokens_map h
  rw [textTokens_word hmodule (by simp [isAtomPoint, isAtomCharacter, isSeparator])] at h₁
  obtain ⟨_, h₂, rfl⟩ := exists_of_textTokens_map h₁
  rw [textTokens_separator rfl, textTokens_separator rfl, textTokens_separator rfl, importOpening,
    textTokens_lparen (by simp)] at h₂
  obtain ⟨_, h₃, rfl⟩ := exists_of_textTokens_map h₂
  rw [textTokens_word himport (by simp [isAtomPoint, isAtomCharacter, isSeparator])] at h₃
  obtain ⟨_, h₄, rfl⟩ := exists_of_textTokens_map h₃
  rw [textTokens_separator rfl] at h₄
  obtain ⟨data, after, rest, hread, rfl⟩ := exists_of_textTokens_quote h₄
  exact ⟨data, rest, more, after, hread, rfl⟩

/-! ### The first import -/

theorem importModule_of_readField {m m' : Module} {field : Form} (h : readField m field = .ok m') :
    m'.importModule = m.importModule := by
  unfold readField at h
  split at h
  · -- One case for each kind of field; none of them is the import.
    split at h
    · cases h
      rfl
    · cases h
      rfl
    · obtain ⟨g, -, h⟩ := bind_eq_ok_iff.mp h
      cases h
      rfl
    · obtain ⟨segment, -, h⟩ := bind_eq_ok_iff.mp h
      cases h
      rfl
    · obtain ⟨f, -, h⟩ := bind_eq_ok_iff.mp h
      cases h
      rfl
    · unfold readExport at h
      split at h
      · split at h
        · obtain ⟨name, -, h⟩ := bind_eq_ok_iff.mp h
          cases h
          rfl
        · cases h
          rfl
        · cases h
      · cases h
    · cases h
  · cases h

theorem importModule_of_readFields {m m' : Module} {fields : List Form}
    (h : readFields m fields = .ok m') : m'.importModule = m.importModule := by
  induction fields generalizing m with
  | nil =>
    cases h
    rfl
  | cons field rest ih =>
    obtain ⟨next, hnext, h⟩ := bind_eq_ok_iff.mp h
    exact (ih h).trans (importModule_of_readField hnext)

/-- The first import gives the name. -/
theorem ofUtf8?_of_readImport {data : Bytes} {items rest : List Form} {m : Module}
    (h : readImport (.list (.atom "import" :: .string data :: items) :: rest) = .ok m) :
    ∃ name, ofUtf8? data = some name ∧ m.importModule = name := by
  unfold readImport at h
  rw [List.find?_cons_of_pos rfl] at h
  dsimp only at h
  split at h
  · cases h
  · rename_i host elements hlog
    -- the form the import is looked for in is the one that names it
    have hhost : host = data := by
      unfold logImport? at hlog
      split at hlog
      · rename_i heq
        cases heq
        split at hlog
        · cases hlog
          rfl
        · cases hlog
      · cases hlog
    subst hhost
    split at h
    · obtain ⟨type, -, h⟩ := bind_eq_ok_iff.mp h
      split at h
      · rename_i name hname
        cases h
        exact ⟨name, hname, rfl⟩
      · cases h
    · cases h

/-! ### Modules -/

/-- Only a plain name is read back, whatever forms the name brings into the text. -/
theorem isPlain_of_readModule {m m' : Module} {text : Text} (hwrite : writeModule m = .ok text)
    (hread : readModule text = .ok m') (hsame : m'.importModule = m.importModule) :
    IsPlain m.importModule := by
  obtain ⟨tokens, htokens, hnest⟩ := bind_eq_ok_iff.mp hread
  obtain ⟨forms, hforms, hmodule⟩ := bind_eq_ok_iff.mp hnest
  obtain ⟨data, rest, more, after, hstring, rfl⟩ := exists_tokens_of_writeModule hwrite htokens
  unfold moduleOfForms at hmodule
  split at hmodule
  · rename_i fields
    obtain ⟨imported, himported, hfields⟩ := bind_eq_ok_iff.mp hmodule
    obtain ⟨last, hlast, hfinal⟩ := bind_eq_ok_iff.mp hfields
    cases hfinal
    -- The first field is the import, since its tokens come first.
    have hnested := allTokens_of_formsOf hforms
    rw [Form.allTokens, Form.tokens, Form.allTokens, Form.allTokens, List.append_nil] at hnested
    obtain ⟨items, others, rfl, hitems⟩ :=
      Form.exists_of_allTokens_lparen (List.tail_eq_of_cons_eq (List.tail_eq_of_cons_eq hnested))
    obtain ⟨elements, rfl, helements⟩ := Form.exists_of_allTokens_atom hitems
    obtain ⟨_, rfl, -⟩ := Form.exists_of_allTokens_string helements
    -- What is read is a string, so a name with a lone surrogate is not read back.
    obtain ⟨name, hname, himport⟩ := ofUtf8?_of_readImport himported
    rw [← importModule_of_readFields hlast, hsame] at himport
    rw [himport] at hstring ⊢
    exact isPlain_plain_iff.mpr
      ((readsAs_of_readString hstring).isPlain (utf8_of_ofUtf8? hname).symm)
  · cases hmodule

/-- A module can be written whatever its import is called. -/
theorem exists_writeModule_of_importing {m : Module} {name : Text}
    (h : { m with importModule := name }.WellFormed) : ∃ text, writeModule m = .ok text := by
  obtain ⟨lines, hlines, -⟩ := exists_readModule_eq h
  obtain ⟨memory, hmemory, hlines⟩ := bind_eq_ok_iff.mp hlines
  obtain ⟨data, hdata, hlines⟩ := bind_eq_ok_iff.mp hlines
  obtain ⟨functions, hfunctions, -⟩ := bind_eq_ok_iff.mp hlines
  have hlines : ∃ lines, moduleLines m = .ok lines :=
    ⟨_, bind_eq_ok_iff.mpr ⟨memory, hmemory, bind_eq_ok_iff.mpr ⟨data, hdata,
      bind_eq_ok_iff.mpr ⟨functions, hfunctions, rfl⟩⟩⟩⟩
  obtain ⟨lines, hlines⟩ := hlines
  exact ⟨_, writeModule_eq hlines⟩

/-- Of compiled modules, those whose import has no quote, no backslash and no lone surrogate in its
name are read back with this name, and then all else is read back too. -/
theorem importModule_survives_iff {options : Options} {source : String} {m : Module}
    (hsize : (utf8 source).length < 10 ^ Numeral.maxDigits)
    (h : compileModule options source = .ok m) :
    ∃ text, writeModule m = .ok text ∧
      ((∃ m', readModule text = .ok m' ∧ m'.importModule = options.importModule) ↔
        IsPlain options.importModule) ∧
      ∀ m', readModule text = .ok m' → m'.importModule = options.importModule →
        m'.valueType = m.valueType ∧ m'.functions.map Func.name = m.functions.map Func.name ∧
          writeModule m' = .ok text := by
  obtain ⟨program, hwords, hgenerate⟩ := exists_program_of_compileModule h
  obtain ⟨c, final, hcompiled⟩ := exists_compiledProgram hgenerate
  have hname : IsUnquoted "env" := by decide
  obtain ⟨text, hwrite⟩ :=
    exists_writeModule_of_importing (hcompiled.wellFormed_importing hwords hsize hname)
  have himport := hcompiled.importModule_eq
  -- The name is plain as soon as it is read back, and then the module can be written.
  have hplain {m' : Module} (hread : readModule text = .ok m')
      (hsame : m'.importModule = options.importModule) : IsPlain options.importModule := by
    rw [← himport] at hsame ⊢
    exact isPlain_of_readModule hwrite hread hsame
  have hback (hplain : IsPlain options.importModule) :
      readModule text = .ok m.normalized ∧ writeModule m.normalized = .ok text := by
    have hwellFormed := hcompiled.wellFormed hwords hsize hplain.isUnquoted
    obtain ⟨lines, hlines, hread⟩ := exists_readModule hwellFormed (hcompiled.encodable hplain)
    cases (writeModule_eq hlines).symm.trans hwrite
    exact ⟨hread, writeModule_eq ((moduleLines_normalized hwellFormed.toWritable).trans hlines)⟩
  refine ⟨text, hwrite, ⟨?_, fun hname => ?_⟩, fun m' hread hsame => ?_⟩
  · rintro ⟨m', hread, hsame⟩
    exact hplain hread hsame
  · exact ⟨m.normalized, (hback hname).1, himport⟩
  · obtain ⟨hread', hwrite'⟩ := hback (hplain hread hsame)
    cases hread'.symm.trans hread
    refine ⟨rfl, ?_, hwrite'⟩
    rw [Module.normalized, List.map_map]
    rfl

/-- A name with a letter beyond ASCII is plain. -/
theorem importModule_survives_host :
    ∃ m text m', compileModule { importModule := "hôst" } "print 1;" = .ok m ∧
      writeModule m = .ok text ∧ readModule text = .ok m' ∧ m'.importModule = "hôst" ∧
      m'.functions.map Func.name = m.functions.map Func.name ∧ writeModule m' = .ok text := by
  have hok : (compileModule { importModule := "hôst" } "print 1;").isOk = true := by
    decide +kernel
  have hsize : (utf8 "print 1;").length < 10 ^ Numeral.maxDigits :=
    Numeral.lt_pow_maxDigits 1 (by decide) (by decide)
  obtain ⟨m, h⟩ := exists_of_isOk hok
  obtain ⟨text, hwrite, hiff, hrest⟩ := importModule_survives_iff hsize h
  obtain ⟨m', hread, himport⟩ := hiff.mpr (by decide)
  obtain ⟨-, hfunctions, hwrite'⟩ := hrest m' hread himport
  exact ⟨m, text, m', h, hwrite, hread, himport, hfunctions, hwrite'⟩

/-- With a quote in the name of its import, the text of a module is not read at all. -/
theorem not_readModule_quotedImport :
    ∃ m text, compileModule { importModule := "a\"b" } "print 1;" = .ok m ∧
      writeModule m = .ok text ∧ ∀ m', readModule text ≠ .ok m' := by
  have hfails : (compileModule { importModule := "a\"b" } "print 1;").toOption.any (fun m =>
      (writeModule m).toOption.any fun text => !(readModule text).isOk) = true := by
    decide +kernel
  obtain ⟨m, h, hfails⟩ := exists_of_any_toOption hfails
  obtain ⟨text, hwrite, hfails⟩ := exists_of_any_toOption hfails
  refine ⟨m, text, h, hwrite, fun m' hread => ?_⟩
  rw [hread] at hfails
  cases hfails

end StackScript
