import StackScript.Proofs.CompiledStrings
import StackScript.Proofs.FileRoundTrip
import StackScript.Proofs.NormalizedRun
import StackScript.Session

/-!
# Scripts that run from their text

A script runs from the text of its module, which may have been in a file before. The run is that of
the module itself: what the text does not tell does not matter to a run, and a file keeps a string
that has no carriage return. In the text of a module only the name of the host's module may have
one, since every byte of data below the blank is escaped. A lone surrogate in that name keeps the
text from being read, so that there is no run.

## Main definitions

* `quotes`: the texts between quotes.
* `RunsAsModule`: a script runs as its module does.

## Main results

* `quotes_moduleLines`: what stands between quotes in the text of a module.
* `unifyNewlines_writeModule`: a file keeps the text of a module.
* `runsAsModule_of_compileModule`: a script runs as its module does, from its text or from a file.
-/

namespace StackScript

open TextPiece (lparen rparen parens)

/-! ### Quotes -/

/-- The texts that stand between quotes. -/
def quotes : List TextPiece → List Text
  | [] => []
  | .quote text :: rest => text :: quotes rest
  | _ :: rest => quotes rest

@[simp] theorem quotes_append (pieces more : List TextPiece) :
    quotes (pieces ++ more) = quotes pieces ++ quotes more := by
  induction pieces with
  | nil => rfl
  | cons piece pieces ih => cases piece <;> simp [quotes, ih]

@[simp] theorem quotes_parens (pieces : List TextPiece) : quotes (parens pieces) = quotes pieces := by
  change quotes (pieces ++ [rparen]) = _
  rw [quotes_append]
  exact List.append_nil _

/-- The texts between quotes on some lines. -/
def quotesOfLines (lines : List TextLine) : List Text :=
  quotes (lines.flatMap TextLine.pieces)

@[simp] theorem quotesOfLines_nil : quotesOfLines [] = [] := rfl

@[simp] theorem quotesOfLines_cons (line : TextLine) (lines : List TextLine) :
    quotesOfLines (line :: lines) = quotes line.pieces ++ quotesOfLines lines := by
  simp [quotesOfLines]

@[simp] theorem quotesOfLines_append (lines more : List TextLine) :
    quotesOfLines (lines ++ more) = quotesOfLines lines ++ quotesOfLines more := by
  simp [quotesOfLines]

theorem quotes_operandPieces {d : Datum} {pieces : List TextPiece}
    (h : operandPieces d = .ok pieces) : quotes pieces = [] := by
  unfold operandPieces at h
  split at h
  · cases h
    rfl
  · cases h
    rfl
  · obtain ⟨text, -, h⟩ := bind_eq_ok_iff.mp h
    cases h
    rfl

theorem quotesOfLines_instrLines {t : ValueType} {depth depth' : Int} {instr : Instr}
    {lines : List TextLine} (h : instrLines t depth instr = .ok (lines, depth')) :
    quotesOfLines lines = [] := by
  cases instr with
  | const value =>
    obtain ⟨text, -, h⟩ := bind_eq_ok_iff.mp h
    cases h
    rfl
  | plain mnemonic operand =>
    obtain ⟨pieces, hpieces, h⟩ := bind_eq_ok_iff.mp h
    cases h
    rw [quotesOfLines_cons, quotesOfLines_nil, List.append_nil]
    change quotes pieces = []
    exact quotes_operandPieces hpieces
  | _ =>
    cases h
    rfl

theorem quotesOfLines_bodyLines {t : ValueType} {depth : Int} {body : List Instr}
    {lines : List TextLine} (h : bodyLines t depth body = .ok lines) : quotesOfLines lines = [] := by
  induction body generalizing depth lines with
  | nil =>
    cases h
    rfl
  | cons instr body ih =>
    obtain ⟨⟨first, depth'⟩, hfirst, h⟩ := bind_eq_ok_iff.mp h
    obtain ⟨others, hothers, h⟩ := bind_eq_ok_iff.mp h
    cases h
    rw [quotesOfLines_append, quotesOfLines_instrLines hfirst, ih hothers]
    rfl

theorem quotesOfLines_functionLines {t : ValueType} {f : Func} {lines : List TextLine}
    (h : functionLines t f = .ok lines) : quotesOfLines lines = [] := by
  obtain ⟨body, hbody, h⟩ := bind_eq_ok_iff.mp h
  cases h
  -- a name or a type holds no quoted text, and a body has been dealt with
  have hparams : quotes (f.params.flatMap fun param =>
      parens [.word "param", .name param, .type t]) = [] := by
    induction f.params with
    | nil => rfl
    | cons param params ih =>
      rw [List.flatMap_cons, quotes_append, ih]
      rfl
  have hlocals : quotesOfLines (f.locals.map fun cell =>
      ⟨2, parens [.word "local", .name cell, .type t]⟩) = [] := by
    induction f.locals with
    | nil => rfl
    | cons cell locals ih =>
      rw [List.map_cons, quotesOfLines_cons, ih]
      rfl
  simp only [quotesOfLines_append, quotesOfLines_cons, quotes_append, hparams, hlocals,
    quotesOfLines_bodyLines hbody]
  cases f.result <;> rfl

theorem quotesOfLines_functionsLines {t : ValueType} {functions : List Func}
    {lines : List TextLine} (h : functionsLines t functions = .ok lines) :
    quotesOfLines lines = [] := by
  induction functions generalizing lines with
  | nil =>
    cases h
    rfl
  | cons f functions ih =>
    obtain ⟨first, hfirst, h⟩ := bind_eq_ok_iff.mp h
    obtain ⟨others, hothers, h⟩ := bind_eq_ok_iff.mp h
    cases h
    rw [quotesOfLines_append, quotesOfLines_functionLines hfirst, ih hothers]
    rfl

theorem quotesOfLines_segmentLines {segments : List Segment} {lines : List TextLine}
    (h : segmentLines segments = .ok lines) :
    quotesOfLines lines = segments.map fun s => .plain (String.ofList (escapeBytes s.data)) := by
  induction segments generalizing lines with
  | nil =>
    cases h
    rfl
  | cons segment segments ih =>
    obtain ⟨first, hfirst, h⟩ := bind_eq_ok_iff.mp h
    obtain ⟨others, hothers, h⟩ := bind_eq_ok_iff.mp h
    obtain ⟨offset, -, hfirst⟩ := bind_eq_ok_iff.mp hfirst
    cases h
    cases hfirst
    rw [quotesOfLines_cons, ih hothers]
    rfl

theorem quotesOfLines_memoryLines {m : Module} {lines : List TextLine}
    (h : memoryLines m = .ok lines) : quotesOfLines lines = [] := by
  unfold memoryLines at h
  split at h
  · obtain ⟨pages, -, h⟩ := bind_eq_ok_iff.mp h
    cases h
    rfl
  · cases h
    rfl

theorem quotesOfLines_globals (globals : List Global) :
    quotesOfLines (globals.map globalLine) = [] := by
  induction globals with
  | nil => rfl
  | cons g globals ih =>
    rw [List.map_cons, quotesOfLines_cons, ih]
    unfold globalLine
    cases g.mutable <;> rfl

theorem quotesOfLines_exports (exports : List Export) :
    quotesOfLines (exports.map exportLine) = exports.map Export.name := by
  induction exports with
  | nil => rfl
  | cons e exports ih =>
    rw [List.map_cons, quotesOfLines_cons, ih]
    rfl

/-- What stands between quotes in the text of a module: the names of the import, the data and the names
of the exports. -/
theorem quotes_moduleLines {m : Module} {lines : List TextLine} (h : moduleLines m = .ok lines) :
    quotes (lines.flatMap TextLine.pieces) =
      [m.importModule, .plain logFunction] ++
        (m.data.map fun s => .plain (String.ofList (escapeBytes s.data))) ++
        m.exports.map Export.name := by
  obtain ⟨memory, hmemory, h⟩ := bind_eq_ok_iff.mp h
  obtain ⟨data, hdata, h⟩ := bind_eq_ok_iff.mp h
  obtain ⟨functions, hfunctions, h⟩ := bind_eq_ok_iff.mp h
  cases h
  change quotesOfLines _ = _
  simp only [quotesOfLines_append, quotesOfLines_cons, quotesOfLines_memoryLines hmemory,
    quotesOfLines_globals, quotesOfLines_segmentLines hdata, quotesOfLines_functionsLines hfunctions,
    quotesOfLines_exports, quotesOfLines_nil, List.append_nil]
  exact List.append_nil _

/-! ### Line ends -/

theorem carriageReturn_notMem_escapeByte (b : UInt8) : '\r' ∉ escapeByte b := by
  have hdigit : ∀ d < 16, '\r' ≠ Nat.digitChar d := by decide
  have hb : b.toNat < 256 := b.toNat_lt
  unfold escapeByte
  dsimp only
  split
  · rw [hexDigits_two hb]
    simp [hdigit (b.toNat / 16) (by omega), hdigit (b.toNat % 16) (by omega)]
  · rename_i hplain
    simp only [Bool.or_eq_true, decide_eq_true_eq, not_or] at hplain
    obtain ⟨⟨-, hsmall⟩, hlarge⟩ := hplain
    -- the character is its own byte, which is no control character
    have hbyte := utf8EncodeChar_ofNat (UInt8.not_le.mp hlarge)
    intro hmem
    rw [← List.mem_singleton.mp hmem] at hbyte
    have hb : (13 : UInt8) = b := List.singleton_inj.mp hbyte
    exact hsmall (hb ▸ by decide)

theorem carriageReturn_notMem_escapeBytes (data : Bytes) : '\r' ∉ escapeBytes data := by
  intro hmem
  obtain ⟨b, -, hb⟩ := List.mem_flatMap.mp hmem
  exact carriageReturn_notMem_escapeByte b hb

theorem mem_quotes {text : Text} {pieces : List TextPiece} (h : .quote text ∈ pieces) :
    text ∈ quotes pieces := by
  induction pieces with
  | nil => cases h
  | cons piece pieces ih =>
    rcases List.mem_cons.mp h with rfl | hmem
    · exact List.mem_cons_self
    · cases piece with
      | quote other => exact List.mem_cons_of_mem _ (ih hmem)
      | _ => exact ih hmem

theorem isWord_of_mem {text : Text} {pieces : List TextPiece} {tokens : List TextToken}
    (h : List.Forall₂ TextPiece.Reads pieces tokens) (hmem : .word text ∈ pieces) : IsWord text := by
  induction h with
  | nil => cases hmem
  | cons hpiece _ ih =>
    rcases List.mem_cons.mp hmem with rfl | hmem
    · cases hpiece with
      | word hword => exact hword
    · exact ih hmem

/-- A word is an atom, so only what stands between quotes may have a carriage return. -/
theorem Spells.carriageReturn_notMem {pieces : List TextPiece} {forms : List Form}
    (h : Spells pieces forms) (hquotes : ∀ text ∈ quotes pieces, .char '\r' ∉ text.points) :
    ∀ piece ∈ pieces, .char '\r' ∉ piece.render := by
  intro piece hpiece
  cases piece with
  | word text =>
    have hword := isWord_of_mem h hpiece
    exact fun hmem => absurd (hword.points _ hmem) (by decide)
  | quote text =>
    have htext := hquotes text (mem_quotes hpiece)
    simpa [TextPiece.render] using htext
  | _ => decide

theorem name_of_mem_exports {m : Module} {e : Export} (h : e ∈ m.exports) :
    e.name = m.entry ∨ e.name = memoryName := by
  unfold Module.exports at h
  rcases List.mem_cons.mp h with rfl | h
  · exact .inl rfl
  · split at h
    · cases List.mem_singleton.mp h
      exact .inr rfl
    · cases h

/-- A file keeps the text of a module, unless the name of the host's module has a carriage return. -/
theorem unifyNewlines_writeModule {m : Module} (h : m.WellFormed) (hencodable : m.Encodable)
    (hline : .char '\r' ∉ m.importModule.points) {text : String}
    (hwrite : writeModule m = .ok text) : unifyNewlines text = text := by
  obtain ⟨lines, forms, hlines, hspells, -⟩ := exists_moduleLines h hencodable
  have htext : renderLines lines = text := Except.ok.inj ((writeModule_eq hlines).symm.trans hwrite)
  -- The entry is a word, though it is written between quotes too.
  have hentry : .char '\r' ∉ m.entry.points := fun hmem => absurd (h.entry.1 _ hmem) (by decide)
  have hquotes : ∀ quote ∈ quotes (lines.flatMap TextLine.pieces), .char '\r' ∉ quote.points := by
    rw [quotes_moduleLines hlines]
    simp only [List.forall_mem_append, List.forall_mem_cons, List.forall_mem_map]
    refine ⟨⟨⟨hline, by decide, by simp⟩, fun s _ => ?_⟩, fun e he => ?_⟩
    · simpa using carriageReturn_notMem_escapeBytes s.data
    · rcases name_of_mem_exports he with hname | hname
      · rw [hname]
        exact hentry
      · rw [hname]
        decide
  have hpieces := hspells.carriageReturn_notMem hquotes
  have hpoints : ∀ c ∈ (renderLines lines).points, c ≠ .char '\r' := by
    refine forall_mem_renderLines (by decide) (by decide) fun piece hpiece c hc => ?_
    rintro rfl
    exact hpieces piece hpiece hc
  have hcharacters : '\r' ∉ text.toList := by
    rw [htext] at hpoints
    exact fun hmem => hpoints _ (List.mem_map_of_mem hmem) rfl
  rw [unifyNewlines, Newline.unify_eq_self hcharacters, String.ofList_toList]

/-! ### Scripts -/

/-- A script runs as the module that is read from its text. -/
theorem Script.execute_eq {script : Script} {text : Text} {m : Module}
    (hwrite : writeModule script.module = .ok text) (hread : readModule text = .ok m)
    (before : Nat) : script.execute before = runEntry m before := by
  have hreread : script.reread = .ok m := by
    refine bind_eq_ok_iff.mpr ⟨text, ?_, ?_⟩
    · rw [Script.text, moduleText, hwrite]
    · rw [moduleOfText, hread]
  rw [Script.execute, hreread]

/-- A script whose text is not read does not run. -/
theorem Script.execute_eq_error {script : Script} {text : Text} {e : ReadError}
    (hwrite : writeModule script.module = .ok text) (hread : readModule text = .error e)
    (before : Nat) : script.execute before = ⟨[], [], .error (.read e)⟩ := by
  have hreread : script.reread = .error (.read e) := by
    rw [Script.reread, Script.text, moduleText, hwrite]
    change moduleOfText text = _
    rw [moduleOfText, hread]
  rw [Script.execute, hreread]

namespace Session

variable {session : Session} {id path text : String} {script : Script} {m : Module}

theorem script_keep (session : Session) (id : String) (script : Script) :
    (session.keep id script).script id = .ok script := by
  have hlookup : (session.keep id script).scripts.lookup id = some script := by
    rw [keep, List.lookup_cons, beq_self_eq_true]
  rw [Session.script, hlookup]

/-- A script whose text is a string is saved if its file can be written. -/
theorem perform_save (hscript : session.script id = .ok script)
    (hwrite : writeModule script.module = .ok text) {files : Files}
    (hfiles : session.files.write path text = .ok files) :
    session.perform (.save id path) = (.ok .done, { session with files := files }) := by
  have hcontent : fileContent script path = .ok text := by
    rw [fileContent, Script.text, moduleText, hwrite]
    rfl
  rw [perform, save, hscript]
  dsimp only
  rw [hcontent]
  dsimp only [Except.toOption, Option.getD_some]
  rw [hfiles]
  rfl

/-- A script that is loaded has the module of its file. -/
theorem perform_load (hfile : session.files.read path = .ok text)
    (hread : readModule text = .ok m) {written : Text} (hwrite : writeModule m = .ok written) :
    session.perform (.load id path) =
      (.ok (.script ⟨"", m, some path⟩ written), session.keep id ⟨"", m, some path⟩) := by
  have htext : session.fileText path = .ok text := by
    rw [fileText, hfile]
  have hscript : Script.ofText text path = .ok ⟨"", m, some path⟩ := by
    rw [Script.ofText, moduleOfText, hread]
    rfl
  have hkeep : session.keepScript id ⟨"", m, some path⟩ =
      .ok (.script ⟨"", m, some path⟩ written, session.keep id ⟨"", m, some path⟩) := by
    rw [keepScript, Script.text, moduleText, hwrite]
    rfl
  rw [perform, htext]
  change session.settle (do session.keepScript id (← lift (Script.ofText text path))) = _
  rw [hscript]
  change session.settle (session.keepScript id ⟨"", m, some path⟩) = _
  rw [hkeep]
  rfl

theorem execute_of_script (hscript : session.script id = .ok script) {lines : List String}
    (hlines : session.lines = lines) {run : Run} (hrun : script.execute lines.length = run) :
    session.execute id =
      ((lift run.result).map (.ran run.lines), { session with lines := lines ++ run.lines }) := by
  rw [execute, hscript]
  dsimp only
  rw [hlines, hrun]

end Session

/-- A script runs as its module does, wherever the text that it runs from has been. -/
structure RunsAsModule (source : String) (m : Module) (text : String) : Prop where
  written : writeModule m = .ok text
  /-- The module that is read from the text shows every host what the module shows. -/
  reread : ∃ read, readModule text = .ok read ∧ ∀ host, read.observe host = m.observe host
  /-- A script of the module, which is run from its text, does what the module does. -/
  executed : ∀ file before, Script.execute ⟨source, m, file⟩ before = runEntry m before
  /-- If the text can be written to a file, the script is saved there. A copy that is loaded from
  the file does the same. -/
  loaded : ∀ (session : Session) (id copy path : String) (file : Option String) (files : Files),
    session.script id = .ok ⟨source, m, file⟩ → session.files.write path text = .ok files →
    ∃ saved reply loaded, session.perform (.save id path) = (.ok .done, saved) ∧
      saved.perform (.load copy path) = (.ok reply, loaded) ∧
      loaded.execute copy =
        ((Session.lift (runEntry m session.lines.length).result).map
            (.ran (runEntry m session.lines.length).lines),
          { loaded with lines := session.lines ++ (runEntry m session.lines.length).lines })

/-- A compiled script runs as its module does. The bound on the source is that of the addresses that
can be written; no source that fits in a memory comes near it. -/
theorem runsAsModule_of_compileModule {options : Options} {source : String} {m : Module}
    (hplain : IsPlain options.importModule) (hline : .char '\r' ∉ options.importModule.points)
    (hsize : (utf8 source).length < 10 ^ Numeral.maxDigits)
    (h : compileModule options source = .ok m) : ∃ text, RunsAsModule source m text := by
  obtain ⟨program, hwords, hgenerate⟩ := exists_program_of_compileModule h
  obtain ⟨c, final, hcompiled⟩ := exists_compiledProgram hgenerate
  have hwellFormed := hcompiled.wellFormed hwords hsize hplain.isUnquoted
  have hencodable := hcompiled.encodable hplain
  obtain ⟨lines, hlines, hread⟩ := exists_readModule hwellFormed hencodable
  have hwrite := writeModule_eq hlines
  have hwrite' := writeModule_eq ((moduleLines_normalized hwellFormed.toWritable).trans hlines)
  obtain ⟨text, htext⟩ := hcompiled.exists_string_of_writeModule hplain hwrite
  rw [htext] at hread hwrite hwrite'
  refine ⟨text, hwrite, ⟨m.normalized, hread, observe_normalized m⟩, fun file before => ?_, ?_⟩
  · rw [Script.execute_eq hwrite hread, runEntry_normalized]
  · intro session id copy path file files hscript hfiles
    have hsave := Session.perform_save hscript hwrite hfiles
    -- The copy has the module that is read, which is written as the same text again.
    have hname : .char '\r' ∉ m.importModule.points := hcompiled.importModule_eq ▸ hline
    have hfile : ({ session with files := files } : Session).files.read path = .ok text := by
      rw [Files.read_write hfiles, unifyNewlines_writeModule hwellFormed hencodable hname hwrite]
    have hrun : Script.execute ⟨"", m.normalized, some path⟩ session.lines.length =
        runEntry m session.lines.length := by
      rw [Script.execute_eq hwrite' hread, runEntry_normalized]
    exact ⟨_, _, _, hsave, Session.perform_load hfile hread hwrite',
      Session.execute_of_script (Session.script_keep _ copy _) rfl hrun⟩

/-- A source with a line end of two characters in a string, and a division that may fail. -/
def lineEnds : String :=
  "let at = \"one\r\ntwo\"; fun share(n) \x7b print n; 12 / n \x7d print at; share(3) + share(at);"

/-- The line ends of a string are kept in a file, since they are escaped. -/
theorem runsAsModule_lineEnds :
    ∃ m, compileModule { valueType := .i32, entry := .expression, importModule := "hôst" } lineEnds =
      .ok m ∧ ∃ text, RunsAsModule lineEnds m text := by
  have hok : (compileModule { valueType := .i32, entry := .expression, importModule := "hôst" }
      lineEnds).isOk = true := by
    decide +kernel
  have hsize : (utf8 lineEnds).length < 10 ^ Numeral.maxDigits :=
    Numeral.lt_pow_maxDigits 2 (by decide) (by decide)
  obtain ⟨m, h⟩ := exists_of_isOk hok
  exact ⟨m, h, runsAsModule_of_compileModule (by decide) (by decide) hsize h⟩

/-- A module whose import is called by a lone surrogate logs its number, but its script does not
run. -/
theorem not_execute_surrogateImport :
    ∃ m text, compileModule { importModule := .loneSurrogate } "print 1;" = .ok m ∧
      (runEntry m 0).lines = ["1"] ∧ (runEntry m 0).result = .ok none ∧
      writeModule m = .ok text ∧ readModule text = .error .loneSurrogate ∧
      Script.execute ⟨"print 1;", m, none⟩ 0 = ⟨[], [], .error (.read .loneSurrogate)⟩ := by
  have hok : (compileModule { importModule := .loneSurrogate } "print 1;").toOption.any
      (fun m => (runEntry m 0).lines = ["1"] ∧ (runEntry m 0).result.toOption = some none ∧
        (writeModule m).toOption.any fun text => readModule text = .error .loneSurrogate) =
        true := by
    decide +kernel
  obtain ⟨m, h, hok⟩ := exists_of_any_toOption hok
  obtain ⟨hlines, hresult, hread⟩ := of_decide_eq_true hok
  obtain ⟨text, hwrite, hread⟩ := exists_of_any_toOption hread
  have hread := of_decide_eq_true hread
  have hresult : (runEntry m 0).result = .ok none := by
    cases hrun : (runEntry m 0).result <;> simp_all [Except.toOption]
  exact ⟨m, text, h, hlines, hresult, hwrite, hread, Script.execute_eq_error hwrite hread 0⟩

end StackScript
