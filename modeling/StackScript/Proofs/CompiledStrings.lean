import StackScript.Proofs.CompiledText

/-!
# Compiled text is a string

Only by its names can a lone surrogate get into the text of a module: every other word of a text,
and all data, is written in characters. The names of a compiled module stand in its source, apart
from that of its import. So its text is a string if the name of its import is one.

## Main definitions

* `LinesOfStrings`: lines whose words and quoted texts are strings.
* `Instr.texts`: the mnemonic and the names of an instruction.
* `Module.OfStrings`: a module whose names and mnemonics are strings.

## Main results

* `forall_mem_renderLines`: what holds for the code points of pieces holds for those of lines.
* `Module.OfStrings.exists_eq`: the text of such a module is a string.
* `Compiles.ofStrings`: compiled code has no other texts.
* `CompiledProgram.exists_string_of_writeModule`: the text of a compiled module is a string.
-/

namespace StackScript

open TextPiece (lparen rparen parens)

/-! ### Lines -/

section Rendering

variable {P : CodePoint → Prop} (hblank : P (.char ' '))

include hblank

theorem forall_mem_renderPieces {pieces : List TextPiece}
    (h : ∀ piece ∈ pieces, ∀ c ∈ piece.render, P c) : ∀ c ∈ renderPieces pieces, P c := by
  fun_induction renderPieces pieces with
  | case1 => exact List.forall_mem_nil _
  | case2 piece => exact h piece List.mem_cons_self
  | case3 piece next rest ih =>
    obtain ⟨hpiece, hrest⟩ := List.forall_mem_cons.mp h
    have hgap : ∀ c ∈ piece.gap next, P c := by
      unfold TextPiece.gap
      split <;> simp [hblank]
    simp only [List.forall_mem_append]
    exact ⟨⟨hpiece, hgap⟩, ih hrest⟩

/-- What holds for the code points of pieces, for the blank and for the line end holds for all code
points of lines. -/
theorem forall_mem_renderLines (hline : P (.char '\n')) {lines : List TextLine}
    (h : ∀ piece ∈ lines.flatMap TextLine.pieces, ∀ c ∈ piece.render, P c) :
    ∀ c ∈ (renderLines lines).points, P c := by
  rw [renderLines, Text.points_ofPoints]
  intro c hc
  obtain ⟨line, hmem, hc⟩ := List.mem_flatMap.mp hc
  have hpieces := forall_mem_renderPieces hblank fun piece hpiece =>
    h piece (List.mem_flatMap.mpr ⟨line, hmem, hpiece⟩)
  simp only [TextLine.render, List.mem_append, List.mem_replicate, List.mem_singleton] at hc
  rcases hc with (⟨-, rfl⟩ | hc) | rfl
  · exact hblank
  · exact hpieces c hc
  · exact hline

end Rendering

theorem Text.isString_iff {text : Text} :
    text.IsString ↔ ∀ c ∈ text.points, c.char?.isSome = true := by
  cases text with
  | plain s => simp [CodePoint.char?]
  | broken before half after =>
    constructor
    · rintro ⟨⟩
    · intro h
      simpa [CodePoint.char?] using h (.surrogate half) (by simp [points])

theorem Text.IsString.exists_eq {text : Text} (h : text.IsString) : ∃ s : String, text = s := by
  cases text with
  | plain s => exact ⟨s, rfl⟩
  | broken => cases h

@[simp] theorem Text.isString_plain_append {s : String} {text : Text} :
    (Text.plain s ++ text).IsString ↔ text.IsString := by
  cases text <;> exact Iff.rfl

/-- The text of a piece, if it has one. -/
def TextPiece.text? : TextPiece → Option Text
  | lparen | rparen => none
  | word text | quote text => some text

/-- Pieces whose texts are strings. -/
def PiecesOfStrings (pieces : List TextPiece) : Prop :=
  ∀ piece ∈ pieces, ∀ text ∈ piece.text?, text.IsString

section Pieces

variable {pieces more : List TextPiece} {text : Text}

@[simp] theorem piecesOfStrings_nil : PiecesOfStrings [] := List.forall_mem_nil _

@[simp] theorem piecesOfStrings_lparen :
    PiecesOfStrings (lparen :: pieces) ↔ PiecesOfStrings pieces := by
  simp [PiecesOfStrings, TextPiece.text?]

@[simp] theorem piecesOfStrings_rparen :
    PiecesOfStrings (rparen :: pieces) ↔ PiecesOfStrings pieces := by
  simp [PiecesOfStrings, TextPiece.text?]

@[simp] theorem piecesOfStrings_word :
    PiecesOfStrings (.word text :: pieces) ↔ text.IsString ∧ PiecesOfStrings pieces := by
  simp [PiecesOfStrings, TextPiece.text?]

@[simp] theorem piecesOfStrings_quote :
    PiecesOfStrings (.quote text :: pieces) ↔ text.IsString ∧ PiecesOfStrings pieces := by
  simp [PiecesOfStrings, TextPiece.text?]

@[simp] theorem piecesOfStrings_name :
    PiecesOfStrings (.name text :: pieces) ↔ text.IsString ∧ PiecesOfStrings pieces := by
  simp [TextPiece.name]

@[simp] theorem piecesOfStrings_type {t : ValueType} :
    PiecesOfStrings (.type t :: pieces) ↔ PiecesOfStrings pieces := by
  simp [TextPiece.type]

@[simp] theorem piecesOfStrings_append :
    PiecesOfStrings (pieces ++ more) ↔ PiecesOfStrings pieces ∧ PiecesOfStrings more :=
  List.forall_mem_append

@[simp] theorem piecesOfStrings_parens :
    PiecesOfStrings (parens pieces) ↔ PiecesOfStrings pieces := by
  simp [parens]

end Pieces

/-- Lines whose pieces have texts that are strings. -/
def LinesOfStrings (lines : List TextLine) : Prop :=
  PiecesOfStrings (lines.flatMap TextLine.pieces)

section Lines

variable {lines more : List TextLine} {line : TextLine}

@[simp] theorem linesOfStrings_nil : LinesOfStrings [] := piecesOfStrings_nil

@[simp] theorem linesOfStrings_cons :
    LinesOfStrings (line :: lines) ↔ PiecesOfStrings line.pieces ∧ LinesOfStrings lines := by
  simp [LinesOfStrings]

@[simp] theorem linesOfStrings_append :
    LinesOfStrings (lines ++ more) ↔ LinesOfStrings lines ∧ LinesOfStrings more := by
  simp [LinesOfStrings]

theorem linesOfStrings_map {α : Type} {f : α → TextLine} {items : List α}
    (h : ∀ a ∈ items, PiecesOfStrings (f a).pieces) : LinesOfStrings (items.map f) := by
  induction items with
  | nil => exact linesOfStrings_nil
  | cons a items ih =>
    obtain ⟨ha, hitems⟩ := List.forall_mem_cons.mp h
    exact linesOfStrings_cons.mpr ⟨ha, ih hitems⟩

/-- Lines of strings make a string. -/
theorem LinesOfStrings.isString (h : LinesOfStrings lines) : (renderLines lines).IsString := by
  have hcharacter (c : Char) : (CodePoint.char c).char?.isSome = true := rfl
  refine Text.isString_iff.mpr
    (forall_mem_renderLines (hcharacter _) (hcharacter _) fun piece hpiece => ?_)
  have htext := h piece hpiece
  cases piece with
  | lparen | rparen => simp [TextPiece.render, CodePoint.char?]
  | word text => exact Text.isString_iff.mp (htext text rfl)
  | quote text =>
    have hpoints := Text.isString_iff.mp (htext text rfl)
    simpa [TextPiece.render, CodePoint.char?, or_imp, forall_and] using hpoints

end Lines

/-! ### Fields -/

/-- The mnemonic and the names of an instruction. -/
def Instr.texts : Instr → List Text
  | call name => [name]
  | plain mnemonic (.text name) => [mnemonic, name]
  | plain mnemonic _ => [mnemonic]
  | _ => []

theorem piecesOfStrings_operandPieces {operand : Datum} {pieces : List TextPiece}
    (h : ∀ name, operand = .text name → name.IsString)
    (hpieces : operandPieces operand = .ok pieces) : PiecesOfStrings pieces := by
  unfold operandPieces at hpieces
  split at hpieces
  · cases hpieces
    simp
  · cases hpieces
    simpa using h _ rfl
  · obtain ⟨numeral, -, hpieces⟩ := bind_eq_ok_iff.mp hpieces
    cases hpieces
    simp

theorem linesOfStrings_instrLines {t : ValueType} {depth depth' : Int} {instr : Instr}
    {lines : List TextLine} (h : ∀ text ∈ instr.texts, text.IsString)
    (hlines : instrLines t depth instr = .ok (lines, depth')) : LinesOfStrings lines := by
  cases instr with
  | const value =>
    obtain ⟨numeral, -, hlines⟩ := bind_eq_ok_iff.mp hlines
    cases hlines
    simp [ValueType.mnemonic]
  | call name =>
    cases hlines
    simpa using h name List.mem_cons_self
  | plain mnemonic operand =>
    obtain ⟨pieces, hpieces, hlines⟩ := bind_eq_ok_iff.mp hlines
    cases hlines
    have hmnemonic : mnemonic.IsString := h mnemonic (by cases operand <;> exact List.mem_cons_self)
    have hoperand : PiecesOfStrings pieces := by
      refine piecesOfStrings_operandPieces ?_ hpieces
      rintro name rfl
      exact h name (by simp [Instr.texts])
    simpa using ⟨hmnemonic, hoperand⟩
  | openIf | openElse | closeIf =>
    cases hlines
    simp

theorem linesOfStrings_bodyLines {t : ValueType} {depth : Int} {body : List Instr}
    {lines : List TextLine} (h : ∀ instr ∈ body, ∀ text ∈ instr.texts, text.IsString)
    (hlines : bodyLines t depth body = .ok lines) : LinesOfStrings lines := by
  induction body generalizing depth lines with
  | nil =>
    cases hlines
    simp
  | cons instr body ih =>
    obtain ⟨hinstr, hbody⟩ := List.forall_mem_cons.mp h
    obtain ⟨⟨first, depth'⟩, hfirst, hlines⟩ := bind_eq_ok_iff.mp hlines
    obtain ⟨others, hothers, hlines⟩ := bind_eq_ok_iff.mp hlines
    cases hlines
    exact linesOfStrings_append.mpr ⟨linesOfStrings_instrLines hinstr hfirst, ih hbody hothers⟩

/-- A function whose texts are strings. -/
structure Func.OfStrings (f : Func) : Prop where
  name : f.name.IsString
  params : ∀ param ∈ f.params, param.IsString
  locals : ∀ cell ∈ f.locals, cell.IsString
  body : ∀ instr ∈ f.body, ∀ text ∈ instr.texts, text.IsString

theorem linesOfStrings_functionLines {t : ValueType} {f : Func} {lines : List TextLine}
    (h : f.OfStrings) (hlines : functionLines t f = .ok lines) : LinesOfStrings lines := by
  obtain ⟨body, hbody, hlines⟩ := bind_eq_ok_iff.mp hlines
  cases hlines
  have hparams : PiecesOfStrings (f.params.flatMap fun param =>
      parens [.word "param", .name param, .type t]) := by
    intro piece hpiece
    obtain ⟨param, hparam, hpiece⟩ := List.mem_flatMap.mp hpiece
    have hpieces : PiecesOfStrings (parens [.word "param", .name param, .type t]) := by
      simpa using h.params param hparam
    exact hpieces piece hpiece
  have hlocals : LinesOfStrings (f.locals.map fun cell =>
      ⟨2, parens [.word "local", .name cell, .type t]⟩) :=
    linesOfStrings_map fun cell hcell => by simpa using h.locals cell hcell
  have hbody := linesOfStrings_bodyLines h.body hbody
  cases f.result <;> simpa using ⟨⟨h.name, hparams⟩, hlocals, hbody⟩

theorem linesOfStrings_functionsLines {t : ValueType} {functions : List Func}
    {lines : List TextLine} (h : ∀ f ∈ functions, f.OfStrings)
    (hlines : functionsLines t functions = .ok lines) : LinesOfStrings lines := by
  induction functions generalizing lines with
  | nil =>
    cases hlines
    simp
  | cons f functions ih =>
    obtain ⟨hf, hfunctions⟩ := List.forall_mem_cons.mp h
    obtain ⟨first, hfirst, hlines⟩ := bind_eq_ok_iff.mp hlines
    obtain ⟨others, hothers, hlines⟩ := bind_eq_ok_iff.mp hlines
    cases hlines
    exact linesOfStrings_append.mpr
      ⟨linesOfStrings_functionLines hf hfirst, ih hfunctions hothers⟩

theorem linesOfStrings_segmentLines {segments : List Segment} {lines : List TextLine}
    (hlines : segmentLines segments = .ok lines) : LinesOfStrings lines := by
  induction segments generalizing lines with
  | nil =>
    cases hlines
    simp
  | cons segment segments ih =>
    obtain ⟨first, hfirst, hlines⟩ := bind_eq_ok_iff.mp hlines
    obtain ⟨others, hothers, hlines⟩ := bind_eq_ok_iff.mp hlines
    obtain ⟨offset, -, hfirst⟩ := bind_eq_ok_iff.mp hfirst
    cases hlines
    cases hfirst
    simpa using ih hothers

theorem linesOfStrings_memoryLines {m : Module} {lines : List TextLine}
    (hlines : memoryLines m = .ok lines) : LinesOfStrings lines := by
  unfold memoryLines at hlines
  split at hlines
  · obtain ⟨pages, -, hlines⟩ := bind_eq_ok_iff.mp hlines
    cases hlines
    simp [memoryName]
  · cases hlines
    simp

/-! ### Modules -/

/-- A module whose texts are strings. -/
structure Module.OfStrings (m : Module) : Prop extends Module.Encodable m where
  globals : ∀ g ∈ m.globals, g.name.IsString
  functions : ∀ f ∈ m.functions, f.OfStrings

/-- The text of a module whose texts are strings is a string. -/
theorem Module.OfStrings.exists_eq {m : Module} (h : m.OfStrings) {text : Text}
    (hwrite : writeModule m = .ok text) : ∃ s : String, text = s := by
  obtain ⟨lines, hlines, hwrite⟩ := bind_eq_ok_iff.mp hwrite
  cases hwrite
  obtain ⟨memory, hmemory, hlines⟩ := bind_eq_ok_iff.mp hlines
  obtain ⟨data, hdata, hlines⟩ := bind_eq_ok_iff.mp hlines
  obtain ⟨functions, hfunctions, hlines⟩ := bind_eq_ok_iff.mp hlines
  cases hlines
  have hglobals : LinesOfStrings (m.globals.map globalLine) := by
    refine linesOfStrings_map fun g hg => ?_
    have hname := h.globals g hg
    unfold globalLine
    cases g.mutable <;> simpa [ValueType.mnemonic] using hname
  have hexports : LinesOfStrings (m.exports.map exportLine) := by
    have hentry := h.entry
    unfold Module.exports
    split <;> simp [exportLine, memoryName, hentry]
  have himport : PiecesOfStrings (importLine m).pieces := by
    simpa [importLine, logFunction] using h.importModule
  refine LinesOfStrings.isString ?_ |>.exists_eq
  simpa using ⟨himport, linesOfStrings_memoryLines hmemory, hglobals,
    linesOfStrings_segmentLines hdata, linesOfStrings_functionsLines h.functions hfunctions,
    hexports⟩

/-! ### Compiled modules -/

/-- Actions whose texts are strings. -/
def ActionsOfStrings (actions : List Action) : Prop :=
  ∀ action ∈ actions, ∀ text ∈ action.instr.texts, text.IsString

section Actions

variable {actions more : List Action} (use : Use) (t : ValueType)

@[simp] theorem actionsOfStrings_append :
    ActionsOfStrings (actions ++ more) ↔ ActionsOfStrings actions ∧ ActionsOfStrings more :=
  List.forall_mem_append

@[simp] theorem actionsOfStrings_cons {action : Action} :
    ActionsOfStrings (action :: actions) ↔
      (∀ text ∈ action.instr.texts, text.IsString) ∧ ActionsOfStrings actions :=
  List.forall_mem_cons

@[simp] theorem actionsOfStrings_nil : ActionsOfStrings [] := List.forall_mem_nil _

@[simp] theorem actionsOfStrings_ofValue : ActionsOfStrings (use.ofValue t) := by
  unfold ActionsOfStrings
  cases use <;> cases t <;> decide

@[simp] theorem actionsOfStrings_ofFlag : ActionsOfStrings (use.ofFlag t) := by
  unfold ActionsOfStrings
  cases use <;> cases t <;> decide

@[simp] theorem actionsOfStrings_widenActions : ActionsOfStrings t.widenActions := by
  unfold ActionsOfStrings
  cases t <;> decide

@[simp] theorem actionsOfStrings_negateActions : ActionsOfStrings t.negateActions := by
  unfold ActionsOfStrings
  cases t <;> decide

@[simp] theorem actionsOfStrings_isZeroActions : ActionsOfStrings t.isZeroActions := by
  unfold ActionsOfStrings
  cases t <;> decide

@[simp] theorem texts_mnemonic (op : BinaryOp) :
    ∀ text ∈ (Instr.bare (op.mnemonic t)).texts, text.IsString := by
  cases op <;> cases t <;> decide

end Actions

/-- Code whose texts are strings. -/
def Code.OfStrings (c : Code) : Prop :=
  ∀ instr ∈ c.flatten, ∀ text ∈ instr.texts, text.IsString

namespace Code

@[simp] theorem ofStrings_append {c d : Code} :
    (c ++ d).OfStrings ↔ c.OfStrings ∧ d.OfStrings := by
  simp only [OfStrings, flatten_append, List.forall_mem_append]

@[simp] theorem ofStrings_acts {actions : List Action} :
    (acts actions).OfStrings ↔ ActionsOfStrings actions := by
  simp only [OfStrings, flatten_acts, List.forall_mem_map, ActionsOfStrings]

@[simp] theorem ofStrings_done : done.OfStrings := List.forall_mem_nil _

@[simp] theorem ofStrings_ifElse {first second rest : Code} :
    (ifElse first second rest).OfStrings ↔
      first.OfStrings ∧ second.OfStrings ∧ rest.OfStrings := by
  simp [OfStrings, flatten, Instr.texts, or_imp, forall_and]

end Code

/-- The names in compiled code are names of the program. -/
theorem Compiles.ofStrings {options : Options} {s s' : Scope} {p : Part} {c : Code}
    (h : Compiles options s p c s') : c.OfStrings := by
  induction h with
  | @binary _ _ _ _ _ _ op =>
    simp only [Code.ofStrings_append, Code.ofStrings_acts, actionsOfStrings_cons, Action.instr_bare]
    refine ⟨⟨‹_›, ‹_›⟩, texts_mnemonic _ op, ?_⟩
    split <;> simp
  | _ => simp_all [Action.instr, Action.named, Instr.texts]

theorem IsNameAmong.isString {lexemes : List Lexeme} {text : Text} (h : IsNameAmong lexemes text) :
    text.IsString := by
  obtain ⟨name, rfl, -⟩ := h
  exact Text.isString_plain name

namespace CompiledProgram

variable {options : Options} {program : Program} {m : Module} {c : Code} {final : Scope}

theorem ofStrings_of_mem_functions (h : CompiledProgram options program m c final) {f : Func}
    (hf : f ∈ m.functions) : f.OfStrings := by
  rcases h.mem_functions hf with rfl | ⟨d, hd, s, inner, body, hcompiled⟩
  · exact ⟨Text.isString_plain _, nofun, nofun, h.compiles.ofStrings⟩
  · have hnames (name : Text) (hname : name ∈ d.names) : name.IsString :=
      (Expr.isNameAmong_of_mem_allFunctions program hd name hname).isString
    have hcells : ∀ name ∈ f.params ++ f.locals, name.IsString := by
      intro name hname
      rw [hcompiled.names_eq, Frame.mem_names_addLocals, Frame.names, List.append_nil] at hname
      exact hnames name (by simpa [FunctionDef.names] using .inr hname)
    obtain ⟨hparams, hlocals⟩ := List.forall_mem_append.mp hcells
    refine ⟨?_, hparams, hlocals, ?_⟩
    · rw [hcompiled.func]
      exact hnames _ (by simp [FunctionDef.names, Frame.function])
    · rw [hcompiled.func]
      exact hcompiled.compiles.ofStrings

/-- The text of a compiled module is a string if the name of its import is one. -/
theorem exists_string_of_writeModule (h : CompiledProgram options program m c final)
    (hplain : IsPlain options.importModule) {text : Text} (hwrite : writeModule m = .ok text) :
    ∃ s : String, text = s := by
  have hstrings : m.OfStrings :=
    { h.encodable hplain with
      globals := fun g hg => by
        have hname : g.name ∈ m.globals.map Global.name := List.mem_map_of_mem hg
        rw [h.names_globals, List.mem_eraseDups] at hname
        exact (Expr.isNameAmong_of_mem_allLets program hname).isString
      functions := fun f => h.ofStrings_of_mem_functions }
  exact hstrings.exists_eq hwrite

end CompiledProgram

end StackScript
