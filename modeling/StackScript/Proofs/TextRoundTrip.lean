import StackScript.Proofs.BodySpelling

/-!
# Modules read back from their text

The text of a module that can be written is read as the module, apart from two things that the text
does not tell: whether a memory with data in it was asked for, and whether a constant of the module's
type was written as such. The names of the import and of the entry stand in strings, which are read
as bytes. So a module with a lone surrogate in one of them has a text that is not read.

Each field of the text is read as a change of the module that has been read so far. The fields of
several lines are read as all their changes in order.

## Main definitions

* `Func.Writable`, `Module.Writable`: functions and modules that can be written.
* `Module.WellFormed`: modules that can be written and whose bodies nest.
* `Module.Encodable`: modules whose strings have bytes.
* `Module.normalized`: a module as it is read.
* `Fields`: lines that are read as changes of a module.

## Main results

* `Fields.exists_list`: the lines of a list of fields.
* `readModule_renderLines_eq_loneSurrogate`: the text of a module whose strings have no bytes.
* `readModule_writeModule`: a module reads back from its text.
-/

namespace StackScript

open TextPiece (lparen rparen parens)

/-! ### Modules that can be written -/

/-- A function that can be written in a module of a type, whether its body nests or not. -/
structure Func.Writable (t : ValueType) (f : Func) : Prop where
  name : IsName f.name
  params : ∀ param ∈ f.params, IsName param
  locals : ∀ cell ∈ f.locals, IsName cell
  instructions : ∀ instr ∈ f.body, instr.WellFormed t

/-- A module that can be written, whether the bodies of its functions nest or not. -/
structure Module.Writable (m : Module) : Prop where
  entry : IsName m.entry ∧ IsUnquoted m.entry
  importModule : IsUnquoted m.importModule
  globals : ∀ g ∈ m.globals, IsName g.name
  offsets : ∀ segment ∈ m.data, FewDigits segment.offset
  pages : m.hasMemory = true → FewDigits m.memoryPages
  functions : ∀ f ∈ m.functions, f.Writable m.valueType

/-- A module that can be written and whose bodies nest. -/
structure Module.WellFormed (m : Module) : Prop extends Module.Writable m where
  nested : ∀ f ∈ m.functions, WellNested f.body

/-- A module whose names between quotes have no lone surrogate. -/
structure Module.Encodable (m : Module) : Prop where
  importModule : m.importModule.IsString
  entry : m.entry.IsString

instance : DecidablePred Module.Encodable := fun _ =>
  decidable_of_iff (_ ∧ _) ⟨fun h => ⟨h.1, h.2⟩, fun h => ⟨h.importModule, h.entry⟩⟩

/-- A function as it is read. -/
def Func.normalized (t : ValueType) (f : Func) : Func :=
  { f with body := f.body.map (Instr.normalized t) }

/-- A module as it is read: that a memory was asked for is known only if there is no data. -/
def Module.normalized (m : Module) : Module :=
  { m with
    memory := m.memory && m.data.isEmpty
    functions := m.functions.map (Func.normalized m.valueType) }

namespace Module

/-- A module with more globals. -/
def addGlobals (globals : List Global) (m : Module) : Module :=
  { m with globals := m.globals ++ globals }

/-- A module with more data segments. -/
def addSegments (segments : List Segment) (m : Module) : Module :=
  { m with data := m.data ++ segments }

/-- A module with more functions. -/
def addFunctions (functions : List Func) (m : Module) : Module :=
  { m with functions := m.functions ++ functions }

end Module

/-! ### Fields -/

/-- Lines that spell some fields of a module of a type, which are read as a change of the module. -/
structure Fields (t : ValueType) (lines : List TextLine) (forms : List Form)
    (change : Module → Module) : Prop where
  spells : Spells (lines.flatMap TextLine.pieces) forms
  reads : ∀ m, m.valueType = t → readFields m forms = .ok (change m)
  valueType_eq : ∀ m, m.valueType = t → (change m).valueType = t

namespace Fields

variable {t : ValueType} {lines lines' : List TextLine} {forms forms' : List Form}
  {change change' : Module → Module}

theorem nil (t : ValueType) : Fields t [] [] id :=
  ⟨.nil, fun _ _ => rfl, fun _ h => h⟩

theorem readFields_append {m m' : Module} (h : readFields m forms = .ok m') :
    readFields m (forms ++ forms') = readFields m' forms' := by
  induction forms generalizing m with
  | nil =>
    cases h
    rfl
  | cons form forms ih =>
    rw [readFields] at h
    rw [List.cons_append, readFields]
    cases hfield : readField m form with
    | error e =>
      rw [hfield] at h
      cases h
    | ok m₁ =>
      rw [hfield] at h
      exact ih h

theorem append (h : Fields t lines forms change) (h' : Fields t lines' forms' change') :
    Fields t (lines ++ lines') (forms ++ forms') (change' ∘ change) := by
  refine ⟨?_, fun m hm => ?_, fun m hm => h'.valueType_eq _ (h.valueType_eq m hm)⟩
  · rw [List.flatMap_append]
    exact h.spells.append h'.spells
  · rw [readFields_append (h.reads m hm)]
    exact h'.reads _ (h.valueType_eq m hm)

/-- A single field on some lines. -/
theorem of_form {form : Form} (hspells : Spells (lines.flatMap TextLine.pieces) [form])
    (hreads : ∀ m, m.valueType = t → readField m form = .ok (change m))
    (htype : ∀ m, m.valueType = t → (change m).valueType = t) :
    Fields t lines [form] change := by
  refine ⟨hspells, fun m hm => ?_, htype⟩
  rw [readFields, hreads m hm]
  rfl

/-- A single field on one line. -/
theorem single {line : TextLine} {form : Form} (hspells : Spells line.pieces [form])
    (hreads : ∀ m, m.valueType = t → readField m form = .ok (change m))
    (htype : ∀ m, m.valueType = t → (change m).valueType = t) :
    Fields t [line] [form] change :=
  of_form (by simpa using hspells) hreads htype

/-- The lines of a list of fields, if each is read as an addition to the module. -/
theorem exists_list {α : Type} (write : α → Except WriteError (List TextLine))
    (writeAll : List α → Except WriteError (List TextLine)) (add : List α → Module → Module)
    (hwrite_nil : writeAll [] = .ok [])
    (hwrite_cons : ∀ a as first others, write a = .ok first → writeAll as = .ok others →
      writeAll (a :: as) = .ok (first ++ others))
    (hadd_nil : add [] = id) (hadd_cons : ∀ a as, add (a :: as) = add as ∘ add [a])
    {items : List α}
    (h : ∀ a ∈ items, ∃ lines forms, write a = .ok lines ∧ Fields t lines forms (add [a])) :
    ∃ lines forms, writeAll items = .ok lines ∧ Fields t lines forms (add items) := by
  induction items with
  | nil => exact ⟨[], [], hwrite_nil, hadd_nil ▸ .nil t⟩
  | cons a as ih =>
    obtain ⟨ha, has⟩ := List.forall_mem_cons.mp h
    obtain ⟨first, forms, hfirst, hfields⟩ := ha
    obtain ⟨others, forms', hothers, hfields'⟩ := ih has
    refine ⟨first ++ others, forms ++ forms', hwrite_cons a as first others hfirst hothers, ?_⟩
    rw [hadd_cons]
    exact hfields.append hfields'

end Fields

theorem asValueType_name (t : ValueType) : (Form.atom t.name).asValueType = .ok t := by
  simp only [Form.asValueType, Text.string?_plain, Option.bind_some, ValueType.ofName?_name]

/-- A global is read as itself. -/
theorem readGlobal_eq (g : Global) (init : Form) :
    readGlobal [.atom ("$" ++ g.name),
        if g.mutable then .list [.atom "mut", .atom g.type.name] else .atom g.type.name, init] =
      .ok g := by
  obtain ⟨name, mutable, type⟩ := g
  cases mutable with
  | true =>
    change (do
      let name ← (Form.atom ("$" ++ name)).asName
      let type ← (Form.atom type.name).asValueType
      return (⟨name, true, type⟩ : Global)) = _
    rw [IsName.asName, asValueType_name]
    rfl
  | false =>
    change (do
      let name ← (Form.atom ("$" ++ name)).asName
      let type ← (Form.atom type.name).asValueType
      return (⟨name, false, type⟩ : Global)) = _
    rw [IsName.asName, asValueType_name]
    rfl

/-- The line of a global. -/
theorem exists_fields_global (t : ValueType) {g : Global} (h : IsName g.name) :
    ∃ forms, Fields t [globalLine g] forms (Module.addGlobals [g]) := by
  have hinit : Spells (parens [.word (g.type.mnemonic "const"), .word "0"])
      [.list [.atom (g.type.mnemonic "const"), .atom "0"]] :=
    (Spells.word (isWord_const g.type) (.word (by decide) .nil)).parens
  have hcell : Spells (if g.mutable then parens [.word "mut", .type g.type] else [.type g.type])
      [if g.mutable then .list [.atom "mut", .atom g.type.name] else .atom g.type.name] := by
    cases g.mutable with
    | true => exact (Spells.word (by decide) (.word (isWord_typeName g.type) .nil)).parens
    | false => exact .word (isWord_typeName g.type) .nil
  have hline : Spells (globalLine g).pieces _ :=
    (Spells.word (by decide) (.word (isWord_name h) (hcell.append hinit))).parens
  refine ⟨_, .single hline (fun m hm => ?_) fun m hm => hm⟩
  change (do return { m with globals := m.globals ++ [← readGlobal _] }) = _
  rw [List.singleton_append, readGlobal_eq]
  rfl

theorem exists_fields_globals (t : ValueType) {globals : List Global}
    (h : ∀ g ∈ globals, IsName g.name) :
    ∃ forms, Fields t (globals.map globalLine) forms (Module.addGlobals globals) := by
  obtain ⟨lines, forms, hlines, hfields⟩ := Fields.exists_list (fun g => .ok [globalLine g])
    (fun globals => .ok (globals.map globalLine)) Module.addGlobals rfl
    (fun a as first others hfirst hothers => by cases hfirst; cases hothers; rfl)
    (by funext m; simp [Module.addGlobals]) (fun a as => by funext m; simp [Module.addGlobals])
    (fun g hg => by
      obtain ⟨forms, hfields⟩ := exists_fields_global t (h g hg)
      exact ⟨_, forms, rfl, hfields⟩)
  cases hlines
  exact ⟨forms, hfields⟩

theorem readData_eq {segment : Segment} (h : FewDigits segment.offset) :
    readData [.list [.atom "i32.const", .atom (toString segment.offset)], .string segment.data] =
      .ok segment := by
  simp only [readData, h.readNumber]
  rfl

/-- The line of a data segment. -/
theorem exists_fields_segment (t : ValueType) {segment : Segment} (h : FewDigits segment.offset) :
    ∃ line forms, segmentLine segment = .ok line ∧
      Fields t [line] forms (Module.addSegments [segment]) := by
  -- the address is written as an expression, the bytes as a string
  have hoffset : Spells (parens [.word "i32.const", .word (toString segment.offset)])
      [.list [.atom "i32.const", .atom (toString segment.offset)]] :=
    (Spells.word (by decide) (.word (isWord_toString _) .nil)).parens
  have hdata : Spells [.quote (String.ofList (escapeBytes segment.data))]
      [.string segment.data] := by
    refine .quote (fun rest => ?_) .nil
    rw [Text.points_plain, String.toList_ofList]
    exact readString_escapeBytes segment.data rest
  have hline : Spells (.word "data" :: (parens [.word "i32.const", .word (toString segment.offset)] ++
      [TextPiece.quote (String.ofList (escapeBytes segment.data))])) _ :=
    .word (by decide) (hoffset.append hdata)
  refine ⟨⟨1, _⟩, _, ?_, .single hline.parens (fun m hm => ?_) fun m hm => hm⟩
  · rw [segmentLine, h.integerText]
    rfl
  · change (do return { m with data := m.data ++ [← readData _] }) = _
    rw [List.singleton_append, readData_eq h]
    rfl

theorem exists_fields_segments (t : ValueType) {segments : List Segment}
    (h : ∀ segment ∈ segments, FewDigits segment.offset) :
    ∃ lines forms, segmentLines segments = .ok lines ∧
      Fields t lines forms (Module.addSegments segments) := by
  refine Fields.exists_list (fun segment => (segmentLine segment).map fun line => [line])
    segmentLines Module.addSegments rfl ?_ ?_ ?_ ?_
  · intro segment segments first others hfirst hothers
    cases hline : segmentLine segment with
    | error e =>
      rw [hline] at hfirst
      cases hfirst
    | ok line =>
      rw [hline] at hfirst
      cases hfirst
      rw [segmentLines, hline, hothers]
      rfl
  · funext m
    simp [Module.addSegments]
  · intro segment segments
    funext m
    simp [Module.addSegments]
  · intro segment hsegment
    obtain ⟨line, forms, hline, hfields⟩ := exists_fields_segment t (h segment hsegment)
    exact ⟨[line], forms, by rw [hline]; rfl, hfields⟩

/-! ### Functions -/

/-- A parameter or a local of a function, as a form. -/
def cellForm (head : String) (t : ValueType) (name : Text) : Form :=
  .list [.atom head, .atom ("$" ++ name), .atom t.name]

/-- The result of a function, as forms. -/
def resultForms : Option ValueType → List Form
  | some r => [.list [.atom "result", .atom r.name]]
  | none => []

/-- A function with a body in forms, as the forms after its first word. -/
def functionForms (t : ValueType) (f : Func) (body : List Form) : List Form :=
  .atom ("$" ++ f.name) :: (f.params.map (cellForm "param" t) ++
    (resultForms f.result ++ (f.locals.map (cellForm "local" t) ++ body)))

theorem spells_cells {head : String} (hhead : IsWord head) (t : ValueType) {names : List Text}
    (h : ∀ name ∈ names, IsName name) :
    Spells (names.flatMap fun name => parens [.word head, .name name, .type t])
      (names.map (cellForm head t)) := by
  induction names with
  | nil => exact .nil
  | cons name names ih =>
    obtain ⟨hname, hnames⟩ := List.forall_mem_cons.mp h
    have hcell : Spells (parens [.word head, .name name, .type t]) [cellForm head t name] :=
      (Spells.word hhead (.word (isWord_name hname) (.word (isWord_typeName t) .nil))).parens
    exact hcell.append (ih hnames)

theorem spells_result (result : Option ValueType) :
    Spells (match result with
      | some r => parens [.word "result", .type r]
      | none => []) (resultForms result) := by
  cases result with
  | none => exact .nil
  | some r => exact (Spells.word (by decide) (.word (isWord_typeName r) .nil)).parens

section

variable {t : ValueType} (f : Func) (rest : List Form)

theorem readHeadings_params (names : List Text) :
    readHeadings t f (names.map (cellForm "param" t) ++ rest) =
      readHeadings t { f with params := f.params ++ names } rest := by
  induction names generalizing f with
  | nil => rw [List.append_nil, List.map_nil, List.nil_append]
  | cons name names ih =>
    rw [List.map_cons, List.cons_append, cellForm, readHeadings, if_pos rfl]
    change (do let name ← (Form.atom ("$" ++ name)).asName; _) = _
    rw [IsName.asName]
    change readHeadings t { f with params := f.params ++ [name] } _ = _
    rw [ih, List.append_assoc, List.singleton_append]

theorem readHeadings_locals (names : List Text) :
    readHeadings t f (names.map (cellForm "local" t) ++ rest) =
      readHeadings t { f with locals := f.locals ++ names } rest := by
  induction names generalizing f with
  | nil => rw [List.append_nil, List.map_nil, List.nil_append]
  | cons name names ih =>
    rw [List.map_cons, List.cons_append, cellForm, readHeadings, if_neg (by decide),
      if_neg (by decide), if_pos rfl]
    change (do let name ← (Form.atom ("$" ++ name)).asName; _) = _
    rw [IsName.asName]
    change readHeadings t { f with locals := f.locals ++ [name] } _ = _
    rw [ih, List.append_assoc, List.singleton_append]

theorem readHeadings_result (hresult : f.result = none) (result : Option ValueType) :
    readHeadings t f (resultForms result ++ rest) =
      readHeadings t { f with result := result } rest := by
  cases result with
  | none =>
    obtain ⟨name, params, result, locals, body⟩ := f
    cases hresult
    rfl
  | some r =>
    rw [resultForms, List.singleton_append, readHeadings, if_neg (by decide), if_pos rfl]
    change (do let result ← (Form.atom r.name).asValueType; _) = _
    rw [asValueType_name]
    rfl

/-- The headings end where the body starts: its first form is no heading. -/
theorem readHeadings_body {body : List Form}
    (h : ∀ items more, body = .list items :: more → Form.headOf? items = some "if") :
    readHeadings t f body = (do return { f with body := ← readInstructions t body }) := by
  unfold readHeadings
  split
  · rename_i head elements forms
    cases h _ _ rfl
    rw [if_neg (by decide), if_neg (by decide), if_neg (by decide)]
  · rfl

end

/-- A function is read from its headings and its body. -/
theorem readFunction_eq {t : ValueType} (f : Func) {forms : List Form}
    (h : ∀ items more, forms = .list items :: more → Form.headOf? items = some "if") :
    readFunction t (functionForms t f forms) =
      (do return { f with body := ← readInstructions t forms }) := by
  rw [functionForms, readFunction, IsName.asName]
  change readHeadings t { name := f.name } _ = _
  rw [readHeadings_params, readHeadings_result, readHeadings_locals, readHeadings_body _ h]
  · rfl
  · rfl

theorem functionForms_append (t : ValueType) (f : Func) (body : List Form) :
    functionForms t f [] ++ body = functionForms t f body := by
  simp [functionForms]

/-- The lines of a function, whatever the tokens of its body are. -/
theorem exists_functionLines {t : ValueType} {f : Func} (hname : IsName f.name)
    (hparams : ∀ param ∈ f.params, IsName param) (hlocals : ∀ cell ∈ f.locals, IsName cell)
    {body : List TextLine} {tokens : List TextToken} (hbody : bodyLines t 2 f.body = .ok body)
    (htokens : List.Forall₂ TextPiece.Reads (body.flatMap TextLine.pieces) tokens) :
    ∃ lines, functionLines t f = .ok lines ∧
      List.Forall₂ TextPiece.Reads (lines.flatMap TextLine.pieces)
        (.lparen :: .atom "func" ::
          (Form.allTokens (functionForms t f []) ++ (tokens ++ [TextToken.rparen]))) := by
  have hparamForms := spells_cells (by decide : IsWord "param") t hparams
  have hlocalForms := spells_cells (by decide : IsWord "local") t hlocals
  have hheading : Spells (.name f.name :: _) (functionForms t f []) :=
    .word (isWord_name hname)
      (hparamForms.append ((spells_result f.result).append (hlocalForms.append .nil)))
  have hall := List.Forall₂.cons TextPiece.Reads.lparen (.cons (.word (by decide : IsWord "func"))
    (List.rel_append hheading (List.rel_append htokens (.cons .rparen .nil))))
  refine ⟨_, by rw [functionLines, hbody]; rfl, ?_⟩
  convert hall using 1
  cases f.result <;> simp [parens, List.flatMap_map]

/-- The lines of a function. -/
theorem exists_fields_function {t : ValueType} {f : Func} (h : f.Writable t)
    (hnested : WellNested f.body) :
    ∃ lines forms, functionLines t f = .ok lines ∧
      Fields t lines forms (Module.addFunctions [f.normalized t]) := by
  -- only a well nested body is the flattening of a code
  obtain ⟨c, hc⟩ := wellNested_iff_exists_code.mp hnested
  obtain ⟨pieces, forms, hspelled⟩ := c.exists_spelled (hc ▸ h.instructions)
  obtain ⟨body, hpieces, hlines⟩ := hspelled.lines 2
  have hbody : bodyLines t 2 f.body = .ok body := by
    have hall := hlines []
    rw [List.append_nil, hc, bodyLines] at hall
    rw [hall]
    exact congrArg Except.ok (List.append_nil body)
  obtain ⟨lines, hfunction, htokens⟩ :=
    exists_functionLines h.name h.params h.locals hbody (hpieces ▸ hspelled.spells)
  refine ⟨lines, [.list (.atom "func" :: functionForms t f forms)], hfunction,
    .of_form ?_ (fun m hm => ?_) fun m hm => hm⟩
  · -- what is written spells the form
    rw [← functionForms_append, Spells]
    convert htokens using 1
    simp [Form.allTokens, Form.tokens, Form.allTokens_append]
  · -- and the form reads as the function, with its constants normalized
    subst hm
    change (do return { m with functions := m.functions ++ [← readFunction m.valueType _] }) = _
    rw [readFunction_eq f fun items more heq => hspelled.conditionals items (by simp [heq]),
      hspelled.readInstructions_eq, hc]
    rfl

theorem exists_fields_functions {t : ValueType} {functions : List Func}
    (h : ∀ f ∈ functions, f.Writable t) (hnested : ∀ f ∈ functions, WellNested f.body) :
    ∃ lines forms, functionsLines t functions = .ok lines ∧
      Fields t lines forms (Module.addFunctions (functions.map (Func.normalized t))) := by
  refine Fields.exists_list (functionLines t) (functionsLines t)
    (fun functions => Module.addFunctions (functions.map (Func.normalized t))) rfl ?_ ?_ ?_ ?_
  · intro f functions first others hfirst hothers
    rw [functionsLines, hfirst, hothers]
    rfl
  · funext m
    simp [Module.addFunctions]
  · intro f functions
    funext m
    simp [Module.addFunctions]
  · intro f hf
    exact exists_fields_function (h f hf) (hnested f hf)

/-! ### The import, the memory and the exports -/

theorem byteArray_utf8 (text : String) : (⟨(utf8 text).toArray⟩ : ByteArray) = text.toByteArray := by
  rw [← String.utf8Encode_toList]
  exact ByteArray.ext List.data_toByteArray.symm

/-- The text of bytes is found back. -/
theorem ofUtf8?_utf8 (text : String) : ofUtf8? (utf8 text) = some text := by
  unfold ofUtf8? String.fromUTF8?
  rw [byteArray_utf8, dif_pos text.isValidUTF8]
  rfl

/-- The bytes of a text that was found are those it was found from. -/
theorem utf8_of_ofUtf8? {data : Bytes} {text : String} (h : ofUtf8? data = some text) :
    utf8 text = data := by
  unfold ofUtf8? String.fromUTF8? at h
  split at h
  · cases h
    exact congrArg (fun bytes : ByteArray => bytes.data.toList) (byteArray_utf8 _)
  · cases h

/-- The bytes of a text, or no bytes if it has a lone surrogate. -/
def Text.bytes (text : Text) : Bytes := text.utf8?.getD []

/-- A plain text is found back from its bytes. -/
theorem IsPlain.exists_ofUtf8? {text : Text} (h : IsPlain text) :
    ∃ s : String, ofUtf8? text.bytes = some s ∧ text = s := by
  obtain ⟨s, rfl, -⟩ := h.exists_eq_plain
  exact ⟨s, ofUtf8?_utf8 s, rfl⟩

theorem Spells.plain {text : Text} (h : IsPlain text) {pieces : List TextPiece}
    {forms : List Form} (hrest : Spells pieces forms) :
    Spells (.quote text :: pieces) (.string text.bytes :: forms) := by
  obtain ⟨s, rfl, hplain⟩ := h.exists_eq_plain
  exact hrest.quote fun rest => readString_utf8 hplain rest

/-- The import of a module, as a form. -/
def importForm (m : Module) : Form :=
  .list [.atom "import", .string m.importModule.bytes, .string (utf8 logFunction),
    .list [.atom "func", .atom ("$" ++ logFunction),
      .list [.atom "param", .atom m.valueType.name]]]

theorem fields_import {m : Module} (h : IsPlain m.importModule) :
    Fields m.valueType [importLine m] [importForm m] id := by
  have hparam : Spells (parens [.word "param", .type m.valueType])
      [.list [.atom "param", .atom m.valueType.name]] :=
    (Spells.word (by decide) (.word (isWord_typeName _) .nil)).parens
  have hfunction : Spells (parens (.word "func" :: .name logFunction ::
      parens [.word "param", .type m.valueType])) _ :=
    (hparam.word (isWord_name (by decide : IsName logFunction))).word (by decide) |>.parens
  have hline : Spells (importLine m).pieces [importForm m] :=
    ((hfunction.plain (by decide : IsPlain logFunction)).plain h).word (by decide) |>.parens
  exact .single hline (fun _ _ => rfl) fun _ hm => hm

theorem readImport_eq {m : Module} (h : IsPlain m.importModule) (rest : List Form) :
    readImport (importForm m :: rest) =
      .ok { valueType := m.valueType, importModule := m.importModule } := by
  have hlog : logImport? (importForm m) =
      some (m.importModule.bytes, [.list [.atom "param", .atom m.valueType.name]]) := rfl
  obtain ⟨host, hhost, hname⟩ := h.exists_ofUtf8?
  unfold readImport
  rw [List.find?_cons_of_pos rfl]
  simp only [hlog]
  rw [List.filter_cons_of_pos rfl, List.filter_nil]
  simp only [asValueType_name, hhost]
  rw [hname]
  rfl

/-- The line of the memory, if there is one. -/
theorem exists_fields_memory (t : ValueType) {m : Module}
    (h : m.hasMemory = true → FewDigits m.memoryPages) :
    ∃ lines forms, memoryLines m = .ok lines ∧
      Fields t lines forms fun read => { read with memory := read.memory || m.hasMemory } := by
  unfold memoryLines
  by_cases hmemory : m.hasMemory = true
  · rw [if_pos hmemory, (h hmemory).integerText, hmemory]
    have hline : Spells (parens [.word "memory", .name memoryName,
        .word (toString m.memoryPages)]) _ :=
      (Spells.word (by decide) (.word (isWord_name (by decide : IsName memoryName))
        (.word (isWord_toString _) .nil))).parens
    refine ⟨[⟨1, _⟩], _, rfl, .single hline (fun read _ => ?_) fun _ hread => hread⟩
    rw [Bool.or_true]
    rfl
  · rw [if_neg hmemory, Bool.eq_false_of_not_eq_true hmemory]
    refine ⟨[], [], rfl, .nil, fun read _ => ?_, fun _ hread => hread⟩
    rw [Bool.or_false]
    rfl

/-- An export, as a form. -/
def exportForm (e : Export) : Form :=
  .list [.atom "export", .string e.name.bytes, .list [.atom e.kind, .atom ("$" ++ e.reference)]]

theorem fields_export (t : ValueType) {e : Export} {change : Module → Module}
    (hname : IsPlain e.name) (hkind : IsWord e.kind) (hreference : IsName e.reference)
    (hreads : ∀ m, readField m (exportForm e) = .ok (change m))
    (htype : ∀ m, (change m).valueType = m.valueType) :
    Fields t [exportLine e] [exportForm e] change := by
  have hthing : Spells (parens [.word e.kind, .name e.reference])
      [.list [.atom e.kind, .atom ("$" ++ e.reference)]] :=
    (Spells.word hkind (.word (isWord_name hreference) .nil)).parens
  have hline : Spells (exportLine e).pieces [exportForm e] :=
    (hthing.plain hname).word (by decide) |>.parens
  refine .single hline (fun m _ => hreads m) fun m hm => ?_
  rw [htype, hm]

/-- The lines of the exports. Only that of the entry counts. -/
theorem fields_exports (t : ValueType) {m : Module} (h : IsName m.entry ∧ IsPlain m.entry) :
    Fields t (m.exports.map exportLine) (m.exports.map exportForm) fun read =>
      { read with entry := m.entry } := by
  have hread (read : Module) : readField read (exportForm ⟨m.entry, "func", m.entry⟩) =
      .ok { read with entry := m.entry } := by
    change (do return { read with entry := ← (Form.atom ("$" ++ m.entry)).asName }) = _
    rw [IsName.asName]
    rfl
  have hentry := fields_export (e := ⟨m.entry, "func", m.entry⟩) t h.2
    (by decide : IsWord "func") h.1 hread fun _ => rfl
  unfold Module.exports
  by_cases hmemory : m.hasMemory = true
  · have hothers : Fields t _ [exportForm ⟨memoryName, "memory", memoryName⟩] id :=
      fields_export t (by decide) (by decide) (by decide) (fun _ => rfl) fun _ => rfl
    rw [if_pos hmemory]
    exact hentry.append hothers
  · rw [if_neg hmemory]
    exact hentry

/-! ### Modules -/

theorem functionLines_normalized {t : ValueType} {f : Func} (h : f.Writable t) :
    functionLines t (f.normalized t) = functionLines t f := by
  unfold functionLines Func.normalized
  rw [bodyLines_normalized h.instructions]

theorem functionsLines_normalized {t : ValueType} {functions : List Func}
    (h : ∀ f ∈ functions, f.Writable t) :
    functionsLines t (functions.map (Func.normalized t)) = functionsLines t functions := by
  induction functions with
  | nil => rfl
  | cons f functions ih =>
    obtain ⟨hf, hfunctions⟩ := List.forall_mem_cons.mp h
    rw [List.map_cons, functionsLines, functionsLines, functionLines_normalized hf, ih hfunctions]

theorem hasMemory_normalized (m : Module) : m.normalized.hasMemory = m.hasMemory := by
  unfold Module.hasMemory Module.normalized
  cases m.memory <;> cases m.data.isEmpty <;> rfl

theorem memoryPages_normalized (m : Module) : m.normalized.memoryPages = m.memoryPages :=
  rfl

/-- A module is written as what it is read as. -/
theorem moduleLines_normalized {m : Module} (h : m.Writable) :
    moduleLines m.normalized = moduleLines m := by
  have hmemory : memoryLines m.normalized = memoryLines m := by
    rw [memoryLines, memoryLines, hasMemory_normalized, memoryPages_normalized]
  have hexports : m.normalized.exports = m.exports := by
    rw [Module.exports, Module.exports, hasMemory_normalized]
    rfl
  have hfunctions : functionsLines m.normalized.valueType m.normalized.functions =
      functionsLines m.valueType m.functions :=
    functionsLines_normalized h.functions
  rw [moduleLines, hmemory, hexports, hfunctions]
  rfl

/-- The lines of a module whose fields between the import and the exports have some lines. -/
def linesAround (m : Module) (lines : List TextLine) : List TextLine :=
  ⟨0, [lparen, .word "module"]⟩ :: importLine m :: lines ++ m.exports.map exportLine ++
    [⟨0, [rparen]⟩]

/-- The fields of a module between its import and its exports, which are read into a module of the
import. -/
theorem exists_fields_module {m : Module} (h : m.WellFormed) :
    ∃ lines forms change, moduleLines m = .ok (linesAround m lines) ∧
      Fields m.valueType lines forms change ∧
      { change { valueType := m.valueType, importModule := m.importModule } with
        entry := m.entry } = { m.normalized with memory := m.hasMemory } := by
  obtain ⟨memory, _, hmemory, hmemoryFields⟩ := exists_fields_memory m.valueType h.pages
  obtain ⟨_, hglobals⟩ := exists_fields_globals m.valueType h.globals
  obtain ⟨data, _, hdata, hdataFields⟩ := exists_fields_segments m.valueType h.offsets
  obtain ⟨functions, _, hfunctions, hfunctionFields⟩ :=
    exists_fields_functions h.functions h.nested
  refine ⟨_, _, _, ?_,
    ((hmemoryFields.append hglobals).append hdataFields).append hfunctionFields, ?_⟩
  · rw [moduleLines, hmemory, hdata, hfunctions]
    rfl
  · rfl

/-- The text of a module whose fields can be read is not read if a name between quotes has no
bytes. -/
theorem readModule_renderLines_eq_loneSurrogate {m : Module} {lines : List TextLine}
    {tokens : List TextToken} (h : m.Writable)
    (hlines : List.Forall₂ TextPiece.Reads (lines.flatMap TextLine.pieces) tokens)
    (hbroken : ¬ m.Encodable) :
    readModule (renderLines (linesAround m lines)) = .error .loneSurrogate := by
  have hopening {word : String} (hword : IsWord word) : List.Forall₂ TextPiece.Reads
      [lparen, .word word] [.lparen, .atom word] :=
    .cons .lparen (.cons (.word hword) .nil)
  have hmodule := hopening (by decide : IsWord "module")
  have htokens : tokenizeText (renderLines (linesAround m lines)) = .error .loneSurrogate := by
    by_cases himport : m.importModule.IsString
    · -- the entry is broken, which the exports begin with
      have hentry : ¬ m.entry.IsString := fun hentry => hbroken ⟨himport, hentry⟩
      have hbefore := List.rel_append hmodule
        (List.rel_append (fields_import ⟨h.importModule, himport⟩).spells
          (List.rel_append hlines (hopening (by decide : IsWord "export"))))
      obtain ⟨rest, hrest⟩ : ∃ rest, (m.exports.map exportLine).flatMap TextLine.pieces =
          lparen :: .word "export" :: .quote m.entry :: rest := ⟨_, rfl⟩
      have hpieces : (linesAround m lines).flatMap TextLine.pieces =
          [lparen, .word "module"] ++ ([importLine m].flatMap TextLine.pieces ++
            (lines.flatMap TextLine.pieces ++ [lparen, .word "export"])) ++
              .quote m.entry :: (rest ++ [rparen]) := by
        simp [linesAround, hrest]
      exact tokenizeText_eq_loneSurrogate hpieces hbefore h.entry.2 hentry
    · -- the import is broken, which comes first
      obtain ⟨rest, hrest⟩ : ∃ rest, (importLine m).pieces =
          lparen :: .word "import" :: .quote m.importModule :: rest := ⟨_, rfl⟩
      have hpieces : (linesAround m lines).flatMap TextLine.pieces =
          [lparen, .word "module"] ++ [lparen, .word "import"] ++ .quote m.importModule ::
            (rest ++ (lines ++ m.exports.map exportLine).flatMap TextLine.pieces ++ [rparen]) := by
        simp [linesAround, hrest]
      exact tokenizeText_eq_loneSurrogate hpieces
        (List.rel_append hmodule (hopening (by decide : IsWord "import"))) h.importModule himport
  rw [readModule, htokens]
  rfl

/-- A module that can be written has lines, which spell forms that are read as the module. -/
theorem exists_moduleLines {m : Module} (h : m.WellFormed) (hencodable : m.Encodable) :
    ∃ lines forms, moduleLines m = .ok lines ∧ Spells (lines.flatMap TextLine.pieces) forms ∧
      moduleOfForms forms = .ok m.normalized := by
  obtain ⟨lines, forms, change, hlines, hfields, hchange⟩ := exists_fields_module h
  have himport : IsPlain m.importModule := ⟨h.importModule, hencodable.importModule⟩
  have hexports := fields_exports m.valueType ⟨h.entry.1, h.entry.2, hencodable.entry⟩
  have hall := (fields_import himport).append (hfields.append hexports)
  refine ⟨_, [.list (.atom "module" :: ([importForm m] ++ (forms ++ m.exports.map exportForm)))],
    hlines, ?_, ?_⟩
  · convert (hall.spells.word (by decide : IsWord "module")).parens using 1
    simp [linesAround, parens]
  · have hread := (hall.reads { valueType := m.valueType, importModule := m.importModule } rfl).trans
      (congrArg Except.ok hchange)
    -- memory is kept apart only where no data demands it
    have hmemory : (m.hasMemory && m.data.isEmpty) = (m.memory && m.data.isEmpty) := by
      unfold Module.hasMemory
      cases m.memory <;> cases m.data.isEmpty <;> rfl
    rw [moduleOfForms, List.singleton_append, readImport_eq himport]
    change (do
      let read ← readFields _ ([importForm m] ++ (forms ++ m.exports.map exportForm))
      return { read with memory := read.memory && read.data.isEmpty }) = _
    rw [hread]
    change Except.ok { m.normalized with memory := m.hasMemory && m.data.isEmpty } = _
    rw [hmemory]
    rfl

/-- The text of a module that can be written is read as the module. -/
theorem exists_readModule {m : Module} (h : m.WellFormed) (hencodable : m.Encodable) :
    ∃ lines, moduleLines m = .ok lines ∧ readModule (renderLines lines) = .ok m.normalized := by
  obtain ⟨lines, forms, hlines, hspells, hforms⟩ := exists_moduleLines h hencodable
  have hread : readModule (renderLines lines) =
      (tokenizeText (renderLines lines) >>= formsOf) >>= moduleOfForms := by
    rw [bind_assoc]
    rfl
  refine ⟨lines, hlines, ?_⟩
  rw [hread, hspells.formsOf_renderLines]
  exact hforms

theorem writeModule_eq {m : Module} {lines : List TextLine} (h : moduleLines m = .ok lines) :
    writeModule m = .ok (renderLines lines) := by
  rw [writeModule, h]
  rfl

/-- How the text of a module that can be written is read. -/
theorem exists_readModule_eq {m : Module} (h : m.WellFormed) :
    ∃ lines, moduleLines m = .ok lines ∧ readModule (renderLines lines) =
      if m.Encodable then .ok m.normalized else .error .loneSurrogate := by
  split
  · rename_i hencodable
    exact exists_readModule h hencodable
  · rename_i hbroken
    obtain ⟨lines, forms, change, hlines, hfields, -⟩ := exists_fields_module h
    exact ⟨_, hlines, readModule_renderLines_eq_loneSurrogate h.toWritable hfields.spells hbroken⟩

/-- A module that can be written reads back from its text, apart from what `Module.normalized` says
that the text does not tell, and what is read has the same text. Only if there is a lone surrogate
in the name of the import or of the entry, the text is not read. -/
theorem readModule_writeModule {m : Module} (h : m.WellFormed) :
    ∃ text, writeModule m = .ok text ∧ writeModule m.normalized = .ok text ∧
      readModule text = if m.Encodable then .ok m.normalized else .error .loneSurrogate := by
  obtain ⟨lines, hlines, hread⟩ := exists_readModule_eq h
  exact ⟨renderLines lines, writeModule_eq hlines,
    writeModule_eq ((moduleLines_normalized h.toWritable).trans hlines), hread⟩

/-- A module with text in its memory, a constant of its own type that is not written as such, and a
conditional. -/
def greeting : Module where
  valueType := .i32
  entry := "main"
  importModule := "hôst"
  memory := true
  globals := [⟨"größe", true, .i32⟩]
  data := [⟨0, utf8 "say \"hi\"\r\n"⟩]
  functions :=
    [{ name := "main"
       params := ["x"]
       result := some .i32
       locals := ["y"]
       body :=
        [.plain "i32.const" (.int 0), .openIf, .plain "f64.const" (.real .nan), .bare "drop",
          .openElse, .const (.int (-7)), .named "global.set" "größe", .closeIf,
          .named "local.get" "x", .call "log"] }]

theorem wellFormed_greeting : greeting.WellFormed := by
  have hdigit {n : Int} (h : n.natAbs < 10 ^ 1) : FewDigits n := .of_lt 1 h (by decide)
  have hinstructions : ∀ f ∈ greeting.functions, ∀ instr ∈ f.body, instr.WellFormed .i32 := by
    simp only [greeting, List.forall_mem_singleton, List.forall_mem_cons]
    exact ⟨.constant (u := .i32) (.int rfl (hdigit (by decide))), .openIf,
      .constant (u := .f64) (.real rfl), .bare (by decide) (by decide), .openElse,
      .const (.int rfl (hdigit (by decide))), .named (by decide) (by decide), .closeIf,
      .named (by decide) (by decide), .call (by decide)⟩
  refine ⟨⟨by decide, by decide, by decide, ?_, fun _ => hdigit (by decide), ?_⟩, by decide⟩
  · exact List.forall_mem_singleton.mpr (hdigit (by decide))
  · exact List.forall_mem_singleton.mpr ⟨by decide, by decide, by decide,
      hinstructions _ List.mem_cons_self⟩

/-- The greeting is not read as it is: it has data, and a constant of its own type. -/
theorem readModule_writeModule_greeting :
    greeting.WellFormed ∧ greeting.normalized ≠ greeting ∧
      ∃ text, writeModule greeting = .ok text ∧ readModule text = .ok greeting.normalized ∧
        writeModule greeting.normalized = .ok text := by
  obtain ⟨text, hwrite, hwrite', hread⟩ := readModule_writeModule wellFormed_greeting
  rw [if_pos (by decide)] at hread
  exact ⟨wellFormed_greeting, by decide, text, hwrite, hread, hwrite'⟩

/-- A module that is empty but for the name of its import, a lone surrogate. -/
def surrogateImport : Module where
  valueType := .i32
  entry := "main"
  importModule := .loneSurrogate

/-- Without a quote or a backslash in any name, a text may still not be read. -/
theorem not_readModule_surrogateImport :
    surrogateImport.WellFormed ∧ ∃ text, writeModule surrogateImport = .ok text ∧
      readModule text = .error .loneSurrogate := by
  have h : surrogateImport.WellFormed :=
    ⟨⟨by decide, by decide, by decide, nofun, nofun, nofun⟩, nofun⟩
  obtain ⟨lines, hlines, hread⟩ := exists_readModule_eq h
  rw [if_neg (by decide)] at hread
  exact ⟨h, _, writeModule_eq hlines, hread⟩

end StackScript
