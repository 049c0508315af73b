import StackScript.Proofs.SourceWords
import StackScript.Proofs.TextRoundTrip
import StackScript.Proofs.TypedLowering

/-!
# Compiled modules can be written

The typing of compiled code says which instructions it may hold and which names they have, so the
module of a source can be written if its names can. These are words of the source. Addresses have
as many digits as they need, and only a source that is too long to exist needs too many.

## Main definitions

* `Interface.Writable`: what code may use of its module can be written.

## Main results

* `Code.Types.wellFormed`: typed code can be written.
* `CompiledProgram.wellFormed`, `CompiledProgram.encodable`: the module of a source can be written
  and read.
-/

namespace StackScript

/-! ### Instructions -/

/-- The integers of a type have few digits. -/
theorem fewDigits_of_wrap {t : ValueType} {width : Nat} (hwidth : t.width? = some width) {n : Int}
    (h : wrap width n = n) : FewDigits n := by
  have hlt : 2 * (BitVec.ofInt width n).toInt < 2 ^ width := BitVec.two_mul_toInt_lt
  have hle : -2 ^ width ≤ 2 * (BitVec.ofInt width n).toInt := BitVec.le_two_mul_toInt
  rw [wrap_eq_toInt] at h
  refine .of_lt 20 ?_ (by decide)
  cases t <;> cases hwidth <;> omega

/-- The constant of a number can be written. -/
theorem ConstantOf.isConstant {t : ValueType} {number d : Datum} (h : ConstantOf t number d) :
    d.IsConstant t := by
  cases h with
  | real hwidth _ =>
    refine .real ?_
    cases t <;> first | rfl | cases hwidth
  | int hwidth _ hwrap =>
    refine .int ?_ (fewDigits_of_wrap hwidth hwrap)
    cases t <;> first | rfl | cases hwidth

/-- What code may use of its module can be written. -/
structure Interface.Writable (Γ : Interface) : Prop where
  globals : ∀ name ∈ Γ.globals, IsName name
  offsets : ∀ segment ∈ Γ.data, FewDigits segment.offset
  functions : ∀ {name : Text} {arity : Nat}, Γ.arity? name = some arity → IsName name

theorem Interface.Writable.cells {Γ : Interface} (h : Γ.Writable) {locals : List Text}
    (hlocals : ∀ name ∈ locals, IsName name) {inFunction : Bool} {name : Text}
    (hname : name ∈ Γ.cells locals inFunction) : IsName name := by
  cases inFunction with
  | true => exact hlocals name hname
  | false => exact h.globals name hname

theorem points_mnemonic (t : ValueType) (operation : String) :
    (t.mnemonic operation).points =
      t.name.toList.map .char ++ .char '.' :: operation.toList.map .char := by
  simp [ValueType.mnemonic]

theorem length_typeName (t : ValueType) : t.name.toList.length = 3 := by
  cases t <;> rfl

/-- Of the mnemonics of a type, only that of its constants has an immediate. -/
theorem takesImmediate_mnemonic (t : ValueType) {operation : String} (h : operation ≠ "const") :
    takesImmediate (t.mnemonic operation) = false := by
  have huntyped : ∀ mnemonic ∈ .plain "call" :: namedMnemonics,
      t.mnemonic operation ≠ mnemonic := by
    -- The mnemonics without a type start with another letter than the types do.
    have hhead : ∀ mnemonic ∈ .plain "call" :: namedMnemonics,
        t.name.toList.head?.map .char ≠ mnemonic.points.head? := by
      cases t <;> decide
    rintro mnemonic hmnemonic rfl
    refine hhead _ hmnemonic ?_
    rw [points_mnemonic]
    cases t <;> rfl
  rw [Bool.eq_false_iff]
  intro htakes
  simp only [takesImmediate, Bool.or_eq_true, beq_iff_eq, List.contains_iff_mem] at htakes
  rcases htakes with (hcall | hnamed) | hconst
  · exact huntyped _ List.mem_cons_self hcall
  · exact huntyped _ (List.mem_cons_of_mem _ hnamed) rfl
  · obtain ⟨u, hu⟩ := Option.isSome_iff_exists.mp hconst
    have hsame := congrArg Text.points (eq_mnemonic_of_lookup hu)
    rw [points_mnemonic, points_mnemonic] at hsame
    have htail := List.append_inj_right hsame (by simp only [List.length_map, length_typeName])
    exact h (Text.plain.inj (Text.points_inj.mp (List.tail_eq_of_cons_eq htail)))

theorem isWord_mnemonic (t : ValueType) {operation : String} (h : IsName operation) :
    IsWord (t.mnemonic operation) := by
  refine ⟨by simp [points_mnemonic], ?_⟩
  rw [points_mnemonic]
  exact List.forall_mem_append.mpr
    ⟨(isWord_typeName t).points, List.forall_mem_cons.mpr ⟨rfl, h⟩⟩

/-- An operation of a type can be written in a module of any type. -/
theorem Instr.WellFormed.operation (t u : ValueType) {operation : String} (h : IsName operation)
    (hconst : operation ≠ "const") : (Instr.bare (t.mnemonic operation)).WellFormed u :=
  .bare (isWord_mnemonic t h) (takesImmediate_mnemonic t hconst)

/-- A typed action can be written. -/
theorem Action.Types.wellFormed {Γ : Interface} {locals : List Text} {action : Action}
    {σ σ' : List ValueType} (h : action.Types Γ locals σ σ') (hΓ : Γ.Writable)
    (hlocals : ∀ name ∈ locals, IsName name) : action.instr.WellFormed Γ.type := by
  cases h with
  | const hconstant => exact .const hconstant.isConstant
  | address hsegment => exact .constant (u := .i32) (.int rfl (hΓ.offsets _ hsegment))
  | @widen name _ hname =>
    obtain ⟨operation, rfl, hoperation, hconst⟩ :
        ∃ operation, name = Γ.type.mnemonic operation ∧ IsName operation ∧ operation ≠ "const" := by
      revert hname
      cases Γ.type <;> intro hname <;> cases hname <;> exact ⟨_, rfl, by decide, by decide⟩
    exact .operation _ _ hoperation hconst
  | isZero _ => exact .operation _ _ (by decide) (by decide)
  | negate _ => exact .operation _ _ (by decide) (by decide)
  | @operator op =>
    obtain ⟨operation, heq, hoperation, hconst⟩ : ∃ operation,
        op.mnemonic Γ.type = Γ.type.mnemonic operation ∧ IsName operation ∧ operation ≠ "const" := by
      cases op <;> cases Γ.type <;> exact ⟨_, rfl, by decide, by decide⟩
    exact heq ▸ .operation _ _ hoperation hconst
  | drop => exact .bare (by decide) (by decide)
  | @load inFunction _ _ hname =>
    refine .named ?_ (hΓ.cells hlocals hname)
    cases inFunction <;> decide
  | @store inFunction _ _ hname =>
    refine .named ?_ (hΓ.cells hlocals hname)
    cases inFunction <;> decide
  | log => exact .call (by decide)
  | call harity => exact .call (hΓ.functions harity)

/-- Typed code can be written. -/
theorem Code.Types.wellFormed {Γ : Interface} {locals : List Text} {c : Code}
    {σ σ' : List ValueType} (h : c.Types Γ locals σ σ') (hΓ : Γ.Writable)
    (hlocals : ∀ name ∈ locals, IsName name) : ∀ instr ∈ c.flatten, instr.WellFormed Γ.type :=
  h.forall_mem_flatten ⟨.openIf, .openElse, .closeIf⟩ fun haction => haction.wellFormed hΓ hlocals

theorem Func.WellTyped.writable {Γ : Interface} {f : Func} {c : Code} (h : f.WellTyped Γ c)
    (hΓ : Γ.Writable) (hname : IsName f.name) (hcells : ∀ name ∈ f.params ++ f.locals, IsName name) :
    f.Writable Γ.type where
  name := hname
  params := fun name hmem => hcells name (List.mem_append_left _ hmem)
  locals := fun name hmem => hcells name (List.mem_append_right _ hmem)
  instructions := by
    rw [h.body_eq]
    exact h.types.wellFormed hΓ hcells

theorem Func.WellTyped.wellNested {Γ : Interface} {f : Func} {c : Code} (h : f.WellTyped Γ c) :
    WellNested f.body :=
  wellNested_iff_exists_code.mpr ⟨c, h.body_eq.symm⟩

/-! ### Modules -/

/-- An identifier is a name that can be written. -/
theorem Lexeme.IsSpelled.isName {name : String}
    (h : Lexeme.IsSpelled (.identifier, name)) : IsName name := by
  intro c hc
  obtain ⟨character, hcharacter, rfl⟩ := List.mem_map.mp hc
  exact isAtomCharacter_of_class (by decide) (h rfl character hcharacter)

theorem IsNameAmong.isName {lexemes : List Lexeme} {text : Text} (h : IsNameAmong lexemes text)
    (hspelled : ∀ l ∈ lexemes, l.IsSpelled) : IsName text := by
  obtain ⟨name, rfl, hname⟩ := h
  exact (hspelled _ hname).isName

section

variable {options : Options} {source : String} {program : Program} {m : Module} {c : Code}
  {final : Scope}

theorem CompiledProgram.totalLength_le (hwords : program.WordsOf source) :
    totalLength (Expr.allStrings program).eraseDups ≤ (utf8 source).length :=
  (totalLength_le_of_sublist (eraseDups_sublist _)).trans
    ((Expr.totalLength_allStrings_le program).trans hwords.bytes)

namespace CompiledProgram

theorem isName_of_mem_allLets (hwords : program.WordsOf source) :
    ∀ name ∈ Expr.allLets program, IsName name := fun _ hname =>
  (Expr.isNameAmong_of_mem_allLets program hname).isName hwords.spelled

/-- The names of a function that is defined in a source. -/
theorem isName_of_mem_allFunctions (hwords : program.WordsOf source) {d : FunctionDef}
    (hd : d ∈ Expr.allFunctions program) :
    IsName d.name ∧ (∀ name ∈ d.params, IsName name) ∧ ∀ name ∈ Expr.allLets d.body, IsName name := by
  have hnames : ∀ name ∈ d.names, IsName name := fun name hname =>
    (Expr.isNameAmong_of_mem_allFunctions program hd name hname).isName hwords.spelled
  refine ⟨hnames _ List.mem_cons_self, fun name hname => ?_, fun name hname => ?_⟩
  · exact hnames name (List.mem_append_left _ (List.mem_cons_of_mem _ hname))
  · exact hnames name (List.mem_append_right _ hname)

variable (h : CompiledProgram options program m c final) (hwords : program.WordsOf source)
  (hsize : (utf8 source).length < 10 ^ Numeral.maxDigits)

include h

theorem isPlain_entry : IsName m.entry ∧ IsPlain m.entry := by
  rw [h.entry_eq]
  cases options.entry <;> decide

theorem encodable (hplain : IsPlain options.importModule) : m.Encodable := by
  rw [← h.importModule_eq] at hplain
  exact ⟨hplain.isString, h.isPlain_entry.2.isString⟩

include hwords hsize

theorem fewDigits_offset : ∀ segment ∈ m.data, FewDigits segment.offset := by
  intro segment hsegment
  rw [h.laidOut] at hsegment
  obtain ⟨n, hn, -, hle⟩ := exists_offset_of_mem_layoutFrom hsegment
  have htotal := totalLength_le hwords
  rw [hn, FewDigits, Int.natAbs_natCast]
  omega

theorem fewDigits_memoryPages : FewDigits m.memoryPages := by
  have htotal := totalLength_le hwords
  have hone : 1 < 10 ^ Numeral.maxDigits := Nat.one_lt_pow (by decide) (by decide)
  rw [Module.memoryPages, h.laidOut.dataSize_eq, FewDigits, pageSize]
  omega

/-- What compiled code uses can be written. -/
theorem writable_interface : final.interface.Writable := by
  have hoffsets := h.fewDigits_offset hwords hsize
  refine ⟨fun name hname => ?_, fun segment hsegment => ?_, fun {name arity} harity => ?_⟩
  · have hglobals : final.interface.globals = (Expr.allLets program).eraseDups := by
      rw [← h.names_globals, h.module_eq]
      rfl
    rw [hglobals, List.mem_eraseDups] at hname
    exact isName_of_mem_allLets hwords name hname
  · rw [h.module_eq] at hoffsets
    exact hoffsets segment hsegment
  · obtain ⟨d, f, hfind, -, -, -⟩ := h.exists_function harity
    have hname : d.name = name := by simpa using List.find?_some hfind
    rw [← hname]
    exact (isName_of_mem_allFunctions hwords (List.mem_of_find?_eq_some hfind)).1

theorem wellFormed_functions :
    ∀ f ∈ m.functions, f.Writable m.valueType ∧ WellNested f.body := by
  have hwritable := h.writable_interface hwords hsize
  have htype : m.valueType = final.interface.type := by
    rw [h.module_eq]
    rfl
  intro f hf
  rw [htype]
  rcases h.mem_functions hf with rfl | ⟨d, hd, s, inner, body, hcompiled⟩
  · refine ⟨h.wellTyped_entry.writable hwritable ?_ (fun name hname => by cases hname),
      h.wellTyped_entry.wellNested⟩
    cases hentry : options.entry <;> simp [Options.entryFunction, hentry] <;> decide
  · obtain ⟨hname, hparams, hlets⟩ := isName_of_mem_allFunctions hwords hd
    have htyped := hcompiled.wellTyped h.records.valueType
    refine ⟨htyped.writable hwritable ?_ fun name hmem => ?_, htyped.wellNested⟩
    · rw [hcompiled.func]
      simpa [Frame.function] using hname
    · rw [hcompiled.names_eq, Frame.mem_names_addLocals] at hmem
      rcases hmem with hmem | hmem
      · exact hparams name (by simpa [Frame.names] using hmem)
      · exact hlets name hmem

/-- A module that a source has been compiled to can be written, with any name for its import that
has no quote and no backslash. -/
theorem wellFormed_importing {name : Text} (hname : IsUnquoted name) :
    { m with importModule := name }.WellFormed where
  entry := ⟨h.isPlain_entry.1, h.isPlain_entry.2.isUnquoted⟩
  importModule := hname
  globals := fun g hg => by
    have hname : g.name ∈ m.globals.map Global.name := List.mem_map_of_mem hg
    rw [h.names_globals, List.mem_eraseDups] at hname
    exact isName_of_mem_allLets hwords g.name hname
  offsets := h.fewDigits_offset hwords hsize
  pages := fun _ => h.fewDigits_memoryPages hwords hsize
  functions := fun f hf => (h.wellFormed_functions hwords hsize f hf).1
  nested := fun f hf => (h.wellFormed_functions hwords hsize f hf).2

theorem wellFormed (hname : IsUnquoted options.importModule) : m.WellFormed := by
  rw [← h.importModule_eq] at hname
  exact h.wellFormed_importing hwords hsize hname

end CompiledProgram

end

/-- A module comes from the program of its source. -/
theorem exists_parse_of_compileModule {options : Options} {source : String} {m : Module}
    (h : compileModule options source = .ok m) :
    ∃ program, parseSource source = .ok program ∧ (generate options program).result = .ok m := by
  obtain ⟨program, hprogram, hgenerate⟩ := bind_eq_ok_iff.mp h
  refine ⟨program, hprogram, ?_⟩
  unfold generateModule at hgenerate
  split at hgenerate
  · cases hgenerate
  · rename_i heq
    cases hgenerate
    exact heq

theorem exists_program_of_compileModule {options : Options} {source : String} {m : Module}
    (h : compileModule options source = .ok m) :
    ∃ program : Program, program.WordsOf source ∧ (generate options program).result = .ok m := by
  obtain ⟨program, hprogram, hgenerate⟩ := exists_parse_of_compileModule h
  exact ⟨program, wordsOf_of_parseSource hprogram, hgenerate⟩

end StackScript
