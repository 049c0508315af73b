import StackScript.Proofs.CompiledText
import StackScript.Proofs.DefinitionAccounts
import StackScript.Proofs.WordArithmetic

/-!
# The names of a compiled program

What a program is compiled to accounts for all of its names. The functions are those that the
program defines, in the order of the text, and then the entry; the globals are the names that are
declared outside functions, in the order in which they first occur. Instructions name only what is
there: the cells of their function, the globals, the host's function and functions that come no
later.

A program that does not compile leaves the top level open, and within it at most one function: the
one whose body is at fault. Those that are known by then are the first ones that the program
defines.

## Main definitions

* `Func.cellOperands`: what the instructions of a function name in a class of cells.
* `Module.Accounted`: the names of a module are those of a program.
* `Generation.Interrupted`: what a failure leaves behind.

## Main results

* `Func.WellTyped.cellOperands`, `Func.WellTyped.constant`: what typed code names, and its
  constants.
* `CompiledProgram.accounted`, `generate_interrupted`: programs that compile, and those that do not.
* `generate_accounts`: the names of a program, whether or not it compiles.
-/

namespace StackScript

/-! ### What instructions name -/

/-- What an instruction names in a class of cells. -/
def Instr.cellOperand? (cells : String) : Instr → Option Datum
  | plain mnemonic operand =>
    if (Text.plain (cells ++ ".")).points.isPrefixOf mnemonic.points then some operand else none
  | _ => none

/-- What the instructions of a function name in a class of cells. -/
def Func.cellOperands (cells : String) (f : Func) : List Datum :=
  f.body.filterMap (Instr.cellOperand? cells)

/-- The operations of a type access no cells. -/
theorem cellOperand?_mnemonic (inFunction : Bool) (t : ValueType) (operation : String)
    (operand : Datum) :
    (Instr.plain (t.mnemonic operation) operand).cellOperand? (cellClass inFunction) = none := by
  rw [Instr.cellOperand?, points_mnemonic]
  cases inFunction <;> cases t <;> rfl

/-- An access names a cell of its own class. -/
theorem cellOperand?_named (inFunction inFunction' : Bool) {access : String} {name : Text}
    {d : Datum}
    (h : (Instr.named (cellClass inFunction' ++ access : String) name).cellOperand?
      (cellClass inFunction) = some d) : inFunction' = inFunction ∧ d = .text name := by
  rw [Instr.named, Instr.cellOperand?] at h
  split at h
  · rename_i hcells
    refine ⟨?_, (Option.some.inj h).symm⟩
    rw [Text.points_plain, Text.points_plain, String.toList_append, String.toList_append] at hcells
    -- the two classes differ in their first letter
    cases inFunction <;> cases inFunction' <;> first | rfl | cases hcells
  · cases h

section Typed

variable {Γ : Interface} {locals : List Text} {σ σ' : List ValueType}

/-- A typed action accesses cells of its interface. -/
theorem Action.Types.cellOperand {action : Action} (h : action.Types Γ locals σ σ')
    {inFunction : Bool} {d : Datum}
    (hd : action.instr.cellOperand? (cellClass inFunction) = some d) :
    ∃ name ∈ Γ.cells locals inFunction, d = .text name := by
  -- mnemonics of a value type name an operation on numbers and never a cell
  have hmnemonic (t : ValueType) (operation : String) (operand : Datum) :
      ¬ (Instr.plain (t.mnemonic operation) operand).cellOperand? (cellClass inFunction) =
        some d := by
    rw [cellOperand?_mnemonic]
    exact nofun
  cases h with
  | const _ => cases hd
  | address _ => exact absurd hd (hmnemonic .i32 "const" _)
  | @widen name _ hname =>
    obtain ⟨operation, rfl⟩ : ∃ operation, name = Γ.type.mnemonic operation := by
      revert hname
      cases Γ.type <;> intro hname <;> cases hname <;> exact ⟨_, rfl⟩
    exact absurd hd (hmnemonic _ _ _)
  | isZero _ => exact absurd hd (hmnemonic _ _ _)
  | negate _ => exact absurd hd (hmnemonic _ _ _)
  | @operator op =>
    obtain ⟨operation, heq⟩ : ∃ operation, op.mnemonic Γ.type = Γ.type.mnemonic operation := by
      cases op <;> cases Γ.type <;> exact ⟨_, rfl⟩
    rw [heq] at hd
    exact absurd hd (hmnemonic _ _ _)
  | drop => cases inFunction <;> cases hd
  | load hname =>
    obtain ⟨rfl, rfl⟩ := cellOperand?_named _ _ hd
    exact ⟨_, hname, rfl⟩
  | store hname =>
    obtain ⟨rfl, rfl⟩ := cellOperand?_named _ _ hd
    exact ⟨_, hname, rfl⟩
  | log => cases hd
  | call _ => cases hd

variable {f : Func} {c : Code}

theorem Func.WellTyped.cellOperands (h : f.WellTyped Γ c) (inFunction : Bool) :
    ∀ d ∈ f.cellOperands (cellClass inFunction),
      ∃ name ∈ Γ.cells (f.params ++ f.locals) inFunction, d = .text name := by
  intro d hd
  obtain ⟨instr, hinstr, hoperand⟩ := List.mem_filterMap.mp hd
  rw [h.body_eq] at hinstr
  refine h.types.forall_mem_flatten (P := fun instr =>
    ∀ d, instr.cellOperand? (cellClass inFunction) = some d →
      ∃ name ∈ Γ.cells (f.params ++ f.locals) inFunction, d = .text name)
    ?_ ?_ instr hinstr d hoperand
  · simp [Instr.cellOperand?]
  · exact fun haction _ => haction.cellOperand

/-- A typed constant of an integer type is an integer of its range. -/
theorem Func.WellTyped.constant (h : f.WellTyped Γ c) {width : Nat}
    (hwidth : Γ.type.width? = some width) {d : Datum} (hd : Instr.const d ∈ f.body) :
    ∃ n, d = .int n ∧ Fits width n := by
  rw [h.body_eq] at hd
  refine h.types.forall_mem_flatten (P := fun instr => ∀ d, instr = .const d →
    ∃ n, d = .int n ∧ Fits width n) (by simp) ?_ _ hd d rfl
  intro action τ τ' haction d hinstr
  cases haction with
  | const hconstant =>
    cases hinstr
    cases hconstant with
    | real hnone _ =>
      rw [hwidth] at hnone
      cases hnone
    | @int _ n hsome _ hwrap =>
      rw [hwidth] at hsome
      cases hsome
      exact ⟨n, rfl, hwrap ▸ fits_wrap width n⟩
  | _ => cases hinstr

end Typed

/-! ### Programs that compile -/

/-- The names of a module are those of a program. -/
structure Module.Accounted (options : Options) (program : Program) (m : Module) : Prop where
  /-- The functions are those that the program defines, in order, and then the entry. -/
  names_functions : m.functions.map Func.name =
    (Expr.definitions program).map FunctionDef.name ++ [.plain options.entry.functionName]
  nodup_functions : (m.functions.map Func.name).Nodup
  log_notMem : .plain logFunction ∉ m.functions.map Func.name
  /-- The cells of a function have different names. It calls no function that comes later. -/
  functions : OrderlyFunctions m.functions
  locals : ∀ f ∈ m.named, ∀ d ∈ f.cellOperands "local",
    ∃ name ∈ f.params ++ f.locals, d = .text name
  /-- The entry has no cells. -/
  entry : ∃ f, m.functions = m.named ++ [f] ∧ f.name = m.entry ∧ f.params = [] ∧ f.locals = [] ∧
    f.cellOperands "local" = []
  /-- The globals are the names declared outside functions, in the order of their first
  occurrence. -/
  names_globals : m.globals.map Global.name = (Expr.globalNames program).eraseDups
  nodup_globals : (m.globals.map Global.name).Nodup
  globals : ∀ f ∈ m.functions, ∀ d ∈ f.cellOperands "global",
    ∃ name ∈ m.globals.map Global.name, d = .text name
  constants : ∀ width, m.valueType.width? = some width → ∀ f ∈ m.functions, ∀ d,
    Instr.const d ∈ f.body → ∃ n, d = .int n ∧ Fits width n

namespace CompiledProgram

variable {options : Options} {program : Program} {m : Module} {c : Code} {final : Scope}

/-- Behind a program that compiles, exactly its functions are known. -/
theorem signatures_eq (h : CompiledProgram options program m c final)
    (horderly : final.Orderly options) : final.signatures = m.named.map Func.signature := by
  have hframe : final.frame = none := h.compiles.frame_eq
  simpa [hframe, h.named_eq] using horderly.signatures

theorem names_named (h : CompiledProgram options program m c final)
    (horderly : final.Orderly options) :
    m.named.map Func.name = final.signatures.map Prod.fst := by
  simp [h.signatures_eq horderly, Func.signature, Function.comp_def]

theorem names_functions (h : CompiledProgram options program m c final)
    (horderly : final.Orderly options) : m.functions.map Func.name =
      final.signatures.map Prod.fst ++ [.plain options.entry.functionName] := by
  rw [← h.names_named horderly, h.functions_eq, h.named_eq, List.map_append]
  rfl

/-- No function is named like the entry or the host's function. -/
theorem nodup_names_functions (h : CompiledProgram options program m c final)
    (horderly : final.Orderly options) :
    (m.functions.map Func.name).Nodup ∧ .plain logFunction ∉ m.functions.map Func.name := by
  have hreserved : ∀ name ∈ final.signatures.map Prod.fst,
      name ≠ logFunction ∧ name ≠ options.entry.functionName :=
    List.forall_mem_map.mpr horderly.reserved
  rw [h.names_functions horderly]
  constructor
  · refine List.nodup_append.mpr ⟨horderly.nodup, by simp, fun name hname other hother => ?_⟩
    rw [List.mem_singleton.mp hother]
    exact (hreserved name hname).2
  · intro hlog
    rcases List.mem_append.mp hlog with hlog | hlog
    · exact (hreserved _ hlog).1 rfl
    · revert hlog
      cases options.entry <;> decide

theorem orderlyFunctions (h : CompiledProgram options program m c final)
    (horderly : final.Orderly options) : OrderlyFunctions m.functions := by
  rw [h.functions_eq]
  refine horderly.functions.concat ⟨List.nodup_nil, fun name hname => ?_⟩
  refine (h.compiles.known_of_call horderly.valueType hname).imp_right fun hmem => .inr ?_
  rwa [← h.names_named horderly, h.named_eq] at hmem

/-- The names of a program that compiles. -/
theorem accounted (h : CompiledProgram options program m c final)
    (horderly : final.Orderly options) : m.Accounted options program where
  names_functions := by
    rw [h.names_functions horderly, h.records.signatures, h.definitions_eq, List.map_map]
    rfl
  nodup_functions := (h.nodup_names_functions horderly).1
  log_notMem := (h.nodup_names_functions horderly).2
  functions := h.orderlyFunctions horderly
  locals := by
    -- every function but the entry was compiled from a definition, with its own cells
    intro f hf d hd
    rw [h.named_eq] at hf
    obtain ⟨_, -, _, _, _, hcompiled⟩ := h.exists_definition hf
    exact (hcompiled.wellTyped horderly.valueType).cellOperands true d hd
  entry := by
    refine ⟨options.entryFunction c.flatten, by rw [h.functions_eq, h.named_eq], ?_, rfl, rfl, ?_⟩
    · rw [h.entry_eq]
      rfl
    -- the entry function has no cells of its own
    · refine List.eq_nil_iff_forall_not_mem.mpr fun d hd => ?_
      obtain ⟨name, hname, -⟩ := h.wellTyped_entry.cellOperands true d hd
      cases hname
  names_globals := by
    rw [h.names_globals, h.globalNames_eq]
  nodup_globals := h.names_globals ▸ nodup_eraseDups _
  globals := by
    intro f hf d hd
    obtain ⟨body, htyped⟩ := h.exists_wellTyped hf
    obtain ⟨name, hname, hd⟩ := htyped.cellOperands false d hd
    refine ⟨name, ?_, hd⟩
    rw [h.module_eq]
    exact hname
  constants := by
    intro width hwidth f hf d hd
    obtain ⟨body, htyped⟩ := h.exists_wellTyped hf
    refine htyped.constant ?_ hd
    rw [← hwidth, h.valueType_eq]
    exact congrArg ValueType.width? horderly.valueType

end CompiledProgram

/-! ### Programs that do not compile -/

/-- What a failure leaves behind. The entry is open, and so may be one function in it. -/
structure Generation.Interrupted (options : Options) (program : Program) (error : CompileError)
    (opened : Option Func) (g : Generation) : Prop where
  /-- The innermost function comes first. The entry has no cells. -/
  contexts : g.contexts = opened.toList.map Func.frame ++ [options.entryFrame]
  /-- Each open function has the code that was lowered for it. -/
  codes : g.codes = opened.toList.map Func.body ++
    [(lowerAll options options.entry.returnsValue program options.startScope).code]
  /-- The function that is open is one whose body is at fault. -/
  stops : ∀ f ∈ opened, ∃ d ∈ Expr.definitions program, ∃ s : Scope, s.signatures = g.signatures ∧
    d.StopsIn options s f error
  /-- The functions that are known are the first ones that the program defines: those that are
  complete, then the one that is open. -/
  signatures : g.signatures = (g.functions ++ opened.toList).map Func.signature
  begun : g.signatures <+: (Expr.definitions program).map FunctionDef.signature
  nodup : (g.signatures.map Prod.fst).Nodup
  reserved : ∀ signature ∈ g.signatures,
    signature.1 ≠ logFunction ∧ signature.1 ≠ options.entry.functionName
  functions : OrderlyFunctions g.functions
  nodup_opened : ∀ f ∈ opened, (f.params ++ f.locals).Nodup

variable {options : Options} {program : Program}

/-- Lowering the top level starts with an empty table. -/
theorem exists_accounts (options : Options) (program : Program) :
    ∃ begun,
      (lowerAll options options.entry.returnsValue program options.startScope).Accounts options
        options.startScope (Expr.definitions program) begun :=
  lowerAll_accounts options _ program _ (Scope.orderly_startScope options)

/-- A definition that is left open is the last of the functions that are known. -/
theorem Scope.Orderly.of_opened {s : Scope} (h : s.Orderly options) {opened : Option Func}
    (hcontexts : s.contexts = opened.toList.map Func.frame ++ [options.entryFrame]) :
    s.signatures = (s.module.functions ++ opened.toList).map Func.signature ∧
      ∀ f ∈ opened, (f.params ++ f.locals).Nodup := by
  have hframe : s.frame = opened.map Func.frame := by
    rw [Scope.frame, hcontexts]
    cases opened <;> rfl
  have hsignatures := h.signatures
  have hnodup := h.frame
  rw [hframe] at hsignatures hnodup
  cases opened with
  | none => exact ⟨by simpa using hsignatures, by rintro _ ⟨⟩⟩
  | some f =>
    refine ⟨?_, fun g hg => ?_⟩
    · simpa [Func.frame, Frame.signature, Func.signature, Func.arity] using hsignatures
    · cases hg
      exact hnodup f.frame rfl

/-- A program that does not compile leaves behind what it had begun. -/
theorem generate_interrupted {error : CompileError}
    (herror : (generate options program).result = .error error) :
    ∃ opened, (generate options program).Interrupted options program error opened := by
  obtain ⟨stopped, hstopped, rfl⟩ := generate_eq_error_iff.mp herror
  obtain ⟨begun, h⟩ := exists_accounts options program
  obtain ⟨done, hdone⟩ : ∃ done, done =
    lowerAll options options.entry.returnsValue program options.startScope := ⟨_, rfl⟩
  rw [← hdone] at hstopped h
  -- the entry is never taken off, whether or not a definition is left open in it
  obtain ⟨opened, hcontexts, hcodes, hopened⟩ : ∃ opened : Option Func,
      done.scope.contexts = opened.toList.map Func.frame ++ [options.entryFrame] ∧
      stopped.codes = opened.toList.map Func.body ∧
      ∀ f ∈ opened, ∃ d ∈ Expr.definitions program, ∃ s : Scope,
        s.signatures = done.scope.signatures ∧ d.StopsIn options s f stopped.error := by
    rcases h.left with ⟨hcodes, names, hnames⟩ | ⟨d, hd, f, error, hstops⟩
    · exact ⟨none, hnames, (Emission.codes_of_error hstopped).symm.trans hcodes, nofun⟩
    · cases hstopped.symm.trans hstops.result_eq
      refine ⟨some f, hstops.contexts_eq, rfl, ?_⟩
      rintro _ ⟨⟩
      exact ⟨d, h.begins.subset hd, hstops.stopsIn⟩
  obtain ⟨hsignatures, hnodup⟩ := h.orderly.of_opened hcontexts
  have hgenerate := Lower.withFrame_of_error options.entryResult hdone.symm hstopped
  refine ⟨opened, ?_⟩
  unfold generate
  dsimp only
  rw [hgenerate, hcodes]
  refine ⟨hcontexts, by rw [← hdone], hopened, hsignatures, ?_, h.orderly.nodup, h.orderly.reserved,
    h.orderly.functions, hnodup⟩
  rw [h.signatures]
  exact h.begins.map FunctionDef.signature

/-- The names of a program are accounted for: those of its module if it compiles, and those of what
is left behind if it does not. -/
theorem generate_accounts (options : Options) (program : Program) :
    (∀ m, (generate options program).result = .ok m → m.Accounted options program ∧
      (generate options program).contexts = [] ∧ (generate options program).codes = [] ∧
      (generate options program).signatures = m.named.map Func.signature) ∧
    (∀ error, (generate options program).result = .error error → ∃ opened,
      (generate options program).Interrupted options program error opened) := by
  refine ⟨fun m hm => ?_, fun error => generate_interrupted⟩
  obtain ⟨code, final, hyields, rfl⟩ := generate_eq_ok_iff.mp hm
  obtain ⟨c, rfl, hc⟩ := lowerAll_followsRules options _ program hyields
  obtain ⟨begun, h⟩ := exists_accounts options program
  rw [hyields] at h
  have horderly : final.Orderly options := h.orderly
  have hprogram := hc.compiledProgram
  have hgenerate := Lower.withFrame_of_ok options.entryResult hyields rfl
  unfold generate
  dsimp only
  rw [hgenerate, hc.entry_eq]
  refine ⟨hprogram.accounted horderly, ?_, rfl, hprogram.signatures_eq horderly⟩
  rw [Scope.leave, hc.entry_eq]
  rfl

/-- Functions and variables in a branch and in a block, with a name that is declared twice and one
that stands for a global, a parameter and a function. -/
def scatteredNames : Program :=
  let one : Expr := .literal .number (.int 1) 1
  [.declare "n" one 1,
    .ifElse (.get "n" 2)
      (.function "f" ["n"] [.declare "m" (.get "n" 2) 2, .declare "n" (.get "m" 2) 2,
        .call (.get "f" 2) [.get "n" 2] 2] 2)
      (some (.block [.declare "m" one 3, .declare "n" (.get "m" 3) 3,
        .function "m" [] [.call (.get "f" 3) [.get "m" 3] 3] 3] 3)) 2,
    .print (.call (.get "m" 4) [] 4) 4]

/-- The same and a function that does not compile. -/
def undefinedName : Program :=
  scatteredNames ++ [.function "g" ["a"] [.declare "b" (.get "n" 5) 5, .get "c" 5] 5]

/-- These names are accounted for, also if another function does not compile. -/
theorem generate_accounts_scatteredNames :
    (∃ m, (generate { valueType := .i32 } scatteredNames).result = .ok m ∧
      m.Accounted { valueType := .i32 } scatteredNames) ∧
    ∃ opened, (generate { valueType := .i32 } undefinedName).Interrupted { valueType := .i32 }
      undefinedName (.fault (.undefinedVariable "c") 5) opened := by
  constructor
  · obtain ⟨m, hm⟩ : ∃ m, (generate { valueType := .i32 } scatteredNames).result = .ok m :=
      ⟨_, rfl⟩
    exact ⟨m, hm, ((generate_accounts _ _).1 m hm).1⟩
  · exact (generate_accounts _ _).2 _ rfl

end StackScript
