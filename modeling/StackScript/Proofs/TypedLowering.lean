import StackScript.Proofs.LoweringScope
import StackScript.Proofs.StackTyping

/-!
# Compiled code is typed

The code of a node leaves what its use asks for: nothing, one value of the type, or a flag. The code
of statements leaves the stack as it finds it, with one value more if the last is kept. By induction
over the rules of lowering, all functions of a compiled module are therefore typed.

## Main definitions

* `Use.leaves`, `Part.leaves`: the types that the code of a part leaves.
* `Func.WellTyped`, `Module.WellTyped`: functions and modules whose code is typed.

## Main results

* `Compiles.typed`: compiled code is typed.
* `CompiledProgram.wellTyped`: the module of a program is well typed.
-/

namespace StackScript

open Code (acts)

/-! ### Pieces of code -/

/-- The types that a node leaves for a use. -/
def Use.leaves (t : ValueType) : Use → List ValueType
  | statement => []
  | value => [t]
  | condition => [.i32]

/-- The types that the code of a part leaves. -/
def Part.leaves (t : ValueType) : Part → List ValueType
  | node use _ => use.leaves t
  | statements keepLast _ => if keepLast then [t] else []
  | arguments list => List.replicate list.length t

section Pieces

variable {Γ : Interface} {locals : List Text} {σ σ₁ σ₂ : List ValueType}

theorem Code.Types.acts_append {actions more : List Action}
    (h : (acts actions).Types Γ locals σ σ₁) (hmore : (acts more).Types Γ locals σ₁ σ₂) :
    (acts (actions ++ more)).Types Γ locals σ σ₂ := by
  rw [Code.acts_append]
  exact h.append hmore

theorem constantOf_zeroDatum (t : ValueType) : ConstantOf t (.int 0) t.zeroDatum := by
  cases t with
  | i32 => exact .int rfl rfl (by decide)
  | i64 => exact .int rfl rfl (by decide)
  | f32 => exact .real rfl rfl
  | f64 => exact .real rfl rfl

/-- The zero of a type is a value of it. -/
theorem types_zero : (Action.const Γ.type.zeroDatum).Types Γ locals σ (Γ.type :: σ) :=
  .const (constantOf_zeroDatum Γ.type)

theorem types_isZero : (acts Γ.type.isZeroActions).Types Γ locals (Γ.type :: σ) (.i32 :: σ) := by
  unfold ValueType.isZeroActions
  cases hfloat : Γ.type.isFloat with
  | true => exact .act types_zero (.act (@Action.Types.operator _ _ .equal _) .done)
  | false => exact .act (.isZero hfloat) .done

theorem types_isNotZero :
    (acts Γ.type.isNotZeroActions).Types Γ locals (Γ.type :: σ) (.i32 :: σ) := by
  unfold ValueType.isNotZeroActions
  split
  · rename_i htype
    rw [htype]
    exact .done
  · exact .act types_zero (.act (@Action.Types.operator _ _ .notEqual _) .done)

theorem types_negate : (acts Γ.type.negateActions).Types Γ locals (Γ.type :: σ) (Γ.type :: σ) := by
  unfold ValueType.negateActions
  cases hfloat : Γ.type.isFloat with
  | true => exact .act (.negate hfloat) .done
  | false =>
    have hconstant : ConstantOf Γ.type (.int (-1)) (.int (-1)) := by
      cases htype : Γ.type with
      | i32 => exact .int rfl rfl (by decide)
      | i64 => exact .int rfl rfl (by decide)
      | _ => rw [htype] at hfloat; cases hfloat
    exact .act (.const hconstant) (.act (@Action.Types.operator _ _ .multiply _) .done)

theorem types_widen : (acts Γ.type.widenActions).Types Γ locals (.i32 :: σ) (Γ.type :: σ) := by
  unfold ValueType.widenActions
  cases hwiden : Γ.type.fromFlag? with
  | some name => exact .act (.widen hwiden) .done
  | none =>
    -- only flags of the type `i32` need no widening
    have htype : Γ.type = .i32 := by
      revert hwiden
      cases Γ.type <;> simp [ValueType.fromFlag?]
    rw [htype]
    exact .done

theorem types_ofValue (use : Use) :
    (acts (use.ofValue Γ.type)).Types Γ locals (Γ.type :: σ) (use.leaves Γ.type ++ σ) := by
  cases use with
  | statement => exact .act .drop .done
  | value => exact .done
  | condition => exact types_isNotZero

theorem types_ofFlag (use : Use) :
    (acts (use.ofFlag Γ.type)).Types Γ locals (.i32 :: σ) (use.leaves Γ.type ++ σ) := by
  cases use with
  | statement => exact types_widen.acts_append (.act .drop .done)
  | value => exact types_widen
  | condition => exact .done

end Pieces

/-! ### Compiled parts -/

/-- What code may use of a module when a scope is all that is known of it. -/
def Scope.interface (s : Scope) : Interface where
  type := s.module.valueType
  globals := s.module.globals.map Global.name
  data := s.module.data
  arity? := s.arity?

theorem Scope.mem_interface_globals {s : Scope} {name : Text} (h : s.isGlobal name = true) :
    name ∈ s.interface.globals := by
  obtain ⟨g, hg⟩ := Option.isSome_iff_exists.mp h
  have hname : g.name = name := by simpa using List.find?_some hg
  exact List.mem_map.mpr ⟨g, List.mem_of_find?_eq_some hg, hname⟩

section Parts

variable {options : Options} {s s' final : Scope} {p : Part} {c : Code} {locals : List Text}
  {name : Text} {σ : List ValueType}

/-- A name of a scope is loaded from its cell. -/
theorem types_load (hlinked : s.LinkedTo final locals) (hname : s.isCell name) :
    (Action.named (s.cells name ++ ".get" : String) name).Types final.interface locals σ
      (final.interface.type :: σ) := by
  have hmem := Scope.mem_of_isCell Scope.mem_interface_globals hlinked hname
  have hcells : s.cells name = cellClass (s.isLocal name) := rfl
  rw [hcells]
  exact .load hmem

theorem types_store (hlinked : s.LinkedTo final locals) (hname : s.isCell name) :
    (Action.named (s.cells name ++ ".set" : String) name).Types final.interface locals
      (final.interface.type :: σ) σ := by
  have hmem := Scope.mem_of_isCell Scope.mem_interface_globals hlinked hname
  have hcells : s.cells name = cellClass (s.isLocal name) := rfl
  rw [hcells]
  exact .store hmem

/-- A literal is a segment of the data at its address. -/
theorem Module.exists_segment_addData (m : Module) (text : Bytes) :
    ∃ segment ∈ (m.addData text).2.data, segment.offset = (m.addData text).1 := by
  unfold Module.addData
  split
  · rename_i segment hfind
    exact ⟨segment, List.mem_of_find?_eq_some hfind, rfl⟩
  · exact ⟨_, List.mem_append_right _ List.mem_cons_self, rfl⟩

theorem types_address {text : Bytes} (hbelow : (s.addData text).Below final) :
    (Action.plain "i32.const" (.int (s.module.addData text).1)).Types final.interface locals σ
      (.i32 :: σ) := by
  obtain ⟨segment, hmem, hoffset⟩ := s.module.exists_segment_addData text
  rw [← hoffset]
  exact .address (hbelow.data.subset hmem)

theorem types_declare (hlinked : (s.declare name).LinkedTo final locals) :
    (Action.named (s.declaredCells ++ ".set" : String) name).Types final.interface locals
      (final.interface.type :: σ) σ := by
  have hmem := Scope.mem_of_declare Scope.mem_interface_globals hlinked
  have hcells : s.declaredCells = cellClass s.frame.isSome := rfl
  rw [hcells]
  exact .store hmem

/-- Compiled code is typed. -/
theorem Compiles.typed (htype : final.module.valueType = options.valueType)
    (h : Compiles options s p c s') (hlinked : s'.LinkedTo final locals) (σ : List ValueType) :
    c.Types final.interface locals σ (p.leaves options.valueType ++ σ) := by
  have htype' : options.valueType = final.interface.type := htype.symm
  rw [htype']
  -- The stack below is arbitrary, so the parts of a node can be typed one behind the other.
  induction h generalizing σ with
  | block _ ih => exact ih hlinked σ
  | @binary _ _ _ use _ _ op _ _ _ _ hright ihleft ihright =>
    have hleft := ihleft (hlinked.of_compiles hright) σ
    have hoperator : (Action.bare (op.mnemonic final.interface.type)).Types final.interface locals
        (final.interface.type :: final.interface.type :: σ) _ := .operator
    rw [htype']
    refine (hleft.append (ihright hlinked _)).append (.act hoperator ?_)
    cases op.isComparison with
    | true => exact types_ofFlag use
    | false => exact types_ofValue use
  | negate _ ih =>
    rw [htype']
    exact (ih hlinked σ).append (types_negate.acts_append (types_ofValue _))
  | not _ ih =>
    rw [htype']
    exact (ih hlinked σ).append (types_isZero.acts_append (types_ofFlag _))
  | declare _ _ ih =>
    exact (ih hlinked.of_declare σ).append (.act (types_declare hlinked) .done)
  | get hname =>
    rw [htype']
    exact .act (types_load hlinked hname) (types_ofValue _)
  | assign _ hname ih => exact (ih hlinked σ).append (.act (types_store hlinked hname) .done)
  | assignValue _ _ hname ih =>
    rw [htype']
    exact (ih hlinked σ).append
      (.act (types_store hlinked hname) (.act (types_load hlinked hname) (types_ofValue _)))
  | print _ ih => exact (ih hlinked σ).append (.act .log .done)
  -- the missing second part is empty
  | ifThen _ hthen ihcondition ihthen =>
    exact (ihcondition (hlinked.of_compiles hthen) σ).append
      (.ifElse (ihthen hlinked σ) .done .done)
  | ifElse _ hthen helse ihcondition ihthen ihelse =>
    have hlinked' := hlinked.of_compiles helse
    exact (ihcondition (hlinked'.of_compiles hthen) σ).append
      (.ifElse (ihthen hlinked' σ) (ihelse hlinked σ) .done)
  | function _ _ _ => exact .done
  | @call s _ _ name args _ _ _ harity hargs ih =>
    rw [htype']
    -- signatures are only ever added, so a name known here is known in the module
    have hknown : final.interface.arity? name = some args.length :=
      (hlinked.of_compiles hargs).below.arity?_mono harity
    exact (ih hlinked σ).append (.act (.call hknown) (types_ofValue _))
  | number _ hconstant =>
    rw [htype'] at hconstant ⊢
    exact .act (.const hconstant) (types_ofValue _)
  | @string s _ text =>
    rw [htype']
    exact .act (types_address hlinked.below) (types_widen.acts_append (types_ofValue _))
  | done => exact .done
  | zero =>
    rw [htype']
    exact .act types_zero .done
  | last _ _ ih => exact ih hlinked σ
  | next _ _ hrest ih ihrest =>
    exact (ih (hlinked.of_compiles hrest) σ).append (ihrest hlinked σ)
  | noArguments => exact .done
  | @argument _ _ _ _ rest _ _ _ hrest ih ihrest =>
    have hall := (ih (hlinked.of_compiles hrest) σ).append (ihrest hlinked _)
    simpa [Part.leaves, Use.leaves, List.replicate_succ'] using hall

end Parts

/-! ### Well-typed modules -/

/-- A function with code that is typed for what the function returns. -/
structure Func.WellTyped (Γ : Interface) (f : Func) (c : Code) : Prop where
  body_eq : f.body = c.flatten
  nodup : (f.params ++ f.locals).Nodup
  types : c.Types Γ (f.params ++ f.locals) [] (if f.result.isSome then [Γ.type] else [])

/-- A module all of whose functions are well typed. The functions that code may call are there and
return a value. -/
structure Module.WellTyped (Γ : Interface) (m : Module) : Prop where
  valueType_eq : m.valueType = Γ.type
  nodup_globals : Γ.globals.Nodup
  initialStore : m.initialStore.Typed Γ
  functions : ∀ {name : Text} {f : Func}, m.function? name = some f → ∃ c, f.WellTyped Γ c
  callable : ∀ {name : Text} {arity : Nat}, Γ.arity? name = some arity →
    name ≠ logFunction ∧ ∃ f, m.function? name = some f ∧ f.arity = arity ∧ f.result.isSome = true

theorem FunctionDef.CompiledIn.wellTyped {options : Options} {final s inner : Scope}
    {d : FunctionDef} {f : Func} {c : Code} (h : d.CompiledIn options final f s inner c)
    (htype : final.module.valueType = options.valueType) : f.WellTyped final.interface c := by
  refine ⟨h.body_eq, h.nodup_names, ?_⟩
  have hresult : f.result.isSome = true := by rw [h.func]; rfl
  have htyped := h.compiles.typed htype h.linkedTo []
  rw [← htype] at htyped
  rw [hresult]
  exact htyped

namespace CompiledProgram

variable {options : Options} {program : Program} {m : Module} {c : Code} {final : Scope}

/-- The entry is typed: it has no cells, and it leaves a value if it is to return one. -/
theorem wellTyped_entry (h : CompiledProgram options program m c final) :
    (options.entryFunction c.flatten).WellTyped final.interface c := by
  refine ⟨rfl, List.nodup_nil, ?_⟩
  have htyped := h.compiles.typed h.records.valueType h.linkedTo []
  rw [← h.records.valueType] at htyped
  cases hreturns : options.entry.returnsValue <;>
    simpa [Options.entryFunction, hreturns, Part.leaves, Scope.interface] using htyped

/-- All functions of a module are typed. -/
theorem exists_wellTyped (h : CompiledProgram options program m c final) {f : Func}
    (hf : f ∈ m.functions) : ∃ body, f.WellTyped final.interface body := by
  rcases h.mem_functions hf with rfl | ⟨d, -, _, _, body, hd⟩
  · exact ⟨c, h.wellTyped_entry⟩
  · exact ⟨body, hd.wellTyped h.records.valueType⟩

/-- The module of a program is well typed. -/
theorem wellTyped (h : CompiledProgram options program m c final) :
    m.WellTyped final.interface := by
  have hglobals : final.interface.globals = m.globals.map Global.name := by rw [h.module_eq]; rfl
  have hnodup : (m.globals.map Global.name).Nodup := h.names_globals ▸ nodup_eraseDups _
  refine ⟨by rw [h.module_eq]; rfl, hglobals ▸ hnodup, ?_, fun {name f} hf => ?_,
    fun {name arity} harity => ?_⟩
  · rw [Module.initialStore_eq h.type_globals hnodup, ← hglobals]
    refine ⟨⟨_, rfl, fun _ => ?_⟩, by simp⟩
    rw [Value.type_zero]
    exact h.records.valueType.symm
  · exact h.exists_wellTyped (List.mem_of_find?_eq_some hf)
  · obtain ⟨d, f, hd, hf, ⟨_, _, _, hcompiled⟩, hcount⟩ := h.exists_function harity
    have hname : d.name = name := by simpa using List.find?_some hd
    exact ⟨hname ▸ hcompiled.ne_log, f, hf, hcount, by rw [hcompiled.func]; rfl⟩

end CompiledProgram

end StackScript
