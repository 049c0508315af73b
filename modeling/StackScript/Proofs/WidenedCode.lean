import Mathlib.Data.List.Forall2
import StackScript.Proofs.WordArithmetic

/-!
# Code for integers of two widths

A program that compiles with 32-bit integers compiles with 64-bit integers as well, and to code of
the same shape: each action has its counterpart. The wide code has two things besides. It extends
flags and addresses to its own type, right where they are pushed, and it may test a value for zero
before a conditional takes it.

## Main definitions

* `Action.Widens`, `Code.Widens`: narrow code and its wide counterpart.
* `Use.Widens`: the same for flat code that is lowered for a use.
* `Func.Widens`, `Module.Widens`, `Scope.Widens`: functions, modules and scopes of such code.
* `Lower.Widens`: wide lowering succeeds where narrow lowering does, with the counterparts.

## Main results

* `Lower.Widens.bind`, `Lower.Widens.ifElse`: putting parts together.
* `lower_widens`: lowering a node for the two types.
* `exists_widens_of_generate`: a program that compiles with 32-bit integers compiles with 64-bit
  integers.
-/

namespace StackScript

open Code (acts)

/-! ### Counterparts -/

/-- Operations on integers, which have the same names for both widths. -/
def Operation.isIntegral : Operation → Bool
  | unary .eqz | binary (.arithmetic _) | binary .divS | binary (.compare _) => true
  | _ => false

/-- The mnemonics of an operator have the same operation for both widths. -/
theorem BinaryOp.exists_mnemonic (op : BinaryOp) :
    ∃ name operation, operationNames.lookup name = some operation ∧ operation.isIntegral = true ∧
      op.mnemonic .i32 = ValueType.i32.mnemonic name ∧
      op.mnemonic .i64 = ValueType.i64.mnemonic name := by
  cases op <;> exact ⟨_, _, rfl, rfl, rfl, rfl⟩

namespace Action

/-- Extends a flag or an address to a 64-bit integer. -/
def extend : Action := bare (ValueType.i64.mnemonic "extend_i32_u")

/-- Whether an action is a numeric instruction, which pushes its result. -/
def isNumeric : Action → Bool
  | plain mnemonic _ => (decodeMnemonic? mnemonic).isSome
  | _ => false

theorem isNumeric_plain (t : ValueType) (name : String) {op : Operation}
    (h : operationNames.lookup name = some op) (operand : Datum) :
    (plain (t.mnemonic name) operand).isNumeric = true := by
  rw [isNumeric, decodeMnemonic?_mnemonic, h]
  rfl

/-- An action and its counterpart for wider integers. -/
inductive Widens : Action → Action → Prop
  | const {n : Int} : wrap 32 n = n → Widens (const (.int n)) (const (.int n))
  | call (name : Text) : Widens (call name) (call name)
  | drop : Widens (bare "drop") (bare "drop")
  | load (inFunction : Bool) (name : Text) :
      Widens (named (cellClass inFunction ++ ".get" : String) name)
        (named (cellClass inFunction ++ ".get" : String) name)
  | store (inFunction : Bool) (name : Text) :
      Widens (named (cellClass inFunction ++ ".set" : String) name)
        (named (cellClass inFunction ++ ".set" : String) name)
  | address (n : Int) : Widens (plain "i32.const" (.int n)) (plain "i32.const" (.int n))
  | operation (name : String) {op : Operation} : operationNames.lookup name = some op →
      op.isIntegral = true →
      Widens (bare (ValueType.i32.mnemonic name)) (bare (ValueType.i64.mnemonic name))

end Action

/-- A 32-bit integer is a 64-bit integer. -/
theorem wrap_eq_self_of_narrow {n : Int} (h : wrap 32 n = n) : wrap 64 n = n := by
  have hfits : Fits 32 n := (wrap_eq_self_iff (by decide)).mp h
  unfold Fits at hfits
  exact (wrap_eq_self_iff (by decide)).mpr ⟨by omega, by omega⟩

/-- What wide code may do to a value before a conditional takes it. -/
def IsTest (test : List Action) : Prop :=
  test = [] ∨ test = ValueType.i64.isNotZeroActions

/-- Code and its counterpart for wider integers. -/
inductive Code.Widens : Code → Code → Prop
  | done : Widens .done .done
  | act {action action' : Action} {rest rest' : Code} : action.Widens action' →
      Widens rest rest' → Widens (.act action rest) (.act action' rest')
  | extended {action action' : Action} {rest rest' : Code} : action.Widens action' →
      action'.isNumeric = true → Widens rest rest' →
      Widens (.act action rest) (.act action' (.act .extend rest'))
  | ifElse {test : List Action} {first first' second second' rest rest' : Code} : IsTest test →
      Widens first first' → Widens second second' → Widens rest rest' →
      Widens (.ifElse first second rest) (acts test ++ .ifElse first' second' rest')

theorem Code.Widens.append {c c' d d' : Code} (h : c.Widens c') (hd : d.Widens d') :
    (c ++ d).Widens (c' ++ d') := by
  induction h with
  | done => exact hd
  | act haction _ ih => exact .act haction ih
  | extended haction hnumeric _ ih => exact .extended haction hnumeric ih
  | ifElse htest hfirst hsecond _ _ _ ih =>
    rw [append_assoc]
    exact .ifElse htest hfirst hsecond ih

/-! ### Code for a use -/

/-- What wide code may still do to a value when the narrow code of a use is complete. -/
def Use.Completes : Use → List Action → Prop
  | condition, test => IsTest test
  | _, test => test = []

/-- Flat code for a use, and its counterpart for wider integers. -/
def Use.Widens (use : Use) (code code' : List Instr) : Prop :=
  ∃ (c c' : Code) (test : List Action), c.Widens c' ∧ use.Completes test ∧
    c.flatten = code ∧ (c' ++ acts test).flatten = code'

namespace Use.Widens

variable {use : Use} {code code' more more' : List Instr}

theorem of_code {c c' : Code} (h : c.Widens c') : use.Widens c.flatten c'.flatten := by
  refine ⟨c, c', [], h, ?_, rfl, by simp⟩
  cases use with
  | condition => exact .inl rfl
  | _ => rfl

theorem nil : use.Widens [] [] := of_code .done

theorem singleton {action action' : Action} (h : action.Widens action') :
    use.Widens [action.instr] [action'.instr] :=
  of_code (.act h .done)

/-- Code that leaves nothing to complete. -/
theorem exists_code (h : value.Widens code code') :
    ∃ c c' : Code, c.Widens c' ∧ c.flatten = code ∧ c'.flatten = code' := by
  obtain ⟨c, c', test, hc, rfl, rfl, rfl⟩ := h
  exact ⟨c, c', hc, rfl, by simp⟩

theorem append (h : value.Widens code code') (hmore : use.Widens more more') :
    use.Widens (code ++ more) (code' ++ more') := by
  obtain ⟨c, c', hc, rfl, rfl⟩ := h.exists_code
  obtain ⟨d, d', test, hd, htest, rfl, rfl⟩ := hmore
  exact ⟨c ++ d, c' ++ d', test, hc.append hd, htest, by simp, by simp⟩

/-- Putting a value to a use. -/
theorem ofValue (use : Use) : use.Widens ((use.ofValue .i32).map Action.instr)
    ((use.ofValue .i64).map Action.instr) := by
  cases use with
  | statement => exact singleton .drop
  | value => exact nil
  | condition => exact ⟨.done, .done, _, .done, .inr rfl, rfl, by simp [Use.ofValue]⟩

/-- A flag that is put to a use: unless it is a condition, it is extended. -/
theorem ofFlag (use : Use) {action action' : Action} (h : action.Widens action')
    (hnumeric : action'.isNumeric = true) :
    use.Widens ((action :: use.ofFlag .i32).map Action.instr)
      ((action' :: use.ofFlag .i64).map Action.instr) := by
  cases use with
  | statement => exact of_code (.extended h hnumeric (.act .drop .done))
  | value => exact of_code (.extended h hnumeric .done)
  | condition => exact singleton h

end Use.Widens

/-! ### Modules and scopes -/

/-- Functions that differ in the width of their integers. -/
structure Func.Widens (f f' : Func) : Prop where
  name_eq : f'.name = f.name
  params_eq : f'.params = f.params
  locals_eq : f'.locals = f.locals
  result_eq : f'.result.isSome = f.result.isSome
  body : Use.value.Widens f.body f'.body

/-- Globals that differ in the width of their integers. -/
structure Global.Widens (g g' : Global) : Prop where
  name_eq : g'.name = g.name
  type_eq : g.type = .i32
  type_eq_wide : g'.type = .i64

/-- Modules that differ in the width of their integers. -/
structure Module.Widens (m m' : Module) : Prop where
  valueType_eq : m.valueType = .i32
  valueType_eq_wide : m'.valueType = .i64
  entry_eq : m'.entry = m.entry
  memory_eq : m'.memory = m.memory
  data_eq : m'.data = m.data
  globals : List.Forall₂ Global.Widens m.globals m'.globals
  functions : List.Forall₂ Func.Widens m.functions m'.functions

/-- Scopes whose modules differ in the width of their integers. -/
structure Scope.Widens (s s' : Scope) : Prop where
  module : s.module.Widens s'.module
  signatures_eq : s'.signatures = s.signatures
  contexts_eq : s'.contexts = s.contexts

/-- Related lists have related first elements of a kind. -/
theorem forall₂_find? {α : Type} {R : α → α → Prop} {p : α → Bool} {xs ys : List α}
    (h : List.Forall₂ R xs ys) (hp : ∀ {x y}, R x y → p y = p x) :
    Option.Rel R (xs.find? p) (ys.find? p) := by
  induction h with
  | nil => exact .none
  | cons hxy _ ih =>
    rw [List.find?_cons, List.find?_cons, hp hxy]
    split
    · exact .some hxy
    · exact ih

namespace Module.Widens

variable {m m' : Module} (h : m.Widens m')

include h

theorem global? (name : Text) : Option.Rel Global.Widens (m.global? name) (m'.global? name) :=
  forall₂_find? h.globals fun hg => by rw [hg.name_eq]

theorem function? (name : Text) : Option.Rel Func.Widens (m.function? name) (m'.function? name) :=
  forall₂_find? h.functions fun hf => by rw [hf.name_eq]

theorem addGlobal (name : Text) : (m.addGlobal name).2.Widens (m'.addGlobal name).2 := by
  have hfind := h.global? name
  unfold Module.addGlobal
  generalize m.global? name = found, m'.global? name = found' at hfind
  cases hfind with
  | some _ => exact h
  | none =>
    exact { h with
      globals := List.rel_append h.globals
        (.cons ⟨rfl, h.valueType_eq, h.valueType_eq_wide⟩ .nil) }

theorem addData_fst (data : Bytes) : (m'.addData data).1 = (m.addData data).1 := by
  unfold Module.addData Module.dataSize
  rw [h.data_eq]
  split <;> rfl

theorem addData (data : Bytes) : (m.addData data).2.Widens (m'.addData data).2 := by
  unfold Module.addData Module.dataSize
  rw [h.data_eq]
  split
  · exact h
  · exact { h with data_eq := rfl }

theorem addFunction {f f' : Func} (hf : f.Widens f') :
    (m.addFunction f).Widens (m'.addFunction f') :=
  { h with functions := List.rel_append h.functions (.cons hf .nil) }

end Module.Widens

namespace Scope.Widens

variable {s s' : Scope} (h : s.Widens s')

include h

theorem frame_eq : s'.frame = s.frame := by
  unfold Scope.frame
  rw [h.contexts_eq]

theorem isLocal_eq (name : Text) : s'.isLocal name = s.isLocal name := by
  unfold Scope.isLocal
  rw [h.frame_eq]

theorem isGlobal_eq (name : Text) : s'.isGlobal name = s.isGlobal name := by
  have hfind := h.module.global? name
  unfold Scope.isGlobal
  generalize s.module.global? name = found, s'.module.global? name = found' at hfind
  cases hfind <;> rfl

theorem arity?_eq (name : Text) : s'.arity? name = s.arity? name := by
  unfold Scope.arity?
  rw [h.signatures_eq]

theorem cells_eq (name : Text) : s'.cells name = s.cells name := by
  unfold Scope.cells
  rw [h.isLocal_eq]

theorem isCell_iff (name : Text) : s'.isCell name ↔ s.isCell name := by
  unfold Scope.isCell
  rw [h.isLocal_eq, h.isGlobal_eq]

theorem declaredCells_eq : s'.declaredCells = s.declaredCells := by
  unfold Scope.declaredCells
  rw [h.frame_eq]

theorem declare (name : Text) : (s.declare name).Widens (s'.declare name) := by
  unfold Scope.declare
  rw [h.frame_eq]
  split
  · exact { h with contexts_eq := by simp only [Scope.setFrame, h.contexts_eq] }
  · exact { h with module := h.module.addGlobal name }

end Scope.Widens

/-! ### Lowering that succeeds again -/

namespace Lower

section Succeeds

variable {s : Scope} {name : String} {line : Line}

theorem yields_resolve (h : s.isCell name) : (resolve name line).Yields s [] s (s.cells name) := by
  refine yields_bind.mpr ⟨[], s, s, [], yields_scope.mpr ⟨rfl, rfl, rfl⟩, ?_, rfl⟩
  unfold Scope.cells
  rcases h with hlocal | hglobal
  · simp [hlocal]
  · cases hlocal : s.isLocal name <;> simp [hglobal]

theorem yields_load (h : s.isCell name) :
    (load name line).Yields s [.named (s.cells name ++ ".get" : String) name] s () :=
  yields_bind.mpr ⟨_, _, _, _, yields_resolve h, yields_emit.mpr ⟨rfl, rfl⟩, rfl⟩

theorem yields_store (h : s.isCell name) :
    (store name line).Yields s [.named (s.cells name ++ ".set" : String) name] s () :=
  yields_bind.mpr ⟨_, _, _, _, yields_resolve h, yields_emit.mpr ⟨rfl, rfl⟩, rfl⟩

theorem yields_checkName (h : isAsciiName name = true) :
    (checkName name line).Yields s [] s () := by
  unfold isAsciiName at h
  simp only [checkName, h, if_true, yields_pure, and_self]

theorem yields_checkNames {names : List String} (h : ∀ name ∈ names, isAsciiName name = true) :
    (checkNames line names).Yields s [] s () := by
  induction names with
  | nil => exact yields_pure.mpr ⟨rfl, rfl, rfl⟩
  | cons name rest ih =>
    obtain ⟨hname, hrest⟩ := List.forall_mem_cons.mp h
    exact yields_bind.mpr ⟨_, _, _, _, yields_checkName hname, ih hrest, rfl⟩

theorem yields_declare (s : Scope) (name : String) :
    (declare name).Yields s [.named (s.declaredCells ++ ".set" : String) name] (s.declare name)
      () := by
  unfold Scope.declaredCells Scope.declare
  cases hframe : s.frame <;>
    simp only [Yields, declare, bind, Lower.bind, modify, emit, hframe] <;> rfl

theorem yields_address (s : Scope) (text : String) :
    (address (.text text)).Yields s
      [.plain "i32.const" (.int (s.module.addData (utf8 text)).1)] (s.addData (utf8 text)) () :=
  yields_bind.mpr ⟨_, _, _, _, yields_modify.mpr ⟨rfl, rfl, rfl⟩, yields_emit.mpr ⟨rfl, rfl⟩, rfl⟩

theorem yields_checkCall {count : Nat} {line' : Line} (h : s.arity? name = some count) :
    (checkCall (.get name line') count line).Yields s [] s name := by
  refine yields_bind.mpr ⟨[], s, s, [], yields_scope.mpr ⟨rfl, rfl, rfl⟩, ?_, rfl⟩
  simp only [h, if_true, yields_pure, and_self]

theorem yields_checkFunction {options : Options} {params : List String}
    (h : Definable options s name params) :
    (checkFunction options name params line).Yields s []
      (s.addSignature name params.length) () := by
  refine yields_bind.mpr ⟨[], s, s, [], yields_scope.mpr ⟨rfl, rfl, rfl⟩, ?_, rfl⟩
  simp only [h.topLevel]
  refine yields_bind.mpr ⟨[], s, (), [], yields_checkNames h.ascii, ?_, rfl⟩
  rw [yields_unless_fail, yields_unless_fail, yields_unless_fail]
  refine ⟨?_, ?_, ?_, yields_modify.mpr ⟨rfl, rfl, rfl⟩⟩
  · simp [h.ne_log, h.ne_entry]
  · simp [h.unknown]
  · simp [h.nodup]

end Succeeds

/-! ### Lowering for both widths -/

/-- Where the first lowering succeeds, the second one does in a wider scope, with the counterpart of
the code. -/
def Widens {α : Type} (use : Use) (l l' : Lower α) : Prop :=
  ∀ ⦃s s₁ : Scope⦄ ⦃code : List Instr⦄ ⦃a : α⦄, l.Yields s code s₁ a →
    ∀ ⦃s' : Scope⦄, s.Widens s' → ∃ code' s₁', l'.Yields s' code' s₁' a ∧ s₁.Widens s₁' ∧
      use.Widens code code'

theorem Widens.bind {α β : Type} {use : Use} {l l' : Lower α} {next next' : α → Lower β}
    (h : Widens .value l l') (hnext : ∀ a, Widens use (next a) (next' a)) :
    Widens use (l >>= next) (l' >>= next') := by
  intro s s₂ code b hyields s' hs
  obtain ⟨code₁, s₁, a, code₂, h₁, h₂, rfl⟩ := yields_bind.mp hyields
  obtain ⟨code₁', s₁', h₁', hs₁, hcode₁⟩ := h h₁ hs
  obtain ⟨code₂', s₂', h₂', hs₂, hcode₂⟩ := hnext a h₂ hs₁
  exact ⟨_, s₂', yields_bind.mpr ⟨_, _, _, _, h₁', h₂', rfl⟩, hs₂, hcode₁.append hcode₂⟩

section Pieces

variable {use : Use} {name : String} {line : Line}

theorem widens_pure {α : Type} (use : Use) (a : α) : Widens use (pure a) (pure a : Lower α) := by
  intro s s₁ code b h s' hs
  obtain ⟨rfl, rfl, rfl⟩ := yields_pure.mp h
  exact ⟨[], s', yields_pure.mpr ⟨rfl, rfl, rfl⟩, hs, .nil⟩

theorem widens_emit {action action' : Action} (h : action.Widens action') :
    Widens use (emit action.instr) (emit action'.instr) := by
  intro s s₁ code _ hyields s' hs
  obtain ⟨rfl, rfl⟩ := yields_emit.mp hyields
  exact ⟨_, s', yields_emit.mpr ⟨rfl, rfl⟩, hs, .singleton h⟩

theorem Emits.widens {l l' : Lower Unit} {actions actions' : List Action} (h : l.Emits actions)
    (h' : l'.Emits actions')
    (hactions : use.Widens (actions.map Action.instr) (actions'.map Action.instr)) :
    Widens use l l' := by
  intro s s₁ code _ hyields s' hs
  obtain ⟨rfl, rfl⟩ := h.yields.mp hyields
  exact ⟨_, s', h'.yields.mpr ⟨rfl, rfl⟩, hs, hactions⟩

theorem Emits.bind {l l' : Lower Unit} {actions more : List Action} (h : l.Emits actions)
    (h' : l'.Emits more) : (l >>= fun _ => l').Emits (actions ++ more) := by
  intro s
  simp [Bind.bind, Lower.bind, h s, h' s]

theorem widens_useNothing (nodeName : String) (line : Line) (use : Use) :
    Widens use (useNothing nodeName line use) (useNothing nodeName line use) := by
  intro s s₁ code _ hyields s' hs
  obtain ⟨rfl, rfl, rfl⟩ := yields_useNothing.mp hyields
  exact ⟨[], s', yields_useNothing.mpr ⟨rfl, rfl, rfl⟩, hs, .nil⟩

theorem widens_useValue (use : Use) : Widens use (useValue .i32 use) (useValue .i64 use) :=
  (emits_useValue .i32 use).widens (emits_useValue .i64 use) (.ofValue use)

theorem widens_load (name : String) (line : Line) :
    Widens .value (load name line) (load name line) := by
  intro s s₁ code _ h s' hs
  obtain ⟨hcell, rfl, rfl⟩ := h.of_load
  refine ⟨_, s', yields_load ((hs.isCell_iff name).mpr hcell), hs, ?_⟩
  rw [hs.cells_eq]
  exact .singleton (.load (s₁.isLocal name) name)

theorem widens_store (name : String) (line : Line) :
    Widens .value (store name line) (store name line) := by
  intro s s₁ code _ h s' hs
  obtain ⟨hcell, rfl, rfl⟩ := h.of_store
  refine ⟨_, s', yields_store ((hs.isCell_iff name).mpr hcell), hs, ?_⟩
  rw [hs.cells_eq]
  exact .singleton (.store (s₁.isLocal name) name)

theorem widens_checkName (name : String) (line : Line) :
    Widens .value (checkName name line) (checkName name line) := by
  intro s s₁ code _ h s' hs
  obtain ⟨hname, rfl, rfl⟩ := h.of_checkName
  exact ⟨[], s', yields_checkName hname, hs, .nil⟩

theorem widens_declare (name : String) : Widens .value (declare name) (declare name) := by
  intro s s₁ code _ h s' hs
  obtain ⟨rfl, rfl⟩ := h.of_declare
  refine ⟨_, _, yields_declare s' name, hs.declare name, ?_⟩
  rw [hs.declaredCells_eq]
  exact .singleton (.store s.frame.isSome name)

theorem widens_ofConversion {α : Type} (r : Except ConversionError α) :
    Widens .value (ofConversion r) (ofConversion r) := by
  intro s s₁ code a h s' hs
  obtain ⟨rfl, rfl, rfl⟩ := h.of_ofConversion
  exact ⟨[], s', yields_pure.mpr ⟨rfl, rfl, rfl⟩, hs, .nil⟩

/-- A failure has whatever counterpart. -/
theorem widens_fail {α : Type} {fault : CompileFault} {l : Lower α} :
    Widens use (fail fault line) l :=
  fun _ _ _ _ h => absurd h not_yields_fail

/-- A number that is a constant of 32 bits is one of 64 bits. -/
theorem widens_constant (number : Datum) (line : Line) :
    Widens .value (constant .i32 number line) (constant .i64 number line) := by
  have hrest : Widens .value
      (do
        let n ← ofConversion number.toInteger
        if wrap 32 n = n then emit (.const (.int n))
        else fail (.literalOutOfRange n .i32) line)
      (do
        let n ← ofConversion number.toInteger
        if wrap 64 n = n then emit (.const (.int n))
        else fail (.literalOutOfRange n .i64) line) := by
    refine (widens_ofConversion _).bind fun n => ?_
    by_cases hwrap : wrap 32 n = n
    · rw [if_pos hwrap, if_pos (wrap_eq_self_of_narrow hwrap)]
      exact widens_emit (.const hwrap)
    · rw [if_neg hwrap]
      exact widens_fail
  cases number with
  | real x =>
    -- only a real number is first checked to be whole, in the same way for both widths
    simp only [constant, ValueType.width?]
    by_cases hwhole : x.isWhole = true
    · rw [if_pos hwhole, if_pos hwhole]
      exact hrest
    · rw [if_neg hwhole, if_neg hwhole]
      exact widens_fail.bind fun _ => hrest
  | _ => exact hrest

/-- The address of a string is extended. -/
theorem widens_address (literal : Datum) :
    Widens .value (do address literal; widen .i32) (do address literal; widen .i64) := by
  intro s s₁ code _ h s' hs
  obtain ⟨_, _, _, _, h₁, h₂, rfl⟩ := yields_bind.mp h
  obtain ⟨text, rfl, rfl, rfl⟩ := h₁.of_address
  obtain ⟨rfl, rfl⟩ := (emits_widen .i32).yields.mp h₂
  have hwiden : (widen .i64).Yields (s'.addData (utf8 text)) _ _ () :=
    (emits_widen .i64).yields.mpr ⟨rfl, rfl⟩
  refine ⟨_, _, yields_bind.mpr ⟨_, _, (), _, yields_address s' text, hwiden, rfl⟩,
    { hs with module := hs.module.addData (utf8 text) }, ?_⟩
  rw [hs.module.addData_fst]
  exact .of_code (.extended (.address _) (Action.isNumeric_plain .i32 "const" rfl _) .done)

theorem widens_checkCall (callee : Expr) (count : Nat) (line : Line) :
    Widens .value (checkCall callee count line) (checkCall callee count line) := by
  intro s s₁ code _ h s' hs
  obtain ⟨name, line', rfl, rfl, harity, rfl, rfl⟩ := h.of_checkCall
  exact ⟨[], s', yields_checkCall (by rw [hs.arity?_eq, harity]), hs, .nil⟩

theorem widens_negate : Widens .value (negate .i32) (negate .i64) :=
  (emits_negate .i32).widens (emits_negate .i64)
    (.of_code (.act (.const rfl) (.act (.operation "mul" rfl rfl) .done)))

/-- Testing a value for zero gives a flag. -/
theorem widens_isZero (use : Use) :
    Widens use (do isZero .i32; useFlag .i32 use) (do isZero .i64; useFlag .i64 use) :=
  ((emits_isZero .i32).bind (emits_useFlag .i32 use)).widens
    ((emits_isZero .i64).bind (emits_useFlag .i64 use))
    (.ofFlag use (.operation "eqz" rfl rfl) (Action.isNumeric_plain .i64 "eqz" rfl .null))

/-- The instruction of an operator, whose result is a flag or a value. -/
theorem widens_operator (op : BinaryOp) (use : Use) :
    Widens use
      (do
        mnemonic (op.mnemonic .i32)
        if op.isComparison then useFlag .i32 use else useValue .i32 use)
      (do
        mnemonic (op.mnemonic .i64)
        if op.isComparison then useFlag .i64 use else useValue .i64 use) := by
  obtain ⟨name, operation, hlookup, hintegral, hnarrow, hwide⟩ := op.exists_mnemonic
  rw [hnarrow, hwide]
  split
  · exact ((emits_mnemonic _).bind (emits_useFlag .i32 use)).widens
      ((emits_mnemonic _).bind (emits_useFlag .i64 use))
      (.ofFlag use (.operation name hlookup hintegral)
        (Action.isNumeric_plain .i64 name hlookup .null))
  · exact Widens.bind (widens_emit (.operation name hlookup hintegral)) fun _ => widens_useValue use

/-- A function, whose code is not part of the code around it. -/
theorem widens_withFrame (frame : Frame) {body body' : Lower Unit} (h : Widens .value body body') :
    Widens .value (withFrame frame (some .i32) body) (withFrame frame (some .i64) body') := by
  intro s s₁ code _ hyields s' hs
  obtain ⟨inner, final, hbody, rfl, rfl⟩ := yields_withFrame.mp hyields
  have hinner : (s.enter frame).Widens (s'.enter frame) :=
    ⟨hs.module, hs.signatures_eq, congrArg (frame :: ·) hs.contexts_eq⟩
  obtain ⟨inner', final', hbody', hfinal, hcode⟩ := h hbody hinner
  refine ⟨[], _, yields_withFrame.mpr ⟨inner', final', hbody', rfl, rfl⟩, ?_, .nil⟩
  refine ⟨hfinal.module.addFunction ?_, hfinal.signatures_eq,
    congrArg List.tail hfinal.contexts_eq⟩
  rw [hfinal.contexts_eq]
  exact ⟨rfl, rfl, rfl, rfl, hcode⟩

theorem widens_checkFunction (options : Options) (name : String) (params : List String)
    (line : Line) :
    Widens .value (checkFunction { options with valueType := .i32 } name params line)
      (checkFunction { options with valueType := .i64 } name params line) := by
  intro s s₁ code _ h s' hs
  obtain ⟨hdef, rfl, rfl⟩ := h.of_checkFunction
  have hdef' : Definable { options with valueType := .i64 } s' name params :=
    { hdef with topLevel := hs.frame_eq.trans hdef.topLevel,
                unknown := (hs.arity?_eq name).trans hdef.unknown }
  refine ⟨[], _, yields_checkFunction hdef', ⟨hs.module, ?_, hs.contexts_eq⟩, .nil⟩
  exact congrArg (· ++ [(.plain name, params.length)]) hs.signatures_eq

end Pieces

/-- A conditional: what is left to do to its condition is done before it. -/
theorem Widens.ifElse {condition condition' first first' second second' : Lower Unit}
    (hcondition : Widens .condition condition condition') (hfirst : Widens .statement first first')
    (hsecond : Widens .statement second second') :
    Widens .statement
      (do condition; emit .openIf; first; emit .openElse; second; emit .closeIf)
      (do condition'; emit .openIf; first'; emit .openElse; second'; emit .closeIf) := by
  intro s s₃ code _ h s' hs
  simp only [yields_bind, yields_emit] at h
  obtain ⟨_, _, _, _, h₁, ⟨_, _, _, _, ⟨rfl, rfl⟩, ⟨_, _, _, _, h₂,
    ⟨_, _, _, _, ⟨rfl, rfl⟩, ⟨_, _, _, _, h₃, ⟨rfl, rfl⟩, rfl⟩, rfl⟩, rfl⟩, rfl⟩, rfl⟩ := h
  obtain ⟨_, _, h₁', hs₁, c, c', test, hc, htest, rfl, rfl⟩ := hcondition h₁ hs
  obtain ⟨_, _, h₂', hs₂, hcode₂⟩ := hfirst h₂ hs₁
  obtain ⟨_, _, h₃', hs₃, hcode₃⟩ := hsecond h₃ hs₂
  obtain ⟨d, d', hd, rfl, rfl⟩ := Use.Widens.exists_code hcode₂
  obtain ⟨e, e', he, rfl, rfl⟩ := Use.Widens.exists_code hcode₃
  -- the test that completes the condition becomes part of the conditional
  refine ⟨(c' ++ (acts test ++ .ifElse d' e' .done)).flatten, _, ?_, hs₃, ?_⟩
  · simp only [yields_bind, yields_emit]
    exact ⟨_, _, (), _, h₁', ⟨_, _, (), _, ⟨rfl, rfl⟩, ⟨_, _, (), _, h₂', ⟨_, _, (), _, ⟨rfl, rfl⟩,
      ⟨_, _, (), _, h₃', ⟨rfl, rfl⟩, rfl⟩, rfl⟩, rfl⟩, rfl⟩, by simp [Code.flatten]⟩
  · have hcode : Use.statement.Widens _ _ := .of_code (hc.append (.ifElse htest hd he .done))
    simpa [Code.flatten] using hcode

end Lower

/-! ### Programs -/

section Programs

variable (options : Options)

/-- The options with 32-bit integers. -/
def Options.narrow : Options := { options with valueType := .i32 }

/-- The options with 64-bit integers. -/
def Options.wide : Options := { options with valueType := .i64 }

open Lower in
mutual

/-- Lowering a node for the two types. -/
theorem lower_widens : ∀ (use : Use) (e : Expr),
    Widens use (lower options.narrow use e) (lower options.wide use e)
  | use, .block body line => by
    rw [lower, lower]
    exact (lowerAll_widens false body).bind fun _ => widens_useNothing _ line use
  | use, .binary left op right line => by
    rw [lower, lower]
    exact (lower_widens .value left).bind fun _ =>
      (lower_widens .value right).bind fun _ => widens_operator op use
  | use, .unary .negate operand line => by
    rw [lower, lower]
    exact (lower_widens .value operand).bind fun _ =>
      widens_negate.bind fun _ => widens_useValue use
  | use, .unary .not operand line => by
    rw [lower, lower]
    exact (lower_widens .value operand).bind fun _ => widens_isZero use
  | use, .declare name value line => by
    rw [lower, lower]
    exact (widens_checkName name line).bind fun _ => (lower_widens .value value).bind fun _ =>
      (widens_declare name).bind fun _ => widens_useNothing _ line use
  | use, .get name line => by
    rw [lower, lower]
    exact (widens_load name line).bind fun _ => widens_useValue use
  | use, .assign name value line => by
    simp only [lower]
    refine (lower_widens .value value).bind fun _ => (widens_store name line).bind fun _ => ?_
    cases use with
    | statement => exact widens_pure _ _
    | value => exact widens_load name line
    | condition => exact (widens_load name line).bind fun _ => widens_useValue .condition
  | use, .print value line => by
    rw [lower, lower]
    exact (lower_widens .value value).bind fun _ =>
      (widens_emit (.call logFunction)).bind fun _ => widens_useNothing _ line use
  | use, .ifElse condition thenBranch none line => by
    rw [lower, lower]
    have h := ((lower_widens .condition condition).ifElse (lower_widens .statement thenBranch)
      (widens_pure .statement ())).bind fun _ => widens_useNothing "IfElseExpr" line use
    -- a missing branch is lowered like an empty one
    simpa only [bind_assoc, pure_bind] using h
  | use, .ifElse condition thenBranch (some elseBranch) line => by
    rw [lower, lower]
    have h := ((lower_widens .condition condition).ifElse (lower_widens .statement thenBranch)
      (lower_widens .statement elseBranch)).bind fun _ => widens_useNothing "IfElseExpr" line use
    simpa only [bind_assoc] using h
  | use, .function name params body line => by
    rw [lower, lower]
    exact (widens_checkFunction options name params line).bind fun _ =>
      (widens_withFrame _ (lowerAll_widens true body)).bind fun _ => widens_useNothing _ line use
  | use, .call callee args line => by
    rw [lower, lower]
    exact (widens_checkCall callee args.length line).bind fun name =>
      (lowerArguments_widens args).bind fun _ =>
        (widens_emit (.call name)).bind fun _ => widens_useValue use
  | use, .literal kind value line => by
    simp only [lower]
    cases kind with
    | number => exact (widens_constant value line).bind fun _ => widens_useValue use
    | true => exact (widens_constant (.int 1) line).bind fun _ => widens_useValue use
    | false => exact (widens_constant (.int 0) line).bind fun _ => widens_useValue use
    | string =>
      have h := (widens_address value).bind fun _ => widens_useValue use
      rw [bind_assoc, bind_assoc] at h
      exact h

theorem lowerAll_widens : ∀ (keepLast : Bool) (list : List Expr),
    Widens .value (lowerAll options.narrow keepLast list) (lowerAll options.wide keepLast list)
  | keepLast, [] => by
    rw [lowerAll, lowerAll]
    cases keepLast with
    | false => exact widens_pure _ _
    | true => exact widens_emit (.const rfl)
  | keepLast, e :: rest => by
    rw [lowerAll, lowerAll]
    split
    · exact lower_widens .value e
    · exact (lower_widens .statement e).bind fun _ => lowerAll_widens keepLast rest

theorem lowerArguments_widens : ∀ list : List Expr,
    Widens .value (lowerArguments options.narrow list) (lowerArguments options.wide list)
  | [] => by
    rw [lowerArguments, lowerArguments]
    exact widens_pure _ _
  | e :: rest => by
    rw [lowerArguments, lowerArguments]
    exact (lower_widens .value e).bind fun _ => lowerArguments_widens rest

end

/-- A program that compiles with 32-bit integers compiles with 64-bit integers. -/
theorem exists_widens_of_generate {program : Program} {m : Module}
    (h : (generate options.narrow program).result = .ok m) :
    ∃ m', (generate options.wide program).result = .ok m' ∧ m.Widens m' := by
  obtain ⟨code, final, hyields, rfl⟩ := generate_eq_ok_iff.mp h
  have hstart : options.narrow.startScope.Widens options.wide.startScope :=
    ⟨⟨rfl, rfl, rfl, rfl, rfl, .nil, .nil⟩, rfl, rfl⟩
  obtain ⟨code', final', hyields', hfinal, hcode⟩ :=
    lowerAll_widens options _ program hyields hstart
  refine ⟨_, generate_eq_ok_iff.mpr ⟨code', final', hyields', rfl⟩, hfinal.module.addFunction ?_⟩
  rw [hfinal.contexts_eq]
  refine ⟨rfl, rfl, rfl, ?_, hcode⟩
  cases hentry : options.entry <;>
    simp [Frame.function, Options.entryResult, Options.narrow, Options.wide, hentry,
      EntryStyle.returnsValue]

end Programs

end StackScript
