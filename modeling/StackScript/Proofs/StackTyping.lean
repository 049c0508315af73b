import StackScript.Proofs.CodePieces
import StackScript.Proofs.NamedCells
import StackScript.Proofs.Rounding

/-!
# Typing the operand stack

Code is typed by what it does to the types on the operand stack. Values have the type of the module;
a 32-bit integer besides them is a flag, or an address that is about to be widened. Typed code never
lacks an operand and never names an unknown cell or function: it ends with the stack it is typed for,
or it traps in one of a few ways.

## Main definitions

* `Interface`: what code may use of its module.
* `Action.Types`, `Code.Types`: how actions and code change the types on the stack.
* `Cells.Typed`, `Store.Typed`, `Activation.Typed`: states that hold values of the type.
* `Trap.Expected`: the traps of typed code.
* `Effect.Safe`: an outcome is as typed code may have it.

## Main results

* `Action.Types.safe`: a typed action is safe.
* `Code.Types.safe`: typed code is safe.
-/

namespace StackScript

open Code (acts)

/-! ### Types of code -/

/-- What code may use of its module: the type of all values, the names of the globals, the data, and
the functions with the numbers of their parameters. -/
structure Interface where
  type : ValueType
  globals : List Text
  data : List Segment
  arity? : Text → Option Nat

/-- The cells of a class. -/
def Interface.cells (Γ : Interface) (locals : List Text) (inFunction : Bool) : List Text :=
  if inFunction then locals else Γ.globals

/-- How an action changes the types on the stack, of which the top comes first. -/
inductive Action.Types (Γ : Interface) (locals : List Text) :
    Action → List ValueType → List ValueType → Prop
  | const {number d : Datum} {σ : List ValueType} : ConstantOf Γ.type number d →
      Types Γ locals (.const d) σ (Γ.type :: σ)
  | address {segment : Segment} {σ : List ValueType} : segment ∈ Γ.data →
      Types Γ locals (.plain "i32.const" (.int segment.offset)) σ (.i32 :: σ)
  | widen {name : Text} {σ : List ValueType} : Γ.type.fromFlag? = some name →
      Types Γ locals (.bare name) (.i32 :: σ) (Γ.type :: σ)
  | isZero {σ : List ValueType} : Γ.type.isFloat = false →
      Types Γ locals (.bare (Γ.type.mnemonic "eqz")) (Γ.type :: σ) (.i32 :: σ)
  | negate {σ : List ValueType} : Γ.type.isFloat = true →
      Types Γ locals (.bare (Γ.type.mnemonic "neg")) (Γ.type :: σ) (Γ.type :: σ)
  | operator {op : BinaryOp} {σ : List ValueType} :
      Types Γ locals (.bare (op.mnemonic Γ.type)) (Γ.type :: Γ.type :: σ)
        ((if op.isComparison then .i32 else Γ.type) :: σ)
  | drop {t : ValueType} {σ : List ValueType} : Types Γ locals (.bare "drop") (t :: σ) σ
  | load {inFunction : Bool} {name : Text} {σ : List ValueType} :
      name ∈ Γ.cells locals inFunction →
      Types Γ locals (.named (cellClass inFunction ++ ".get" : String) name) σ (Γ.type :: σ)
  | store {inFunction : Bool} {name : Text} {σ : List ValueType} :
      name ∈ Γ.cells locals inFunction →
      Types Γ locals (.named (cellClass inFunction ++ ".set" : String) name) (Γ.type :: σ) σ
  | log {σ : List ValueType} : Types Γ locals (.call logFunction) (Γ.type :: σ) σ
  | call {name : Text} {arity : Nat} {σ : List ValueType} : Γ.arity? name = some arity →
      Types Γ locals (.call name) (List.replicate arity Γ.type ++ σ) (Γ.type :: σ)

/-- How code changes the types on the stack. Both parts of a conditional leave the stack as they
find it. -/
inductive Code.Types (Γ : Interface) (locals : List Text) :
    Code → List ValueType → List ValueType → Prop
  | done {σ : List ValueType} : Types Γ locals .done σ σ
  | act {action : Action} {rest : Code} {σ σ₁ σ₂ : List ValueType} :
      action.Types Γ locals σ σ₁ → Types Γ locals rest σ₁ σ₂ →
      Types Γ locals (.act action rest) σ σ₂
  | ifElse {first second rest : Code} {σ σ' : List ValueType} :
      Types Γ locals first σ σ → Types Γ locals second σ σ → Types Γ locals rest σ σ' →
      Types Γ locals (.ifElse first second rest) (.i32 :: σ) σ'

theorem Code.Types.append {Γ : Interface} {locals : List Text} {c d : Code}
    {σ σ₁ σ₂ : List ValueType} (hc : c.Types Γ locals σ σ₁) (hd : d.Types Γ locals σ₁ σ₂) :
    (c ++ d).Types Γ locals σ σ₂ := by
  induction hc with
  | done => exact hd
  | act haction _ ih => exact .act haction (ih hd)
  | ifElse hfirst hsecond _ _ _ ih => exact .ifElse hfirst hsecond (ih hd)

/-- What holds of the markers of conditionals and of every typed action holds of typed code. -/
theorem Code.Types.forall_mem_flatten {Γ : Interface} {locals : List Text} {c : Code}
    {σ σ' : List ValueType} (h : c.Types Γ locals σ σ') {P : Instr → Prop}
    (hmarkers : P .openIf ∧ P .openElse ∧ P .closeIf)
    (hactions : ∀ {action : Action} {τ τ' : List ValueType}, action.Types Γ locals τ τ' →
      P action.instr) : ∀ instr ∈ c.flatten, P instr := by
  obtain ⟨hopen, helse, hclose⟩ := hmarkers
  induction h with
  | done => exact fun instr hinstr => by cases hinstr
  | act haction _ ih => exact List.forall_mem_cons.mpr ⟨hactions haction, ih⟩
  | ifElse _ _ _ ihfirst ihsecond ihrest =>
    intro instr hinstr
    simp only [flatten, List.mem_cons, List.mem_append] at hinstr
    rcases hinstr with ((rfl | hfirst) | rfl | hsecond) | rfl | hrest
    · exact hopen
    · exact ihfirst instr hfirst
    · exact helse
    · exact ihsecond instr hsecond
    · exact hclose
    · exact ihrest instr hrest

/-! ### Typed states -/

/-- Cells of some names that hold values of a type. -/
def Cells.Typed (t : ValueType) (names : List Text) (cells : Cells) : Prop :=
  ∃ value : Text → Value, cells = .ofNames names value ∧ ∀ name, (value name).type = t

namespace Cells.Typed

variable {t : ValueType} {names : List Text} {cells : Cells} {name : Text}

theorem exists_lookup (h : Cells.Typed t names cells) (hname : name ∈ names) :
    ∃ v, cells.lookup name = some v ∧ v.type = t := by
  obtain ⟨value, rfl, htype⟩ := h
  exact ⟨value name, Cells.lookup_ofNames hname, htype name⟩

theorem set (h : Cells.Typed t names cells) (hnodup : names.Nodup) (hname : name ∈ names) {v : Value}
    (hv : v.type = t) : Cells.Typed t names (cells.set name v) := by
  obtain ⟨value, rfl, htype⟩ := h
  exact ⟨Function.update value name v, Cells.set_ofNames hnodup hname v, type_update htype name hv⟩

theorem type_of_mem (h : Cells.Typed t names cells) {cell : Text × Value} (hcell : cell ∈ cells) :
    cell.2.type = t := by
  obtain ⟨value, rfl, htype⟩ := h
  obtain ⟨name, -, rfl⟩ := List.mem_map.mp hcell
  exact htype name

end Cells.Typed

/-- A store whose globals and logged values have the type of the module. -/
structure Store.Typed (Γ : Interface) (store : Store) : Prop where
  globals : Cells.Typed Γ.type Γ.globals store.globals
  logged : ∀ v ∈ store.logged, v.type = Γ.type

/-- An activation whose stack has some types and whose cells have the type of the module. -/
structure Activation.Typed (Γ : Interface) (locals : List Text) (σ : List ValueType)
    (a : Activation) : Prop where
  stack : a.stack.map Value.type = σ
  locals : Cells.Typed Γ.type locals a.locals
  store : a.store.Typed Γ

/-! ### Safe outcomes -/

/-- The traps of typed code: too many activations, and on integers the two of division. -/
inductive Trap.Expected (t : ValueType) : Trap → Prop
  | callStackExhausted (function : Text) : Expected t (.callStackExhausted function)
  | divideByZero : t.isFloat = false → Expected t .divideByZero
  | integerOverflow : t.isFloat = false → Expected t .integerOverflow

namespace Effect

variable {σ α β : Type} {t : ValueType} {stopped : σ → Prop} {finished : α → σ → Prop}
  {finished' : β → σ → Prop}

/-- An outcome as typed code may have it: a result, or an expected trap. -/
def Safe (t : ValueType) (stopped : σ → Prop) (finished : α → σ → Prop) : Effect σ α → Prop
  | (.ok a, s) => finished a s
  | (.error trap, s) => trap.Expected t ∧ stopped s

theorem Safe.andThen {e : Effect σ α} (h : e.Safe t stopped finished) {next : α → σ → Effect σ β}
    (hnext : ∀ a s, finished a s → (next a s).Safe t stopped finished') :
    (e.andThen next).Safe t stopped finished' := by
  rcases e with ⟨trap | a, s⟩
  · exact h
  · exact hnext a s h

end Effect

/-- The double of an unsigned 32-bit number, which is never too large. -/
theorem exists_doubleOfInt (n : Int) : ∃ x, Datum.doubleOfInt (unsigned 32 n) = .ok x := by
  have hbound : (unsigned 32 n : Int).natAbs < Format.binary64.significandBound := by
    rw [Int.natAbs_natCast, unsigned_eq_toNat]
    exact Nat.lt_of_lt_of_le (BitVec.ofInt 32 n).isLt (by decide)
  obtain ⟨m, e, hcanonical, h⟩ := Floating.ofInt_eq_finite (by decide) (by decide) hbound
  exact ⟨_, by rw [Datum.doubleOfInt, h]; rfl⟩

/-- Every unsigned 32-bit number has a value of every type. -/
theorem Value.exists_ofInteger_unsigned (t : ValueType) (n : Int) :
    ∃ v, ofInteger t (unsigned 32 n) = .ok v ∧ v.type = t := by
  cases hfloat : t.isFloat with
  | false => exact exists_ofInteger hfloat _
  | true =>
    obtain ⟨x, hx⟩ := exists_doubleOfInt n
    rw [ofInteger_of_doubleOfInt hfloat hx]
    cases t with
    | i32 => cases hfloat
    | i64 => cases hfloat
    | f32 => exact ⟨_, rfl, rfl⟩
    | f64 => exact ⟨_, rfl, rfl⟩

section Safety

variable {Γ : Interface} {inst : Instance} {callee : Callee} {locals : List Text}
  {a : Activation} {σ σ' : List ValueType}

/-- What a call returns to typed code, and what it leaves behind. -/
def Callee.SafeOn (Γ : Interface) (callee : Callee) (f : Func) : Prop :=
  ∀ (args : List Value) (store : Store), args.length = f.arity → (∀ v ∈ args, v.type = Γ.type) →
    store.Typed Γ → Effect.Safe Γ.type (Store.Typed Γ)
      (fun result store' => (∀ v, result = some v → v.type = Γ.type) ∧
        result.isSome = f.result.isSome ∧ store'.Typed Γ) (callee f args store)

/-- An instance provides what an interface promises. -/
structure Interface.ProvidedBy (Γ : Interface) (inst : Instance) (callee : Callee) : Prop where
  valueType_eq : inst.module.valueType = Γ.type
  nodup_globals : Γ.globals.Nodup
  accepts : ∀ logged v, inst.host logged v = .ok ()
  safe : ∀ {name : Text} {arity : Nat}, Γ.arity? name = some arity →
    name ≠ logFunction ∧ ∃ f, inst.module.function? name = some f ∧ f.arity = arity ∧
      f.result.isSome = true ∧ callee.SafeOn Γ f

/-- The value on top of a typed stack. -/
theorem Activation.Typed.exists_top {t : ValueType} (h : a.Typed Γ locals (t :: σ)) :
    ∃ v st cells store, a = ⟨v :: st, cells, store⟩ ∧ v.type = t ∧
      Activation.Typed Γ locals σ ⟨st, cells, store⟩ := by
  obtain ⟨stack, cells, store⟩ := a
  obtain ⟨v, st, rfl, hv, hst⟩ := List.map_eq_cons_iff.mp h.stack
  exact ⟨v, st, cells, store, rfl, hv, hst, h.locals, h.store⟩

/-- The arguments on top of a typed stack. -/
theorem Activation.Typed.exists_arguments {t : ValueType} {count : Nat}
    (h : a.Typed Γ locals (List.replicate count t ++ σ)) :
    ∃ (args st : List Value) (cells : Cells) (store : Store),
      a = ⟨args.reverse ++ st, cells, store⟩ ∧ args.length = count ∧
      (∀ v ∈ args, v.type = t) ∧ Activation.Typed Γ locals σ ⟨st, cells, store⟩ := by
  obtain ⟨stack, cells, store⟩ := a
  obtain ⟨top, st, rfl, htop, hst⟩ := List.map_eq_append_iff.mp h.stack
  refine ⟨top.reverse, st, cells, store, by rw [List.reverse_reverse], ?_, fun v hv => ?_, hst,
    h.locals, h.store⟩
  · rw [List.length_reverse, ← List.length_map Value.type, htop, List.length_replicate]
  · have hmem : v.type ∈ top.map Value.type := List.mem_map_of_mem (List.mem_reverse.mp hv)
    rw [htop] at hmem
    exact List.eq_of_mem_replicate hmem

/-- An action that pushes its result. -/
theorem Activation.Typed.safe_push {t : ValueType} {r : Except Trap Value}
    (h : a.Typed Γ locals σ)
    (hr : (∃ v, r = .ok v ∧ v.type = t) ∨ ∃ trap, r = .error trap ∧ trap.Expected Γ.type) :
    Effect.Safe Γ.type (fun a' => a'.store.Typed Γ) (fun _ a' => a'.Typed Γ locals (t :: σ))
      (a.push r) := by
  rcases hr with ⟨v, rfl, hv⟩ | ⟨trap, rfl, htrap⟩
  · exact ⟨by simp [hv, h.stack], h.locals, h.store⟩
  · exact ⟨htrap, h.store⟩

theorem Activation.Typed.exists_lookup (h : a.Typed Γ locals σ) (inFunction : Bool) {name : Text}
    (hname : name ∈ Γ.cells locals inFunction) :
    ∃ v, (a.cells inFunction).lookup name = some v ∧ v.type = Γ.type := by
  cases inFunction with
  | true => exact h.locals.exists_lookup hname
  | false => exact h.store.globals.exists_lookup hname

theorem Activation.Typed.setCell (h : a.Typed Γ locals σ) (hglobals : Γ.globals.Nodup)
    (hlocals : locals.Nodup) (inFunction : Bool) {name : Text}
    (hname : name ∈ Γ.cells locals inFunction) {v : Value} (hv : v.type = Γ.type) :
    (a.setCell inFunction name v).Typed Γ locals σ := by
  cases inFunction with
  | true => exact ⟨h.stack, h.locals.set hlocals hname hv, h.store⟩
  | false =>
    exact ⟨h.stack, h.locals, h.store.globals.set hglobals hname hv, h.store.logged⟩

/-- A typed action is safe. -/
theorem Action.Types.safe {action : Action} (h : action.Types Γ locals σ σ')
    (hinst : Γ.ProvidedBy inst callee) (hlocals : locals.Nodup) (function : Text)
    (ha : a.Typed Γ locals σ) :
    Effect.Safe Γ.type (fun a' => a'.store.Typed Γ) (fun _ a' => a'.Typed Γ locals σ')
      (action.exec inst callee function a) := by
  -- Only a division and a call can stop, and the call only as its body does.
  cases h with
  | const hconstant =>
    obtain ⟨v, hd, -⟩ := hconstant.ofDatum_eq
    rw [exec_const (hinst.valueType_eq ▸ hd)]
    exact ha.safe_push (.inl ⟨v, rfl, Value.type_of_ofDatum hd⟩)
  | @address segment =>
    rw [exec_i32Const]
    exact ha.safe_push (.inl ⟨_, rfl, rfl⟩)
  | @widen name _ hname =>
    obtain ⟨v, st, cells, store, rfl, hv, hrest⟩ := ha.exists_top
    obtain ⟨n, rfl⟩ : ∃ n : BitVec 32, v = .i32 n := by cases v <;> cases hv; exact ⟨_, rfl⟩
    have hdecode : decodeMnemonic? name = some (Γ.type, .unary .fromUnsigned) := by
      cases htype : Γ.type <;> rw [htype] at hname <;> cases hname <;>
        exact decodeMnemonic?_mnemonic _ _
    obtain ⟨w, hw, htype⟩ := Value.exists_ofInteger_unsigned Γ.type n.toInt
    rw [Action.bare, Action.exec, exec_unary hdecode]
    refine hrest.safe_push (.inl ⟨w, ?_, htype⟩)
    exact congrArg Trap.ofConversion hw
  | isZero hfloat =>
    obtain ⟨v, st, cells, store, rfl, hv, hrest⟩ := ha.exists_top
    rw [Action.bare, Action.exec, exec_unary (decodeMnemonic?_mnemonic Γ.type "eqz"),
      applyUnary_eqz hfloat hv]
    exact hrest.safe_push (.inl ⟨_, rfl, rfl⟩)
  | negate hfloat =>
    obtain ⟨v, st, cells, store, rfl, hv, hrest⟩ := ha.exists_top
    rw [Action.bare, Action.exec, exec_unary (decodeMnemonic?_mnemonic Γ.type "neg"),
      applyUnary_neg hfloat hv]
    exact hrest.safe_push (.inl ⟨_, rfl, (Value.type_negate v).trans hv⟩)
  | @operator op _ =>
    obtain ⟨w, _, cells, store, rfl, hw, hrest⟩ := ha.exists_top
    obtain ⟨v, st, _, _, heq, hv, hrest⟩ := hrest.exists_top
    cases heq
    rw [Action.bare, Action.exec, exec_binary (decodeMnemonic?_operator Γ.type op)]
    refine hrest.safe_push ?_
    -- the two traps are those of a division of integers
    rcases applyBinary_cases op hv hw with ⟨r, happly, hr⟩ | ⟨hfloat, happly | happly⟩
    · refine .inl ⟨r, happly, ?_⟩
      unfold BinaryOp.Leaves at hr
      split at hr
      · rename_i hcomparison
        obtain ⟨b, rfl⟩ := hr
        rw [if_pos hcomparison]
        rfl
      · rename_i hcomparison
        rw [if_neg hcomparison, hr]
    · exact .inr ⟨_, happly, .divideByZero hfloat⟩
    · exact .inr ⟨_, happly, .integerOverflow hfloat⟩
  | drop =>
    obtain ⟨v, st, cells, store, rfl, -, hrest⟩ := ha.exists_top
    exact hrest
  | @load inFunction name _ hname =>
    obtain ⟨v, hlookup, hv⟩ := ha.exists_lookup inFunction hname
    change Effect.Safe _ _ _
      (plainInstr function (cellClass inFunction ++ ".get" : String) (.text name) a)
    rw [exec_load hlookup]
    exact ha.safe_push (.inl ⟨v, rfl, hv⟩)
  | @store inFunction name _ hname =>
    obtain ⟨v, hlookup, -⟩ := ha.exists_lookup inFunction hname
    obtain ⟨v, st, cells, store, rfl, hv, hrest⟩ := ha.exists_top
    change Effect.Safe _ _ _
      (plainInstr function (cellClass inFunction ++ ".set" : String) (.text name) _)
    rw [exec_store hlookup]
    exact hrest.setCell hinst.nodup_globals hlocals inFunction hname hv
  | log =>
    obtain ⟨v, st, cells, store, rfl, hv, hrest⟩ := ha.exists_top
    rw [Action.exec, exec_log, hinst.accepts]
    exact ⟨hrest.stack, hrest.locals, hrest.store.globals,
      List.forall_mem_cons.mpr ⟨hv, hrest.store.logged⟩⟩
  | @call name arity _ harity =>
    obtain ⟨hlog, f, hfind, rfl, hresult, hsafe⟩ := hinst.safe harity
    obtain ⟨args, st, cells, store, rfl, hlength, hargs, hrest⟩ := ha.exists_arguments
    have hcall := hsafe args store hlength hargs hrest.store
    rw [Action.exec]
    -- the callee keeps its promise, whether it returns or stops
    rcases hcallee : callee f args store with ⟨trap | result, store'⟩ <;> rw [hcallee] at hcall
    · rw [exec_call_error hlog hfind hlength hcallee]
      exact hcall
    · obtain ⟨hv, hsome, hstore⟩ := hcall
      obtain ⟨v, rfl⟩ := Option.isSome_iff_exists.mp (hsome.trans hresult)
      rw [exec_call_ok hlog hfind hlength hcallee]
      exact ⟨by simp [hv v rfl, hrest.stack], hrest.locals, hstore⟩

/-- Typed code is safe. -/
theorem Code.Types.safe {c : Code} (h : c.Types Γ locals σ σ') (hinst : Γ.ProvidedBy inst callee)
    (hlocals : locals.Nodup) (function : Text) (ha : a.Typed Γ locals σ) :
    Effect.Safe Γ.type (fun a' => a'.store.Typed Γ) (fun _ a' => a'.Typed Γ locals σ')
      (c.exec inst callee function a) := by
  induction h generalizing a with
  | done => exact ha
  | act haction _ ih =>
    rw [exec_act]
    exact (haction.safe hinst hlocals function ha).andThen fun _ a' ha' => ih ha'
  | @ifElse first second rest σ σ' hfirst hsecond hrest ihfirst ihsecond ihrest =>
    obtain ⟨v, st, cells, store, rfl, -, htail⟩ := ha.exists_top
    rw [exec_ifElse]
    have hpart : Effect.Safe Γ.type (fun a' => a'.store.Typed Γ)
        (fun _ a' => a'.Typed Γ locals σ)
        ((if v.isZero then second else first).exec inst callee function ⟨st, cells, store⟩) := by
      split
      · exact ihsecond htail
      · exact ihfirst htail
    exact hpart.andThen fun _ a' ha' => ihrest ha'

end Safety

end StackScript
