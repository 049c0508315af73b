import Mathlib.Data.List.Induction
import StackScript.Proofs.StructuredRun
import StackScript.Target.Opcode

/-!
# What actions do

The effect of each kind of action on an activation whose operands are there: what is popped, what is
pushed, and which cell changes.

## Main definitions

* `Effect`, `Effect.andThen`: the outcome of a computation, and what follows it.
* `Activation.push`: the outcome of an operation that pushes its result.

## Main results

* `decodeMnemonic?_mnemonic`: an operation of a type is decoded as what it is.
* `exec_unary`, `exec_binary`: numeric actions.
* `exec_load`, `exec_store`: cells.
* `exec_log`, `exec_call_ok`, `exec_call_error`: calls.
-/

namespace StackScript

open Exec

/-! ### Effects -/

/-- The outcome of a computation that can trap and change a state. -/
abbrev Effect (σ α : Type) := Except Trap α × σ

section Monad

variable {σ α β : Type}

/-- What follows an outcome: nothing if it is a trap. -/
def Effect.andThen (effect : Effect σ α) (next : α → σ → Effect σ β) : Effect σ β :=
  match effect with
  | (.ok a, s) => next a s
  | (.error trap, s) => (.error trap, s)

@[simp] theorem Effect.andThen_ok (a : α) (s : σ) (next : α → σ → Effect σ β) :
    Effect.andThen (.ok a, s) next = next a s := rfl

@[simp] theorem Effect.andThen_error (trap : Trap) (s : σ) (next : α → σ → Effect σ β) :
    Effect.andThen (.error trap, s) next = (.error trap, s) := rfl

theorem bind_apply (x : ExceptT Trap (StateM σ) α) (next : α → ExceptT Trap (StateM σ) β) (s : σ) :
    (x >>= next) s = Effect.andThen (x s) next := by
  change (ExceptT.bindCont next (x s).1) (x s).2 = _
  rcases x s with ⟨a | trap, s'⟩ <;> rfl

@[simp] theorem pure_apply (a : α) (s : σ) :
    (pure a : ExceptT Trap (StateM σ) α) s = (.ok a, s) := rfl

theorem map_apply (f : α → β) (x : ExceptT Trap (StateM σ) α) (s : σ) :
    (f <$> x) s = ((x s).1.map f, (x s).2) := by
  rw [map_eq_pure_bind, bind_apply]
  rcases x s with ⟨a | trap, s'⟩ <;> rfl

@[simp] theorem throw_apply (trap : Trap) (s : σ) :
    (throw trap : ExceptT Trap (StateM σ) α) s = (.error trap, s) := rfl

@[simp] theorem liftExcept_apply (r : Except Trap α) (s : σ) :
    (liftExcept r : ExceptT Trap (StateM σ) α) s = (r, s) := by
  cases r <;> rfl

@[simp] theorem get_apply (s : σ) : (get : ExceptT Trap (StateM σ) σ) s = (.ok s, s) := rfl

@[simp] theorem set_apply (s s' : σ) :
    (set s' : ExceptT Trap (StateM σ) PUnit) s = (.ok ⟨⟩, s') := rfl

@[simp] theorem modify_apply (f : σ → σ) (s : σ) :
    (modify f : ExceptT Trap (StateM σ) PUnit) s = (.ok ⟨⟩, f s) := rfl

end Monad

@[simp] theorem pop_apply (function : Text) (v : Value) (st : List Value) :
    pop function (v :: st) = (.ok v, st) := rfl

@[simp] theorem onStack_pop_apply (function : Text) (v : Value) (st : List Value) (locals : Cells)
    (store : Store) :
    onStack (pop function) ⟨v :: st, locals, store⟩ = (.ok v, ⟨st, locals, store⟩) := rfl

@[simp] theorem onStack_push_apply (v : Value) (a : Activation) :
    onStack (push v) a = (.ok (), { a with stack := v :: a.stack }) := rfl

/-! ### Numeric actions -/

/-- The operation of a type is decoded as what it is. -/
theorem decodeMnemonic?_mnemonic (t : ValueType) (name : String) :
    decodeMnemonic? (t.mnemonic name) = (operationNames.lookup name).map fun op => (t, op) := by
  have hname := ValueType.ofName?_name t
  cases t <;> simp [decodeMnemonic?, ValueType.mnemonic, ValueType.name] at hname ⊢ <;>
    simp only [hname, Option.bind_some, Option.map_eq_bind, Function.comp_def]

/-- A mnemonic that is decoded is a numeric instruction. -/
theorem plainInstr_eq_numeric {mnemonic : Text}
    (hdecode : (decodeMnemonic? mnemonic).isSome = true) (function : Text) (operand : Datum) :
    plainInstr function mnemonic operand = onStack (numeric function mnemonic operand) := by
  unfold plainInstr
  split
  · exact absurd hdecode (by decide)
  · exact absurd hdecode (by decide)
  · exact absurd hdecode (by decide)
  · exact absurd hdecode (by decide)
  · exact absurd hdecode (by decide)
  · rfl

/-- The outcome of an operation that pushes its result. -/
def Activation.push (a : Activation) : Except Trap Value → Except Trap Unit × Activation
  | .ok v => (.ok (), { a with stack := v :: a.stack })
  | .error trap => (.error trap, a)

section Numeric

variable {mnemonic : Text} {t : ValueType} {function : Text} {operand : Datum}
  {st : List Value} {locals : Cells} {store : Store}

theorem exec_constant (hdecode : decodeMnemonic? mnemonic = some (t, .const)) :
    plainInstr function mnemonic operand ⟨st, locals, store⟩ =
      Activation.push ⟨st, locals, store⟩ (Trap.ofConversion (Value.ofDatum t operand)) := by
  rw [plainInstr_eq_numeric (by simp [hdecode])]
  simp only [onStack, numeric, hdecode, bind_apply, liftExcept_apply]
  cases Trap.ofConversion (Value.ofDatum t operand) <;> rfl

theorem exec_unary {op : UnaryOperation} (hdecode : decodeMnemonic? mnemonic = some (t, .unary op))
    (v : Value) :
    plainInstr function mnemonic operand ⟨v :: st, locals, store⟩ =
      Activation.push ⟨st, locals, store⟩ (applyUnary t mnemonic v op) := by
  rw [plainInstr_eq_numeric (by simp [hdecode])]
  simp only [onStack, numeric, hdecode, bind_apply, pop_apply, Effect.andThen_ok, liftExcept_apply]
  cases applyUnary t mnemonic v op <;> rfl

theorem exec_binary {op : BinaryOperation}
    (hdecode : decodeMnemonic? mnemonic = some (t, .binary op)) (v w : Value) :
    plainInstr function mnemonic operand ⟨w :: v :: st, locals, store⟩ =
      Activation.push ⟨st, locals, store⟩ (applyBinary t mnemonic v w op) := by
  rw [plainInstr_eq_numeric (by simp [hdecode])]
  simp only [onStack, numeric, hdecode, bind_apply, pop_apply, Effect.andThen_ok, liftExcept_apply]
  cases applyBinary t mnemonic v w op <;> rfl

end Numeric

/-! ### Cells -/

/-- The class of cells, as mnemonics name it: those of the function or those of the module. -/
def cellClass (inFunction : Bool) : String :=
  if inFunction then "local" else "global"

namespace Activation

/-- The cells of a class. -/
def cells (a : Activation) (inFunction : Bool) : Cells :=
  if inFunction then a.locals else a.store.globals

/-- An activation after a cell has been set. -/
def setCell (a : Activation) (inFunction : Bool) (name : Text) (v : Value) : Activation :=
  if inFunction then { a with locals := a.locals.set name v }
  else { a with store.globals := a.store.globals.set name v }

end Activation

theorem exec_load {inFunction : Bool} {name : Text} {v : Value} {a : Activation}
    (hlookup : (a.cells inFunction).lookup name = some v) (function : Text) :
    plainInstr function (cellClass inFunction ++ ".get" : String) (.text name) a =
      a.push (.ok v) := by
  cases inFunction with
  | false =>
    change plainInstr function "global.get" (.text name) a = _
    have hcell : a.store.globals.lookup name = some v := hlookup
    simp [plainInstr, bind_apply, cell?, hcell, Activation.push]
  | true =>
    change plainInstr function "local.get" (.text name) a = _
    have hcell : a.locals.lookup name = some v := hlookup
    simp [plainInstr, bind_apply, cell?, hcell, Activation.push]

theorem exec_store {inFunction : Bool} {name : Text} {old v : Value}
    {st : List Value} {locals : Cells} {store : Store}
    (hlookup : (Activation.cells ⟨v :: st, locals, store⟩ inFunction).lookup name = some old)
    (function : Text) :
    plainInstr function (cellClass inFunction ++ ".set" : String) (.text name)
        ⟨v :: st, locals, store⟩ =
      (.ok (), Activation.setCell ⟨st, locals, store⟩ inFunction name v) := by
  cases inFunction with
  | false =>
    change plainInstr function "global.set" (.text name) _ = _
    have hcell : store.globals.lookup name = some old := hlookup
    simp [plainInstr, bind_apply, cell?, hcell, Activation.setCell]
  | true =>
    change plainInstr function "local.set" (.text name) _ = _
    have hcell : locals.lookup name = some old := hlookup
    simp [plainInstr, bind_apply, cell?, hcell, Activation.setCell]

/-! ### Calls -/

section Calls

variable (inst : Instance) (callee : Callee) (function : Text) (st : List Value) (locals : Cells)
  (store : Store)

theorem exec_log (v : Value) :
    callInstr inst callee function logFunction ⟨v :: st, locals, store⟩ =
      ((inst.host store.logged v).map fun _ => (), ⟨st, locals,
        if (inst.host store.logged v).isOk then { store with logged := v :: store.logged }
        else store⟩) := by
  simp only [callInstr, if_true, logTop, bind_apply, onStack_pop_apply, get_apply,
    liftExcept_apply, Effect.andThen_ok]
  cases inst.host store.logged v <;> rfl

/-- Arguments are popped from the last to the first. -/
theorem popArguments_apply (args : List Value) :
    popArguments function args.length ⟨args.reverse ++ st, locals, store⟩ =
      (.ok args, ⟨st, locals, store⟩) := by
  induction args using List.reverseRecOn with
  | nil => rfl
  | append_singleton others last ih =>
    simp [popArguments, bind_apply, map_apply, ih, Except.map]

variable {inst callee function st locals store}

/-- A call of a function of the module pops its arguments, and pushes what it returns. -/
theorem exec_call_ok {name : Text} {f : Func} (hname : name ≠ logFunction)
    (hfind : inst.module.function? name = some f) {args : List Value}
    (harity : args.length = f.arity) {v : Value} {store' : Store}
    (hcall : callee f args store = (.ok (some v), store')) :
    callInstr inst callee function name ⟨args.reverse ++ st, locals, store⟩ =
      (.ok (), ⟨v :: st, locals, store'⟩) := by
  simp [callInstr, hname, hfind, ← harity, bind_apply, popArguments_apply, hcall]

theorem exec_call_error {name : Text} {f : Func} (hname : name ≠ logFunction)
    (hfind : inst.module.function? name = some f) {args : List Value}
    (harity : args.length = f.arity) {trap : Trap} {store' : Store}
    (hcall : callee f args store = (.error trap, store')) :
    callInstr inst callee function name ⟨args.reverse ++ st, locals, store⟩ =
      (.error trap, ⟨st, locals, store'⟩) := by
  simp [callInstr, hname, hfind, ← harity, bind_apply, popArguments_apply, hcall]

end Calls

end StackScript
