import StackScript.Machine.JumpTable
import StackScript.Machine.Memory
import StackScript.Machine.Numeric

/-!
# Running modules

An instance is a module with a host and a memory. Calls change only the store: the globals and what
has been logged. An activation of a function has its own locals and operand stack; at most
`maxActivations` are open at a time.

Within an activation the place in the body only ever moves forward, so every activation ends, and
the number of open activations bounds the nesting of calls.

## Main definitions

* `Cells`: named storage.
* `Store`, `Activation`: the state of an instance, of an activation.
* `Instance`, `instantiate`: a module that can run.
* `stepInstr`, `runFrom`: one instruction, and a body from a place on.
* `callFunction`: an activation.
* `Instance.invoke`: a call by the host.
-/

namespace StackScript

/-! ### State -/

/-- Named storage. -/
abbrev Cells := List (Text × Value)

/-- Cells with a value under a name, in place of the one it had. -/
def Cells.set (name : Text) (v : Value) : Cells → Cells
  | [] => [(name, v)]
  | (key, old) :: rest =>
    if key = name then (key, v) :: rest else (key, old) :: Cells.set name v rest

/-- Cells with zero under each of some names. -/
def Cells.setZeros (t : ValueType) (names : List Text) (cells : Cells) : Cells :=
  names.foldl (fun cells name => cells.set name (.zero t)) cells

/-- What calls change. -/
structure Store where
  globals : Cells
  /-- The values that have been logged, the latest first. -/
  logged : List Value := []

/-- The values that have been logged, in order. -/
def Store.log (store : Store) : List Value := store.logged.reverse

/-- The state of an activation. -/
structure Activation where
  /-- The operand stack, its top first. -/
  stack : List Value
  locals : Cells
  store : Store

/-- A computation in an activation. -/
abbrev Exec := ExceptT Trap (StateM Activation)

/-- The host's log function: it sees the values logged before, the latest first, and a new one,
which it takes or refuses. -/
abbrev Host := List Value → Value → Except Trap Unit

/-- A host that takes every value. -/
def Host.accepting : Host := fun _ _ => .ok ()

/-- A module that can run. -/
structure Instance where
  module : Module
  host : Host
  memory : Option Memory

/-- The store of a module before it runs: all globals are zero. -/
def Module.initialStore (m : Module) : Store where
  globals := m.globals.foldl (fun cells g => cells.set g.name (.zero g.type)) []

/-- Makes a module run on a host, which must have a log function. -/
def instantiate (m : Module) (host : Option Host) : Except Trap (Instance × Store) :=
  match host with
  | none => .error (.missingImport m.importModule)
  | some host => do
    let memory ← m.initialMemory
    return (⟨m, host, memory⟩, m.initialStore)

/-! ### Instructions -/

namespace Exec

/-- A computation on the operand stack. -/
def onStack {α : Type} (action : OnStack α) : Exec α := fun activation =>
  let (result, stack) := action activation.stack
  (result, { activation with stack := stack })

/-- Pops arguments, of which the last is on top. -/
def popArguments (function : Text) : Nat → Exec (List Value)
  | 0 => return []
  | n + 1 => do
    let last ← onStack (pop function)
    let others ← popArguments function n
    return others ++ [last]

end Exec

open Exec

/-- The cell that an operand names. -/
def cell? (cells : Cells) : Datum → Option (Text × Value)
  | .text name => (cells.lookup name).map fun v => (name, v)
  | _ => none

/-- An instruction other than a constant, a call or a marker. A cell that is set must exist before
the value is popped. -/
def plainInstr (function mnemonic : Text) (operand : Datum) : Exec Unit :=
  match mnemonic with
  | .plain "drop" => do
    let _ ← onStack (pop function)
  | .plain "local.get" => do
    match cell? (← get).locals operand with
    | some (_, v) => onStack (push v)
    | none => throw (.unknownLocal operand.display function)
  | .plain "local.set" => do
    match cell? (← get).locals operand with
    | some (name, _) =>
      let v ← onStack (pop function)
      modify fun a => { a with locals := a.locals.set name v }
    | none => throw (.unknownLocal operand.display function)
  | .plain "global.get" => do
    match cell? (← get).store.globals operand with
    | some (_, v) => onStack (push v)
    | none => throw (.unknownGlobal operand.display)
  | .plain "global.set" => do
    match cell? (← get).store.globals operand with
    | some (name, _) =>
      let v ← onStack (pop function)
      modify fun a => { a with store.globals := a.store.globals.set name v }
    | none => throw (.unknownGlobal operand.display)
  | _ => onStack (numeric function mnemonic operand)

/-- Hands the top of the stack to the host's log function. -/
def logTop (host : Host) (function : Text) : Exec Unit := do
  let v ← onStack (pop function)
  let a ← get
  liftExcept (host a.store.logged v)
  set { a with store.logged := v :: a.store.logged }

/-- What a call of a function does to the store, and what it returns. -/
abbrev Callee := Func → List Value → Store → Except Trap (Option Value) × Store

/-- A call of a named function. -/
def callInstr (inst : Instance) (callee : Callee) (function name : Text) : Exec Unit :=
  if name = logFunction then logTop inst.host function
  else match inst.module.function? name with
    | none => throw (.callUnknown name)
    | some f => do
      let args ← popArguments function f.arity
      let a ← get
      let (result, store) := callee f args a.store
      set { a with store := store }
      match ← liftExcept result with
      | some v => onStack (push v)
      | none => pure ()

/-- The target of a jump. The table of a body has one for each of its markers, by
`exists_jump_of_jumpTable`. -/
def JumpTable.target (jumps : JumpTable) (place : Nat) : Nat :=
  (jumps.lookup place).getD (place + 1)

/-- One instruction at a place; gives the place of the next. -/
def stepInstr (inst : Instance) (callee : Callee) (function : Text) (jumps : JumpTable)
    (place : Nat) : Instr → Exec Nat
  | .const value => do
    let v ← liftExcept (Trap.ofConversion (Value.ofDatum inst.module.valueType value))
    onStack (push v)
    return place + 1
  | .openIf => do
    let condition ← onStack (pop function)
    return if condition.isZero then jumps.target place else place + 1
  | .openElse => return jumps.target place
  | .closeIf => return place + 1
  | .call name => do
    callInstr inst callee function name
    return place + 1
  | .plain mnemonic operand => do
    plainInstr function mnemonic operand
    return place + 1

/-- Runs a body from a place on. The place moves forward with every instruction. -/
def runFrom (inst : Instance) (callee : Callee) (function : Text) (jumps : JumpTable)
    (body : Array Instr) (place : Nat) : Exec Unit :=
  if h : place < body.size then do
    let next ← stepInstr inst callee function jumps place body[place]
    -- every jump of a table leads ahead, by `forward_of_jumpTable`, so the maximum is `next`
    runFrom inst callee function jumps body (max (place + 1) next)
  else return ()
termination_by body.size - place

/-! ### Calls -/

/-- The largest number of open activations. -/
def maxActivations : Nat := 200

/-- The number of values that a function returns. -/
def Func.resultCount (f : Func) : Nat :=
  if f.result.isSome then 1 else 0

/-- The locals of a new activation: the arguments under the names of the parameters, and zeros. -/
def Func.initialLocals (t : ValueType) (f : Func) (args : List Value) : Cells :=
  let given : Cells := (f.params.zip args).foldl (fun cells (name, v) => Cells.set name v cells) []
  given.setZeros t f.locals

/-- What a function returns when it ends with values on its stack. -/
def Func.finish (f : Func) (stack : List Value) : Except Trap (Option Value) :=
  match f.result, stack with
  | some _, [v] => .ok (some v)
  | none, [] => .ok none
  | _, _ => .error (.valuesLeft f.name stack.length f.resultCount)

/-- Calls a function while `room` more activations may be opened. -/
def callFunction (inst : Instance) : (room : Nat) → Callee
  | 0, f, _, store => (.error (.callStackExhausted f.name), store)
  | room + 1, f, args, store =>
    -- markers that do not match trap before the first instruction
    match jumpTable f.body with
    | .error trap => (.error trap, store)
    | .ok jumps =>
      let start : Activation :=
        { stack := [], locals := f.initialLocals inst.module.valueType args, store := store }
      let (result, final) :=
        runFrom inst (callFunction inst room) f.name jumps f.body.toArray 0 start
      (result.bind fun _ => f.finish final.stack, final.store)

namespace Instance

/-- The function and the arguments of a call by the host. -/
def prepare (inst : Instance) (name : Text) (args : List Scalar) :
    Except Trap (Func × List Value) :=
  match inst.module.function? name with
  | none => .error (.unknownFunction name)
  | some f =>
    if args.length ≠ f.arity then .error (.argumentCount name f.arity args.length)
    else do
      let values ← Trap.ofConversion (args.mapM fun a => a.toValue inst.module.valueType)
      return (f, values)

/-- Calls a function for the host. -/
def invoke (inst : Instance) (store : Store) (name : Text) (args : List Scalar) :
    Except Trap (Option Value) × Store :=
  match inst.prepare name args with
  | .error trap => (.error trap, store)
  | .ok (f, values) => callFunction inst maxActivations f values store

/-- Reads bytes from the memory. -/
def readBytes (inst : Instance) (offset length : Int) : Except Trap Bytes :=
  match inst.memory with
  | none => .error .noMemory
  | some memory => memory.readBytes offset length

end Instance

end StackScript
