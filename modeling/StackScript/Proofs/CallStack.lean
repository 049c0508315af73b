import Mathlib.Logic.Relation
import StackScript.Proofs.Actions
import StackScript.Proofs.Outcome

/-!
# The call stack

Running a body calls functions from within functions. Here the same is done one small step at a
time, by a machine that holds its open activations in a list, counts them, and remembers the jump
tables that it has computed under the names of their functions. An activation is closed whenever its
body ends, normally or by a trap.

The machine does what calls do: from the entry of a function it gets to the outcome and the store
that `callFunction` gives, after finitely many steps. How many activations may still be opened
determines how deep calls nest, and jumps go forward only.

## Main definitions

* `Machine`: what is held during and between calls.
* `OpenActivation`, `Config`: an activation that has not ended, and a state of a call.
* `Instance.step`: one step of a call.
* `Config.Valid`: what every step preserves.
* `Instance.Invokes`, `Instance.Reaches`: a call by the host, with its outcome and the machine after
  it, and any number of calls.

## Main results

* `runFrom_of_forward`: a run goes on exactly where an instruction leads.
* `Instance.stepRun_cases`: what an instruction can do to the call stack.
* `Config.Valid.stepEnter_cases`: what entering a function can do to it.
* `Config.Valid.step`: steps preserve validity.
* `Instance.Performs.exists_steps_instr`: an instruction gets to what `stepInstr` gives.
* `Instance.exists_steps_callFunction`: a call gets to what `callFunction` gives.
* `Machine.Idle.exists_invokes`, `Machine.Idle.invoke_eq`: a call by the host ends with what
  `invoke` gives.
-/

namespace StackScript

open Exec

/-! ### Jumps go forward -/

theorem JumpTable.Forward.lt_target {jumps : JumpTable} (h : jumps.Forward) (place : Nat) :
    place < jumps.target place := by
  unfold target
  cases hlookup : jumps.lookup place with
  | none => exact Nat.lt_succ_self place
  | some target =>
    obtain ⟨before, after, hsplit, -⟩ := List.lookup_eq_some_iff.mp hlookup
    exact h (place, target) (by simp [hsplit])

theorem Effect.andThen_eq_ok {σ α β : Type} {effect : Effect σ α} {next : α → σ → Effect σ β}
    {b : β} {s : σ} (h : effect.andThen next = (.ok b, s)) :
    ∃ a s', effect = (.ok a, s') ∧ next a s' = (.ok b, s) := by
  rcases effect with ⟨trap | a, s'⟩
  · cases h
  · exact ⟨a, s', rfl, h⟩

/-- An instruction that is carried out leads forward. -/
theorem lt_of_stepInstr {inst : Instance} {callee : Callee} {function : Text} {jumps : JumpTable}
    (hjumps : jumps.Forward) {place next : Nat} {instr : Instr} {a a' : Activation}
    (h : stepInstr inst callee function jumps place instr a = (.ok next, a')) : place < next := by
  -- only the two marks of a conditional jump, everything else goes on to the next place
  cases instr with
  | const value =>
    rw [stepInstr, bind_apply] at h
    obtain ⟨v, b, -, h⟩ := Effect.andThen_eq_ok h
    cases h
    exact Nat.lt_succ_self place
  | openIf =>
    rw [stepInstr, bind_apply] at h
    obtain ⟨condition, b, -, h⟩ := Effect.andThen_eq_ok h
    cases h
    split
    · exact hjumps.lt_target place
    · exact Nat.lt_succ_self place
  | openElse =>
    cases h
    exact hjumps.lt_target place
  | closeIf =>
    cases h
    exact Nat.lt_succ_self place
  | call name =>
    rw [stepInstr, bind_apply] at h
    obtain ⟨_, b, -, h⟩ := Effect.andThen_eq_ok h
    cases h
    exact Nat.lt_succ_self place
  | plain mnemonic operand =>
    rw [stepInstr, bind_apply] at h
    obtain ⟨_, b, -, h⟩ := Effect.andThen_eq_ok h
    cases h
    exact Nat.lt_succ_self place

/-- With jumps that lead ahead, a run goes on exactly where the instruction leads. -/
theorem runFrom_of_forward (inst : Instance) (callee : Callee) (function : Text) {jumps : JumpTable}
    (hjumps : jumps.Forward) {body : List Instr} {place : Nat} (hplace : place < body.length)
    (a : Activation) :
    runFrom inst callee function jumps body.toArray place a =
      Effect.andThen (stepInstr inst callee function jumps place body[place] a)
        (runFrom inst callee function jumps body.toArray) := by
  rw [runFrom, dif_pos (by simpa using hplace), List.getElem_toArray, bind_apply]
  rcases hstep : stepInstr inst callee function jumps place body[place] a with ⟨trap | next, b⟩
  · rfl
  · rw [Effect.andThen_ok, Effect.andThen_ok, Nat.max_eq_right (lt_of_stepInstr hjumps hstep)]

/-! ### Calls of functions of the module -/

/-- The function of the module that an instruction calls. -/
def Instance.callee? (inst : Instance) : Instr → Option Func
  | .call name => if name = logFunction then none else inst.module.function? name
  | _ => none

section Callee

variable {inst : Instance} {instr : Instr} {f : Func} {callee : Callee} {function : Text}
  {jumps : JumpTable} {place : Nat}

/-- A function that is called is the first one of its name. -/
theorem Module.function?_name {m : Module} {name : Text} (h : m.function? name = some f) :
    m.function? f.name = some f := by
  have hname : f.name = name := by
    unfold Module.function? at h
    simpa using List.find?_some h
  rwa [hname]

theorem Instance.exists_call_of_callee? (h : inst.callee? instr = some f) :
    ∃ name, instr = .call name ∧ name ≠ logFunction ∧ inst.module.function? name = some f := by
  cases instr with
  | call name =>
    rw [callee?] at h
    split at h
    · cases h
    · rename_i hname
      exact ⟨name, rfl, hname, h⟩
  | _ => cases h

/-- Other instructions do not depend on what calls do. -/
theorem stepInstr_of_callee?_eq_none (h : inst.callee? instr = none) (callee callee' : Callee) :
    stepInstr inst callee function jumps place instr =
      stepInstr inst callee' function jumps place instr := by
  cases instr with
  | call name =>
    rw [Instance.callee?] at h
    rw [stepInstr, stepInstr, callInstr, callInstr]
    by_cases hname : name = logFunction
    · rw [if_pos hname, if_pos hname]
    · rw [if_neg hname] at h
      rw [if_neg hname, if_neg hname, h]
  | _ => rfl

/-- A call without its arguments on the stack. -/
theorem stepInstr_underflow (h : inst.callee? instr = some f) {a b : Activation} {trap : Trap}
    (hpop : popArguments function f.arity a = (.error trap, b)) :
    stepInstr inst callee function jumps place instr a = (.error trap, b) := by
  obtain ⟨name, rfl, hname, hfind⟩ := inst.exists_call_of_callee? h
  simp [stepInstr, callInstr, hname, hfind, bind_apply, hpop]

/-- A call that returns: its value, if there is one, is pushed. -/
theorem stepInstr_returns (h : inst.callee? instr = some f) {a b : Activation} {args : List Value}
    (hpop : popArguments function f.arity a = (.ok args, b)) {returned : Option Value}
    {store : Store} (hcall : callee f args b.store = (.ok returned, store)) :
    stepInstr inst callee function jumps place instr a =
      (.ok (place + 1), ⟨returned.toList ++ b.stack, b.locals, store⟩) := by
  obtain ⟨name, rfl, hname, hfind⟩ := inst.exists_call_of_callee? h
  cases returned <;> simp [stepInstr, callInstr, hname, hfind, bind_apply, hpop, hcall]

/-- A call that traps. -/
theorem stepInstr_traps (h : inst.callee? instr = some f) {a b : Activation} {args : List Value}
    (hpop : popArguments function f.arity a = (.ok args, b)) {trap : Trap} {store : Store}
    (hcall : callee f args b.store = (.error trap, store)) :
    stepInstr inst callee function jumps place instr a =
      (.error trap, ⟨b.stack, b.locals, store⟩) := by
  obtain ⟨name, rfl, hname, hfind⟩ := inst.exists_call_of_callee? h
  simp [stepInstr, callInstr, hname, hfind, bind_apply, hpop, hcall]

end Callee

/-! ### The machine -/

/-- What is held during and between calls: besides the store, a memory, the jump tables that have
been computed, by the names of their functions, and the number of open activations. -/
structure Machine where
  store : Store
  memory : Option Memory
  tables : List (Text × JumpTable) := []
  depth : Nat := 0

namespace Machine

/-- The jump table of a function, which is computed unless one is held under its name. -/
def tableOf (machine : Machine) (f : Func) : Except Trap JumpTable × Machine :=
  match machine.tables.lookup f.name with
  | some jumps => (.ok jumps, machine)
  | none =>
    match jumpTable f.body with
    | .ok jumps => (.ok jumps, { machine with tables := (f.name, jumps) :: machine.tables })
    | .error trap => (.error trap, machine)

/-- The tables that are held are those of the first functions of their names. -/
def Coherent (m : Module) (machine : Machine) : Prop :=
  ∀ name jumps, machine.tables.lookup name = some jumps →
    ∃ f, m.function? name = some f ∧ jumpTable f.body = .ok jumps

/-- What `tableOf` can do. -/
theorem Coherent.tableOf_cases {m : Module} {machine : Machine} (h : machine.Coherent m) {f : Func}
    (hf : m.function? f.name = some f) :
    (∃ trap, jumpTable f.body = .error trap ∧ machine.tableOf f = (.error trap, machine)) ∨
    ∃ jumps tables, jumpTable f.body = .ok jumps ∧
      machine.tableOf f = (.ok jumps, { machine with tables := tables }) ∧
      Coherent m { machine with tables := tables } := by
  unfold tableOf
  cases hlookup : machine.tables.lookup f.name with
  | some jumps =>
    -- a table that is kept was made for the function of that name
    obtain ⟨g, hg, hjumps⟩ := h f.name jumps hlookup
    obtain rfl : f = g := Option.some.inj (hf.symm.trans hg)
    exact .inr ⟨jumps, machine.tables, hjumps, rfl, h⟩
  | none =>
    cases hjumps : jumpTable f.body with
    | error trap => exact .inl ⟨trap, rfl, rfl⟩
    | ok jumps =>
      refine .inr ⟨jumps, _, rfl, rfl, fun name jumps' hname => ?_⟩
      -- the new table is that of `f`, and the others were kept before
      rw [List.lookup_cons] at hname
      split at hname
      · rename_i heq
        cases hname
        rw [beq_iff_eq.mp heq]
        exact ⟨f, hf, hjumps⟩
      · exact h name jumps' hname

end Machine

/-- An activation that has not ended: its function with the jumps of the body, the place of the next
instruction, the operand stack and the locals. -/
structure OpenActivation where
  function : Func
  jumps : JumpTable := []
  place : Nat := 0
  stack : List Value := []
  locals : Cells

namespace OpenActivation

/-- An open activation with a store. -/
def activation (frame : OpenActivation) (store : Store) : Activation :=
  ⟨frame.stack, frame.locals, store⟩

/-- An open activation that has gone on to a place. -/
def goTo (frame : OpenActivation) (place : Nat) (a : Activation) : OpenActivation :=
  { frame with place := place, stack := a.stack, locals := a.locals }

/-- An open activation that gets what a call returns. -/
def receive (frame : OpenActivation) (returned : Option Value) : OpenActivation :=
  { frame with stack := returned.toList ++ frame.stack }

end OpenActivation

/-- A state of a call, with the open activations from the inside out. -/
inductive Config where
  /-- A function is about to be entered. -/
  | enter (f : Func) (args : List Value) (outer : List OpenActivation) (machine : Machine)
  /-- The innermost activation goes on. -/
  | run (frame : OpenActivation) (outer : List OpenActivation) (machine : Machine)
  /-- The body of the innermost activation has ended, or a trap has ended it. -/
  | close (result : Except Trap Unit) (frame : OpenActivation) (outer : List OpenActivation)
      (machine : Machine)
  /-- A call has been left with an outcome. -/
  | leave (result : Except Trap (Option Value)) (outer : List OpenActivation) (machine : Machine)

namespace Config

/-- The open activations, from the inside out. -/
def opened : Config → List OpenActivation
  | enter _ _ outer _ | leave _ outer _ => outer
  | run frame outer _ | close _ frame outer _ => frame :: outer

def machine : Config → Machine
  | enter _ _ _ machine | run _ _ machine | close _ _ _ machine | leave _ _ machine => machine

end Config

namespace Instance

/-- Enters a function, unless too many activations are open. -/
def stepEnter (inst : Instance) (f : Func) (args : List Value) (outer : List OpenActivation)
    (machine : Machine) : Config :=
  if maxActivations ≤ machine.depth then
    .leave (.error (.callStackExhausted f.name)) outer machine
  else
    let frame : OpenActivation :=
      { function := f, locals := f.initialLocals inst.module.valueType args }
    match Machine.tableOf { machine with depth := machine.depth + 1 } f with
    | (.ok jumps, machine) => .run { frame with jumps := jumps } outer machine
    | (.error trap, machine) => .close (.error trap) frame outer machine

/-- Carries out the next instruction of the innermost activation. -/
def stepRun (inst : Instance) (frame : OpenActivation) (outer : List OpenActivation)
    (machine : Machine) : Config :=
  match frame.function.body[frame.place]? with
  | none => .close (.ok ()) frame outer machine
  | some instr =>
    let here := frame.activation machine.store
    match inst.callee? instr with
    | some f =>
      match popArguments frame.function.name f.arity here with
      | (.ok args, a) =>
        .enter f args (frame.goTo (frame.place + 1) a :: outer) { machine with store := a.store }
      | (.error trap, a) =>
        .close (.error trap) (frame.goTo (frame.place + 1) a) outer
          { machine with store := a.store }
    | none =>
      -- no function is called here, so what calls do does not matter
      match stepInstr inst (fun _ _ store => (.ok none, store)) frame.function.name frame.jumps
          frame.place instr here with
      | (.ok next, a) => .run (frame.goTo next a) outer { machine with store := a.store }
      | (.error trap, a) =>
        .close (.error trap) (frame.goTo (frame.place + 1) a) outer
          { machine with store := a.store }

/-- One step of a call. There is none once the last activation has been left. -/
def step (inst : Instance) : Config → Option Config
  | .enter f args outer machine => some (inst.stepEnter f args outer machine)
  | .run frame outer machine => some (inst.stepRun frame outer machine)
  | .close result frame outer machine =>
    some (.leave (result.bind fun _ => frame.function.finish frame.stack) outer
      { machine with depth := machine.depth - 1 })
  | .leave (.ok returned) (frame :: outer) machine =>
    some (.run (frame.receive returned) outer machine)
  | .leave (.error trap) (frame :: outer) machine =>
    some (.close (.error trap) frame outer machine)
  | .leave _ [] _ => none

/-- One configuration is followed by another. -/
def Steps (inst : Instance) (c c' : Config) : Prop :=
  inst.step c = some c'

end Instance

/-! ### What steps preserve -/

section Steps

variable {inst : Instance} {frame : OpenActivation} {outer : List OpenActivation}
  {machine : Machine}

theorem Instance.stepRun_end (hplace : frame.function.body[frame.place]? = none) :
    inst.stepRun frame outer machine = .close (.ok ()) frame outer machine := by
  rw [stepRun, hplace]

section Instructions

variable {instr : Instr} (hinstr : frame.function.body[frame.place]? = some instr)

include hinstr

theorem Instance.stepRun_ok (hcallee : inst.callee? instr = none) {callee : Callee} {next : Nat}
    {a : Activation} (h : stepInstr inst callee frame.function.name frame.jumps frame.place instr
      (frame.activation machine.store) = (.ok next, a)) :
    inst.stepRun frame outer machine =
      .run (frame.goTo next a) outer { machine with store := a.store } := by
  rw [stepInstr_of_callee?_eq_none hcallee _ fun _ _ store => (.ok none, store)] at h
  simp only [stepRun, hinstr, hcallee, h]

theorem Instance.stepRun_error (hcallee : inst.callee? instr = none) {callee : Callee} {trap : Trap}
    {a : Activation} (h : stepInstr inst callee frame.function.name frame.jumps frame.place instr
      (frame.activation machine.store) = (.error trap, a)) :
    inst.stepRun frame outer machine = .close (.error trap) (frame.goTo (frame.place + 1) a) outer
      { machine with store := a.store } := by
  rw [stepInstr_of_callee?_eq_none hcallee _ fun _ _ store => (.ok none, store)] at h
  simp only [stepRun, hinstr, hcallee, h]

variable {f : Func} (hcallee : inst.callee? instr = some f)

include hcallee

theorem Instance.stepRun_underflow {trap : Trap} {a : Activation}
    (h : popArguments frame.function.name f.arity (frame.activation machine.store) =
      (.error trap, a)) :
    inst.stepRun frame outer machine = .close (.error trap) (frame.goTo (frame.place + 1) a) outer
      { machine with store := a.store } := by
  simp only [stepRun, hinstr, hcallee, h]

theorem Instance.stepRun_call {args : List Value} {a : Activation}
    (h : popArguments frame.function.name f.arity (frame.activation machine.store) =
      (.ok args, a)) :
    inst.stepRun frame outer machine = .enter f args (frame.goTo (frame.place + 1) a :: outer)
      { machine with store := a.store } := by
  simp only [stepRun, hinstr, hcallee, h]

end Instructions

/-- What the innermost activation can do: its body has ended, or it goes forward, by an instruction
that is carried out, that traps or that calls a function. -/
theorem Instance.stepRun_cases (hjumps : frame.jumps.Forward) :
    (frame.function.body.length ≤ frame.place ∧
      inst.stepRun frame outer machine = .close (.ok ()) frame outer machine) ∨
    ∃ next a, frame.place < frame.function.body.length ∧ frame.place < next ∧
      (inst.stepRun frame outer machine =
          .run (frame.goTo next a) outer { machine with store := a.store } ∨
        (∃ trap, inst.stepRun frame outer machine =
          .close (.error trap) (frame.goTo next a) outer { machine with store := a.store }) ∨
        ∃ f args, inst.module.function? f.name = some f ∧ inst.stepRun frame outer machine =
          .enter f args (frame.goTo next a :: outer) { machine with store := a.store }) := by
  cases hinstr : frame.function.body[frame.place]? with
  | none => exact .inl ⟨List.getElem?_eq_none_iff.mp hinstr, stepRun_end hinstr⟩
  | some instr =>
    obtain ⟨hlt, -⟩ := List.getElem?_eq_some_iff.mp hinstr
    -- the module's own functions are entered, everything else is done in one step
    cases hcallee : inst.callee? instr with
    | some f =>
      obtain ⟨name, -, -, hfind⟩ := inst.exists_call_of_callee? hcallee
      rcases hpop : popArguments frame.function.name f.arity (frame.activation machine.store) with
        ⟨trap | args, a⟩
      · exact .inr ⟨_, a, hlt, Nat.lt_succ_self _,
          .inr (.inl ⟨trap, stepRun_underflow hinstr hcallee hpop⟩)⟩
      · exact .inr ⟨_, a, hlt, Nat.lt_succ_self _,
          .inr (.inr ⟨f, args, Module.function?_name hfind, stepRun_call hinstr hcallee hpop⟩)⟩
    | none =>
      rcases hstep : stepInstr inst (fun _ _ store => (.ok none, store)) frame.function.name
        frame.jumps frame.place instr (frame.activation machine.store) with ⟨trap | next, a⟩
      · exact .inr ⟨_, a, hlt, Nat.lt_succ_self _,
          .inr (.inl ⟨trap, stepRun_error hinstr hcallee hstep⟩)⟩
      · exact .inr ⟨next, a, hlt, lt_of_stepInstr hjumps hstep,
          .inl (stepRun_ok hinstr hcallee hstep)⟩

/-- What holds in every state of a call: the open activations are counted and not too many, the jump
tables are the right ones, and all jumps go forward. -/
structure Config.Valid (m : Module) (c : Config) : Prop where
  depth_eq : c.machine.depth = c.opened.length
  length_le : c.opened.length ≤ maxActivations
  coherent : c.machine.Coherent m
  forward : ∀ frame ∈ c.opened, frame.jumps.Forward
  entered : ∀ {f args outer machine}, c = .enter f args outer machine → m.function? f.name = some f

/-- What entering a function can do: there are too many open activations, the markers of the body do
not match, or the activation starts. -/
theorem Config.Valid.stepEnter_cases {f : Func} {args : List Value}
    (h : (Config.enter f args outer machine).Valid inst.module) :
    (outer.length = maxActivations ∧ inst.stepEnter f args outer machine =
      .leave (.error (.callStackExhausted f.name)) outer machine) ∨
    outer.length < maxActivations ∧
      ((∃ trap, jumpTable f.body = .error trap ∧ inst.stepEnter f args outer machine =
        .close (.error trap)
          { function := f, locals := f.initialLocals inst.module.valueType args } outer
          { machine with depth := machine.depth + 1 }) ∨
      ∃ jumps tables, jumpTable f.body = .ok jumps ∧ inst.stepEnter f args outer machine =
        .run { function := f, jumps := jumps, locals := f.initialLocals inst.module.valueType args }
          outer { machine with depth := machine.depth + 1, tables := tables } ∧
        Machine.Coherent inst.module { machine with tables := tables }) := by
  -- the counter is the number of activations below, so the check on it is one on the stack
  have hcount : machine.depth = outer.length := h.depth_eq
  have hle : outer.length ≤ maxActivations := h.length_le
  unfold Instance.stepEnter
  by_cases hdepth : maxActivations ≤ machine.depth
  · rw [if_pos hdepth]
    exact .inl ⟨by omega, rfl⟩
  · rw [if_neg hdepth]
    refine .inr ⟨by omega, ?_⟩
    have hopened : Machine.Coherent inst.module { machine with depth := machine.depth + 1 } :=
      h.coherent
    rcases hopened.tableOf_cases (h.entered rfl) with
      ⟨trap, hjumps, htable⟩ | ⟨jumps, tables, hjumps, htable, hcoherent⟩
    · rw [htable]
      exact .inl ⟨trap, hjumps, rfl⟩
    · rw [htable]
      exact .inr ⟨jumps, tables, hjumps, rfl, hcoherent⟩

theorem Config.Valid.stepEnter {f : Func} {args : List Value}
    (h : (Config.enter f args outer machine).Valid inst.module) :
    (inst.stepEnter f args outer machine).Valid inst.module := by
  have hcount : machine.depth + 1 = outer.length + 1 := congrArg (· + 1) h.depth_eq
  rcases h.stepEnter_cases with
    ⟨-, heq⟩ | ⟨hlt, ⟨trap, -, heq⟩ | ⟨jumps, tables, hjumps, heq, hcoherent⟩⟩
  · rw [heq]
    exact ⟨h.depth_eq, h.length_le, h.coherent, h.forward, fun heq => by cases heq⟩
  · rw [heq]
    refine ⟨hcount, hlt, h.coherent, ?_, fun heq => by cases heq⟩
    exact List.forall_mem_cons.mpr ⟨List.forall_mem_nil _, h.forward⟩
  · rw [heq]
    refine ⟨hcount, hlt, hcoherent, ?_, fun heq => by cases heq⟩
    exact List.forall_mem_cons.mpr ⟨forward_of_jumpTable hjumps, h.forward⟩

theorem Config.Valid.stepRun (h : (Config.run frame outer machine).Valid inst.module) :
    (inst.stepRun frame outer machine).Valid inst.module := by
  obtain ⟨hframe, houter⟩ := List.forall_mem_cons.mp h.forward
  have hforward (next : Nat) (a : Activation) :
      ∀ other ∈ frame.goTo next a :: outer, other.jumps.Forward :=
    List.forall_mem_cons.mpr ⟨hframe, houter⟩
  rcases inst.stepRun_cases hframe with
    ⟨-, heq⟩ | ⟨next, a, -, -, heq | ⟨trap, heq⟩ | ⟨f, args, hf, heq⟩⟩
  · rw [heq]
    exact ⟨h.depth_eq, h.length_le, h.coherent, h.forward, fun heq => by cases heq⟩
  · rw [heq]
    exact ⟨h.depth_eq, h.length_le, h.coherent, hforward next a, fun heq => by cases heq⟩
  · rw [heq]
    exact ⟨h.depth_eq, h.length_le, h.coherent, hforward next a, fun heq => by cases heq⟩
  · rw [heq]
    refine ⟨h.depth_eq, h.length_le, h.coherent, hforward next a, fun heq => ?_⟩
    cases heq
    exact hf

/-- Steps preserve validity. -/
theorem Config.Valid.step {c c' : Config} (h : c.Valid inst.module) (hstep : inst.Steps c c') :
    c'.Valid inst.module := by
  cases c with
  | enter f args outer machine =>
    cases hstep
    exact h.stepEnter
  | run frame outer machine =>
    cases hstep
    exact h.stepRun
  | close result frame outer machine =>
    cases hstep
    -- the activation that closes leaves the stack and the counter together
    have hcount : machine.depth = outer.length + 1 := h.depth_eq
    exact ⟨Nat.sub_eq_of_eq_add hcount, Nat.le_of_succ_le h.length_le, h.coherent,
      (List.forall_mem_cons.mp h.forward).2, fun heq => by cases heq⟩
  | leave result outer machine =>
    rcases outer with _ | ⟨frame, outer⟩
    · rcases result <;> cases hstep
    have hforward := List.forall_mem_cons.mp h.forward
    -- a trap closes the caller as well, a result is pushed and the caller runs on
    rcases result with trap | returned
    · cases hstep
      exact ⟨h.depth_eq, h.length_le, h.coherent, h.forward, fun heq => by cases heq⟩
    · cases hstep
      exact ⟨h.depth_eq, h.length_le, h.coherent, List.forall_mem_cons.mpr hforward,
        fun heq => by cases heq⟩

theorem Config.Valid.of_steps {c c' : Config} (h : c.Valid inst.module)
    (hsteps : Relation.ReflTransGen inst.Steps c c') : c'.Valid inst.module := by
  induction hsteps with
  | refl => exact h
  | tail _ hlast ih => exact ih.step hlast

end Steps

/-! ### What calls get to -/

namespace Instance

variable {inst : Instance} {room : Nat}

/-- Calls of functions get to what `callFunction` gives, if `room` activations may be opened. -/
def Performs (inst : Instance) (room : Nat) : Prop :=
  ∀ {f : Func} {args : List Value} {outer : List OpenActivation} {machine : Machine},
    (Config.enter f args outer machine).Valid inst.module → outer.length + room = maxActivations →
    ∃ machine', Relation.ReflTransGen inst.Steps (.enter f args outer machine)
        (.leave (callFunction inst room f args machine.store).1 outer machine') ∧
      machine'.store = (callFunction inst room f args machine.store).2

section Innermost

variable {frame : OpenActivation} {outer : List OpenActivation} {machine : Machine}

/-- An instruction of the innermost activation, calls included, gets to what `stepInstr` gives: to a
later place, or to the end of the activation. -/
theorem Performs.exists_steps_instr (hcalls : inst.Performs room)
    (h : (Config.run frame outer machine).Valid inst.module)
    (hroom : outer.length + 1 + room = maxActivations) {instr : Instr}
    (hinstr : frame.function.body[frame.place]? = some instr) :
    ∃ result a machine', stepInstr inst (callFunction inst room) frame.function.name frame.jumps
        frame.place instr (frame.activation machine.store) = (result, a) ∧
      machine'.store = a.store ∧
      ((∃ next, result = .ok next ∧ frame.place < next ∧
        Relation.ReflTransGen inst.Steps (.run frame outer machine)
          (.run (frame.goTo next a) outer machine')) ∨
      ∃ trap, result = .error trap ∧
        Relation.ReflTransGen inst.Steps (.run frame outer machine)
          (.close (.error trap) (frame.goTo (frame.place + 1) a) outer machine')) := by
  have hjumps := (List.forall_mem_cons.mp h.forward).1
  have hstep : inst.Steps (.run frame outer machine) (inst.stepRun frame outer machine) := rfl
  cases hcallee : inst.callee? instr with
  | none =>
    rcases hinstrStep : stepInstr inst (callFunction inst room) frame.function.name frame.jumps
      frame.place instr (frame.activation machine.store) with ⟨trap | next, a⟩
    · rw [stepRun_error hinstr hcallee hinstrStep] at hstep
      exact ⟨_, a, _, rfl, rfl, .inr ⟨trap, rfl, .single hstep⟩⟩
    · rw [stepRun_ok hinstr hcallee hinstrStep] at hstep
      exact ⟨_, a, _, rfl, rfl,
        .inl ⟨next, rfl, lt_of_stepInstr hjumps hinstrStep, .single hstep⟩⟩
  | some f =>
    rcases hpop : popArguments frame.function.name f.arity (frame.activation machine.store) with
      ⟨trap | args, a⟩
    · rw [stepRun_underflow hinstr hcallee hpop] at hstep
      exact ⟨_, a, _, stepInstr_underflow hcallee hpop, rfl, .inr ⟨trap, rfl, .single hstep⟩⟩
    · rw [stepRun_call hinstr hcallee hpop] at hstep
      obtain ⟨machine', hcall, hstore⟩ := hcalls (h.step hstep) (by simpa using hroom)
      dsimp only at hcall hstore
      rcases houtcome : callFunction inst room f args a.store with ⟨trap | returned, store⟩
      · rw [houtcome] at hcall hstore
        -- the caller is closed as well, where it stands
        exact ⟨_, _, machine', stepInstr_traps hcallee hpop houtcome, hstore,
          .inr ⟨trap, rfl, (hcall.head hstep).tail rfl⟩⟩
      · rw [houtcome] at hcall hstore
        exact ⟨_, _, machine', stepInstr_returns hcallee hpop houtcome, hstore,
          .inl ⟨_, rfl, Nat.lt_succ_self _, (hcall.head hstep).tail rfl⟩⟩

/-- The innermost activation gets to what `runFrom` gives. -/
theorem Performs.exists_steps_runFrom (hcalls : inst.Performs room)
    (h : (Config.run frame outer machine).Valid inst.module)
    (hroom : outer.length + 1 + room = maxActivations) :
    ∃ result frame' machine', Relation.ReflTransGen inst.Steps (.run frame outer machine)
        (.close result frame' outer machine') ∧ frame'.function = frame.function ∧
      runFrom inst (callFunction inst room) frame.function.name frame.jumps
          frame.function.body.toArray frame.place (frame.activation machine.store) =
        (result, frame'.activation machine'.store) := by
  -- every instruction leaves less of the body
  induction hleft : frame.function.body.length - frame.place using Nat.strongRecOn
    generalizing frame machine with
  | ind left ih =>
    by_cases hplace : frame.place < frame.function.body.length
    · have hinstr : frame.function.body[frame.place]? = some frame.function.body[frame.place] :=
        List.getElem?_eq_getElem hplace
      obtain ⟨result, a, machine', heq, hstore, hsteps⟩ := hcalls.exists_steps_instr h hroom hinstr
      have hhere : ∀ place, (frame.goTo place a).activation machine'.store = a := fun place => by
        rw [hstore]
        rfl
      rw [runFrom_of_forward _ _ _ (List.forall_mem_cons.mp h.forward).1 hplace, heq]
      rcases hsteps with ⟨next, rfl, hlt, hsteps⟩ | ⟨trap, rfl, hsteps⟩
      · have hless : frame.function.body.length - next < left := by omega
        obtain ⟨result, frame', machine'', hmore, hfunction, hrun⟩ :=
          ih _ hless (h.of_steps hsteps) rfl
        refine ⟨result, frame', machine'', hsteps.trans hmore, hfunction, ?_⟩
        rw [hhere] at hrun
        exact hrun
      · exact ⟨_, _, machine', hsteps, rfl, by rw [hhere]; rfl⟩
    · have hinstr : frame.function.body[frame.place]? = none :=
        List.getElem?_eq_none (Nat.le_of_not_lt hplace)
      have hstep : inst.Steps (.run frame outer machine) (inst.stepRun frame outer machine) := rfl
      rw [runFrom, dif_neg (by simpa using hplace)]
      rw [stepRun_end hinstr] at hstep
      exact ⟨_, _, _, .single hstep, rfl, rfl⟩

end Innermost

/-- A call gets to what `callFunction` gives. -/
theorem exists_steps_callFunction (inst : Instance) (room : Nat) : inst.Performs room := by
  -- The induction is on the room for further activations: a body runs with one less than
  -- its call.
  induction room with
  | zero =>
    intro f args outer machine h hroom
    have hstep : inst.Steps (.enter f args outer machine) (inst.stepEnter f args outer machine) :=
      rfl
    rcases h.stepEnter_cases with ⟨-, heq⟩ | ⟨hlt, -⟩
    · rw [heq] at hstep
      exact ⟨machine, .single hstep, rfl⟩
    · omega
  | succ room ih =>
    intro f args outer machine h hroom
    have hstep : inst.Steps (.enter f args outer machine) (inst.stepEnter f args outer machine) :=
      rfl
    have hvalid := h.step hstep
    rw [callFunction]
    rcases h.stepEnter_cases with
      ⟨hfull, -⟩ | ⟨-, ⟨trap, hjumps, heq⟩ | ⟨jumps, tables, hjumps, heq, -⟩⟩
    · omega
    · rw [heq] at hstep
      rw [hjumps]
      exact ⟨_, (Relation.ReflTransGen.single hstep).tail rfl, rfl⟩
    · rw [heq] at hstep hvalid
      rw [hjumps]
      obtain ⟨result, frame, machine', hrun, hfunction, houtcome⟩ :=
        ih.exists_steps_runFrom hvalid (by omega)
      -- the body starts at its first instruction with an empty stack
      change runFrom inst (callFunction inst room) f.name jumps f.body.toArray 0
        ⟨[], f.initialLocals inst.module.valueType args, machine.store⟩ = _ at houtcome
      have hfunction : frame.function = f := hfunction
      have hclosed : inst.Steps (.close result frame outer machine')
          (.leave (result.bind fun _ => f.finish frame.stack) outer
            { machine' with depth := machine'.depth - 1 }) := by
        rw [← hfunction]
        rfl
      dsimp only
      rw [houtcome]
      exact ⟨_, (hrun.head hstep).tail hclosed, rfl⟩

/-- Nothing follows when the last activation has been left. -/
theorem step_leave_nil (inst : Instance) (result : Except Trap (Option Value)) (machine : Machine) :
    inst.step (.leave result [] machine) = none := by
  cases result <;> rfl

/-- If a run ends, it ends from wherever it has got to. -/
theorem steps_to_end {c c' c'' : Config} (hsteps : Relation.ReflTransGen inst.Steps c c')
    (hend : inst.step c' = none) (hpassed : Relation.ReflTransGen inst.Steps c c'') :
    Relation.ReflTransGen inst.Steps c'' c' := by
  have hunique : Relator.RightUnique inst.Steps :=
    fun _ _ _ h h' => Option.some.inj (h.symm.trans h')
  rcases Relation.ReflTransGen.total_of_right_unique hunique hpassed hsteps with h | h
  · exact h
  · -- no step leads on from the end
    rcases h.cases_head with rfl | ⟨_, hstep, -⟩
    · exact .refl
    · exact absurd (hend.symm.trans hstep) (by simp)

/-! ### Calls by the host -/

/-- A call by the host ends in an outcome and leaves a machine. -/
inductive Invokes (inst : Instance) (machine : Machine) (name : Text) (args : List Scalar) :
    Except Trap (Option Value) → Machine → Prop
  /-- There is no such function, or the arguments do not fit. -/
  | refused {trap : Trap} : inst.prepare name args = .error trap →
      Invokes inst machine name args (.error trap) machine
  | called {f : Func} {values : List Value} {result : Except Trap (Option Value)}
      {machine' : Machine} : inst.prepare name args = .ok (f, values) →
      Relation.ReflTransGen inst.Steps (.enter f values [] machine) (.leave result [] machine') →
      Invokes inst machine name args result machine'

/-- A call by the host passes through a state. -/
def Passes (inst : Instance) (machine : Machine) (name : Text) (args : List Scalar) (c : Config) :
    Prop :=
  ∃ f values, inst.prepare name args = .ok (f, values) ∧
    Relation.ReflTransGen inst.Steps (.enter f values [] machine) c

/-- Some calls lead from one machine to another, whatever their outcomes. The host may change from
call to call. -/
def Reaches (inst : Instance) : Machine → Machine → Prop :=
  Relation.ReflTransGen fun machine machine' => ∃ host name args result,
    Invokes { inst with host := host } machine name args result machine'

end Instance

/-- A machine that has not been called. -/
def Machine.fresh (inst : Instance) (store : Store) : Machine where
  store := store
  memory := inst.memory

/-- A machine between calls: no activation is open, and the tables are the right ones. -/
structure Machine.Idle (m : Module) (machine : Machine) : Prop where
  depth_eq : machine.depth = 0
  coherent : machine.Coherent m

theorem Machine.idle_fresh (inst : Instance) (store : Store) :
    (Machine.fresh inst store).Idle inst.module :=
  ⟨rfl, fun _ _ h => by cases h⟩

section Idle

variable {inst : Instance} {machine machine' : Machine} {name : Text} {args : List Scalar}
  {f : Func} {values : List Value}

theorem Instance.function?_of_prepare (h : inst.prepare name args = .ok (f, values)) :
    inst.module.function? name = some f := by
  unfold prepare at h
  split at h
  · cases h
  · rename_i g hfind
    split at h
    · cases h
    · obtain ⟨values', -, h⟩ := bind_eq_ok_iff.mp h
      cases h
      exact hfind

namespace Machine.Idle

theorem valid (h : machine.Idle inst.module) (hprepare : inst.prepare name args = .ok (f, values)) :
    (Config.enter f values [] machine).Valid inst.module := by
  refine ⟨h.depth_eq, Nat.zero_le _, h.coherent, List.forall_mem_nil _, fun heq => ?_⟩
  cases heq
  exact Module.function?_name (Instance.function?_of_prepare hprepare)

/-- A call ends, with the outcome and the store that `invoke` gives. -/
theorem exists_invokes (h : machine.Idle inst.module) (name : Text) (args : List Scalar) :
    ∃ result machine', inst.Invokes machine name args result machine' ∧
      inst.invoke machine.store name args = (result, machine'.store) := by
  unfold Instance.invoke
  cases hprepare : inst.prepare name args with
  | error trap => exact ⟨.error trap, machine, .refused hprepare, rfl⟩
  | ok call =>
    obtain ⟨f, values⟩ := call
    obtain ⟨machine', hsteps, hstore⟩ :=
      inst.exists_steps_callFunction maxActivations (h.valid hprepare) (Nat.zero_add _)
    refine ⟨_, machine', .called hprepare hsteps, ?_⟩
    rw [hstore]

/-- The outcome of a call and the store after it are those that `invoke` gives. -/
theorem invoke_eq (h : machine.Idle inst.module) {result : Except Trap (Option Value)}
    (hinvokes : inst.Invokes machine name args result machine') :
    inst.invoke machine.store name args = (result, machine'.store) := by
  obtain ⟨result', machine'', hinvokes', heq⟩ := h.exists_invokes name args
  rw [heq]
  cases hinvokes with
  | refused hprepare =>
    cases hinvokes' with
    | refused hprepare' => cases hprepare.symm.trans hprepare'; rfl
    | called hprepare' => cases hprepare.symm.trans hprepare'
  | called hprepare hsteps =>
    cases hinvokes' with
    | refused hprepare' => cases hprepare.symm.trans hprepare'
    | called hprepare' hsteps' =>
      cases hprepare.symm.trans hprepare'
      -- both runs have ended, so neither goes on to the other
      have hsame := Instance.steps_to_end hsteps (inst.step_leave_nil _ _) hsteps'
      rcases hsame.cases_head with hsame | ⟨_, hstep, -⟩
      · cases hsame
        rfl
      · exact absurd ((inst.step_leave_nil _ _).symm.trans hstep) (by simp)

/-- A call leaves a machine that can be called again. -/
theorem invokes (h : machine.Idle inst.module) {result : Except Trap (Option Value)}
    (hinvokes : inst.Invokes machine name args result machine') : machine'.Idle inst.module := by
  cases hinvokes with
  | refused => exact h
  | called hprepare hsteps =>
    have hvalid := (h.valid hprepare).of_steps hsteps
    exact ⟨hvalid.depth_eq, hvalid.coherent⟩

theorem reaches (h : machine.Idle inst.module) (hreaches : inst.Reaches machine machine') :
    machine'.Idle inst.module := by
  induction hreaches with
  | refl => exact h
  | tail _ hlast ih =>
    obtain ⟨host, name, args, result, hinvokes⟩ := hlast
    have hidle : Machine.Idle { inst with host := host }.module _ := ih
    exact hidle.invokes hinvokes

end Machine.Idle

end Idle

end StackScript
