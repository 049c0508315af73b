import StackScript.Proofs.SameIntegers
import StackScript.Proofs.StackContents
import StackScript.Script

/-!
# Runs without overflow

A module of 32-bit integers and its counterpart of 64-bit integers run alike as long as the wide run
pushes only integers of 32 bits. At every point of the two runs there are the same integers on the
stacks, in the cells and in the log, and a trap in one is the same trap in the other.

## Main definitions

* `SameCalls`: calls of counterparts return and leave the same integers.
* `Module.RunsNarrow`: a run of the entry pushes only integers of 32 bits.

## Main results

* `Code.Widens.exec_same`: code has the same effect.
* `sameCalls`: so have calls.
* `Module.runsNarrow_of_checkNarrow`: whether a run pushes only integers of 32 bits can be checked.
* `runEntry_eq_of_runsNarrow`: a program that compiles with 32-bit integers compiles with 64-bit
  integers, and its runs are the same if the wide one pushes only integers of 32 bits.
-/

namespace StackScript

open Exec

/-! ### Calls -/

/-- With some room, calls of counterparts return the same integers and leave the same integers. -/
def SameCalls (inst inst' : Instance) (room : Nat) : Prop :=
  ∀ {f f' : Func} {args args' : List Value} {store store' : Store}, f.Widens f' →
    List.Forall₂ Value.Same args args' → store.Same store' →
    inst'.KeepsCall Value.IsNarrow room f' args' store' →
    SameOutcome (Option.Rel Value.Same) (callFunction inst room f args store).1
        (callFunction inst' room f' args' store').1 ∧
      (callFunction inst room f args store).2.Same (callFunction inst' room f' args' store').2

/-- An activation that gets the outcome of a call. -/
def Activation.receive (b : Activation) :
    Except Trap (Option Value) × Store → Effect Activation Unit
  | (.ok returned, store) => (.ok (), ⟨returned.toList ++ b.stack, b.locals, store⟩)
  | (.error trap, store) => (.error trap, ⟨b.stack, b.locals, store⟩)

theorem receive_same {b b' : Activation} (hb : b.Same b')
    {outcome outcome' : Except Trap (Option Value) × Store}
    (h : SameOutcome (Option.Rel Value.Same) outcome.1 outcome'.1)
    (hstore : outcome.2.Same outcome'.2) :
    Effect.Same Eq (b.receive outcome) (b'.receive outcome') := by
  obtain ⟨r, store⟩ := outcome
  obtain ⟨r', store'⟩ := outcome'
  cases h with
  | ok hreturned =>
    cases hreturned with
    | none => exact ⟨.ok rfl, hb.stack, hb.locals, hstore⟩
    | some hv => exact ⟨.ok rfl, .cons hv hb.stack, hb.locals, hstore⟩
  | error trap => exact ⟨.error trap, hb.stack, hb.locals, hstore⟩

theorem callInstr_function {inst : Instance} {callee : Callee} {function name : Text} {f : Func}
    (hname : name ≠ logFunction) (hf : inst.module.function? name = some f) (a : Activation) :
    callInstr inst callee function name a = Effect.andThen (popArguments function f.arity a)
      fun args b => b.receive (callee f args b.store) := by
  simp only [callInstr, if_neg hname, hf]
  rw [bind_apply]
  rcases popArguments function f.arity a with ⟨trap | args, b⟩
  · rfl
  · simp only [Effect.andThen_ok, bind_apply, get_apply, set_apply, liftExcept_apply]
    rcases callee f args b.store with ⟨trap | _ | v, store⟩ <;> rfl

theorem logTop_accepting (function : Text) (a : Activation) :
    logTop .accepting function a = Effect.andThen (onStack (pop function) a)
      fun v b => (.ok (), { b with store.logged := v :: b.store.logged }) := by
  rcases a with ⟨_ | ⟨v, st⟩, locals, store⟩ <;> rfl

section Simulation

variable {inst inst' : Instance} (hinst : inst.Widens inst') {room : Nat}
  (hcalls : SameCalls inst inst' room) {function : Text} {a a' : Activation} {k : Code}

include hinst hcalls

theorem callInstr_same {name : Text}
    (hkeeps : inst'.KeepsIn Value.IsNarrow room function (.act (.call name) k) a')
    (ha : a.Same a') :
    Effect.Same Eq (callInstr inst (callFunction inst room) function name a)
      (callInstr inst' (callFunction inst' room) function name a') := by
  by_cases hname : name = logFunction
  · rw [callInstr, callInstr, if_pos hname, if_pos hname, hinst.host_eq, hinst.host_eq_wide,
      logTop_accepting, logTop_accepting]
    exact (pop_same ha function).andThen fun _ hv hb =>
      ⟨.ok rfl, hb.stack, hb.locals, hb.store.globals, .cons hv hb.store.logged⟩
  -- both modules know the same names, and the functions widen one another
  have hfind := hinst.module.function? name
  generalize hf : inst.module.function? name = found,
    hf' : inst'.module.function? name = found' at hfind
  cases hfind with
  | none =>
    rw [callInstr, callInstr, if_neg hname, if_neg hname, hf, hf']
    exact ⟨.error _, ha⟩
  | @some f f' hfunction =>
    have harity : f'.arity = f.arity := congrArg List.length hfunction.params_eq
    rw [callInstr_function hname hf, callInstr_function hname hf', harity]
    refine (popArguments_same ha function f.arity).andThen fun hpop hargs hb => ?_
    rw [← harity] at hpop
    obtain ⟨houtcome, hstore⟩ := hcalls hfunction hargs hb.store (hkeeps.call hname hf' hpop)
    exact receive_same hb houtcome hstore

/-- Actions have the same effect. -/
theorem Action.Widens.step_same {action action' : Action} (h : action.Widens action')
    (hkeeps : inst'.KeepsIn Value.IsNarrow room function (.act action' k) a') (ha : a.Same a') :
    Effect.Same Eq (action.exec inst (callFunction inst room) function a)
      (action'.exec inst' (callFunction inst' room) function a') := by
  have hnarrow : Effect.LeavesNarrow (action'.exec inst' (callFunction inst' room) function a') :=
    fun b hexec v hv => (hkeeps.act hexec).of_mem_stack hv
  cases action with
  | call name =>
    cases h
    exact callInstr_same hinst hcalls hkeeps ha
  | const value => exact h.exec_same hinst nofun ha hnarrow
  | plain mnemonic operand => exact h.exec_same hinst nofun ha hnarrow

/-- Code has the same effect. -/
theorem Code.Widens.exec_same {c c' : Code} (h : c.Widens c')
    (hkeeps : inst'.KeepsIn Value.IsNarrow room function (c' ++ k) a') (ha : a.Same a') :
    Effect.Same Eq (c.exec inst (callFunction inst room) function a)
      (c'.exec inst' (callFunction inst' room) function a') := by
  induction h generalizing k a a' with
  | done => exact ⟨.ok rfl, ha⟩
  | act haction _ ih =>
    rw [exec_act, exec_act]
    exact (haction.step_same hinst hcalls hkeeps ha).andThen fun hexec _ hb =>
      ih (hkeeps.act hexec) hb
  | extended haction hnumeric _ ih =>
    rw [exec_act, exec_act]
    refine (haction.step_same hinst hcalls hkeeps ha).andThen fun hexec _ hb => ?_
    have hextend := hkeeps.act hexec
    -- what the action has pushed is extended, and stays the same integer
    obtain ⟨v', st', hstack⟩ := Action.exists_cons_of_isNumeric hnumeric hexec
    obtain ⟨b'', hexec', hb''⟩ := extend_same hb hstack
      fun c hc v hv => (hextend.act hc).of_mem_stack hv
    rw [exec_act, hexec', Effect.andThen_ok]
    exact ih (hextend.act hexec') hb''
  | @ifElse test first first' second second' rest rest' htest _ _ _ ihfirst ihsecond ih =>
    rw [append_assoc] at hkeeps
    have hplain :=
      exec_append_ifElse inst (callFunction inst room) function .done first second rest a
    rw [done_append] at hplain
    rw [hplain, exec_append_ifElse]
    refine (test_same hinst.module.valueType_eq_wide htest ha).andThen fun hexec hzero hb => ?_
    obtain ⟨_, c', htested, hpop⟩ := Effect.andThen_eq_ok hexec
    -- both conditions are zero or both are not, so the same parts are taken
    have hbranch := hkeeps.append htested
    rw [eq_of_pop_eq_ok hpop] at hbranch
    have hpart := hbranch.ifElse
    rw [hzero] at hpart ⊢
    split at hpart
    · rename_i htaken
      rw [if_pos htaken, if_pos htaken]
      exact (ihsecond hpart hb).andThen fun hexec' _ hc => ih (hpart.append hexec') hc
    · rename_i htaken
      rw [if_neg htaken, if_neg htaken]
      exact (ihfirst hpart hb).andThen fun hexec' _ hc => ih (hpart.append hexec') hc

end Simulation

theorem initialLocals_same {f f' : Func} (hf : f.Widens f') {args args' : List Value}
    (hargs : List.Forall₂ Value.Same args args') :
    Cells.Same (f.initialLocals .i32 args) (f'.initialLocals .i64 args') := by
  have hgiven {give : Cells → Text × Value → Cells}
      (hgive : ∀ {cells cells' name v v'}, Cells.Same cells cells' → v.Same v' →
        Cells.Same (give cells (name, v)) (give cells' (name, v')))
      (params : List Text) {cells cells' : Cells} (hcells : Cells.Same cells cells') :
      Cells.Same ((params.zip args).foldl give cells) ((params.zip args').foldl give cells') := by
    induction hargs generalizing params cells cells' with
    | nil => simpa using hcells
    | cons hv _ ih =>
      cases params with
      | nil => exact hcells
      | cons name rest => exact ih rest (hgive hcells hv)
  unfold Func.initialLocals
  rw [hf.params_eq, hf.locals_eq]
  exact (hgiven (fun hcells hv => hcells.set _ hv) f.params .nil).setZeros f.locals

/-- A function that ends with the same integers on its stack returns the same integer. -/
theorem finish_same {f f' : Func} (hf : f.Widens f') {stack stack' : List Value}
    (hstack : List.Forall₂ Value.Same stack stack') :
    SameOutcome (Option.Rel Value.Same) (f.finish stack) (f'.finish stack') := by
  have hcount : f'.resultCount = f.resultCount := by
    unfold Func.resultCount
    rw [hf.result_eq]
  have hresult := hf.result_eq
  unfold Func.finish
  rw [hf.name_eq, hcount, ← hstack.length_eq]
  cases hr : f.result <;> cases hr' : f'.result <;> rw [hr, hr'] at hresult
  · cases hstack with
    | nil => exact .ok .none
    | cons _ _ => exact .error _
  · cases hresult
  · cases hresult
  · rcases hstack with _ | ⟨hv, _ | _⟩
    · exact .error _
    · exact .ok (.some hv)
    · exact .error _

/-- Calls return the same integers and leave the same integers. -/
theorem sameCalls {inst inst' : Instance} (hinst : inst.Widens inst') (room : Nat) :
    SameCalls inst inst' room := by
  -- a call that may open more activations runs its body with room for one less
  induction room with
  | zero =>
    intro f f' args args' store store' hf _ hstore _
    rw [callFunction, callFunction, hf.name_eq]
    exact ⟨.error _, hstore⟩
  | succ room ih =>
    intro f f' args args' store store' hf hargs hstore hkeeps
    obtain ⟨c, c', hc, hbody, hbody'⟩ := hf.body.exists_code
    have hstart : (inst.start f args store).Same (inst'.start f' args' store') := by
      refine ⟨.nil, ?_, hstore⟩
      rw [Instance.start, Instance.start, hinst.module.valueType_eq, hinst.module.valueType_eq_wide]
      exact initialLocals_same hf hargs
    have hrun := hc.exec_same hinst ih (k := .done)
      (by rw [Code.append_done]; exact hkeeps.start hbody'.symm) hstart
    rw [callFunction_flatten inst room hbody.symm, callFunction_flatten inst' room hbody'.symm]
    rw [hf.name_eq] at hrun ⊢
    generalize c.exec inst (callFunction inst room) f.name (inst.start f args store) = effect,
      c'.exec inst' (callFunction inst' room) f.name (inst'.start f' args' store') = effect' at hrun
    obtain ⟨r, b⟩ := effect
    obtain ⟨r', b'⟩ := effect'
    obtain ⟨houtcome, hb⟩ := hrun
    refine ⟨?_, hb.store⟩
    cases houtcome with
    | ok _ => exact finish_same hf hb.stack
    | error trap => exact .error trap

/-! ### Runs -/

/-- A run of the entry pushes only integers of 32 bits: in all states that it passes through, only
these are on the operand stacks. -/
def Module.RunsNarrow (m : Module) : Prop :=
  ∀ inst store, instantiate m (some .accepting) = .ok (inst, store) →
    ∀ c, inst.Passes (.fresh inst store) m.entry [] c → c.OnStacks Value.IsNarrow

namespace Module.Widens

variable {m m' : Module} (h : m.Widens m')

include h

theorem initialMemory_eq : m'.initialMemory = m.initialMemory := by
  unfold Module.initialMemory Module.hasMemory Module.memoryPages Module.dataSize
  rw [h.memory_eq, h.data_eq]

theorem initialStore_same : m.initialStore.Same m'.initialStore := by
  have hcells {globals globals' : List Global}
      (hglobals : List.Forall₂ Global.Widens globals globals')
      {cells cells' : Cells} (hcells : Cells.Same cells cells') :
      Cells.Same (globals.foldl (fun cells g => cells.set g.name (.zero g.type)) cells)
        (globals'.foldl (fun cells g => cells.set g.name (.zero g.type)) cells') := by
    induction hglobals generalizing cells cells' with
    | nil => exact hcells
    | cons hg _ ih =>
      rw [List.foldl_cons, List.foldl_cons, hg.name_eq, hg.type_eq, hg.type_eq_wide]
      exact ih (hcells.set _ (.wide rfl))
  exact ⟨hcells h.globals .nil, .nil⟩

end Module.Widens

section Invocation

variable {inst inst' : Instance} (hinst : inst.Widens inst')

include hinst

theorem prepare_same (name : Text) :
    SameOutcome (fun call call' => call.1.Widens call'.1 ∧ call.2 = [] ∧ call'.2 = [])
      (inst.prepare name []) (inst'.prepare name []) := by
  have hfind := hinst.module.function? name
  unfold Instance.prepare
  generalize inst.module.function? name = found, inst'.module.function? name = found' at hfind
  cases hfind with
  | none => exact .error _
  | @some f f' hf =>
    have harity : f'.arity = f.arity := congrArg List.length hf.params_eq
    dsimp only
    rw [harity]
    split
    · exact .error _
    · exact .ok ⟨hf, rfl, rfl⟩

/-- A call by the host returns the same integer and leaves the same integers. -/
theorem invoke_same {store store' : Store} (hstore : store.Same store') (name : Text)
    (hnarrow : ∀ c, inst'.Passes (.fresh inst' store') name [] c → c.OnStacks Value.IsNarrow) :
    SameOutcome (Option.Rel Value.Same) (inst.invoke store name []).1
        (inst'.invoke store' name []).1 ∧
      (inst.invoke store name []).2.Same (inst'.invoke store' name []).2 := by
  have hprepare := prepare_same hinst name
  unfold Instance.invoke
  generalize inst.prepare name [] = call, hcall : inst'.prepare name [] = call' at hprepare ⊢
  cases hprepare with
  | error trap => exact ⟨.error trap, hstore⟩
  | @ok call call' hsame =>
    obtain ⟨f, values⟩ := call
    obtain ⟨f', values'⟩ := call'
    obtain ⟨hf, rfl, rfl⟩ := hsame
    -- the host's call opens the first activation, with room for all of them
    have hvalid := (Machine.idle_fresh inst' store').valid hcall
    exact sameCalls hinst maxActivations hf .nil hstore
      ⟨[], .fresh inst' store', hvalid, Nat.zero_add _, rfl,
        fun c hsteps => hnarrow c ⟨f', [], hcall, hsteps⟩⟩

end Invocation

theorem map_logText_eq {store store' : Store} (h : store.Same store') :
    store'.log.map Value.logText = store.log.map Value.logText := by
  have hmap {vs vs' : List Value} (hvs : List.Forall₂ Value.Same vs vs') :
      vs'.map Value.logText = vs.map Value.logText := by
    induction hvs with
    | nil => rfl
    | cons hv _ ih => rw [List.map_cons, List.map_cons, hv.logText_eq, ih]
  rw [Store.log, Store.log, List.map_reverse, List.map_reverse, hmap h.logged]

/-- The entries of a module and of its counterpart run alike if the counterpart pushes only integers
of 32 bits. -/
theorem Module.Widens.runEntry_eq {m m' : Module} (h : m.Widens m') (hnarrow : m'.RunsNarrow)
    (before : Nat) : runEntry m before = runEntry m' before := by
  cases hmemory : m.initialMemory with
  | error trap =>
    -- the memory is the same on both sides, so both modules are instantiated or neither is
    have hfails {k : Module} (hk : k.initialMemory = .error trap) :
        instantiate k (some .accepting) = .error trap := by
      rw [instantiate, hk]
      rfl
    simp only [runEntry, hfails hmemory, hfails (h.initialMemory_eq.trans hmemory)]
  | ok memory =>
    have hmakes {k : Module} (hk : k.initialMemory = .ok memory) :
        instantiate k (some .accepting) = .ok (⟨k, .accepting, memory⟩, k.initialStore) := by
      rw [instantiate, hk]
      rfl
    have hmakes' := hmakes (h.initialMemory_eq.trans hmemory)
    have hinst : Instance.Widens ⟨m, .accepting, memory⟩ ⟨m', .accepting, memory⟩ := ⟨h, rfl, rfl⟩
    have hprepare := prepare_same hinst m.entry
    obtain ⟨houtcome, hstore⟩ := invoke_same hinst h.initialStore_same m.entry
      fun c hc => hnarrow _ _ hmakes' c (h.entry_eq ▸ hc)
    have hlines := map_logText_eq hstore
    simp only [runEntry, hmakes hmemory, hmakes', h.entry_eq, hlines]
    generalize Instance.prepare ⟨m, _, _⟩ m.entry [] = call,
      Instance.prepare ⟨m', _, _⟩ m.entry [] = call' at hprepare ⊢
    cases hprepare with
    | error trap => rfl
    | ok _ =>
      generalize (Instance.invoke ⟨m, _, _⟩ _ m.entry []).1 = result,
        (Instance.invoke ⟨m', _, _⟩ _ m.entry []).1 = result' at houtcome ⊢
      cases houtcome with
      | error trap => rfl
      | ok hreturned =>
        cases hreturned with
        | none => rfl
        | some hv => simp only [Option.map_some, hv.toDatum_eq]

/-- Whether a run of the entry ends within some steps and pushes only integers of 32 bits. -/
def Module.checkNarrow (m : Module) (steps : Nat) : Bool :=
  match instantiate m (some .accepting) with
  | .error _ => true
  | .ok (inst, store) =>
    match inst.prepare m.entry [] with
    | .error _ => true
    | .ok (f, values) =>
      inst.checkStacks Value.IsNarrow steps (.enter f values [] (.fresh inst store))

theorem Module.runsNarrow_of_checkNarrow {m : Module} {steps : Nat}
    (h : m.checkNarrow steps = true) : m.RunsNarrow := by
  rintro inst store hinst c ⟨f, values, hprepare, hsteps⟩
  unfold checkNarrow at h
  rw [hinst] at h
  dsimp only at h
  rw [hprepare] at h
  exact Instance.keeps_of_checkStacks h c hsteps

/-- A program that compiles with 32-bit integers compiles with 64-bit integers too. If a run of the
wide module pushes only integers of 32 bits, then a run of the narrow one logs the same lines and
ends with the same integer or with the same error. -/
theorem runEntry_eq_of_runsNarrow {options : Options} {program : Program} {m : Module}
    (h : (generate options.narrow program).result = .ok m) :
    ∃ wide, (generate options.wide program).result = .ok wide ∧
      (wide.RunsNarrow → ∀ before, runEntry m before = runEntry wide before) := by
  obtain ⟨wide, hwide, hwidens⟩ := exists_widens_of_generate options h
  exact ⟨wide, hwide, fun hnarrow before => hwidens.runEntry_eq hnarrow before⟩

/-- A program that computes with the largest and the smallest integer of 32 bits, and in the end
divides by zero. -/
def extremes : Program :=
  let number (n : Int) : Expr := .literal .number (.int n) 1
  [.declare "x" (number 2147483647) 1,
    .print (.binary (.unary .negate (.get "x" 1) 1) .subtract (number 1) 1) 1,
    .ifElse (.get "x" 1) (.print (.binary (.get "x" 1) .greater (number 0) 1) 1) none 1,
    .print (.binary (.get "x" 1) .divide (number 0) 1) 1]

theorem runEntry_eq_extremes :
    ∃ m wide, (generate (Options.narrow {}) extremes).result = .ok m ∧
      (generate (Options.wide {}) extremes).result = .ok wide ∧ wide.RunsNarrow ∧
      runEntry m 0 = runEntry wide 0 ∧ (runEntry m 0).lines = ["-2147483648", "1"] := by
  obtain ⟨m, hm⟩ : ∃ m, (generate (Options.narrow {}) extremes).result = .ok m := ⟨_, rfl⟩
  obtain ⟨wide, hwide, heq⟩ := runEntry_eq_of_runsNarrow hm
  have hcheck : (generate (Options.wide {}) extremes).result.toOption.all
      (fun wide => wide.checkNarrow 100) = true := by
    decide +kernel
  rw [hwide] at hcheck
  have hnarrow := Module.runsNarrow_of_checkNarrow hcheck
  refine ⟨m, wide, hm, hwide, hnarrow, heq hnarrow 0, ?_⟩
  have hlines : (generate (Options.narrow {}) extremes).result.toOption.map
      (fun m => (runEntry m 0).lines) = some ["-2147483648", "1"] := by
    decide +kernel
  rw [hm] at hlines
  exact Option.some.inj hlines

end StackScript
