import StackScript.Proofs.CallStack
import StackScript.Proofs.CodePieces

/-!
# What stays on the stacks

A call may keep a property of values: whatever it pushes on an operand stack has the property. Since
an instruction pushes one value at most, every value that is pushed is on a stack in the state that
follows. So such a call is one whose states all have only values with the property on their stacks.

Here this is brought from the states of a call to the code that runs in it. If the property is kept
from a place on, where some code is still to run, then it is kept after the first action of the
code, in the part of a conditional that is taken, and in a function that is called.

## Main definitions

* `Config.OnStacks`: the values on the stacks of a state have a property.
* `Instance.Keeps`: so do those of every state that follows.
* `Instance.KeepsIn`, `Instance.KeepsCall`: the same where code is still to run in an activation,
  and where a function is called.

## Main results

* `Instance.KeepsIn.act`, `Instance.KeepsIn.ifElse`, `Instance.KeepsIn.append`: after an action, in
  a part, after some code.
* `Instance.KeepsIn.call`, `Instance.KeepsCall.start`: in a function that is called.
* `Instance.keeps_of_checkStacks`: a call that ends can be checked.
-/

namespace StackScript

open Exec

/-- The values on the operand stacks of a state have a property. -/
def Config.OnStacks (P : Value → Prop) (c : Config) : Prop :=
  ∀ frame ∈ c.opened, ∀ v ∈ frame.stack, P v

instance (P : Value → Prop) [DecidablePred P] (c : Config) : Decidable (c.OnStacks P) :=
  inferInstanceAs (Decidable (∀ frame ∈ c.opened, ∀ v ∈ frame.stack, P v))

namespace Instance

variable {inst : Instance} {P : Value → Prop} {room : Nat} {function : Text} {k : Code}
  {a b : Activation}

/-- From a state on, the values on the operand stacks have a property. -/
def Keeps (inst : Instance) (P : Value → Prop) (c : Config) : Prop :=
  ∀ c', Relation.ReflTransGen inst.Steps c c' → c'.OnStacks P

theorem Keeps.of_steps {c c' : Config} (h : inst.Keeps P c)
    (hsteps : Relation.ReflTransGen inst.Steps c c') : inst.Keeps P c' :=
  fun c'' hmore => h c'' (hsteps.trans hmore)

/-- Whether a call ends within some steps, with the property in every state. -/
def checkStacks (inst : Instance) (P : Value → Prop) [DecidablePred P] : Nat → Config → Bool
  | 0, _ => false
  | steps + 1, c => decide (c.OnStacks P) && (inst.step c).all fun c' => inst.checkStacks P steps c'

theorem keeps_of_checkStacks [DecidablePred P] {steps : Nat} {c : Config}
    (h : inst.checkStacks P steps c = true) : inst.Keeps P c := by
  induction steps generalizing c with
  | zero => cases h
  | succ steps ih =>
    rw [checkStacks, Bool.and_eq_true, decide_eq_true_eq] at h
    intro c' hsteps
    rcases hsteps.cases_head with rfl | ⟨c₁, hstep, hmore⟩
    · exact h.1
    · have hnext : inst.step c = some c₁ := hstep
      rw [hnext] at h
      exact ih h.2 c' hmore

/-- A property is kept from a place of a body on, where some code is still to run in an activation.
-/
structure KeepsAt (inst : Instance) (P : Value → Prop) (room : Nat) (k : Code) (a : Activation)
    (f : Func) (jumps : JumpTable) (place : Nat) (outer : List OpenActivation) (machine : Machine) :
    Prop where
  valid : (Config.run ⟨f, jumps, place, a.stack, a.locals⟩ outer machine).Valid inst.module
  room_eq : outer.length + 1 + room = maxActivations
  resumes : Resumes f.body jumps place k
  store_eq : machine.store = a.store
  keeps : inst.Keeps P (.run ⟨f, jumps, place, a.stack, a.locals⟩ outer machine)

/-- A property is kept while some code runs in an activation of a function of a name, and after
that. -/
def KeepsIn (inst : Instance) (P : Value → Prop) (room : Nat) (function : Text) (k : Code)
    (a : Activation) : Prop :=
  ∃ f jumps place outer machine, f.name = function ∧
    inst.KeepsAt P room k a f jumps place outer machine

/-- A property is kept in a call, and after it. -/
def KeepsCall (inst : Instance) (P : Value → Prop) (room : Nat) (f : Func) (args : List Value)
    (store : Store) : Prop :=
  ∃ outer machine, (Config.enter f args outer machine).Valid inst.module ∧
    outer.length + room = maxActivations ∧ machine.store = store ∧
    inst.Keeps P (.enter f args outer machine)

namespace KeepsAt

variable {f : Func} {jumps : JumpTable} {place : Nat} {outer : List OpenActivation}
  {machine : Machine}

theorem activation_eq (h : inst.KeepsAt P room k a f jumps place outer machine) :
    OpenActivation.activation ⟨f, jumps, place, a.stack, a.locals⟩ machine.store = a := by
  rw [h.store_eq]
  rfl

/-- A property is kept after an instruction. -/
theorem stepInstr (h : inst.KeepsAt P room k a f jumps place outer machine) {instr : Instr}
    (hinstr : f.body[place]? = some instr) {next : Nat}
    (hstep : stepInstr inst (callFunction inst room) f.name jumps place instr a = (.ok next, b))
    {k' : Code} (hresumes : Resumes f.body jumps next k') :
    ∃ machine', inst.KeepsAt P room k' b f jumps next outer machine' := by
  have hcalls : inst.Performs room := inst.exists_steps_callFunction room
  obtain ⟨result, b', machine', heq, hstore, hsteps⟩ :=
    hcalls.exists_steps_instr h.valid h.room_eq hinstr
  dsimp only at heq
  rw [h.activation_eq, hstep] at heq
  cases heq
  rcases hsteps with ⟨_, hnext, -, hsteps⟩ | ⟨trap, htrap, -⟩
  · cases hnext
    exact ⟨machine', h.valid.of_steps hsteps, h.room_eq, hresumes, hstore, h.keeps.of_steps hsteps⟩
  · cases htrap

/-- The markers in front of some code are passed, and nothing happens. -/
theorem exists_unmarked (h : inst.KeepsAt P room k a f jumps place outer machine) :
    ∃ place' machine', inst.KeepsAt P room k a f jumps place' outer machine' ∧
      ∀ instr, f.body[place']? = some instr → instr ≠ .openElse ∧ instr ≠ .closeIf := by
  -- the induction passes one marker after another
  induction h.resumes generalizing machine with
  | stop hle =>
    refine ⟨_, machine, h, fun instr hinstr => ?_⟩
    rw [List.getElem?_eq_none hle] at hinstr
    cases hinstr
  | @act place action rest hat _ _ =>
    refine ⟨_, machine, h, fun instr hinstr => ?_⟩
    cases hat.symm.trans hinstr
    cases action <;> exact ⟨nofun, nofun⟩
  | ifThen hat _ _ _ _ _ =>
    refine ⟨_, machine, h, fun instr hinstr => ?_⟩
    cases hat.symm.trans hinstr
    exact ⟨nofun, nofun⟩
  | ifElse hat _ _ _ _ _ =>
    refine ⟨_, machine, h, fun instr hinstr => ?_⟩
    cases hat.symm.trans hinstr
    exact ⟨nofun, nofun⟩
  | openElse hat _ hrest ih =>
    obtain ⟨machine', h'⟩ := h.stepInstr hat rfl hrest
    exact ih h'
  | closeIf hat hrest ih =>
    obtain ⟨machine', h'⟩ := h.stepInstr hat rfl hrest
    exact ih h'

end KeepsAt

namespace KeepsIn

/-- The values on the stack of the activation have the property. -/
theorem of_mem_stack (h : inst.KeepsIn P room function k a) {v : Value} (hv : v ∈ a.stack) :
    P v := by
  obtain ⟨f, jumps, place, outer, machine, -, hat⟩ := h
  exact hat.keeps _ .refl _ List.mem_cons_self v hv

/-- An action is the next instruction. -/
theorem exists_action {action : Action} (h : inst.KeepsIn P room function (.act action k) a) :
    ∃ f jumps place outer machine, f.name = function ∧
      inst.KeepsAt P room (.act action k) a f jumps place outer machine ∧
      f.body[place]? = some action.instr ∧ Resumes f.body jumps (place + 1) k := by
  obtain ⟨f, jumps, place, outer, machine, hname, hat⟩ := h
  obtain ⟨place', machine', hat', hmarker⟩ := hat.exists_unmarked
  refine ⟨f, jumps, place', outer, machine', hname, hat', ?_⟩
  cases hat'.resumes with
  | act hinstr hrest => exact ⟨hinstr, hrest⟩
  | openElse hinstr _ _ => exact absurd rfl (hmarker _ hinstr).1
  | closeIf hinstr _ => exact absurd rfl (hmarker _ hinstr).2

/-- The property is kept after an action. -/
theorem act {action : Action} (h : inst.KeepsIn P room function (.act action k) a)
    (hexec : action.exec inst (callFunction inst room) function a = (.ok (), b)) :
    inst.KeepsIn P room function k b := by
  obtain ⟨f, jumps, place, outer, machine, rfl, hat, hinstr, hrest⟩ := h.exists_action
  have hstep : StackScript.stepInstr inst (callFunction inst room) f.name jumps place
      action.instr a = (.ok (place + 1), b) := by
    rw [stepInstr_instr, bind_apply, hexec]
    rfl
  obtain ⟨machine', hat'⟩ := hat.stepInstr hinstr hstep hrest
  exact ⟨f, jumps, place + 1, outer, machine', rfl, hat'⟩

/-- The property is kept in a function that is called. -/
theorem call {name : Text} (h : inst.KeepsIn P room function (.act (.call name) k) a)
    (hname : name ≠ logFunction) {f : Func} (hf : inst.module.function? name = some f)
    {args : List Value} (hpop : popArguments function f.arity a = (.ok args, b)) :
    inst.KeepsCall P room f args b.store := by
  obtain ⟨caller, jumps, place, outer, machine, rfl, hat, hinstr, -⟩ := h.exists_action
  have hcallee : inst.callee? (Action.call name).instr = some f := by
    rw [Action.instr, callee?, if_neg hname, hf]
  rw [← hat.activation_eq] at hpop
  have hstep : inst.Steps (.run ⟨caller, jumps, place, a.stack, a.locals⟩ outer machine)
      (inst.stepRun ⟨caller, jumps, place, a.stack, a.locals⟩ outer machine) := rfl
  rw [stepRun_call hinstr hcallee hpop] at hstep
  exact ⟨_, _, hat.valid.step hstep, hat.room_eq, rfl, hat.keeps.of_steps (.single hstep)⟩

section Conditionals

variable {v : Value} {st : List Value} {locals : Cells} {store : Store}

/-- A conditional pops its condition and goes on in one of its parts. -/
theorem of_openIf (h : inst.KeepsIn P room function k ⟨v :: st, locals, store⟩) {k' : Code}
    (hopen : ∀ {body jumps place}, Resumes body jumps place k →
      (∀ instr, body[place]? = some instr → instr ≠ .openElse ∧ instr ≠ .closeIf) →
        body[place]? = some .openIf ∧
          Resumes body jumps (if v.isZero then jumps.target place else place + 1) k') :
    inst.KeepsIn P room function k' ⟨st, locals, store⟩ := by
  obtain ⟨f, jumps, place, outer, machine, hname, hat⟩ := h
  obtain ⟨place', machine', hat', hmarker⟩ := hat.exists_unmarked
  obtain ⟨hinstr, hpart⟩ := hopen hat'.resumes hmarker
  obtain ⟨machine'', hat''⟩ := hat'.stepInstr hinstr rfl hpart
  exact ⟨f, jumps, _, outer, machine'', hname, hat''⟩

/-- The property is kept in the part of a conditional that is taken. -/
theorem ifElse {first second rest : Code}
    (h : inst.KeepsIn P room function (.ifElse first second rest) ⟨v :: st, locals, store⟩) :
    inst.KeepsIn P room function ((if v.isZero then second else first) ++ rest)
      ⟨st, locals, store⟩ := by
  refine h.of_openIf fun hresumes hmarker => ?_
  cases hresumes with
  | ifElse hinstr _ hfirst hsecond =>
    refine ⟨hinstr, ?_⟩
    split
    · exact hsecond
    · exact hfirst
  | openElse hinstr _ _ => exact absurd rfl (hmarker _ hinstr).1
  | closeIf hinstr _ => exact absurd rfl (hmarker _ hinstr).2

theorem ifThen {first rest : Code}
    (h : inst.KeepsIn P room function (.ifThen first rest) ⟨v :: st, locals, store⟩) :
    inst.KeepsIn P room function ((if v.isZero then .done else first) ++ rest)
      ⟨st, locals, store⟩ := by
  refine h.of_openIf fun hresumes hmarker => ?_
  cases hresumes with
  | ifThen hinstr _ hfirst hrest =>
    refine ⟨hinstr, ?_⟩
    split
    · exact hrest
    · exact hfirst
  | openElse hinstr _ _ => exact absurd rfl (hmarker _ hinstr).1
  | closeIf hinstr _ => exact absurd rfl (hmarker _ hinstr).2

end Conditionals

/-- The property is kept after some code. -/
theorem append {c : Code} (h : inst.KeepsIn P room function (c ++ k) a)
    (hexec : c.exec inst (callFunction inst room) function a = (.ok (), b)) :
    inst.KeepsIn P room function k b := by
  induction c generalizing k a b with
  | done =>
    cases hexec
    exact h
  | act action rest ih =>
    rw [exec_act] at hexec
    obtain ⟨_, a', haction, hrest⟩ := Effect.andThen_eq_ok hexec
    exact ih (h.act haction) hrest
  | ifThen first rest ihfirst ih =>
    rcases a with ⟨_ | ⟨v, st⟩, locals, store⟩
    · cases hexec
    rw [Code.exec, bind_apply, onStack_pop_apply, Effect.andThen_ok, bind_apply] at hexec
    obtain ⟨_, a', hpart, hrest⟩ := Effect.andThen_eq_ok hexec
    have hparts := h.ifThen
    split at hpart
    · rename_i hzero
      rw [if_pos hzero] at hparts
      cases hpart
      exact ih hparts hrest
    · rename_i hzero
      rw [if_neg hzero] at hparts
      exact ih (ihfirst hparts hpart) hrest
  | ifElse first second rest ihfirst ihsecond ih =>
    rcases a with ⟨_ | ⟨v, st⟩, locals, store⟩
    · cases hexec
    rw [exec_ifElse] at hexec
    obtain ⟨_, a', hpart, hrest⟩ := Effect.andThen_eq_ok hexec
    have hparts := h.ifElse
    split at hpart
    · rename_i hzero
      rw [if_pos hzero] at hparts
      exact ih (ihsecond hparts hpart) hrest
    · rename_i hzero
      rw [if_neg hzero] at hparts
      exact ih (ihfirst hparts hpart) hrest

end KeepsIn

/-- The property is kept when the body of a function starts. -/
theorem KeepsCall.start {f : Func} {args : List Value} {store : Store}
    (h : inst.KeepsCall P (room + 1) f args store) {c : Code} (hbody : f.body = c.flatten) :
    inst.KeepsIn P room f.name c (inst.start f args store) := by
  obtain ⟨outer, machine, hvalid, hroom, hstore, hkeeps⟩ := h
  have hstep : inst.Steps (.enter f args outer machine) (inst.stepEnter f args outer machine) := rfl
  rcases hvalid.stepEnter_cases with
    ⟨hfull, -⟩ | ⟨-, ⟨trap, hjumps, -⟩ | ⟨jumps, tables, hjumps, heq, -⟩⟩
  · omega
  · -- the markers of code match
    rw [hbody, jumpTable_flatten] at hjumps
    cases hjumps
  · rw [hbody, jumpTable_flatten] at hjumps
    cases hjumps
    rw [heq] at hstep
    refine ⟨f, _, 0, outer, _, rfl, hvalid.step hstep, by omega, ?_, hstore,
      hkeeps.of_steps (.single hstep)⟩
    rw [hbody]
    exact resumes_flatten c

end Instance

end StackScript
