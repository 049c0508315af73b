import Mathlib.Logic.Relation
import StackScript.Proofs.TypedLowering

/-!
# Compiled modules do not go wrong

A host may call the functions of a compiled module in any order and as often as it likes. As long as
it gives each function as many arguments as it takes, of the type of the module, no call fails other
than by too many activations or, on integers, by a division. All values that are ever logged,
returned or stored have the type of the module.

What is stored in a cell need not be there when a call ends, so the states that a call passes through
are a relation of their own.

## Main definitions

* `Moment`, `Instance.Goes`: a place in an activation, and how a run goes on from there.
* `Moment.Returns`: what the function returns that is called at a moment.
* `HostCall`, `HostCall.Passes`: a call by the host, and the moments that it passes through.
* `HostCall.IsSafe`: a call fails in the expected ways only, and deals with values of one type.

## Main results

* `Module.WellTyped.safeOn_callFunction`: calls in a well-typed module are safe.
* `Moment.Typed.goes`: a step keeps a moment typed.
* `HostCall.exists_passes`: a call passes through the moment that decides its outcome.
* `isSafe_of_generate`: the calls of a host to a compiled module are safe.
-/

namespace StackScript

/-! ### Calls -/

section Calls

variable {Γ : Interface} {inst : Instance} {f : Func} {c : Code} {args : List Value} {store : Store}

/-- A call starts in a typed activation. -/
theorem Func.WellTyped.start (h : f.WellTyped Γ c) (hinst : inst.module.valueType = Γ.type)
    (hlength : args.length = f.arity) (hargs : ∀ v ∈ args, v.type = Γ.type) (hstore : store.Typed Γ) :
    (inst.start f args store).Typed Γ (f.params ++ f.locals) [] := by
  refine ⟨rfl, ?_, hstore⟩
  change Cells.Typed _ _ (f.initialLocals inst.module.valueType args)
  rw [hinst, Func.initialLocals_eq Γ.type h.nodup hlength]
  exact ⟨_, rfl, type_getD_lookup hargs f.params⟩

/-- What a typed function returns. -/
theorem Func.WellTyped.finish {a : Activation} {locals : List Text}
    (ha : a.Typed Γ locals (if f.result.isSome then [Γ.type] else [])) :
    ∃ result, f.finish a.stack = .ok result ∧ (∀ v, result = some v → v.type = Γ.type) ∧
      result.isSome = f.result.isSome := by
  cases hresult : f.result with
  | some t =>
    rw [hresult] at ha
    obtain ⟨v, st, cells, store, rfl, hv, hrest⟩ := ha.exists_top
    obtain rfl : st = [] := List.map_eq_nil_iff.mp hrest.stack
    refine ⟨some v, by simp [Func.finish, hresult], ?_, rfl⟩
    rintro _ ⟨⟩
    exact hv
  | none =>
    rw [hresult] at ha
    have hstack : a.stack = [] := List.map_eq_nil_iff.mp ha.stack
    exact ⟨none, by simp [Func.finish, hresult, hstack], by simp, rfl⟩

theorem Module.WellTyped.providedBy {callee : Callee} (hmodule : inst.module.WellTyped Γ)
    (hhost : ∀ logged v, inst.host logged v = .ok ())
    (hcallee : ∀ f c, f.WellTyped Γ c → callee.SafeOn Γ f) : Γ.ProvidedBy inst callee := by
  refine ⟨hmodule.valueType_eq, hmodule.nodup_globals, hhost, fun {name arity} harity => ?_⟩
  obtain ⟨hlog, f, hf, hcount, hresult⟩ := hmodule.callable harity
  obtain ⟨c, hc⟩ := hmodule.functions hf
  exact ⟨hlog, f, hf, hcount, hresult, hcallee f c hc⟩

/-- Calls in a well-typed module are safe, however many activations may still be opened. -/
theorem Module.WellTyped.safeOn_callFunction (hmodule : inst.module.WellTyped Γ)
    (hhost : ∀ logged v, inst.host logged v = .ok ()) (room : Nat) (f : Func) (c : Code)
    (h : f.WellTyped Γ c) : (callFunction inst room).SafeOn Γ f := by
  induction room generalizing f c with
  | zero => exact fun args store _ _ hstore => ⟨.callStackExhausted f.name, hstore⟩
  | succ room ih =>
    intro args store hlength hargs hstore
    have hstart := h.start hmodule.valueType_eq hlength hargs hstore
    have hsafe := h.types.safe (hmodule.providedBy hhost ih) h.nodup f.name hstart
    rw [callFunction_flatten inst room h.body_eq]
    generalize c.exec inst (callFunction inst room) f.name (inst.start f args store) = run
      at hsafe ⊢
    rcases run with ⟨trap | _, a⟩
    · exact hsafe
    · obtain ⟨result, hfinish, hv, hsome⟩ := Func.WellTyped.finish hsafe
      change Effect.Safe _ _ _ (f.finish a.stack, a.store)
      rw [hfinish]
      exact ⟨hv, hsome, hsafe.store⟩

end Calls

/-! ### The moments of a run -/

/-- A moment of a run: an activation of a function at a place of its body. Its calls may open `room`
activations within each other. -/
structure Moment where
  room : Nat
  function : Func
  place : Nat
  activation : Activation

/-- How a run goes on from a moment: behind an instruction that has been carried out, or in the
function that it calls. -/
inductive Instance.Goes (inst : Instance) : Moment → Moment → Prop
  | next {room place target : Nat} {f : Func} {jumps : JumpTable} {instr : Instr}
      {a a' : Activation} : jumpTable f.body = .ok jumps → f.body[place]? = some instr →
      stepInstr inst (callFunction inst room) f.name jumps place instr a = (.ok target, a') →
      Goes inst ⟨room, f, place, a⟩ ⟨room, f, max (place + 1) target, a'⟩
  | enter {room place : Nat} {f g : Func} {name : Text} {args : List Value}
      {a a' : Activation} : f.body[place]? = some (.call name) → name ≠ logFunction →
      inst.module.function? name = some g →
      Exec.popArguments f.name g.arity a = (.ok args, a') →
      Goes inst ⟨room + 1, f, place, a⟩ ⟨room, g, 0, inst.start g args a'.store⟩

/-- The function that is called at a moment returns a value. -/
def Moment.Returns (inst : Instance) (μ : Moment) (v : Value) : Prop :=
  ∃ name g args a', μ.function.body[μ.place]? = some (.call name) ∧ name ≠ logFunction ∧
    inst.module.function? name = some g ∧
    Exec.popArguments μ.function.name g.arity μ.activation = (.ok args, a') ∧
    (callFunction inst μ.room g args a'.store).1 = .ok (some v)

/-- The outcome of an activation is decided at a moment: at the end of the body, or by an
instruction that traps. -/
inductive Instance.Ends (inst : Instance) : Moment → Effect Activation Unit → Prop
  | finished {μ : Moment} : μ.function.body.length ≤ μ.place →
      Ends inst μ (.ok (), μ.activation)
  | trapped {μ : Moment} {jumps : JumpTable} {instr : Instr} {trap : Trap} {a : Activation} :
      jumpTable μ.function.body = .ok jumps → μ.function.body[μ.place]? = some instr →
      stepInstr inst (callFunction inst μ.room) μ.function.name jumps μ.place instr μ.activation =
        (.error trap, a) →
      Ends inst μ (.error trap, a)

/-- Running a body goes on, place by place, to the moment that decides the outcome. -/
theorem exists_ends_runFrom (inst : Instance) (room : Nat) {f : Func} {jumps : JumpTable}
    (hjumps : jumpTable f.body = .ok jumps) (place : Nat) (a : Activation) :
    ∃ μ, Relation.ReflTransGen inst.Goes ⟨room, f, place, a⟩ μ ∧
      inst.Ends μ (runFrom inst (callFunction inst room) f.name jumps f.body.toArray place a) := by
  -- the part of the body that is left gets shorter with every instruction
  induction hleft : f.body.length - place using Nat.strongRecOn generalizing place a with
  | ind left ih =>
    by_cases hplace : place < f.body.length
    · have hat : f.body[place]? = some f.body[place] := List.getElem?_eq_getElem hplace
      rw [runFrom, dif_pos (by simpa using hplace), List.getElem_toArray, bind_apply]
      rcases hstep : stepInstr inst (callFunction inst room) f.name jumps place f.body[place] a with
        ⟨trap | target, a'⟩
      · exact ⟨_, .refl, .trapped hjumps hat hstep⟩
      · obtain ⟨μ, hgoes, hends⟩ :=
          ih (f.body.length - max (place + 1) target) (by omega) (max (place + 1) target) a' rfl
        exact ⟨μ, .head (.next hjumps hat hstep) hgoes, hends⟩
    · rw [runFrom, dif_neg (by simpa using hplace)]
      exact ⟨_, .refl, .finished (Nat.le_of_not_lt hplace)⟩

/-- At a moment, some code is still to run, and it is typed for the stack there. -/
def Moment.Typed (Γ : Interface) (μ : Moment) : Prop :=
  ∃ jumps c σ, jumpTable μ.function.body = .ok jumps ∧
    Resumes μ.function.body jumps μ.place c ∧
    (μ.function.params ++ μ.function.locals).Nodup ∧
    c.Types Γ (μ.function.params ++ μ.function.locals) σ
      (if μ.function.result.isSome then [Γ.type] else []) ∧
    μ.activation.Typed Γ (μ.function.params ++ μ.function.locals) σ

section Moments

variable {Γ : Interface} {inst : Instance} {f : Func} {c : Code} {args : List Value} {store : Store}

/-- A call starts at a typed moment. -/
theorem Func.WellTyped.typed_start (h : f.WellTyped Γ c) (hinst : inst.module.valueType = Γ.type)
    (hlength : args.length = f.arity) (hargs : ∀ v ∈ args, v.type = Γ.type) (hstore : store.Typed Γ)
    (room : Nat) : Moment.Typed Γ ⟨room, f, 0, inst.start f args store⟩ := by
  refine ⟨c.jumps 0, c, [], ?_, ?_, h.nodup, h.types, h.start hinst hlength hargs hstore⟩
  · rw [h.body_eq, jumpTable_flatten]
  · rw [h.body_eq]
    exact resumes_flatten c

/-- An instruction that is carried out leads from a typed moment to a typed moment. -/
theorem Moment.Typed.next {callee : Callee} (hprovided : Γ.ProvidedBy inst callee)
    {room place target : Nat} {jumps : JumpTable} {instr : Instr} {a a' : Activation}
    (h : Moment.Typed Γ ⟨room, f, place, a⟩) (hjumps : jumpTable f.body = .ok jumps)
    (hat : f.body[place]? = some instr)
    (hstep : stepInstr inst callee f.name jumps place instr a = (.ok target, a')) :
    Moment.Typed Γ ⟨room, f, max (place + 1) target, a'⟩ := by
  obtain ⟨jumps', c, σ, hjumps', hresumes, hnodup, htypes, ha⟩ := h
  obtain rfl : jumps' = jumps := Except.ok.inj (hjumps'.symm.trans hjumps)
  change Resumes f.body jumps' place c at hresumes
  -- What is left of the body is typed code, so one step of it leaves typed code behind.
  cases hresumes with
  | stop hplace => rw [List.getElem?_eq_none hplace] at hat; cases hat
  | act hat' hrest =>
    obtain rfl := Option.some.inj (hat'.symm.trans hat)
    cases htypes with
    | act haction htypes =>
      have hsafe := haction.safe hprovided hnodup f.name ha
      rw [stepInstr_instr, bind_apply] at hstep
      generalize Action.exec inst callee f.name _ a = outcome at hsafe hstep
      rcases outcome with ⟨trap | _, a₁⟩ <;> cases hstep
      exact ⟨jumps', _, _, hjumps, by rwa [Nat.max_self], hnodup, htypes, hsafe⟩
  -- compiled conditionals always have both parts
  | ifThen => cases htypes
  | ifElse hat' hjump hfirst hsecond =>
    obtain rfl := Option.some.inj (hat'.symm.trans hat)
    cases htypes with
    | ifElse hfirst' hsecond' hrest' =>
      obtain ⟨v, st, cells, store, rfl, -, htail⟩ := ha.exists_top
      rw [stepInstr, bind_apply, onStack_pop_apply, Effect.andThen_ok] at hstep
      cases hstep
      -- either part is followed by what stands behind the conditional
      split
      · rw [Nat.max_eq_right hjump]
        exact ⟨jumps', _, _, hjumps, hsecond, hnodup, hsecond'.append hrest', htail⟩
      · rw [Nat.max_self]
        exact ⟨jumps', _, _, hjumps, hfirst, hnodup, hfirst'.append hrest', htail⟩
  | openElse hat' hjump hrest =>
    obtain rfl := Option.some.inj (hat'.symm.trans hat)
    cases hstep
    exact ⟨jumps', c, σ, hjumps, by rwa [Nat.max_eq_right hjump], hnodup, htypes, ha⟩
  | closeIf hat' hrest =>
    obtain rfl := Option.some.inj (hat'.symm.trans hat)
    cases hstep
    exact ⟨jumps', c, σ, hjumps, by rwa [Nat.max_self], hnodup, htypes, ha⟩

/-- A function that is called at a typed moment is well typed, and gets what it takes. -/
theorem Moment.Typed.exists_wellTyped (hmodule : inst.module.WellTyped Γ) {room place : Nat}
    {g : Func} {name : Text} {a a' : Activation} (h : Moment.Typed Γ ⟨room, f, place, a⟩)
    (hat : f.body[place]? = some (.call name)) (hlog : name ≠ logFunction)
    (hfind : inst.module.function? name = some g)
    (hpop : Exec.popArguments f.name g.arity a = (.ok args, a')) :
    ∃ body, g.WellTyped Γ body ∧ args.length = g.arity ∧ (∀ v ∈ args, v.type = Γ.type) ∧
      a'.store.Typed Γ := by
  obtain ⟨jumps, c, σ, hjumps, hresumes, -, htypes, ha⟩ := h
  change Resumes f.body jumps place c at hresumes
  obtain ⟨body, hbody⟩ := hmodule.functions hfind
  cases hresumes with
  | stop hplace => rw [List.getElem?_eq_none hplace] at hat; cases hat
  | @act _ action _ hat' hrest =>
    -- the marks of a conditional are no calls, so this is the only case left
    obtain rfl : action = .call name := by
      have hinstr : action.instr = .call name := Option.some.inj (hat'.symm.trans hat)
      cases action <;> cases hinstr
      rfl
    cases htypes with
    | act haction _ =>
      cases haction with
      | log => exact absurd rfl hlog
      | call harity =>
        obtain ⟨-, g', hfind', rfl, -⟩ := hmodule.callable harity
        obtain rfl : g' = g := Option.some.inj (hfind'.symm.trans hfind)
        -- the arguments on the stack are the values that the callee starts with
        obtain ⟨values, st, cells, store, rfl, hlength, hvalues, hrest⟩ := ha.exists_arguments
        rw [← hlength, popArguments_apply] at hpop
        cases hpop
        exact ⟨body, hbody, hlength, hvalues, hrest.store⟩
  | ifThen hat' => rw [hat'] at hat; cases hat
  | ifElse hat' => rw [hat'] at hat; cases hat
  | openElse hat' => rw [hat'] at hat; cases hat
  | closeIf hat' => rw [hat'] at hat; cases hat

/-- A function that is called at a typed moment returns values of the type of the module. -/
theorem Moment.Typed.type_of_returns (hmodule : inst.module.WellTyped Γ)
    (hhost : ∀ logged v, inst.host logged v = .ok ()) {μ : Moment} (h : μ.Typed Γ) {v : Value}
    (hreturns : μ.Returns inst v) : v.type = Γ.type := by
  obtain ⟨name, g, args, a', hat, hlog, hfind, hpop, hresult⟩ := hreturns
  obtain ⟨body, hbody, hlength, hargs, hstore⟩ := h.exists_wellTyped hmodule hat hlog hfind hpop
  have hsafe := hmodule.safeOn_callFunction hhost μ.room g body hbody args a'.store hlength hargs
    hstore
  rw [← Prod.eta (callFunction inst μ.room g args a'.store), hresult] at hsafe
  exact hsafe.1 v rfl

/-- A run goes from typed moments to typed moments only. -/
theorem Moment.Typed.goes (hmodule : inst.module.WellTyped Γ)
    (hhost : ∀ logged v, inst.host logged v = .ok ()) {μ μ' : Moment} (h : μ.Typed Γ)
    (hgoes : inst.Goes μ μ') : μ'.Typed Γ := by
  cases hgoes with
  | @next room _ _ _ _ _ _ _ hjumps hat hstep =>
    have hprovided := hmodule.providedBy hhost (hmodule.safeOn_callFunction hhost room)
    exact h.next hprovided hjumps hat hstep
  | enter hat hlog hfind hpop =>
    obtain ⟨body, hbody, hlength, hargs, hstore⟩ := h.exists_wellTyped hmodule hat hlog hfind hpop
    exact hbody.typed_start hmodule.valueType_eq hlength hargs hstore _

theorem Moment.Typed.of_reflTransGen (hmodule : inst.module.WellTyped Γ)
    (hhost : ∀ logged v, inst.host logged v = .ok ()) {μ μ' : Moment} (h : μ.Typed Γ)
    (hgoes : Relation.ReflTransGen inst.Goes μ μ') : μ'.Typed Γ := by
  induction hgoes with
  | refl => exact h
  | tail _ hlast ih => exact ih.goes hmodule hhost hlast

end Moments

/-! ### Calls by the host -/

/-- A host's number is of a type: it is a value of the type, or an untyped number that stands for
one. -/
def Scalar.HasType (t : ValueType) : Scalar → Prop
  | datum d => ∃ v, Value.ofDatum t d = .ok v
  | value v => v.type = t

/-- A call by the host. -/
structure HostCall where
  name : Text
  args : List Scalar

namespace HostCall

/-- A call names a function of a module and gives it as many arguments as it takes, all of the type
of the module. -/
def Fits (m : Module) (call : HostCall) : Prop :=
  ∃ f, m.function? call.name = some f ∧ call.args.length = f.arity ∧
    ∀ a ∈ call.args, a.HasType m.valueType

/-- The outcome of a call. -/
def run (inst : Instance) (store : Store) (call : HostCall) : Effect Store (Option Value) :=
  inst.invoke store call.name call.args

/-- The store after some calls, whatever their outcomes. -/
def storeAfter (inst : Instance) (store : Store) (calls : List HostCall) : Store :=
  calls.foldl (fun store call => (call.run inst store).2) store

/-- A call passes through a moment. -/
def Passes (inst : Instance) (store : Store) (call : HostCall) (μ : Moment) : Prop :=
  ∃ f args, inst.prepare call.name call.args = .ok (f, args) ∧
    Relation.ReflTransGen inst.Goes ⟨maxActivations - 1, f, 0, inst.start f args store⟩ μ

/-- A call of a function with matching markers passes through the moment that decides its outcome. -/
theorem exists_passes {inst : Instance} {call : HostCall} {f : Func} {args : List Value}
    {jumps : JumpTable} (hprepare : inst.prepare call.name call.args = .ok (f, args))
    (hjumps : jumpTable f.body = .ok jumps) (store : Store) :
    ∃ μ result final, call.Passes inst store μ ∧ inst.Ends μ (result, final) ∧
      call.run inst store = (result.bind fun _ => f.finish final.stack, final.store) := by
  obtain ⟨μ, hgoes, hends⟩ :=
    exists_ends_runFrom inst (maxActivations - 1) hjumps 0 (inst.start f args store)
  refine ⟨μ, _, _, ⟨f, args, hprepare, hgoes⟩, hends, ?_⟩
  rw [run, Instance.invoke, hprepare]
  change callFunction inst (maxActivations - 1 + 1) f args store = _
  rw [callFunction, hjumps]
  rfl

section Safety

variable {Γ : Interface} {inst : Instance} {call : HostCall} {store : Store}

/-- Arguments of a type stand for values of the type. -/
theorem exists_mapM_toValue {t : ValueType} {args : List Scalar} (h : ∀ a ∈ args, a.HasType t) :
    ∃ values, args.mapM (fun a => a.toValue t) = .ok values ∧ values.length = args.length ∧
      ∀ v ∈ values, v.type = t := by
  induction args with
  | nil => exact ⟨[], rfl, rfl, by simp⟩
  | cons a rest ih =>
    obtain ⟨ha, hrest⟩ := List.forall_mem_cons.mp h
    obtain ⟨values, hvalues, hlength, htype⟩ := ih hrest
    obtain ⟨v, hv, hvtype⟩ : ∃ v, a.toValue t = .ok v ∧ v.type = t := by
      cases a with
      | datum d => exact ha.imp fun v hv => ⟨hv, Value.type_of_ofDatum hv⟩
      | value v => exact ⟨v, Value.convert_of_type ha, ha⟩
    refine ⟨v :: values, ?_, by rw [List.length_cons, hlength, List.length_cons],
      List.forall_mem_cons.mpr ⟨hvtype, htype⟩⟩
    rw [List.mapM_cons, hv, hvalues]
    rfl

/-- A call that fits finds its function and its arguments. -/
theorem Fits.exists_prepare (h : call.Fits inst.module) :
    ∃ f args, inst.prepare call.name call.args = .ok (f, args) ∧
      inst.module.function? call.name = some f ∧ args.length = f.arity ∧
      ∀ v ∈ args, v.type = inst.module.valueType := by
  obtain ⟨f, hf, hlength, hargs⟩ := h
  obtain ⟨values, hvalues, hcount, htype⟩ := exists_mapM_toValue hargs
  refine ⟨f, values, ?_, hf, hcount.trans hlength, htype⟩
  rw [Instance.prepare, hf]
  simp [hlength, hvalues, Trap.ofConversion]

/-- The outcome of a call that fits. -/
theorem Fits.safe_run (hmodule : inst.module.WellTyped Γ)
    (hhost : ∀ logged v, inst.host logged v = .ok ()) (hcall : call.Fits inst.module)
    (hstore : store.Typed Γ) :
    Effect.Safe Γ.type (Store.Typed Γ)
      (fun result store' => (∀ v, result = some v → v.type = Γ.type) ∧ store'.Typed Γ)
      (call.run inst store) := by
  obtain ⟨f, args, hprepare, hfind, hlength, hargs⟩ := hcall.exists_prepare
  obtain ⟨c, hc⟩ := hmodule.functions hfind
  rw [hmodule.valueType_eq] at hargs
  have hsafe := hmodule.safeOn_callFunction hhost maxActivations f c hc args store hlength hargs
    hstore
  rw [run, Instance.invoke, hprepare]
  change Effect.Safe _ _ _ (callFunction inst maxActivations f args store)
  generalize callFunction inst maxActivations f args store = outcome at hsafe ⊢
  rcases outcome with ⟨trap | result, store'⟩
  · exact hsafe
  · exact ⟨hsafe.1, hsafe.2.2⟩

theorem Fits.typed_run (hmodule : inst.module.WellTyped Γ)
    (hhost : ∀ logged v, inst.host logged v = .ok ()) (hcall : call.Fits inst.module)
    (hstore : store.Typed Γ) : (call.run inst store).2.Typed Γ := by
  have hsafe := hcall.safe_run hmodule hhost hstore
  generalize call.run inst store = outcome at hsafe ⊢
  rcases outcome with ⟨trap | result, store'⟩
  · exact hsafe.2
  · exact hsafe.2

/-- Calls that fit keep the store typed. -/
theorem typed_storeAfter (hmodule : inst.module.WellTyped Γ)
    (hhost : ∀ logged v, inst.host logged v = .ok ()) {calls : List HostCall}
    (hcalls : ∀ call ∈ calls, call.Fits inst.module) (hstore : store.Typed Γ) :
    (storeAfter inst store calls).Typed Γ := by
  induction calls generalizing store with
  | nil => exact hstore
  | cons call rest ih =>
    obtain ⟨hcall, hrest⟩ := List.forall_mem_cons.mp hcalls
    exact ih hrest (hcall.typed_run hmodule hhost hstore)

/-- A call that fits passes through typed moments only. -/
theorem Fits.typed_of_passes (hmodule : inst.module.WellTyped Γ)
    (hhost : ∀ logged v, inst.host logged v = .ok ()) (hcall : call.Fits inst.module)
    (hstore : store.Typed Γ) {μ : Moment} (hpasses : call.Passes inst store μ) : μ.Typed Γ := by
  obtain ⟨f, args, hprepare, hfind, hlength, hargs⟩ := hcall.exists_prepare
  obtain ⟨f', args', hprepare', hgoes⟩ := hpasses
  cases hprepare.symm.trans hprepare'
  obtain ⟨c, hc⟩ := hmodule.functions hfind
  rw [hmodule.valueType_eq] at hargs
  exact (hc.typed_start hmodule.valueType_eq hlength hargs hstore _).of_reflTransGen hmodule hhost hgoes

end Safety

/-- A call fails in the expected ways only, and all values that it or a call within it returns, logs
or stores in a cell have a type. -/
structure IsSafe (t : ValueType) (inst : Instance) (store : Store) (call : HostCall) : Prop where
  returned : ∀ v, (call.run inst store).1 = .ok (some v) → v.type = t
  returnedWithin : ∀ μ, call.Passes inst store μ → ∀ v, μ.Returns inst v → v.type = t
  expected : ∀ trap, (call.run inst store).1 = .error trap → trap.Expected t
  logged : ∀ v ∈ (call.run inst store).2.log, v.type = t
  stored : ∀ μ, call.Passes inst store μ →
    ∀ cell ∈ μ.activation.locals ++ μ.activation.store.globals, cell.2.type = t

theorem Fits.isSafe {Γ : Interface} {inst : Instance} {call : HostCall} {store : Store}
    (hmodule : inst.module.WellTyped Γ) (hhost : ∀ logged v, inst.host logged v = .ok ())
    (hcall : call.Fits inst.module) (hstore : store.Typed Γ) : call.IsSafe Γ.type inst store := by
  have hsafe := hcall.safe_run hmodule hhost hstore
  have htyped {μ : Moment} (hpasses : call.Passes inst store μ) : μ.Typed Γ :=
    hcall.typed_of_passes hmodule hhost hstore hpasses
  refine ⟨fun v hv => ?_, fun μ hpasses v hv => ?_, fun trap htrap => ?_, fun v hv => ?_,
    fun μ hpasses cell hcell => ?_⟩
  · rw [← Prod.eta (call.run inst store), hv] at hsafe
    exact hsafe.1 v rfl
  · exact (htyped hpasses).type_of_returns hmodule hhost hv
  · rw [← Prod.eta (call.run inst store), htrap] at hsafe
    exact hsafe.1
  · exact (hcall.typed_run hmodule hhost hstore).logged v (List.mem_reverse.mp hv)
  · obtain ⟨_, _, _, _, _, _, _, ha⟩ := htyped hpasses
    rcases List.mem_append.mp hcell with hcell | hcell
    · exact ha.locals.type_of_mem hcell
    · exact ha.store.globals.type_of_mem hcell

end HostCall

/-- However a host calls the functions of a compiled module, with arguments that fit, the calls are
safe. -/
theorem isSafe_of_generate {options : Options} {program : Program} {m : Module}
    (h : (generate options program).result = .ok m) {host : Host}
    (hhost : ∀ logged v, host logged v = .ok ()) :
    ∃ inst initial, instantiate m (some host) = .ok (inst, initial) ∧
      ∀ (before : List HostCall) (call : HostCall), (∀ c ∈ before, c.Fits m) → call.Fits m →
        call.IsSafe m.valueType inst (HostCall.storeAfter inst initial before) := by
  obtain ⟨c, final, hprogram⟩ := exists_compiledProgram h
  obtain ⟨memory, hmemory⟩ := hprogram.laidOut.exists_initialMemory
  have hmodule : m.WellTyped final.interface := hprogram.wellTyped
  refine ⟨⟨m, host, memory⟩, m.initialStore, by rw [instantiate, hmemory]; rfl, ?_⟩
  intro before call hbefore hcall
  have hstore : (HostCall.storeAfter ⟨m, host, memory⟩ m.initialStore before).Typed
      final.interface :=
    HostCall.typed_storeAfter hmodule hhost hbefore hmodule.initialStore
  rw [hmodule.valueType_eq]
  exact HostCall.Fits.isSafe hmodule hhost hcall hstore

/-- A program that divides. -/
def dividing : Program :=
  [.function "quotient" ["a", "b"] [.binary (.get "a" 1) .divide (.get "b" 1) 1] 1]

/-- A division after one that traps. -/
theorem isSafe_dividing :
    ∃ m, (generate { valueType := .i32 } dividing).result = .ok m ∧
      ∃ inst initial, instantiate m (some .accepting) = .ok (inst, initial) ∧
        (⟨"quotient", [.value (.i32 6), .datum (.int 3)]⟩ : HostCall).IsSafe .i32 inst
          (HostCall.storeAfter inst initial [⟨"quotient", [.value (.i32 1), .value (.i32 0)]⟩]) := by
  obtain ⟨m, hm⟩ : ∃ m, (generate { valueType := .i32 } dividing).result = .ok m := ⟨_, rfl⟩
  obtain ⟨inst, initial, hinst, hsafe⟩ := isSafe_of_generate hm fun _ _ => rfl
  cases hm
  refine ⟨_, rfl, inst, initial, hinst, hsafe _ _ ?_ ?_⟩
  · refine List.forall_mem_singleton.mpr ⟨_, rfl, rfl, ?_⟩
    exact List.forall_mem_cons.mpr ⟨rfl, List.forall_mem_singleton.mpr rfl⟩
  · refine ⟨_, rfl, rfl, ?_⟩
    exact List.forall_mem_cons.mpr ⟨rfl, List.forall_mem_singleton.mpr ⟨_, rfl⟩⟩

end StackScript
