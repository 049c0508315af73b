import StackScript.Proofs.CallStack
import StackScript.Proofs.RelatedStores

/-!
# After any calls

A host may call a module any number of times, and calls may fail: by a trap at any depth, or because
the host refuses a value. Whatever has happened, between calls no activation is open, the module has
the globals and the memory it started with, and the jump tables that are held are the right ones. So
only the values of the globals carry over to the next call: it does what it would do on a new
machine with these globals.

What a host does may depend on the values it has seen. A new machine is therefore compared on the
host as it is after those.

## Main definitions

* `Host.after`: a host that has seen some values.

## Main results

* `storeRelation_after`: runs do not depend on what was logged before, except through the host.
* `Machine.Idle.kept_by_reaches`: what calls leave as it was.
* `only_globals_carry_over`: after any calls, the next one depends on the globals only.
-/

namespace StackScript

/-! ### What calls leave as it was -/

/-- Steps keep the memory. -/
theorem Config.Valid.memory_eq {inst : Instance} {c c' : Config} (h : c.Valid inst.module)
    (hstep : inst.Steps c c') : c'.machine.memory = c.machine.memory := by
  cases c with
  | enter f args outer machine =>
    cases hstep
    rcases h.stepEnter_cases with
      ⟨-, heq⟩ | ⟨-, ⟨trap, -, heq⟩ | ⟨jumps, tables, -, heq, -⟩⟩ <;> rw [heq] <;> rfl
  | run frame outer machine =>
    cases hstep
    have hjumps := (List.forall_mem_cons.mp h.forward).1
    rcases inst.stepRun_cases hjumps with
      ⟨-, heq⟩ | ⟨next, a, -, -, heq | ⟨trap, heq⟩ | ⟨f, args, -, heq⟩⟩ <;> rw [heq] <;> rfl
  | close result frame outer machine =>
    cases hstep
    rfl
  | leave result outer machine =>
    rcases outer with _ | ⟨frame, outer⟩ <;> rcases result with trap | returned <;>
      cases hstep <;> rfl

theorem Config.Valid.memory_eq_of_steps {inst : Instance} {c c' : Config} (h : c.Valid inst.module)
    (hsteps : Relation.ReflTransGen inst.Steps c c') : c'.machine.memory = c.machine.memory := by
  induction hsteps with
  | refl => rfl
  | tail hsteps hlast ih => exact ((h.of_steps hsteps).memory_eq hlast).trans ih

/-- A call keeps the memory and the names of the globals. -/
theorem Machine.Idle.kept_by_invokes {inst : Instance} {machine machine' : Machine} {name : Text}
    {args : List Scalar} {result : Except Trap (Option Value)} (h : machine.Idle inst.module)
    (hinvokes : inst.Invokes machine name args result machine') :
    machine'.memory = machine.memory ∧ machine'.store.globalNames = machine.store.globalNames := by
  refine ⟨?_, ?_⟩
  · cases hinvokes with
    | refused => rfl
    | called hprepare hsteps => exact (h.valid hprepare).memory_eq_of_steps hsteps
  · have hnames := globalNames_invoke inst machine.store name args
    rwa [h.invoke_eq hinvokes] at hnames

theorem Machine.Idle.kept_by_reaches {inst : Instance} {machine machine' : Machine}
    (h : machine.Idle inst.module) (hreaches : inst.Reaches machine machine') :
    machine'.memory = machine.memory ∧ machine'.store.globalNames = machine.store.globalNames := by
  induction hreaches with
  | refl => exact ⟨rfl, rfl⟩
  | tail hreaches hlast ih =>
    obtain ⟨host, name, args, result, hinvokes⟩ := hlast
    have hidle : Machine.Idle { inst with host := host }.module _ := h.reaches hreaches
    obtain ⟨hmemory, hnames⟩ := hidle.kept_by_invokes hinvokes
    exact ⟨hmemory.trans ih.1, hnames.trans ih.2⟩

theorem Cells.mem_map_fst_set {cells : Cells} {name : Text} (v : Value) (x : Text) :
    x ∈ (cells.set name v).map Prod.fst ↔ x ∈ cells.map Prod.fst ∨ x = name := by
  induction cells with
  | nil => simp [set]
  | cons cell rest ih =>
    obtain ⟨key, old⟩ := cell
    unfold set
    split
    · rename_i hkey
      simp [hkey, or_comm]
    · simp only [List.map_cons, List.mem_cons, ih, or_assoc]

/-- The globals of a new instance are those of its module. -/
theorem mem_globalNames_initialStore (m : Module) (name : Text) :
    name ∈ m.initialStore.globalNames ↔ name ∈ m.globals.map Global.name := by
  suffices hfold : ∀ (globals : List Global) (cells : Cells),
      name ∈ (globals.foldl (fun cells g => cells.set g.name (.zero g.type)) cells).map Prod.fst ↔
        name ∈ cells.map Prod.fst ∨ name ∈ globals.map Global.name by
    refine (hfold m.globals []).trans ?_
    simp
  intro globals
  induction globals with
  | nil => simp
  | cons g rest ih =>
    intro cells
    rw [List.foldl_cons, ih, Cells.mem_map_fst_set, or_assoc, List.map_cons, List.mem_cons]

/-! ### What the next call depends on -/

/-- A host that has seen some values, the latest first. -/
def Host.after (host : Host) (seen : List Value) : Host :=
  fun logged v => host (logged ++ seen) v

/-- Runs do not depend on what was logged before, except through the host. -/
theorem storeRelation_after (host : Host) (seen : List Value) :
    StoreRelation host (host.after seen)
      fun s s' => s.globals = s'.globals ∧ s.logged = s'.logged ++ seen where
  globals_eq := And.left
  setGlobal := fun v h _ => ⟨congrArg (Cells.set _ v) h.1, h.2⟩
  host_eq := fun v h => congrArg (host · v) h.2
  log := fun v h => ⟨h.1, congrArg (v :: ·) h.2⟩

/-- A call does what it does when nothing has been logged before, on the host as it is after what
has been logged. -/
theorem invoke_after (inst : Instance) (store : Store) (name : Text) (args : List Scalar) :
    (inst.invoke store name args).1 =
        (Instance.invoke { inst with host := inst.host.after store.logged }
          { store with logged := [] } name args).1 ∧
      (inst.invoke store name args).2.globals =
        (Instance.invoke { inst with host := inst.host.after store.logged }
          { store with logged := [] } name args).2.globals ∧
      (inst.invoke store name args).2.logged =
        (Instance.invoke { inst with host := inst.host.after store.logged }
          { store with logged := [] } name args).2.logged ++ store.logged := by
  refine (storeRelation_after inst.host store.logged).invoke rfl ?_ name args
  exact ⟨rfl, rfl⟩

/-- After any calls, whatever they did and whatever the host did, no activation is open, the globals
and the memory are those of the module, and the jump tables that are held are those of the first
functions of their names. The next call does what it does on a new machine with the same globals, on
the host as it is now: it has the same outcome, sets the globals alike and logs the same values. -/
theorem only_globals_carry_over {m : Module} {host : Host} {inst : Instance} {store : Store}
    (hstart : instantiate m (some host) = .ok (inst, store)) {machine : Machine}
    (hreached : inst.Reaches (.fresh inst store) machine) :
    machine.depth = 0 ∧
    (∀ name, name ∈ machine.store.globalNames ↔ name ∈ m.globals.map Global.name) ∧
    m.initialMemory = .ok machine.memory ∧
    (∀ name jumps, machine.tables.lookup name = some jumps →
      ∃ f, m.function? name = some f ∧ jumpTable f.body = .ok jumps) ∧
    ∀ (now : Host) (name : Text) (args : List Scalar),
      ∃ result machine' fresh fresh' freshStore,
        Instance.Invokes { inst with host := now } machine name args result machine' ∧
        Instance.invoke { inst with host := now } machine.store name args =
          (result, machine'.store) ∧
        instantiate m (some (now.after machine.store.logged)) = .ok (fresh, freshStore) ∧
        fresh.Invokes (.fresh fresh { freshStore with globals := machine.store.globals }) name args
          result fresh' ∧
        machine'.store.globals = fresh'.store.globals ∧
        machine'.store.logged = fresh'.store.logged ++ machine.store.logged := by
  obtain ⟨memory, hmemory, hstart⟩ := bind_eq_ok_iff.mp hstart
  cases hstart
  have hfresh := Machine.idle_fresh ⟨m, host, memory⟩ m.initialStore
  obtain ⟨hkept, hnames⟩ := hfresh.kept_by_reaches hreached
  have hidle := hfresh.reaches hreached
  refine ⟨hidle.depth_eq, fun name => ?_, ?_, hidle.coherent, fun now name args => ?_⟩
  · rw [hnames]
    exact mem_globalNames_initialStore m name
  · rw [hkept]
    exact hmemory
  · have hnow : Machine.Idle (Instance.mk m now memory).module machine := hidle
    obtain ⟨result, machine', hinvokes, heq⟩ := hnow.exists_invokes name args
    let fresh : Instance := ⟨m, now.after machine.store.logged, memory⟩
    have hnew : instantiate m (some (now.after machine.store.logged)) =
        .ok (fresh, m.initialStore) := by
      rw [instantiate, hmemory]
      rfl
    obtain ⟨result', fresh', hinvokes', heq'⟩ := (Machine.idle_fresh fresh
      { m.initialStore with globals := machine.store.globals }).exists_invokes name args
    -- nothing has been logged in the new store, and it has the same globals
    change Instance.invoke fresh { machine.store with logged := [] } name args = _ at heq'
    obtain ⟨hresult, hglobals, hlogged⟩ := invoke_after ⟨m, now, memory⟩ machine.store name args
    rw [heq, heq'] at hresult hglobals hlogged
    obtain rfl : result = result' := hresult
    exact ⟨result, machine', fresh, fresh', m.initialStore, hinvokes, heq, hnew, hinvokes',
      hglobals, hlogged⟩

/-- A call that sets a global and logs two values, of which the host refuses the second. -/
theorem only_globals_carry_over_refusal :
    let f : Func :=
      { name := "f",
        body := [.const (.int 1), .plain "global.set" (.text "g"), .const (.int 2), .call "log",
          .const (.int 3), .call "log"] }
    let m : Module := { valueType := .i32, globals := [⟨"g", true, .i32⟩], functions := [f] }
    let host : Host := fun seen _ => if seen.isEmpty then .ok () else .error (.refused "full")
    let inst : Instance := ⟨m, host, none⟩
    ∃ machine, inst.Invokes (.fresh inst m.initialStore) "f" [] (.error (.refused "full")) machine ∧
      machine.depth = 0 ∧ (∀ name, name ∈ machine.store.globalNames ↔ name ∈ (["g"] : List Text)) ∧
      ∃ machine' fresh' : Machine,
        inst.Invokes machine "f" [] (.error (.refused "full")) machine' ∧
        Instance.Invokes ⟨m, host.after machine.store.logged, none⟩
          (.fresh ⟨m, host.after machine.store.logged, none⟩ ⟨machine.store.globals, []⟩) "f" []
          (.error (.refused "full")) fresh' ∧
        machine'.store.globals = fresh'.store.globals := by
  intro f m host inst
  have hstart : instantiate m (some host) = .ok (inst, m.initialStore) := rfl
  have hfirst : (inst.invoke m.initialStore "f" []).1 = .error (.refused "full") := by
    decide +kernel
  have hsecond : (inst.invoke (inst.invoke m.initialStore "f" []).2 "f" []).1 =
      .error (.refused "full") := by
    decide +kernel
  obtain ⟨result, machine, hinvokes, heq⟩ :=
    (Machine.idle_fresh inst m.initialStore).exists_invokes "f" []
  have hreached : inst.Reaches (.fresh inst m.initialStore) machine :=
    .single ⟨host, "f", [], result, hinvokes⟩
  obtain ⟨hdepth, hnames, -, -, hnext⟩ := only_globals_carry_over hstart hreached
  obtain ⟨result', machine', fresh, fresh', freshStore, hnow, heq', hnew, hfresh, hglobals, -⟩ :=
    hnext host "f" []
  cases hnew
  change inst.invoke m.initialStore "f" [] = _ at heq
  rw [heq] at hfirst hsecond
  change inst.invoke machine.store "f" [] = _ at heq'
  rw [heq'] at hsecond
  obtain rfl : result = .error (.refused "full") := hfirst
  obtain rfl : result' = .error (.refused "full") := hsecond
  exact ⟨machine, hinvokes, hdepth, hnames, machine', fresh', hnow, hfresh, hglobals⟩

end StackScript
