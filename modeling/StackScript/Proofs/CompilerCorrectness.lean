import StackScript.Proofs.Simulation

/-!
# Compiled programs do what they mean

Running the entry of a compiled module is evaluating the program: the same values are logged in the
same order, the globals end with the same values, and the result or the trap is the same.

Calls are handled by induction on the number of activations that may still be opened. One call more
is the simulation of one body, in which all calls have one activation less.

## Main definitions

* `World.store`: the store that holds a world.

## Main results

* `CompiledProgram.sound`: at every depth, calls do the same on both sides.
* `invoke_entry_eq_evaluate`: running the entry is evaluating the program.
-/

namespace StackScript

/-- The store that holds the globals of some names and what has been logged. -/
def World.store (w : World) (names : List Text) : Store where
  globals := .ofNames names w.globals
  logged := w.logged

theorem World.HeldIn.store_eq {w : World} {t : ValueType} {names : List Text} {store : Store}
    (h : w.HeldIn t names store) : store = w.store names := by
  obtain ⟨globals, logged⟩ := store
  simp [World.store, ← h.globals_eq, ← h.logged_eq]

namespace CompiledProgram

variable {options : Options} {program : Program} {m : Module} {c : Code} {final : Scope}

/-- A compiled program on a machine and its evaluation, while some activations may be opened. -/
def link (options : Options) (program : Program) (final : Scope) (inst : Instance) (room : Nat) :
    Link where
  options := options
  inst := inst
  callee := callFunction inst room
  call := (program.setting options inst.host).call (Expr.allFunctions program) room
  address := addressAmong (Expr.allStrings program)
  globals := (Expr.allLets program).eraseDups
  final := final

/-- A call of a compiled function, when all calls in its body agree. -/
theorem callsAgree_succ {inst : Instance} {room : Nat}
    (hsound : (link options program final inst room).Sound) {d : FunctionDef} {f : Func}
    (hfind : (Expr.allFunctions program).find? (fun d' => d'.name == d.name) = some d)
    (hcompiled : d.Compiled options final f) :
    (link options program final inst (room + 1)).CallsAgree d.name f := by
  obtain ⟨s, inner, body, hd⟩ := hcompiled
  have hsees : s.Sees (some d.params) :=
    ⟨by rw [hd.frame]; rfl, fun name => by simp [Scope.isLocal, hd.frame, LocalNames.has, Frame.holds]⟩
  intro args store w hlength hargs hheld
  -- the arguments fill the parameters' cells on both sides
  have hmirrors : (link options program final inst room).Mirrors (f.params ++ f.locals)
      (inst.start f args store) { w with locals := d.cells options.valueType args } := by
    refine ⟨⟨hheld.globals_eq, hheld.logged_eq, hheld.type_globals⟩, ?_,
      fun name => type_getD_lookup hargs d.params name⟩
    change f.initialLocals inst.module.valueType args = _
    rw [show inst.module.valueType = options.valueType from hsound.valueType_eq,
      Func.initialLocals_eq options.valueType hd.nodup_names hlength]
    unfold FunctionDef.cells
    rw [hd.params_eq]
  have hsimulated := hd.compiles.simulated hsound hd.nodup_names hsees hd.linkedTo f.name _ _ hmirrors
  change Effect.Agrees _ _ (callFunction inst (room + 1) f args store)
    ((program.setting options inst.host).call _ (room + 1) d.name args w)
  -- both sides run the body with one activation less to open
  rw [callFunction_flatten inst room hd.body_eq,
    Setting.call_succ hfind]
  change Effect.Agrees _ _ (body.exec inst (callFunction inst room) f.name (inst.start f args store))
    (evaluateAll (program.setting options inst.host)
      ((program.setting options inst.host).call (Expr.allFunctions program) room) (some d.params)
      d.body { w with locals := d.cells (program.setting options inst.host).type args })
    at hsimulated
  generalize body.exec inst (callFunction inst room) f.name (inst.start f args store) = machine
    at hsimulated ⊢
  generalize evaluateAll (program.setting options inst.host) _ _ _ _ = reference at hsimulated ⊢
  rcases hsimulated.cases with
    ⟨trap, a, w', rfl, rfl, hheld'⟩ | ⟨-, a, v, w', rfl, rfl, ⟨hv, hstack⟩, hmirrors'⟩
  · exact ⟨rfl, hheld'.globals_eq, hheld'.logged_eq, hheld'.type_globals⟩
  -- the body leaves its value alone on the stack, which is what a function returns
  · have hfinish : f.finish a.stack = .ok (some v) := by
      rw [show a.stack = [v] from hstack, hd.func]
      rfl
    change Effect.Agrees _ _ (f.finish a.stack, a.store) _
    rw [hfinish]
    exact ⟨rfl, hv, ⟨hmirrors'.held.globals_eq, hmirrors'.held.logged_eq,
      hmirrors'.held.type_globals⟩, rfl⟩

/-- At every depth, calls do the same on both sides. -/
theorem sound (h : CompiledProgram options program m c final) (inst : Instance)
    (hinst : inst.module = m) (room : Nat) :
    (link options program final inst room).Sound := by
  -- of the five facts only the one on calls depends on the room
  have hsound (room : Nat) (hcalls : ∀ {d : FunctionDef} {f : Func},
      (Expr.allFunctions program).find? (fun d' => d'.name == d.name) = some d →
      d.Compiled options final f → (link options program final inst room).CallsAgree d.name f) :
      (link options program final inst room).Sound := by
    refine ⟨?_, ?_, ?_, ?_, ?_⟩
    · exact (congrArg Module.valueType hinst).trans h.valueType_eq
    · exact nodup_eraseDups _
    · intro name hname
      rw [show (link options program final inst room).final = final from rfl, Scope.isGlobal,
        h.records.global?_eq] at hname
      split at hname
      · rename_i hmem
        exact List.mem_eraseDups.mpr hmem
      · cases hname
    · intro text segment hsegment
      exact h.records.data.offset_eq hsegment
    · intro name arity harity
      obtain ⟨d, f, hd, hf, hcompiled, hcount⟩ := h.exists_function harity
      have hname : d.name = name := by simpa using List.find?_some hd
      subst hname
      obtain ⟨_, _, _, hcompiled'⟩ := id hcompiled
      exact ⟨hcompiled'.ne_log, f, by rw [← hf, ← hinst]; rfl, hcount, hcalls hd hcompiled⟩
  induction room with
  | zero =>
    -- with no room left, both sides refuse the call alike
    refine hsound 0 fun {d f} hfind hcompiled args store w _ _ hheld => ?_
    exact ⟨by rw [hcompiled.name_eq], hheld⟩
  | succ room ih => exact hsound (room + 1) fun hfind hcompiled => callsAgree_succ ih hfind hcompiled

/-- Before it runs, an instance holds zero in every global. -/
theorem initialStore_eq (h : CompiledProgram options program m c final) :
    m.initialStore = (Program.initialWorld options).store (Expr.allLets program).eraseDups := by
  rw [Module.initialStore_eq h.type_globals (h.names_globals ▸ nodup_eraseDups _), h.names_globals]
  rfl

/-- The entry starts in an activation that mirrors the state before the evaluation. -/
theorem mirrors_start (h : CompiledProgram options program m c final) (inst : Instance)
    (room : Nat) (body : List Instr) :
    (link options program final inst room).Mirrors []
      (inst.start (options.entryFunction body) [] m.initialStore) (Program.initialWorld options) := by
  refine ⟨?_, rfl, fun _ => Value.type_zero _⟩
  rw [Instance.start, h.initialStore_eq]
  exact ⟨rfl, rfl, fun _ => Value.type_zero _⟩

/-- A call of the entry by the host runs the code of the top level. -/
theorem invoke_entry_eq (h : CompiledProgram options program m c final) {inst : Instance}
    (hinst : inst.module = m) (store : Store) :
    inst.invoke store m.entry [] =
      callFunction inst (maxActivations - 1 + 1) (options.entryFunction c.flatten) [] store := by
  unfold Instance.invoke Instance.prepare
  rw [hinst, h.entry_eq, h.function?_entry]
  rfl

end CompiledProgram

/-- The entry returns the value that its code leaves, if it returns one. -/
theorem Options.finish_entryFunction (options : Options) (body : List Instr) {v : Value}
    {stack : List Value}
    (h : (if options.entry.returnsValue then Use.value else .statement).Leaves [] v stack) :
    (options.entryFunction body).finish stack =
      .ok (if options.entry.returnsValue then some v else none) := by
  cases hreturns : options.entry.returnsValue with
  | true =>
    rw [hreturns] at h
    rw [show stack = [v] from h]
    simp [Func.finish, Options.entryFunction, hreturns]
  | false =>
    rw [hreturns] at h
    rw [show stack = [] from h]
    simp [Func.finish, Options.entryFunction, hreturns]

/-- Running the entry of a compiled module is evaluating the program. -/
theorem invoke_entry_eq_evaluate {options : Options} {program : Program} {m : Module}
    (h : (generate options program).result = .ok m) (host : Host) :
    ∃ inst store, instantiate m (some host) = .ok (inst, store) ∧
      inst.invoke store m.entry [] =
        ((program.evaluate options host).1,
          (program.evaluate options host).2.store (Expr.allLets program).eraseDups) := by
  obtain ⟨c, final, hprogram⟩ := exists_compiledProgram h
  obtain ⟨memory, hmemory⟩ := hprogram.laidOut.exists_initialMemory
  refine ⟨⟨m, host, memory⟩, m.initialStore, by rw [instantiate, hmemory]; rfl, ?_⟩
  generalize hinst : (⟨m, host, memory⟩ : Instance) = inst
  have hmodule : inst.module = m := hinst ▸ rfl
  have hsound := hprogram.sound inst hmodule (maxActivations - 1)
  have hsees : Scope.Sees options.startScope none := ⟨rfl, fun _ => rfl⟩
  have hsimulated := hprogram.compiles.simulated hsound List.nodup_nil hsees hprogram.linkedTo
    (options.entryFunction c.flatten).name _ _ (hprogram.mirrors_start inst _ c.flatten)
  change Effect.Agrees _ _ (c.exec inst (callFunction inst _) _ _)
    (evaluateAll (program.setting options inst.host)
      ((program.setting options inst.host).call (Expr.allFunctions program) _) none program
      (Program.initialWorld options)) at hsimulated
  rw [hprogram.invoke_entry_eq hmodule, callFunction_flatten inst _ rfl,
    show host = inst.host from hinst ▸ rfl]
  unfold Program.evaluate
  dsimp only
  generalize c.exec inst _ _ _ = machine at hsimulated ⊢
  generalize evaluateAll (program.setting options inst.host) _ _ _ _ = reference at hsimulated ⊢
  rcases hsimulated.cases with
    ⟨trap, a, w, rfl, rfl, hheld⟩ | ⟨-, a, v, w, rfl, rfl, ⟨-, hstack⟩, hmirrors⟩
  · exact congrArg _ hheld.store_eq
  · change ((options.entryFunction c.flatten).finish a.stack, a.store) = _
    rw [options.finish_entryFunction c.flatten hstack, hmirrors.held.store_eq]
    rfl

/-- A program with a recursive function that changes a global: it logs a sum, and its value is a
multiple of that sum. -/
def recursiveSum : Program :=
  let number (n : Int) : Expr := .literal .number (.int n) 1
  [.declare "total" (number 0) 1,
    .function "add" ["n"]
      [.ifElse (.binary (.get "n" 1) .greater (number 0) 1)
        (.block
          [.assign "total" (.binary (.get "total" 1) .add (.get "n" 1) 1) 1,
            .call (.get "add" 1) [.binary (.get "n" 1) .subtract (number 1) 1] 1] 1) none 1,
        .get "total" 1] 1,
    .print (.call (.get "add" 1) [number 3] 1) 1,
    .binary (.get "total" 1) .multiply (number 7) 1]

theorem invoke_entry_recursiveSum :
    ∃ m, (generate { valueType := .i32, entry := .expression } recursiveSum).result = .ok m ∧
      ∃ inst store, instantiate m (some .accepting) = .ok (inst, store) ∧
        (inst.invoke store m.entry []).1 = .ok (some (.i32 42)) ∧
        (inst.invoke store m.entry []).2.log = [.i32 6] := by
  obtain ⟨m, hm⟩ :
      ∃ m, (generate { valueType := .i32, entry := .expression } recursiveSum).result = .ok m :=
    ⟨_, rfl⟩
  obtain ⟨inst, store, hinst, hinvoke⟩ := invoke_entry_eq_evaluate hm .accepting
  refine ⟨m, hm, inst, store, hinst, ?_, ?_⟩
  · rw [hinvoke]
    decide
  · rw [hinvoke]
    decide

end StackScript
