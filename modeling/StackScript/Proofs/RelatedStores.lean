import StackScript.Proofs.Actions

/-!
# Running on related stores

Two instances of a module, on hosts that answer alike, run alike on stores between which no
instruction can tell the difference. What a relation between stores has to keep for that is little:
equal globals, the answers of the hosts, and the relation itself when a global is set or a value is
logged.

A store is related to itself in this sense by having globals of some names, so no call changes the
names of the globals.

## Main definitions

* `StoreRelation`: a relation between stores that runs on two hosts preserve.
* `Alike`: two outcomes that differ in related stores only.

## Main results

* `StoreRelation.stepInstr`, `StoreRelation.runFrom`, `StoreRelation.callFunction`: instructions,
  bodies and calls preserve the relation.
* `StoreRelation.invoke`: calls by the host have the same outcome and leave related stores.
* `globalNames_invoke`: no call changes the names of the globals.
-/

namespace StackScript

open Exec

/-- A relation between stores that runs on two hosts preserve. Only globals that are there are
set. -/
structure StoreRelation (host host' : Host) (R : Store → Store → Prop) : Prop where
  globals_eq : ∀ {s s'}, R s s' → s.globals = s'.globals
  setGlobal : ∀ {s s'} {name : Text} (v : Value), R s s' → name ∈ s.globals.map Prod.fst →
    R { s with globals := s.globals.set name v } { s' with globals := s'.globals.set name v }
  host_eq : ∀ {s s'} (v : Value), R s s' → host s.logged v = host' s'.logged v
  log : ∀ {s s'} (v : Value), R s s' →
    R { s with logged := v :: s.logged } { s' with logged := v :: s'.logged }

/-- Two outcomes that differ in related stores only. -/
inductive Effect.Alike (R : Store → Store → Prop) {α : Type} :
    Effect Activation α → Effect Activation α → Prop
  | mk (r : Except Trap α) (stack : List Value) (locals : Cells) {s s' : Store} : R s s' →
      Alike R (r, ⟨stack, locals, s⟩) (r, ⟨stack, locals, s'⟩)

/-- Two computations that are alike in activations which differ in related stores only. -/
def Exec.Alike (R : Store → Store → Prop) {α : Type} (x y : Exec α) : Prop :=
  ∀ (stack : List Value) (locals : Cells) {s s' : Store}, R s s' →
    Effect.Alike R (x ⟨stack, locals, s⟩) (y ⟨stack, locals, s'⟩)

/-- Two callees that return the same and leave related stores. -/
def Callee.Alike (R : Store → Store → Prop) (callee callee' : Callee) : Prop :=
  ∀ f args {s s' : Store}, R s s' → (callee f args s).1 = (callee' f args s').1 ∧
    R (callee f args s).2 (callee' f args s').2

namespace Exec.Alike

variable {R : Store → Store → Prop} {α β : Type}

theorem of_pure (v : α) : Alike R (pure v) (pure v) :=
  fun stack locals _ _ h => .mk (.ok v) stack locals h

theorem of_throw (trap : Trap) : Alike R (throw trap : Exec α) (throw trap) :=
  fun stack locals _ _ h => .mk (.error trap) stack locals h

theorem of_onStack (action : OnStack α) : Alike R (onStack action) (onStack action) :=
  fun stack locals _ _ h => .mk (action stack).1 (action stack).2 locals h

theorem of_liftExcept (r : Except Trap α) : Alike R (liftExcept r : Exec α) (liftExcept r) := by
  intro stack locals s s' h
  rw [liftExcept_apply, liftExcept_apply]
  exact .mk r stack locals h

theorem bind {x y : Exec α} {next next' : α → Exec β} (h : Alike R x y)
    (hnext : ∀ v, Alike R (next v) (next' v)) : Alike R (x >>= next) (y >>= next') := by
  intro stack locals s s' hstores
  have hfirst := h stack locals hstores
  rw [bind_apply, bind_apply]
  generalize x ⟨stack, locals, s⟩ = e, y ⟨stack, locals, s'⟩ = e' at hfirst ⊢
  cases hfirst with
  | mk r stack locals hstores =>
    cases r with
    | error trap => exact .mk (.error trap) stack locals hstores
    | ok v => exact hnext v stack locals hstores

end Exec.Alike

theorem Exec.Alike.popArguments {R : Store → Store → Prop} (function : Text) (n : Nat) :
    Alike R (popArguments function n) (popArguments function n) := by
  induction n with
  | zero => exact .of_pure []
  | succ n ih => exact (of_onStack _).bind fun last => ih.bind fun others => .of_pure _

theorem mem_of_cell? {cells : Cells} {operand : Datum} {name : Text} {v : Value}
    (h : cell? cells operand = some (name, v)) : name ∈ cells.map Prod.fst := by
  cases operand with
  | text key =>
    rw [cell?, Option.map_eq_some_iff] at h
    obtain ⟨w, hlookup, heq⟩ := h
    cases heq
    obtain ⟨before, after, hsplit, -⟩ := List.lookup_eq_some_iff.mp hlookup
    simp [hsplit]
  | _ => cases h

namespace StoreRelation

variable {host host' : Host} {R : Store → Store → Prop} (h : StoreRelation host host' R)

include h

/-! ### Instructions -/

theorem plainInstr (function mnemonic : Text) (operand : Datum) :
    Exec.Alike R (plainInstr function mnemonic operand) (plainInstr function mnemonic operand) := by
  unfold StackScript.plainInstr
  split
  · exact (Exec.Alike.of_onStack _).bind fun _ => .of_pure _
  · intro stack locals s s' hstores
    simp only [bind_apply, get_apply, Effect.andThen_ok]
    rcases cell? locals operand with _ | ⟨name, v⟩
    · exact Exec.Alike.of_throw _ _ _ hstores
    · exact Exec.Alike.of_onStack _ _ _ hstores
  · intro stack locals s s' hstores
    simp only [bind_apply, get_apply, Effect.andThen_ok]
    rcases cell? locals operand with _ | ⟨name, v⟩
    · exact Exec.Alike.of_throw _ _ _ hstores
    · cases stack with
      | nil => exact .mk (.error (.stackUnderflow function)) [] locals hstores
      | cons v stack => exact .mk (.ok ()) stack (locals.set name v) hstores
  · intro stack locals s s' hstores
    simp only [bind_apply, get_apply, Effect.andThen_ok, h.globals_eq hstores]
    rcases cell? s'.globals operand with _ | ⟨name, v⟩
    · exact Exec.Alike.of_throw _ _ _ hstores
    · exact Exec.Alike.of_onStack _ _ _ hstores
  · intro stack locals s s' hstores
    simp only [bind_apply, get_apply, Effect.andThen_ok, h.globals_eq hstores]
    rcases hcell : cell? s'.globals operand with _ | ⟨name, v⟩
    · exact Exec.Alike.of_throw _ _ _ hstores
    · cases stack with
      | nil => exact .mk (.error (.stackUnderflow function)) [] locals hstores
      | cons v stack =>
        -- only a global that is there is set
        rw [← h.globals_eq hstores] at hcell
        exact .mk (.ok ()) stack locals (h.setGlobal v hstores (mem_of_cell? hcell))
  · exact .of_onStack _

theorem logTop (function : Text) :
    Exec.Alike R (logTop host function) (logTop host' function) := by
  intro stack locals s s' hstores
  unfold StackScript.logTop
  cases stack with
  | nil => exact .mk (.error (.stackUnderflow function)) [] locals hstores
  | cons v stack =>
    simp only [bind_apply, onStack_pop_apply, Effect.andThen_ok, get_apply, liftExcept_apply,
      h.host_eq v hstores]
    cases host' s'.logged v with
    | error trap => exact .mk (.error trap) stack locals hstores
    | ok _ => exact .mk (.ok ()) stack locals (h.log v hstores)

variable {inst : Instance} (hhost : inst.host = host) {callee callee' : Callee}
  (hcallee : callee.Alike R callee')

include hhost hcallee

theorem callInstr (function name : Text) :
    Exec.Alike R (callInstr inst callee function name)
      (callInstr { inst with host := host' } callee' function name) := by
  unfold StackScript.callInstr
  by_cases hname : name = logFunction
  · rw [if_pos hname, if_pos hname, hhost]
    exact h.logTop function
  rw [if_neg hname, if_neg hname]
  dsimp only
  cases inst.module.function? name with
  | none => exact .of_throw _
  | some f =>
    refine (Exec.Alike.popArguments function f.arity).bind fun args => ?_
    intro stack locals s s' hstores
    -- the stores differ after the call, but the caller's stack and locals do not
    obtain ⟨hresult, hafter⟩ := hcallee f args hstores
    simp only [bind_apply, get_apply, Effect.andThen_ok, set_apply, liftExcept_apply, hresult]
    rcases (callee' f args s').1 with trap | _ | v
    · exact .mk (.error trap) stack locals hafter
    · exact .mk (.ok ()) stack locals hafter
    · exact .mk (.ok ()) (v :: stack) locals hafter

/-- Instructions preserve the relation. -/
theorem stepInstr (function : Text) (jumps : JumpTable) (place : Nat) (instr : Instr) :
    Exec.Alike R (stepInstr inst callee function jumps place instr)
      (stepInstr { inst with host := host' } callee' function jumps place instr) := by
  cases instr with
  | const value =>
    refine (Exec.Alike.of_liftExcept _).bind fun v => ?_
    exact (Exec.Alike.of_onStack _).bind fun _ => .of_pure _
  | openIf => exact (Exec.Alike.of_onStack _).bind fun condition => .of_pure _
  | openElse => exact .of_pure _
  | closeIf => exact .of_pure _
  | call name => exact (h.callInstr hhost hcallee function name).bind fun _ => .of_pure _
  | plain mnemonic operand =>
    exact (h.plainInstr function mnemonic operand).bind fun _ => .of_pure _

/-- Bodies preserve the relation. -/
theorem runFrom (function : Text) (jumps : JumpTable) (body : Array Instr) (place : Nat) :
    Exec.Alike R (runFrom inst callee function jumps body place)
      (runFrom { inst with host := host' } callee' function jumps body place) := by
  induction hleft : body.size - place using Nat.strongRecOn generalizing place with
  | ind left ih =>
    rw [StackScript.runFrom, StackScript.runFrom.eq_def { inst with host := host' }]
    by_cases hplace : place < body.size
    · rw [dif_pos hplace, dif_pos hplace]
      refine (h.stepInstr hhost hcallee function jumps place body[place]).bind fun next => ?_
      exact ih _ (by omega) _ rfl
    · rw [dif_neg hplace, dif_neg hplace]
      exact .of_pure ()

omit hcallee

/-! ### Calls -/

/-- Calls preserve the relation. -/
theorem callFunction (room : Nat) :
    Callee.Alike R (callFunction inst room) (callFunction { inst with host := host' } room) := by
  induction room with
  | zero => exact fun f args s s' hstores => ⟨rfl, hstores⟩
  | succ room ih =>
    intro f args s s' hstores
    rw [StackScript.callFunction, StackScript.callFunction]
    cases jumpTable f.body with
    | error trap => exact ⟨rfl, hstores⟩
    | ok jumps =>
      have hrun := h.runFrom hhost ih f.name jumps f.body.toArray 0 []
        (f.initialLocals inst.module.valueType args) hstores
      dsimp only
      generalize StackScript.runFrom inst _ _ _ _ _ _ = e at hrun ⊢
      generalize StackScript.runFrom { inst with host := host' } _ _ _ _ _ _ = e' at hrun ⊢
      cases hrun with
      | mk r stack locals hafter => exact ⟨rfl, hafter⟩

/-- Calls by the host have the same outcome and leave related stores. -/
theorem invoke {s s' : Store} (hstores : R s s') (name : Text) (args : List Scalar) :
    (inst.invoke s name args).1 = (Instance.invoke { inst with host := host' } s' name args).1 ∧
      R (inst.invoke s name args).2
        (Instance.invoke { inst with host := host' } s' name args).2 := by
  unfold Instance.invoke
  have hprepare : Instance.prepare { inst with host := host' } name args =
      inst.prepare name args := rfl
  rw [hprepare]
  rcases inst.prepare name args with trap | ⟨f, values⟩
  · exact ⟨rfl, hstores⟩
  · exact h.callFunction hhost maxActivations f values hstores

end StoreRelation

/-! ### The names of globals -/

/-- The names of the globals in a store. -/
def Store.globalNames (store : Store) : List Text :=
  store.globals.map Prod.fst

theorem Cells.map_fst_set {cells : Cells} {name : Text} (h : name ∈ cells.map Prod.fst)
    (v : Value) : (cells.set name v).map Prod.fst = cells.map Prod.fst := by
  induction cells with
  | nil => cases h
  | cons cell rest ih =>
    obtain ⟨key, old⟩ := cell
    unfold set
    split
    · rfl
    · rename_i hkey
      have hrest := (List.mem_cons.mp h).resolve_left (Ne.symm hkey)
      rw [List.map_cons, List.map_cons, ih hrest]

/-- Having globals of some names is preserved on every host. -/
theorem storeRelation_globalNames (host : Host) (names : List Text) :
    StoreRelation host host fun s s' => s = s' ∧ s.globalNames = names where
  globals_eq := fun h => congrArg Store.globals h.1
  setGlobal := by
    rintro s _ name v ⟨rfl, rfl⟩ hname
    exact ⟨rfl, Cells.map_fst_set hname v⟩
  host_eq := by
    rintro s _ v ⟨rfl, -⟩
    rfl
  log := by
    rintro s _ v ⟨rfl, hnames⟩
    exact ⟨rfl, hnames⟩

/-- No call changes the names of the globals. -/
theorem globalNames_invoke (inst : Instance) (store : Store) (name : Text) (args : List Scalar) :
    (inst.invoke store name args).2.globalNames = store.globalNames :=
  ((storeRelation_globalNames inst.host store.globalNames).invoke rfl ⟨rfl, rfl⟩ name args).2.2

end StackScript
