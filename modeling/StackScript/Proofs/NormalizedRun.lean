import StackScript.Proofs.Actions
import StackScript.Proofs.TextRoundTrip
import StackScript.Script

/-!
# Running a module as it is read

A module that was read back from its text differs from the one that was written in its constants and
in what it says about its memory. Neither matters to a run: a constant of the module's type pushes the
same value however it is written, and a module with data has a memory anyway.

## Main definitions

* `Instance.normalized`: an instance of a module as it is read.
* `Module.observe`: what a host sees of a run of the entry.

## Main results

* `stepInstr_normalized`: an instruction does what it does as it is read.
* `callFunction_normalized`: so does a call.
* `observe_normalized`, `runEntry_normalized`: a run of the entry is the same.
-/

namespace StackScript

open Exec

/-! ### Instructions -/

theorem matchMarkers_normalized (t : ValueType) (index : Nat) (opened : List OpenMarker)
    (body : List Instr) :
    matchMarkers index opened (body.map (Instr.normalized t)) = matchMarkers index opened body := by
  induction body generalizing index opened with
  | nil => rfl
  | cons instr body ih =>
    rw [List.map_cons]
    -- no instruction is read as a mark, nor a mark as another
    cases instr with
    | plain mnemonic operand =>
      by_cases hmnemonic : mnemonic = t.mnemonic "const"
      · rw [hmnemonic, normalized_const]
        exact ih _ _
      · rw [normalized_of_ne hmnemonic]
        exact ih _ _
    | openElse =>
      rcases opened with _ | ⟨⟨start, _ | second⟩, outer⟩
      · rfl
      · exact ih _ _
      · rfl
    | closeIf =>
      rcases opened with _ | ⟨marker, outer⟩
      · rfl
      · change (do let others ← matchMarkers (index + 1) outer (body.map _); _) = _
        rw [ih]
        rfl
    | _ => exact ih _ _

/-- The jumps of a body do not depend on how its constants are written. -/
theorem jumpTable_normalized (t : ValueType) (body : List Instr) :
    jumpTable (body.map (Instr.normalized t)) = jumpTable body :=
  matchMarkers_normalized t 0 [] body

/-- A constant with its mnemonic pushes the value of the constant. -/
theorem plainInstr_const (t : ValueType) (function : Text) (operand : Datum) :
    plainInstr function (t.mnemonic "const") operand = (do
      let v ← liftExcept (Trap.ofConversion (Value.ofDatum t operand))
      onStack (push v)) := by
  funext a
  have hdecode : decodeMnemonic? (t.mnemonic "const") = some (t, .const) :=
    decodeMnemonic?_mnemonic t "const"
  refine (exec_constant hdecode).trans ?_
  rw [bind_apply, liftExcept_apply]
  cases Trap.ofConversion (Value.ofDatum t operand) <;> rfl

/-- An instance of a module as it is read. -/
def Instance.normalized (inst : Instance) : Instance :=
  { inst with module := inst.module.normalized }

theorem function?_normalized (m : Module) (name : Text) :
    m.normalized.function? name = (m.function? name).map (Func.normalized m.valueType) := by
  unfold Module.function? Module.normalized
  exact List.find?_map

/-- Calls of functions as they are read do what calls of the functions do. -/
def Callee.Reads (t : ValueType) (read callee : Callee) : Prop :=
  ∀ f args store, read (f.normalized t) args store = callee f args store

section

variable {inst : Instance} {read callee : Callee}

theorem callInstr_normalized (hcallee : read.Reads inst.module.valueType callee)
    (function name : Text) :
    callInstr inst.normalized read function name = callInstr inst callee function name := by
  unfold callInstr
  by_cases hlog : name = logFunction
  · rw [if_pos hlog, if_pos hlog]
    rfl
  rw [if_neg hlog, if_neg hlog]
  have hmodule : inst.normalized.module = inst.module.normalized := rfl
  rw [hmodule, function?_normalized]
  cases inst.module.function? name with
  | none => rfl
  | some f =>
    dsimp only [Option.map_some]
    simp only [hcallee f]
    rfl

/-- An instruction does what it does as it is read. -/
theorem stepInstr_normalized (hcallee : read.Reads inst.module.valueType callee) (function : Text)
    (jumps : JumpTable) (place : Nat) (instr : Instr) :
    stepInstr inst.normalized read function jumps place
        (instr.normalized inst.module.valueType) =
      stepInstr inst callee function jumps place instr := by
  cases instr with
  | plain mnemonic operand =>
    by_cases hmnemonic : mnemonic = inst.module.valueType.mnemonic "const"
    · -- The one instruction that is read as another.
      rw [hmnemonic, normalized_const]
      change (do
        let v ← liftExcept (Trap.ofConversion (Value.ofDatum inst.module.valueType operand))
        onStack (push v)
        return place + 1) = (do
        plainInstr function (inst.module.valueType.mnemonic "const") operand
        return place + 1)
      rw [plainInstr_const, bind_assoc]
    · rw [normalized_of_ne hmnemonic]
      rfl
  | call name =>
    change (do callInstr inst.normalized read function name; return place + 1) = _
    rw [callInstr_normalized hcallee]
    rfl
  | _ => rfl

theorem runFrom_normalized (hcallee : read.Reads inst.module.valueType callee) (function : Text)
    (jumps : JumpTable) (body : List Instr) (place : Nat) :
    runFrom inst.normalized read function jumps
        (body.map (Instr.normalized inst.module.valueType)).toArray place =
      runFrom inst callee function jumps body.toArray place := by
  -- Every step goes forward, so the induction is on how much of the body is left.
  induction hrest : body.length - place using Nat.strongRecOn generalizing place with
  | ind n ih =>
    rw [runFrom, runFrom.eq_def inst callee]
    by_cases hplace : place < body.length
    · rw [dif_pos (by simpa using hplace), dif_pos (by simpa using hplace), List.getElem_toArray,
        List.getElem_map, List.getElem_toArray, stepInstr_normalized hcallee]
      congr 1
      funext next
      exact ih _ (by omega) _ rfl
    · rw [dif_neg (by simpa using hplace), dif_neg (by simpa using hplace)]

end

/-! ### Calls -/

/-- A call does what it does as it is read. -/
theorem callFunction_normalized (inst : Instance) (room : Nat) :
    (callFunction inst.normalized room).Reads inst.module.valueType (callFunction inst room) := by
  induction room with
  | zero => exact fun _ _ _ => rfl
  | succ room ih =>
    intro f args store
    have hjumps : jumpTable (f.normalized inst.module.valueType).body = jumpTable f.body :=
      jumpTable_normalized _ _
    -- The body calls functions with less room, of which the same holds by induction.
    rw [callFunction, callFunction, hjumps]
    cases jumpTable f.body with
    | error trap => rfl
    | ok jumps =>
      have hrun := runFrom_normalized ih f.name jumps f.body 0
      dsimp only [Func.normalized]
      rw [hrun]
      rfl

theorem prepare_normalized (inst : Instance) (name : Text) (args : List Scalar) :
    inst.normalized.prepare name args =
      (inst.prepare name args).map fun call => (call.1.normalized inst.module.valueType, call.2) := by
  have hfunction : inst.normalized.module.function? name =
      (inst.module.function? name).map (Func.normalized inst.module.valueType) :=
    function?_normalized inst.module name
  unfold Instance.prepare
  rw [hfunction]
  cases inst.module.function? name with
  | none => rfl
  | some f =>
    dsimp only [Option.map_some]
    -- reading keeps the names and the number of the parameters
    by_cases hcount : args.length = f.arity
    · have hcount' : args.length = (f.normalized inst.module.valueType).arity := hcount
      rw [if_neg (not_not.mpr hcount), if_neg (not_not.mpr hcount')]
      change (do
        let values ← Trap.ofConversion (args.mapM (Scalar.toValue inst.module.valueType))
        return (f.normalized inst.module.valueType, values)) = _
      cases Trap.ofConversion (args.mapM (Scalar.toValue inst.module.valueType)) <;> rfl
    · have hcount' : args.length ≠ (f.normalized inst.module.valueType).arity := hcount
      rw [if_pos hcount, if_pos hcount']
      rfl

/-- A call by the host does what it does as the module is read. -/
theorem invoke_normalized (inst : Instance) (store : Store) (name : Text) (args : List Scalar) :
    inst.normalized.invoke store name args = inst.invoke store name args := by
  unfold Instance.invoke
  rw [prepare_normalized]
  cases inst.prepare name args with
  | error trap => rfl
  | ok call => exact callFunction_normalized inst maxActivations call.1 call.2 store

/-! ### Modules -/

theorem instantiate_normalized (m : Module) (host : Option Host) :
    instantiate m.normalized host =
      (instantiate m host).map fun start => (start.1.normalized, start.2) := by
  cases host with
  | none => rfl
  | some host =>
    have hmemory : m.normalized.initialMemory = m.initialMemory := by
      unfold Module.initialMemory
      rw [hasMemory_normalized, memoryPages_normalized]
      rfl
    unfold instantiate
    dsimp only
    rw [hmemory]
    cases m.initialMemory <;> rfl

/-- What a host sees of a run of the entry: the values that are logged in order, and the result. The
module may not start at all. -/
def Module.observe (m : Module) (host : Option Host) :
    Except Trap (List Value × Except Trap (Option Value)) :=
  (instantiate m host).map fun (inst, store) =>
    let run := inst.invoke store m.entry []
    (run.2.log, run.1)

/-- A run of the entry does not depend on what is lost in the text. -/
theorem observe_normalized (m : Module) (host : Option Host) :
    m.normalized.observe host = m.observe host := by
  unfold Module.observe
  rw [instantiate_normalized]
  cases instantiate m host with
  | error trap => rfl
  | ok start =>
    dsimp only [Except.map]
    rw [invoke_normalized]
    rfl

theorem runEntry_normalized (m : Module) (before : Nat) :
    runEntry m.normalized before = runEntry m before := by
  unfold runEntry
  rw [instantiate_normalized]
  cases instantiate m (some Host.accepting) with
  | error trap => rfl
  | ok start =>
    obtain ⟨inst, store⟩ := start
    have hentry : m.normalized.entry = m.entry := rfl
    dsimp only [Except.map]
    rw [prepare_normalized, invoke_normalized, hentry]
    cases inst.prepare m.entry [] <;> rfl

end StackScript
