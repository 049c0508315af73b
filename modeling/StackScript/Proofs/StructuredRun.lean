import StackScript.Machine.Instance
import StackScript.Proofs.Code

/-!
# Running structured code

Code runs by recursion over its tree: a conditional pops its condition and runs one of its parts. A
flat body that writes the code does the same, place by place, when it follows the jump table. The
link between the two is the code that is still to run at a place of the body.

## Main definitions

* `Action.exec`, `Code.exec`: what an action, what code does in an activation.
* `Resumes`: the code that is still to run at a place of a body.

## Main results

* `resumes_flatten`: at the start of a body that writes code, that code is still to run.
* `Resumes.runFrom_eq`: running a body from a place on is running the code that is still to run.
* `callFunction_flatten`: a call of a function whose body writes code runs the code.
-/

namespace StackScript

open Exec

section Exec

variable (inst : Instance) (callee : Callee) (function : Text)

/-- What an action does in an activation. -/
def Action.exec : Action → Exec Unit
  | const value => do
    let v ← liftExcept (Trap.ofConversion (Value.ofDatum inst.module.valueType value))
    onStack (push v)
  | call name => callInstr inst callee function name
  | plain mnemonic operand => plainInstr function mnemonic operand

/-- What code does in an activation. A condition that is zero selects the second part. -/
def Code.exec : Code → Exec Unit
  | done => return ()
  | act action rest => do
    action.exec inst callee function
    rest.exec
  | ifThen first rest => do
    let condition ← onStack (pop function)
    (if condition.isZero then pure () else first.exec)
    rest.exec
  | ifElse first second rest => do
    let condition ← onStack (pop function)
    (if condition.isZero then second.exec else first.exec)
    rest.exec

theorem Code.exec_append (c d : Code) :
    (c ++ d).exec inst callee function =
      (do c.exec inst callee function; d.exec inst callee function) := by
  induction c with
  | done => simp [exec]
  | act action rest ih => simp [exec, ih]
  | ifThen first rest _ ih => simp [exec, ih]
  | ifElse first second rest _ _ ih => simp [exec, ih]

/-- An action is one step, to the place that follows. -/
theorem stepInstr_instr (jumps : JumpTable) (place : Nat) (action : Action) :
    stepInstr inst callee function jumps place action.instr =
      (do action.exec inst callee function; return place + 1) := by
  cases action <;> simp [Action.instr, Action.exec, stepInstr]

end Exec

/-! ### The code that is still to run -/

/-- At a place of a body with a jump table, some code is still to run. Between the two parts of a
conditional and at its end nothing happens, so the code there is what follows the conditional. -/
inductive Resumes (body : List Instr) (jumps : JumpTable) : Nat → Code → Prop
  | stop {place : Nat} : body.length ≤ place → Resumes body jumps place .done
  | act {place : Nat} {action : Action} {rest : Code} : body[place]? = some action.instr →
      Resumes body jumps (place + 1) rest → Resumes body jumps place (.act action rest)
  | ifThen {place : Nat} {first rest : Code} : body[place]? = some .openIf →
      place < jumps.target place → Resumes body jumps (place + 1) (first ++ rest) →
      Resumes body jumps (jumps.target place) rest → Resumes body jumps place (.ifThen first rest)
  | ifElse {place : Nat} {first second rest : Code} : body[place]? = some .openIf →
      place < jumps.target place → Resumes body jumps (place + 1) (first ++ rest) →
      Resumes body jumps (jumps.target place) (second ++ rest) →
      Resumes body jumps place (.ifElse first second rest)
  | openElse {place : Nat} {rest : Code} : body[place]? = some .openElse →
      place < jumps.target place → Resumes body jumps (jumps.target place) rest →
      Resumes body jumps place rest
  | closeIf {place : Nat} {rest : Code} : body[place]? = some .closeIf →
      Resumes body jumps (place + 1) rest → Resumes body jumps place rest

theorem getElem?_of_eq_append {body before after : List Instr} {instr : Instr} {place : Nat}
    (hbody : body = before ++ instr :: after) (hplace : before.length = place) :
    body[place]? = some instr := by
  simp [hbody, ← hplace]

/-- Code that stands in a body is to run at its first place, if what follows it is to run at the
place behind it. -/
theorem Resumes.prepend {body : List Instr} {jumps : JumpTable} (c : Code) {k : Code}
    (before after : List Instr) {place : Nat} (hbody : body = before ++ (c.flatten ++ after))
    (hplace : before.length = place)
    (hjumps : ∀ jump ∈ c.jumps place, jumps.target jump.1 = jump.2)
    (hk : Resumes body jumps (place + c.size) k) :
    Resumes body jumps place (c ++ k) := by
  -- The parts are resumed from the last one to the first, each in front of those behind it.
  induction c generalizing before after place k with
  | done => exact hk
  | act action rest ih =>
    refine .act (getElem?_of_eq_append hbody hplace) ?_
    refine ih (before ++ [action.instr]) after (by simp [hbody, Code.flatten])
      (by simp [hplace]) hjumps ?_
    rwa [Code.size_act, Nat.add_comm rest.size, ← Nat.add_assoc] at hk
  | ifThen first rest ih₁ ih₂ =>
    simp only [Code.jumps, List.mem_append, List.mem_cons] at hjumps
    have htarget : jumps.target place = place + 1 + first.size := hjumps _ (.inr (.inl rfl))
    have hrest : Resumes body jumps (place + 1 + first.size + 1) (rest ++ k) := by
      refine ih₂ (before ++ .openIf :: first.flatten ++ [.closeIf]) after
        (by simp [hbody, Code.flatten]) (by simp [hplace, Code.size]; omega)
        (fun jump h => hjumps jump (.inr (.inr h))) ?_
      rwa [Code.size_ifThen, show place + (first.size + rest.size + 2) =
        place + 1 + first.size + 1 + rest.size by omega] at hk
    have hstop : Resumes body jumps (place + 1 + first.size) (rest ++ k) := by
      have hbody' : body =
          (before ++ .openIf :: first.flatten) ++ .closeIf :: (rest.flatten ++ after) := by
        simp [hbody, Code.flatten]
      exact .closeIf (getElem?_of_eq_append hbody' (by simp [hplace, Code.size]; omega)) hrest
    refine .ifThen (getElem?_of_eq_append hbody hplace) (by omega) ?_ (htarget ▸ hstop)
    exact ih₁ (before ++ [.openIf]) (.closeIf :: rest.flatten ++ after)
      (by simp [hbody, Code.flatten]) (by simp [hplace]) (fun jump h => hjumps jump (.inl h)) hstop
  | ifElse first second rest ih₁ ih₂ ih₃ =>
    simp only [Code.jumps, List.mem_append, List.mem_cons] at hjumps
    have htarget : jumps.target place = place + 1 + first.size + 1 := hjumps _ (.inr (.inl rfl))
    have htarget' : jumps.target (place + 1 + first.size) =
        place + 1 + first.size + 1 + second.size := hjumps _ (.inr (.inr (.inl rfl)))
    have hrest : Resumes body jumps (place + 1 + first.size + 1 + second.size + 1) (rest ++ k) := by
      refine ih₃ (before ++ .openIf :: first.flatten ++ .openElse :: second.flatten ++ [.closeIf])
        after (by simp [hbody, Code.flatten]) (by simp [hplace, Code.size]; omega)
        (fun jump h => hjumps jump (.inr (.inr (.inr h)))) ?_
      rwa [Code.size_ifElse, show place + (first.size + second.size + rest.size + 3) =
        place + 1 + first.size + 1 + second.size + 1 + rest.size by omega] at hk
    have hstop : Resumes body jumps (place + 1 + first.size + 1 + second.size) (rest ++ k) := by
      have hbody' : body = (before ++ .openIf :: first.flatten ++ .openElse :: second.flatten) ++
          .closeIf :: (rest.flatten ++ after) := by
        simp [hbody, Code.flatten]
      exact .closeIf (getElem?_of_eq_append hbody' (by simp [hplace, Code.size]; omega)) hrest
    -- the first part ends at the mark of the second, which jumps to the end
    have hmiddle : Resumes body jumps (place + 1 + first.size) (rest ++ k) := by
      have hbody' : body = (before ++ .openIf :: first.flatten) ++
          .openElse :: (second.flatten ++ .closeIf :: (rest.flatten ++ after)) := by
        simp [hbody, Code.flatten]
      exact .openElse (getElem?_of_eq_append hbody' (by simp [hplace, Code.size]; omega))
        (by omega) (htarget' ▸ hstop)
    refine .ifElse (getElem?_of_eq_append hbody hplace) (by omega) ?_ ?_
    · exact ih₁ (before ++ [.openIf])
        (.openElse :: second.flatten ++ .closeIf :: rest.flatten ++ after)
        (by simp [hbody, Code.flatten]) (by simp [hplace])
        (fun jump h => hjumps jump (.inl (.inl h))) hmiddle
    · rw [htarget]
      exact ih₂ (before ++ .openIf :: first.flatten ++ [.openElse])
        (.closeIf :: rest.flatten ++ after) (by simp [hbody, Code.flatten])
        (by simp [hplace, Code.size]; omega)
        (fun jump h => hjumps jump (.inl (.inr h))) hstop

theorem JumpTable.target_jumps {c : Code} {place : Nat} {jump : Nat × Nat}
    (h : jump ∈ c.jumps place) : JumpTable.target (c.jumps place) jump.1 = jump.2 := by
  rw [JumpTable.target, Code.lookup_jumps h, Option.getD_some]

/-- At the start of a body that writes code, that code is still to run. -/
theorem resumes_flatten (c : Code) : Resumes c.flatten (c.jumps 0) 0 c := by
  have hend : Resumes c.flatten (c.jumps 0) (0 + c.size) .done := .stop (by simp [Code.size])
  have h := Resumes.prepend c [] [] (by simp) rfl (fun _ => JumpTable.target_jumps) hend
  rwa [Code.append_done] at h

/-- Running a body from a place on is running the code that is still to run there. -/
theorem Resumes.runFrom_eq (inst : Instance) (callee : Callee) (function : Text)
    {body : List Instr} {jumps : JumpTable} {place : Nat} {c : Code}
    (h : Resumes body jumps place c) :
    runFrom inst callee function jumps body.toArray place = c.exec inst callee function := by
  -- A run follows the marks by their jumps, and the structure by its parts.
  induction h with
  | stop hplace =>
    rw [runFrom, dif_neg (by simpa using hplace)]
    rfl
  | @act place action rest hat _ ih =>
    obtain ⟨hlt, hget⟩ := List.getElem?_eq_some_iff.mp hat
    rw [runFrom, dif_pos (by simpa using hlt), List.getElem_toArray, hget, stepInstr_instr]
    simp [Code.exec, ih]
  | @ifThen place first rest hat hjump _ _ ih₁ ih₂ =>
    obtain ⟨hlt, hget⟩ := List.getElem?_eq_some_iff.mp hat
    rw [runFrom, dif_pos (by simpa using hlt), List.getElem_toArray, hget]
    simp only [stepInstr, Code.exec, bind_assoc, pure_bind]
    congr 1
    funext condition
    -- a false condition jumps, a true one goes on to the next place
    split
    · rw [Nat.max_eq_right hjump, ih₂]
      simp
    · rw [Nat.max_self, ih₁, Code.exec_append]
  | @ifElse place first second rest hat hjump _ _ ih₁ ih₂ =>
    obtain ⟨hlt, hget⟩ := List.getElem?_eq_some_iff.mp hat
    rw [runFrom, dif_pos (by simpa using hlt), List.getElem_toArray, hget]
    simp only [stepInstr, Code.exec, bind_assoc, pure_bind]
    congr 1
    funext condition
    split
    · rw [Nat.max_eq_right hjump, ih₂, Code.exec_append]
    · rw [Nat.max_self, ih₁, Code.exec_append]
  | @openElse place rest hat hjump _ ih =>
    obtain ⟨hlt, hget⟩ := List.getElem?_eq_some_iff.mp hat
    rw [runFrom, dif_pos (by simpa using hlt), List.getElem_toArray, hget]
    simp only [stepInstr, pure_bind]
    rw [Nat.max_eq_right hjump, ih]
  | @closeIf place rest hat _ ih =>
    obtain ⟨hlt, hget⟩ := List.getElem?_eq_some_iff.mp hat
    rw [runFrom, dif_pos (by simpa using hlt), List.getElem_toArray, hget]
    simp only [stepInstr, pure_bind]
    rw [Nat.max_self, ih]

/-- The activation that a call of a function starts with. -/
def Instance.start (inst : Instance) (f : Func) (args : List Value) (store : Store) : Activation where
  stack := []
  locals := f.initialLocals inst.module.valueType args
  store := store

/-- A call of a function whose body writes code runs the code. -/
theorem callFunction_flatten (inst : Instance) (room : Nat) {f : Func} {c : Code}
    (hbody : f.body = c.flatten) (args : List Value) (store : Store) :
    callFunction inst (room + 1) f args store =
      let (result, final) :=
        c.exec inst (callFunction inst room) f.name (inst.start f args store)
      (result.bind fun _ => f.finish final.stack, final.store) := by
  rw [callFunction, hbody, jumpTable_flatten]
  simp only [(resumes_flatten c).runFrom_eq]
  rfl

end StackScript
