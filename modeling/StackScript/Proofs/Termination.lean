import StackScript.Proofs.CallStack

/-!
# Calls end

Every call by the host ends, in any module and after any other calls. Functions may call each other
and themselves, and conditionals need not match. Two facts bound a call: the number of open
activations has a maximum, and each instruction moves its activation forward in its body. That an
instruction takes finite time, the host's log function included, is part of what instructions are.

## Main definitions

* `Config.MovesTo`: what a step does to the places of the open activations.

## Main results

* `Config.Valid.movesTo`: an instruction moves its activation forward, and nothing else moves one.
* `Instance.not_forever`: a run that can end does not go on forever.
* `calls_end`: every call ends, within the maximum of open activations.
-/

namespace StackScript

/-- Where an open activation is. -/
def OpenActivation.position (frame : OpenActivation) : Func × Nat :=
  (frame.function, frame.place)

/-- Where the open activations are, from the inside out. -/
def Config.positions (c : Config) : List (Func × Nat) :=
  c.opened.map OpenActivation.position

/-- What a step does to the places of the open activations: an instruction moves its activation
forward, and activations are opened in front of the others and closed. -/
inductive Config.MovesTo : Config → Config → Prop
  | instruction {frame : OpenActivation} {outer : List OpenActivation} {machine : Machine}
      {next : Nat} {c : Config} : frame.place < frame.function.body.length → frame.place < next →
      c.positions = (frame.function, next) :: outer.map OpenActivation.position →
      MovesTo (.run frame outer machine) c
  | finish {frame : OpenActivation} {outer : List OpenActivation} {machine : Machine} {c : Config} :
      frame.function.body.length ≤ frame.place →
      c.positions = (frame :: outer).map OpenActivation.position →
      MovesTo (.run frame outer machine) c
  | opens {f : Func} {args : List Value} {outer : List OpenActivation} {machine : Machine}
      {c : Config} : c.positions = (f, 0) :: outer.map OpenActivation.position →
      MovesTo (.enter f args outer machine) c
  | exhausted {f : Func} {args : List Value} {outer : List OpenActivation} {machine : Machine}
      {c : Config} : outer.length = maxActivations →
      c.positions = outer.map OpenActivation.position → MovesTo (.enter f args outer machine) c
  | closes {result : Except Trap Unit} {frame : OpenActivation} {outer : List OpenActivation}
      {machine : Machine} {c : Config} : c.positions = outer.map OpenActivation.position →
      MovesTo (.close result frame outer machine) c
  | returns {result : Except Trap (Option Value)} {outer : List OpenActivation}
      {machine : Machine} {c : Config} : c.positions = outer.map OpenActivation.position →
      MovesTo (.leave result outer machine) c

section Steps

variable {inst : Instance} {c c' : Config}

/-- An instruction moves its activation forward, and nothing else moves one. -/
theorem Config.Valid.movesTo (h : c.Valid inst.module) (hstep : inst.Steps c c') :
    c.MovesTo c' := by
  cases c with
  | enter f args outer machine =>
    cases hstep
    -- the call is refused, or it opens an activation whether or not its jumps can be matched
    rcases h.stepEnter_cases with ⟨hfull, heq⟩ | ⟨-, ⟨trap, -, heq⟩ | ⟨jumps, tables, -, heq, -⟩⟩
    · rw [heq]
      exact .exhausted hfull rfl
    · rw [heq]
      exact .opens rfl
    · rw [heq]
      exact .opens rfl
  | run frame outer machine =>
    cases hstep
    have hjumps := (List.forall_mem_cons.mp h.forward).1
    -- the body is done, or an instruction is and the place moves on
    rcases inst.stepRun_cases hjumps with
      ⟨hplace, heq⟩ | ⟨next, a, hplace, hlt, heq | ⟨trap, heq⟩ | ⟨f, args, -, heq⟩⟩
    · rw [heq]
      exact .finish hplace rfl
    · rw [heq]
      exact .instruction hplace hlt rfl
    · rw [heq]
      exact .instruction hplace hlt rfl
    · rw [heq]
      exact .instruction hplace hlt rfl
  | close result frame outer machine =>
    cases hstep
    exact .closes rfl
  | leave result outer machine =>
    rcases outer with _ | ⟨frame, outer⟩
    · rcases result <;> cases hstep
    · rcases result with trap | returned <;> cases hstep <;> exact .returns rfl

/-- A run that can end does not go on forever. -/
theorem Instance.not_forever (hsteps : Relation.ReflTransGen inst.Steps c c')
    (hend : inst.step c' = none) (run : Nat → Config) (hrun : run 0 = c) :
    ¬ ∀ n, inst.Steps (run n) (run (n + 1)) := by
  induction hsteps using Relation.ReflTransGen.head_induction_on generalizing run with
  | refl =>
    intro hforever
    have hfirst : inst.step (run 0) = some (run 1) := hforever 0
    rw [hrun, hend] at hfirst
    cases hfirst
  | head hstep _ ih =>
    intro hforever
    have hfirst : inst.step (run 0) = some (run 1) := hforever 0
    -- there is one step from here, so the run takes it
    rw [hrun, show inst.step _ = some _ from hstep] at hfirst
    exact ih (fun n => run (n + 1)) (Option.some.inj hfirst).symm fun n => hforever (n + 1)

end Steps

/-- Every call by the host ends, after any calls and whatever the host has done: there is an
outcome, which is that of `invoke`, and no run of the call goes on forever. On the way at most
`maxActivations` activations are open, and an instruction moves its activation forward. All jumps of
all tables lead behind the instruction that jumps. -/
theorem calls_end (inst : Instance) (store : Store) {machine : Machine}
    (hreached : inst.Reaches (.fresh inst store) machine) (name : Text) (args : List Scalar) :
    (∃ result machine', inst.Invokes machine name args result machine' ∧
      inst.invoke machine.store name args = (result, machine'.store)) ∧
    (∀ run : Nat → Config, inst.Passes machine name args (run 0) →
      ¬ ∀ n, inst.Steps (run n) (run (n + 1))) ∧
    (∀ c, inst.Passes machine name args c → c.opened.length ≤ maxActivations ∧
      ∀ c', inst.Steps c c' → c.MovesTo c') ∧
    ∀ body jumps, jumpTable body = .ok jumps → ∀ jump ∈ jumps, jump.1 < jump.2 := by
  have hidle : machine.Idle inst.module := (Machine.idle_fresh inst store).reaches hreached
  refine ⟨hidle.exists_invokes name args, ?_, ?_, fun _ _ hjumps => forward_of_jumpTable hjumps⟩
  · rintro run ⟨f, values, hprepare, hpassed⟩
    obtain ⟨machine', hsteps, -⟩ :=
      inst.exists_steps_callFunction maxActivations (hidle.valid hprepare) (Nat.zero_add _)
    have hend := inst.step_leave_nil (callFunction inst maxActivations f values machine.store).1
      machine'
    exact Instance.not_forever (Instance.steps_to_end hsteps hend hpassed) hend run rfl
  · rintro c ⟨f, values, hprepare, hpassed⟩
    have hvalid := (hidle.valid hprepare).of_steps hpassed
    exact ⟨hvalid.length_le, fun c' hstep => hvalid.movesTo hstep⟩

/-- A function that calls itself on both ways through a conditional ends when no more activation may
be opened, and ends again when it is called again. -/
theorem calls_end_recursion :
    let f : Func :=
      { name := "f", body := [.const (.int 0), .openIf, .call "f", .openElse, .call "f", .closeIf] }
    let inst : Instance := ⟨{ functions := [f] }, Host.accepting, none⟩
    ∃ machine machine', inst.Invokes (.fresh inst ⟨[], []⟩) "f" []
        (.error (.callStackExhausted "f")) machine ∧
      inst.Invokes machine "f" [] (.error (.callStackExhausted "f")) machine' := by
  intro f inst
  have hfirst : (inst.invoke ⟨[], []⟩ "f" []).1 = .error (.callStackExhausted "f") := by
    decide +kernel
  have hsecond : (inst.invoke (inst.invoke ⟨[], []⟩ "f" []).2 "f" []).1 =
      .error (.callStackExhausted "f") := by
    decide +kernel
  obtain ⟨⟨result, machine, hinvokes, heq⟩, -⟩ := calls_end inst ⟨[], []⟩ .refl "f" []
  have hreached : inst.Reaches (.fresh inst ⟨[], []⟩) machine :=
    .single ⟨inst.host, "f", [], result, hinvokes⟩
  obtain ⟨⟨result', machine', hinvokes', heq'⟩, -⟩ := calls_end inst ⟨[], []⟩ hreached "f" []
  change inst.invoke ⟨[], []⟩ "f" [] = _ at heq
  rw [heq] at hfirst hsecond
  rw [heq'] at hsecond
  obtain rfl : result = .error (.callStackExhausted "f") := hfirst
  obtain rfl : result' = .error (.callStackExhausted "f") := hsecond
  exact ⟨machine, machine', hinvokes, hinvokes'⟩

end StackScript
