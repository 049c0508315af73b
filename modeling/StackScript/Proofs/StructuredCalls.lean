import Mathlib.Data.List.Forall2
import StackScript.Proofs.StructuredRun

/-!
# Calls by the structure of bodies

A body whose markers nest is the writing of exactly one piece of code, which is found by passing
over the body once. Finding it and matching the markers fail at the same place for the same reason.
So a machine that has only the code of its functions, and neither places nor jumps, does the same as
the one that follows jump tables, in every activation and through all calls.

## Main definitions

* `codeOf`: the code that a body writes.
* `callCode`: a call that runs the code of a function.

## Main results

* `exists_jumpTable_iff`: a body has a jump table exactly when its markers nest.
* `codeOf_eq_error_iff`: a body that has no code has no jump table, for the same reason.
* `callFunction_eq_callCode`: calls by jump tables are calls by code.
* `runFrom_eq_exec_codeOf`: a body runs as its code does.
-/

namespace StackScript

/-! ### The code of a body -/

/-- A conditional whose end has not been seen: the code before it, and its first part if that has
ended. -/
structure OpenCode where
  before : Code
  first : Option Code := none

/-- The code up to the end of a conditional, whose last part is given. -/
def OpenCode.close (opened : OpenCode) (last : Code) : Code :=
  match opened.first with
  | some first => opened.before ++ .ifElse first last .done
  | none => opened.before ++ .ifThen last .done

/-- Builds the code of a body from a place on: `opened` holds the conditionals around it, from the
inside out, and `current` the code of the innermost part so far. -/
def buildCode (index : Nat) (opened : List OpenCode) (current : Code) :
    List Instr → Except Trap Code
  | [] => if opened.isEmpty then .ok current else .error .unterminatedIf
  | .openIf :: rest => buildCode (index + 1) ({ before := current } :: opened) .done rest
  | .openElse :: rest =>
    match opened with
    | ⟨before, none⟩ :: outer =>
      buildCode (index + 1) (⟨before, some current⟩ :: outer) .done rest
    | _ => .error (.unmatchedElse index)
  | .closeIf :: rest =>
    match opened with
    | conditional :: outer => buildCode (index + 1) outer (conditional.close current) rest
    | [] => .error (.unmatchedEnd index)
  | .const value :: rest =>
    buildCode (index + 1) opened (current ++ .act (.const value) .done) rest
  | .call name :: rest => buildCode (index + 1) opened (current ++ .act (.call name) .done) rest
  | .plain mnemonic operand :: rest =>
    buildCode (index + 1) opened (current ++ .act (.plain mnemonic operand) .done) rest

/-- The code that a body writes. -/
def codeOf (body : List Instr) : Except Trap Code :=
  buildCode 0 [] .done body

theorem buildCode_instr_cons (index : Nat) (opened : List OpenCode) (current : Code)
    (action : Action) (rest : List Instr) :
    buildCode index opened current (action.instr :: rest) =
      buildCode (index + 1) opened (current ++ .act action .done) rest := by
  cases action <;> rfl

/-- Written code is found again, behind the code that has been found before. -/
theorem buildCode_flatten_append (c : Code) (index : Nat) (opened : List OpenCode) (current : Code)
    (rest : List Instr) :
    buildCode index opened current (c.flatten ++ rest) =
      buildCode (index + c.size) opened (current ++ c) rest := by
  -- Whatever is open stays open: a code is built onto the part before it and closes what it opens.
  induction c generalizing index opened current rest with
  | done => rw [Code.append_done]; rfl
  | act action more ih =>
    rw [Code.flatten, List.cons_append, buildCode_instr_cons, ih, Code.append_assoc, Code.size_act,
      Nat.add_assoc, Nat.add_comm 1]
    rfl
  | ifThen first more ihfirst ihmore =>
    have hflatten : (Code.ifThen first more).flatten ++ rest =
        .openIf :: (first.flatten ++ .closeIf :: (more.flatten ++ rest)) := by
      simp [Code.flatten]
    have hstop : index + 1 + first.size + 1 + more.size = index + (first.size + more.size + 2) := by
      omega
    rw [hflatten, buildCode, ihfirst, buildCode, ihmore, OpenCode.close, Code.append_assoc,
      Code.size_ifThen, hstop]
    rfl
  | ifElse first second more ihfirst ihsecond ihmore =>
    have hflatten : (Code.ifElse first second more).flatten ++ rest =
        .openIf :: (first.flatten ++ .openElse :: (second.flatten ++ .closeIf ::
          (more.flatten ++ rest))) := by
      simp [Code.flatten]
    have hstop : index + 1 + first.size + 1 + second.size + 1 + more.size =
        index + (first.size + second.size + more.size + 3) := by
      omega
    rw [hflatten, buildCode, ihfirst, buildCode, ihsecond, buildCode, ihmore, OpenCode.close,
      Code.append_assoc, Code.size_ifElse, hstop]
    rfl

/-- Written code is found again. -/
theorem codeOf_flatten (c : Code) : codeOf c.flatten = .ok c := by
  have h := buildCode_flatten_append c 0 [] .done []
  rwa [List.append_nil, Code.done_append] at h

/-! ### Bodies whose markers do not nest -/

/-- Matching markers succeeds exactly where these nest inside the conditionals that are open. -/
theorem isOk_matchMarkers (body : List Instr) (index : Nat) (opened : List OpenMarker) :
    (matchMarkers index opened body).isOk = nestsIn (opened.map (·.second.isSome)) body := by
  induction body generalizing index opened with
  | nil => cases opened <;> rfl
  | cons instr rest ih =>
    cases instr with
    | const | call | plain => exact ih (index + 1) opened
    | openIf => exact ih (index + 1) _
    | openElse =>
      -- of an open conditional only the presence of a second part matters
      rcases opened with _ | ⟨⟨start, _ | second⟩, outer⟩
      · rfl
      · exact ih (index + 1) (⟨start, some index⟩ :: outer)
      · rfl
    | closeIf =>
      cases opened with
      | nil => rfl
      | cons marker outer =>
        rw [matchMarkers_closeIf_cons]
        refine Eq.trans ?_ (ih (index + 1) outer)
        cases matchMarkers (index + 1) outer rest <;> rfl

/-- A body has a jump table exactly when its markers nest. -/
theorem exists_jumpTable_iff {body : List Instr} :
    (∃ jumps, jumpTable body = .ok jumps) ↔ WellNested body := by
  rw [WellNested, ← List.map_nil (f := fun marker : OpenMarker => marker.second.isSome),
    ← isOk_matchMarkers body 0, ← jumpTable]
  cases jumpTable body with
  | error trap => simp [Except.isOk, Except.toBool]
  | ok jumps => simp [Except.isOk, Except.toBool]

/-- Building code fails where matching the markers does, if the same conditionals are open. -/
theorem buildCode_eq_error_iff {body : List Instr} {index : Nat} {opened : List OpenCode}
    {markers : List OpenMarker} {current : Code} {trap : Trap}
    (h : List.Forall₂ (fun code marker => code.first.isSome = marker.second.isSome) opened markers) :
    buildCode index opened current body = .error trap ↔
      matchMarkers index markers body = .error trap := by
  -- Both passes stop at the same mark, since they have the same conditionals open.
  induction body generalizing index opened markers current with
  | nil => cases h <;> simp [buildCode, matchMarkers]
  | cons instr rest ih =>
    cases instr with
    | const | call | plain => exact ih h
    | openIf => exact ih (.cons rfl h)
    | openElse =>
      cases h with
      | nil => simp [buildCode, matchMarkers]
      | @cons code marker outer _ hsame houter =>
        obtain ⟨before, first⟩ := code
        obtain ⟨start, second⟩ := marker
        cases first <;> cases second <;> cases hsame
        · exact ih (.cons rfl houter)
        · simp [buildCode, matchMarkers]
    | closeIf =>
      cases h with
      | nil => simp [buildCode, matchMarkers]
      | @cons code marker outer outer' _ houter =>
        rw [buildCode, ih houter, matchMarkers_closeIf_cons]
        cases matchMarkers (index + 1) outer' rest <;> simp [Except.map]

/-- A body that has no code has no jump table, for the same reason. -/
theorem codeOf_eq_error_iff {body : List Instr} {trap : Trap} :
    codeOf body = .error trap ↔ jumpTable body = .error trap :=
  buildCode_eq_error_iff .nil

/-- The code of a body writes the body. -/
theorem flatten_of_codeOf {body : List Instr} {c : Code} (h : codeOf body = .ok c) :
    c.flatten = body := by
  cases hjumps : jumpTable body with
  | error trap => cases h.symm.trans (codeOf_eq_error_iff.mpr hjumps)
  | ok jumps =>
    obtain ⟨d, rfl⟩ := wellNested_iff_exists_code.mp (exists_jumpTable_iff.mp ⟨jumps, hjumps⟩)
    cases h.symm.trans (codeOf_flatten d)
    rfl

/-! ### Calls -/

/-- Calls a function while `room` more activations may be opened, by running its code. -/
def callCode (inst : Instance) : (room : Nat) → Callee
  | 0, f, _, store => (.error (.callStackExhausted f.name), store)
  | room + 1, f, args, store =>
    match codeOf f.body with
    | .error trap => (.error trap, store)
    | .ok c =>
      let (result, final) := c.exec inst (callCode inst room) f.name (inst.start f args store)
      (result.bind fun _ => f.finish final.stack, final.store)

/-- Calls by jump tables are calls by code. -/
theorem callFunction_eq_callCode (inst : Instance) (room : Nat) :
    callFunction inst room = callCode inst room := by
  induction room with
  | zero => rfl
  | succ room ih =>
    funext f args store
    rw [callCode]
    cases hcode : codeOf f.body with
    | error trap => rw [callFunction, codeOf_eq_error_iff.mp hcode]
    | ok c =>
      rw [← ih]
      exact callFunction_flatten inst room (flatten_of_codeOf hcode).symm args store

/-- A body has a jump table exactly when its markers nest. Following the table then does to every
activation what running the code of the body does, and calls that follow jump tables do what calls
that run code do. -/
theorem runFrom_eq_exec_codeOf :
    (∀ body : List Instr, (∃ jumps, jumpTable body = .ok jumps) ↔ WellNested body) ∧
      (∀ (inst : Instance) (room : Nat) (f : Func), WellNested f.body →
        ∃ jumps c, jumpTable f.body = .ok jumps ∧ codeOf f.body = .ok c ∧ c.flatten = f.body ∧
          ∀ a : Activation, runFrom inst (callFunction inst room) f.name jumps f.body.toArray 0 a =
            c.exec inst (callCode inst room) f.name a) ∧
      ∀ (inst : Instance) (room : Nat) (f : Func) (args : List Value) (store : Store),
        callFunction inst room f args store = callCode inst room f args store := by
  refine ⟨fun body => exists_jumpTable_iff, fun inst room f hnested => ?_, ?_⟩
  · obtain ⟨c, hc⟩ := wellNested_iff_exists_code.mp hnested
    refine ⟨c.jumps 0, c, hc ▸ jumpTable_flatten c, hc ▸ codeOf_flatten c, hc, fun a => ?_⟩
    rw [← hc, (resumes_flatten c).runFrom_eq, callFunction_eq_callCode]
  · intro inst room f args store
    rw [callFunction_eq_callCode]

/-- A function that logs its argument and those below it, by a call in a conditional without a second
part that stands in the first part of another. -/
def descending : Func where
  name := "down"
  params := ["n"]
  body :=
    [.named "local.get" "n", .openIf, .named "local.get" "n", .call logFunction,
      .named "local.get" "n", .const (.int 1), .bare "i32.sub", .openIf, .named "local.get" "n",
      .const (.int 1), .bare "i32.sub", .call "down", .closeIf, .openElse, .const (.int 0),
      .call logFunction, .closeIf]

/-- An instance in which the descending function can be called. -/
def descendingInstance : Instance where
  module := { valueType := .i32, functions := [descending] }
  host := .accepting
  memory := none

/-- The markers of the descending function nest. With its jump table it runs as its code. -/
theorem runFrom_descending :
    WellNested descending.body ∧ jumpTable descending.body = .ok [(7, 12), (1, 14), (13, 16)] ∧
      ∃ c, codeOf descending.body = .ok c ∧ c.flatten = descending.body ∧ ∀ a : Activation,
        runFrom descendingInstance (callFunction descendingInstance 199) "down"
            [(7, 12), (1, 14), (13, 16)] descending.body.toArray 0 a =
          c.exec descendingInstance (callCode descendingInstance 199) "down" a := by
  have hnested : WellNested descending.body := by decide
  have htable : jumpTable descending.body = .ok [(7, 12), (1, 14), (13, 16)] := by decide
  obtain ⟨jumps, c, hjumps, hcode, hflatten, hrun⟩ :=
    runFrom_eq_exec_codeOf.2.1 descendingInstance 199 descending hnested
  cases hjumps.symm.trans htable
  exact ⟨hnested, htable, c, hcode, hflatten, hrun⟩

end StackScript
