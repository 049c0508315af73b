import StackScript.Lowering.Generate
import StackScript.Proofs.ParseFailures

/-!
# How lowering fails

Lowering has words for everything that a program does wrong. It can stop without words only at a
literal: at a number that has no value of the module's type, or at a string that holds no text or a
text without bytes.

## Main definitions

* `Lower.StopsOnly`: lowering stops with certain errors only.
* `LiteralsStopOnly`: so do the literals of a program.

## Main results

* `lower_stopsOnly`: a node stops where one of its literals does, or with a fault of the program.
* `generate_stopsOnly`: so does a program.
-/

namespace StackScript

namespace Lower

section Steps

variable {α β : Type} {P : CompileError → Prop}

/-- Lowering stops with certain errors only. -/
def StopsOnly (P : CompileError → Prop) (l : Lower α) : Prop :=
  ∀ s stopped, (l s).result = .error stopped → P stopped.error

theorem stopsOnly_pure (a : α) : StopsOnly P (pure a : Lower α) :=
  fun _ _ h => by cases h

theorem stopsOnly_emit (instr : Instr) : StopsOnly P (emit instr) :=
  fun _ _ h => by cases h

theorem stopsOnly_scope : StopsOnly P scope :=
  fun _ _ h => by cases h

theorem stopsOnly_modify (change : Scope → α × Scope) : StopsOnly P (modify change) :=
  fun _ _ h => by cases h

theorem stopsOnly_stop {error : CompileError} (h : P error) :
    StopsOnly P (stop error : Lower α) := by
  intro s stopped heq
  cases heq
  exact h

theorem StopsOnly.bind {l : Lower α} {next : α → Lower β} (hl : StopsOnly P l)
    (hnext : ∀ a, StopsOnly P (next a)) : StopsOnly P (l >>= next) := by
  intro s stopped heq
  simp only [Bind.bind, Lower.bind] at heq
  split at heq
  · rename_i hfirst
    cases heq
    exact hl s _ hfirst
  · rename_i a hfirst
    exact hnext a _ stopped heq

theorem StopsOnly.withFrame {body : Lower Unit} (hbody : StopsOnly P body) (frame : Frame)
    (result : Option ValueType) : StopsOnly P (withFrame frame result body) := by
  intro s stopped heq
  simp only [Lower.withFrame] at heq
  split at heq
  · rename_i e hstops
    cases heq
    exact hbody _ e hstops
  · cases heq

variable (hfault : ∀ fault line, P (.fault fault line))

include hfault

theorem stopsOnly_fail (fault : CompileFault) (line : Line) :
    StopsOnly P (fail fault line : Lower α) :=
  stopsOnly_stop (hfault fault line)

omit hfault

theorem stopsOnly_isNotZero (t : ValueType) : StopsOnly P (isNotZero t) := by
  unfold isNotZero
  split
  · exact stopsOnly_pure ()
  · exact (stopsOnly_emit _).bind fun _ => stopsOnly_emit _

theorem stopsOnly_isZero (t : ValueType) : StopsOnly P (isZero t) := by
  unfold isZero
  split
  · exact (stopsOnly_emit _).bind fun _ => stopsOnly_emit _
  · exact stopsOnly_emit _

theorem stopsOnly_widen (t : ValueType) : StopsOnly P (widen t) := by
  unfold widen
  split
  · exact stopsOnly_emit _
  · exact stopsOnly_pure ()

theorem stopsOnly_negate (t : ValueType) : StopsOnly P (negate t) := by
  unfold negate
  split
  · exact stopsOnly_emit _
  · exact (stopsOnly_emit _).bind fun _ => stopsOnly_emit _

theorem stopsOnly_useValue (t : ValueType) (use : Use) : StopsOnly P (useValue t use) := by
  cases use with
  | statement => exact stopsOnly_emit _
  | value => exact stopsOnly_pure ()
  | condition => exact stopsOnly_isNotZero t

theorem stopsOnly_useFlag (t : ValueType) (use : Use) : StopsOnly P (useFlag t use) := by
  cases use with
  | statement => exact (stopsOnly_widen t).bind fun _ => stopsOnly_emit _
  | value => exact stopsOnly_widen t
  | condition => exact stopsOnly_pure ()

theorem stopsOnly_declare (name : Text) : StopsOnly P (declare name) :=
  (stopsOnly_modify _).bind fun _ => stopsOnly_emit _

include hfault

theorem stopsOnly_useNothing (nodeName : String) (line : Line) (use : Use) :
    StopsOnly P (useNothing nodeName line use) := by
  cases use with
  | statement => exact stopsOnly_pure ()
  | value => exact stopsOnly_fail hfault _ _
  | condition => exact stopsOnly_fail hfault _ _

theorem stopsOnly_resolve (name : Text) (line : Line) : StopsOnly P (resolve name line) := by
  refine stopsOnly_scope.bind fun s => ?_
  split
  · exact stopsOnly_pure _
  split
  · exact stopsOnly_pure _
  split
  · exact stopsOnly_fail hfault _ _
  · exact stopsOnly_fail hfault _ _

theorem stopsOnly_load (name : Text) (line : Line) : StopsOnly P (load name line) :=
  (stopsOnly_resolve hfault name line).bind fun _ => stopsOnly_emit _

theorem stopsOnly_store (name : Text) (line : Line) : StopsOnly P (store name line) :=
  (stopsOnly_resolve hfault name line).bind fun _ => stopsOnly_emit _

theorem stopsOnly_checkName (name : String) (line : Line) : StopsOnly P (checkName name line) := by
  unfold checkName
  split
  · exact stopsOnly_pure ()
  · exact stopsOnly_fail hfault _ _

theorem stopsOnly_checkNames (line : Line) (names : List String) :
    StopsOnly P (checkNames line names) := by
  induction names with
  | nil => exact stopsOnly_pure ()
  | cons name rest ih => exact (stopsOnly_checkName hfault name line).bind fun _ => ih

theorem stopsOnly_checkCall (callee : Expr) (count : Nat) (line : Line) :
    StopsOnly P (checkCall callee count line) := by
  unfold checkCall
  split
  · refine stopsOnly_scope.bind fun s => ?_
    split
    · split
      · exact stopsOnly_pure _
      · exact stopsOnly_fail hfault _ _
    · split <;> exact stopsOnly_fail hfault _ _
  · exact stopsOnly_fail hfault _ _

/-- A check that fails or goes on. -/
theorem StopsOnly.check {c : Prop} [Decidable c] {next : Unit → Lower α}
    (hnext : ∀ u, StopsOnly P (next u)) (fault : CompileFault) (line : Line) :
    StopsOnly P (if c then fail fault line >>= next else next ()) := by
  split
  · exact (stopsOnly_fail hfault _ _).bind hnext
  · exact hnext ()

theorem stopsOnly_checkFunction (options : Options) (name : String) (params : List String)
    (line : Line) : StopsOnly P (checkFunction options name params line) := by
  refine stopsOnly_scope.bind fun s => ?_
  cases s.frame
  case' some frame => refine (stopsOnly_fail hfault _ _).bind fun _ => ?_
  -- a definition inside another one has failed; the checks behind that are the same
  all_goals
    refine (stopsOnly_checkNames hfault line (name :: params)).bind fun _ => ?_
    refine .check hfault (fun _ => ?_) (.reservedName name) line
    refine .check hfault (fun _ => ?_) (.alreadyDefined name) line
    refine .check hfault (fun _ => ?_) (.duplicateParameter name) line
    exact stopsOnly_modify _

end Steps

/-- The code of a literal, as far as it can stop. -/
def pushLiteral (t : ValueType) (line : Line) : LiteralKind × Datum → Lower Unit
  | (.number, value) => constant t value line
  | (.true, _) => constant t (.int 1) line
  | (.false, _) => constant t (.int 0) line
  | (.string, value) => address value

end Lower

open Lower

variable {P : CompileError → Prop} {options : Options}

/-- Literals stop with certain errors only. -/
def LiteralsStopOnly (P : CompileError → Prop) (options : Options)
    (literals : List (LiteralKind × Datum)) : Prop :=
  ∀ literal ∈ literals, ∀ line, StopsOnly P (pushLiteral options.valueType line literal)

theorem literalsStopOnly_append {first second : List (LiteralKind × Datum)} :
    LiteralsStopOnly P options (first ++ second) ↔
      LiteralsStopOnly P options first ∧ LiteralsStopOnly P options second :=
  List.forall_mem_append

mutual

/-- A node stops where one of its literals does, or with a fault of the program. -/
theorem lower_stopsOnly (hfault : ∀ fault line, P (.fault fault line)) (use : Use) :
    ∀ e : Expr, LiteralsStopOnly P options e.literals → StopsOnly P (lower options use e)
  | .block body line, h => by
    rw [lower]
    exact (lowerAll_stopsOnly hfault false body h).bind fun _ => stopsOnly_useNothing hfault _ _ _
  | .binary left op right line, h => by
    obtain ⟨hleft, hright⟩ := literalsStopOnly_append.mp h
    rw [lower]
    refine (lower_stopsOnly hfault .value left hleft).bind fun _ => ?_
    refine (lower_stopsOnly hfault .value right hright).bind fun _ => ?_
    refine (stopsOnly_emit _).bind fun _ => ?_
    split
    · exact stopsOnly_useFlag _ _
    · exact stopsOnly_useValue _ _
  | .unary .negate operand line, h => by
    rw [lower]
    refine (lower_stopsOnly hfault .value operand h).bind fun _ => ?_
    exact (stopsOnly_negate _).bind fun _ => stopsOnly_useValue _ _
  | .unary .not operand line, h => by
    rw [lower]
    refine (lower_stopsOnly hfault .value operand h).bind fun _ => ?_
    exact (stopsOnly_isZero _).bind fun _ => stopsOnly_useFlag _ _
  | .declare name value line, h => by
    rw [lower]
    refine (stopsOnly_checkName hfault name line).bind fun _ => ?_
    refine (lower_stopsOnly hfault .value value h).bind fun _ => ?_
    exact (stopsOnly_declare name).bind fun _ => stopsOnly_useNothing hfault _ _ _
  | .get name line, h => by
    rw [lower]
    exact (stopsOnly_load hfault name line).bind fun _ => stopsOnly_useValue _ _
  | .assign name value line, h => by
    simp only [lower]
    refine (lower_stopsOnly hfault .value value h).bind fun _ => ?_
    refine (stopsOnly_store hfault name line).bind fun _ => ?_
    cases use with
    | statement => exact stopsOnly_pure ()
    | value => exact stopsOnly_load hfault name line
    | condition => exact (stopsOnly_load hfault name line).bind fun _ => stopsOnly_isNotZero _
  | .print value line, h => by
    rw [lower]
    refine (lower_stopsOnly hfault .value value h).bind fun _ => ?_
    exact (stopsOnly_emit _).bind fun _ => stopsOnly_useNothing hfault _ _ _
  | .ifElse condition thenBranch none line, h => by
    obtain ⟨hcondition, hthen⟩ := literalsStopOnly_append.mp h
    rw [lower]
    refine (lower_stopsOnly hfault .condition condition hcondition).bind fun _ => ?_
    refine (stopsOnly_emit _).bind fun _ => ?_
    refine (lower_stopsOnly hfault .statement thenBranch hthen).bind fun _ => ?_
    refine (stopsOnly_emit _).bind fun _ => (stopsOnly_emit _).bind fun _ => ?_
    exact stopsOnly_useNothing hfault _ _ _
  | .ifElse condition thenBranch (some elseBranch) line, h => by
    obtain ⟨h, helse⟩ := literalsStopOnly_append.mp h
    obtain ⟨hcondition, hthen⟩ := literalsStopOnly_append.mp h
    rw [lower]
    refine (lower_stopsOnly hfault .condition condition hcondition).bind fun _ => ?_
    refine (stopsOnly_emit _).bind fun _ => ?_
    refine (lower_stopsOnly hfault .statement thenBranch hthen).bind fun _ => ?_
    refine (stopsOnly_emit _).bind fun _ => ?_
    refine (lower_stopsOnly hfault .statement elseBranch helse).bind fun _ => ?_
    exact (stopsOnly_emit _).bind fun _ => stopsOnly_useNothing hfault _ _ _
  | .function name params body line, h => by
    rw [lower]
    refine (stopsOnly_checkFunction hfault options name params line).bind fun _ => ?_
    refine ((lowerAll_stopsOnly hfault true body h).withFrame _ _).bind fun _ => ?_
    exact stopsOnly_useNothing hfault _ _ _
  | .call callee args line, h => by
    rw [lower]
    -- the callee is checked and not lowered
    refine (stopsOnly_checkCall hfault callee _ line).bind fun _ => ?_
    refine (lowerArguments_stopsOnly hfault args (literalsStopOnly_append.mp h).2).bind fun _ => ?_
    exact (stopsOnly_emit _).bind fun _ => stopsOnly_useValue _ _
  | .literal kind value line, h => by
    have hpush := h (kind, value) List.mem_cons_self line
    simp only [lower]
    -- the code of a string goes on after its address, without a failure
    cases kind with
    | number => exact hpush.bind fun _ => stopsOnly_useValue _ _
    | true => exact hpush.bind fun _ => stopsOnly_useValue _ _
    | false => exact hpush.bind fun _ => stopsOnly_useValue _ _
    | string =>
      exact hpush.bind fun _ => (stopsOnly_widen _).bind fun _ => stopsOnly_useValue _ _

theorem lowerAll_stopsOnly (hfault : ∀ fault line, P (.fault fault line)) (keepLast : Bool) :
    ∀ list : List Expr, LiteralsStopOnly P options (Expr.allLiterals list) →
      StopsOnly P (lowerAll options keepLast list)
  | [], _ => by
    rw [lowerAll]
    split
    · exact stopsOnly_emit _
    · exact stopsOnly_pure ()
  | e :: rest, h => by
    obtain ⟨hfirst, hrest⟩ := literalsStopOnly_append.mp h
    rw [lowerAll]
    split
    · exact lower_stopsOnly hfault .value e hfirst
    · refine (lower_stopsOnly hfault .statement e hfirst).bind fun _ => ?_
      exact lowerAll_stopsOnly hfault keepLast rest hrest

theorem lowerArguments_stopsOnly (hfault : ∀ fault line, P (.fault fault line)) :
    ∀ list : List Expr, LiteralsStopOnly P options (Expr.allLiterals list) →
      StopsOnly P (lowerArguments options list)
  | [], _ => by
    rw [lowerArguments]
    exact stopsOnly_pure ()
  | e :: rest, h => by
    obtain ⟨hfirst, hrest⟩ := literalsStopOnly_append.mp h
    rw [lowerArguments]
    refine (lower_stopsOnly hfault .value e hfirst).bind fun _ => ?_
    exact lowerArguments_stopsOnly hfault rest hrest

end

/-- A program stops where one of its literals does, or with a fault. -/
theorem generate_stopsOnly (hfault : ∀ fault line, P (.fault fault line))
    {program : Program} {error : CompileError}
    (h : LiteralsStopOnly P options (Expr.allLiterals program))
    (herror : (generate options program).result = .error error) : P error := by
  unfold generate at herror
  dsimp only at herror
  split at herror
  · cases herror
  · rename_i stopped hstopped
    cases herror
    exact (lowerAll_stopsOnly hfault _ program h).withFrame _ _ _ stopped hstopped

end StackScript
