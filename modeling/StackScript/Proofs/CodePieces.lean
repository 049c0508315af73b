import StackScript.Proofs.Actions
import StackScript.Proofs.LoweringRules
import StackScript.Proofs.TypedValues

/-!
# The pieces that code is made of

What the short sequences of actions do that lowering puts together: the tests for zero, widening,
negation, and the ones that put a value or a flag to its use.

## Main definitions

* `Use.Leaves`: what a node that has a value leaves on the stack for a use.

## Main results

* `exec_isZero`, `exec_isNotZero`, `exec_widen`, `exec_negate`, `exec_address`: the pieces.
* `exec_ofValue`, `exec_ofFlag`: putting a value or a flag to a use.
-/

namespace StackScript

open Code (acts)

/-- Actions one after another. -/
theorem Code.acts_append (actions more : List Action) :
    acts (actions ++ more) = acts actions ++ acts more := by
  induction actions with
  | nil => rfl
  | cons action rest ih => exact congrArg (Code.act action) ih

section

variable {inst : Instance} {callee : Callee} {function : Text} {t : ValueType} {v : Value}
  {st : List Value} {locals : Cells} {store : Store}

theorem exec_done (a : Activation) : Code.done.exec inst callee function a = (.ok (), a) := rfl

theorem exec_act (action : Action) (rest : Code) (a : Activation) :
    (Code.act action rest).exec inst callee function a =
      Effect.andThen (action.exec inst callee function a)
        fun _ => rest.exec inst callee function := by
  rw [Code.exec, bind_apply]

theorem exec_append (c d : Code) (a : Activation) :
    (c ++ d).exec inst callee function a =
      Effect.andThen (c.exec inst callee function a) fun _ => d.exec inst callee function := by
  rw [Code.exec_append, bind_apply]

/-- A conditional pops its condition and runs one of its parts. -/
theorem exec_ifElse (first second rest : Code) (v : Value) :
    (Code.ifElse first second rest).exec inst callee function ⟨v :: st, locals, store⟩ =
      Effect.andThen ((if v.isZero then second else first).exec inst callee function
        ⟨st, locals, store⟩) fun _ => rest.exec inst callee function := by
  rw [Code.exec, bind_apply, onStack_pop_apply, Effect.andThen_ok, bind_apply]
  split <;> rfl

theorem exec_const {d : Datum} (hd : Value.ofDatum inst.module.valueType d = .ok v)
    (a : Activation) :
    (Action.const d).exec inst callee function a = (.ok (), { a with stack := v :: a.stack }) := by
  simp [Action.exec, hd, Trap.ofConversion, bind_apply]

/-- An action on the value on top. -/
theorem exec_acts_unary {mnemonic : Text} {op : UnaryOperation} {w : Value}
    (hdecode : decodeMnemonic? mnemonic = some (t, .unary op))
    (happly : applyUnary t mnemonic v op = .ok w) :
    (acts [.bare mnemonic]).exec inst callee function ⟨v :: st, locals, store⟩ =
      (.ok (), ⟨w :: st, locals, store⟩) := by
  rw [acts, exec_act]
  simp only [Action.bare, Action.exec, exec_unary hdecode, happly]
  rfl

/-- A constant, and an action on it and on the value below. -/
theorem exec_acts_const_binary {mnemonic : Text} {op : BinaryOperation} {d : Datum} {w r : Value}
    (hd : Value.ofDatum inst.module.valueType d = .ok w)
    (hdecode : decodeMnemonic? mnemonic = some (t, .binary op))
    (happly : applyBinary t mnemonic v w op = .ok r) :
    (acts [.const d, .bare mnemonic]).exec inst callee function ⟨v :: st, locals, store⟩ =
      (.ok (), ⟨r :: st, locals, store⟩) := by
  rw [acts, exec_act, exec_const hd, Effect.andThen_ok, acts, exec_act]
  simp only [Action.bare, Action.exec, exec_binary hdecode, happly]
  rfl

section Module

variable (hinst : inst.module.valueType = t)
include hinst

theorem exec_isZero (hv : v.type = t) :
    (acts t.isZeroActions).exec inst callee function ⟨v :: st, locals, store⟩ =
      (.ok (), ⟨.flag v.isZero :: st, locals, store⟩) := by
  unfold ValueType.isZeroActions
  cases hfloat : t.isFloat with
  | true =>
    exact exec_acts_const_binary (hinst ▸ Value.ofDatum_zeroDatum t)
      (decodeMnemonic?_mnemonic t "eq") (applyBinary_eq_zero hfloat hv _)
  | false =>
    exact exec_acts_unary (decodeMnemonic?_mnemonic t "eqz") (applyUnary_eqz hfloat hv _)

/-- Afterwards there is a flag that is zero if the value was. -/
theorem exec_isNotZero (hv : v.type = t) :
    ∃ w : Value, w.type = .i32 ∧ w.isZero = v.isZero ∧
      (acts t.isNotZeroActions).exec inst callee function ⟨v :: st, locals, store⟩ =
        (.ok (), ⟨w :: st, locals, store⟩) := by
  unfold ValueType.isNotZeroActions
  by_cases ht : t = .i32
  · exact ⟨v, hv.trans ht, rfl, by rw [if_pos ht, acts, exec_done]⟩
  · refine ⟨.flag (!v.isZero), rfl, by simp, ?_⟩
    rw [if_neg ht]
    exact exec_acts_const_binary (hinst ▸ Value.ofDatum_zeroDatum t)
      (decodeMnemonic?_mnemonic t "ne") (applyBinary_ne_zero hv _)

theorem exec_negate (hv : v.type = t) :
    (acts t.negateActions).exec inst callee function ⟨v :: st, locals, store⟩ =
      (.ok (), ⟨v.negate :: st, locals, store⟩) := by
  unfold ValueType.negateActions
  cases hfloat : t.isFloat with
  | true =>
    exact exec_acts_unary (decodeMnemonic?_mnemonic t "neg") (applyUnary_neg hfloat hv _)
  | false =>
    obtain ⟨negOne, hnegOne, hmul⟩ := applyBinary_mul_negOne hfloat hv (t.mnemonic "mul")
    exact exec_acts_const_binary (hinst ▸ hnegOne) (decodeMnemonic?_mnemonic t "mul") hmul

end Module

/-- Widening turns a flag into one or zero of the type. -/
theorem exec_widen (b : Bool) :
    (acts t.widenActions).exec inst callee function ⟨.flag b :: st, locals, store⟩ =
      (.ok (), ⟨.ofBool t b :: st, locals, store⟩) := by
  cases t with
  | i32 => cases b <;> rfl
  | i64 =>
    exact exec_acts_unary (decodeMnemonic?_mnemonic .i64 "extend_i32_u")
      (applyUnary_fromUnsigned_flag _ _ b)
  | f32 =>
    exact exec_acts_unary (decodeMnemonic?_mnemonic .f32 "convert_i32_u")
      (applyUnary_fromUnsigned_flag _ _ b)
  | f64 =>
    exact exec_acts_unary (decodeMnemonic?_mnemonic .f64 "convert_i32_u")
      (applyUnary_fromUnsigned_flag _ _ b)

theorem exec_i32Const (n : Int) (a : Activation) :
    (Action.plain "i32.const" (.int n)).exec inst callee function a =
      a.push (.ok (.i32 (.ofInt 32 n))) := by
  rw [Action.exec, ← toWord_eq_ofInt]
  exact exec_constant (decodeMnemonic?_mnemonic .i32 "const")

/-- The code of a string literal pushes its address. -/
theorem exec_address (n : Int) (a : Activation) :
    (acts (.plain "i32.const" (.int n) :: t.widenActions)).exec inst callee function a =
      a.push (Trap.ofConversion (Value.ofInteger t (unsigned 32 n))) := by
  -- the three types that convert an address differ in the mnemonic only
  have hunary {name : Text} (hdecode : decodeMnemonic? name = some (t, .unary .fromUnsigned)) :
      (acts [.plain "i32.const" (.int n), .bare name]).exec inst callee function a =
        a.push (Trap.ofConversion (Value.ofInteger t (unsigned 32 n))) := by
    rw [acts, exec_act, exec_i32Const, ← applyUnary_fromUnsigned_address t name n]
    simp only [Activation.push, Effect.andThen_ok, acts, exec_act, Action.bare, Action.exec,
      exec_unary hdecode]
    cases applyUnary t name (.i32 (.ofInt 32 n)) .fromUnsigned <;> rfl
  cases t with
  | i32 =>
    rw [ofInteger_i32_unsigned, acts, exec_act, exec_i32Const]
    rfl
  | i64 => exact hunary (decodeMnemonic?_mnemonic .i64 "extend_i32_u")
  | f32 => exact hunary (decodeMnemonic?_mnemonic .f32 "convert_i32_u")
  | f64 => exact hunary (decodeMnemonic?_mnemonic .f64 "convert_i32_u")

/-! ### Uses -/

/-- What a node of a value leaves on a stack for a use: nothing, the value, or a flag that is zero
if the value is. -/
def Use.Leaves (st : List Value) (v : Value) : Use → List Value → Prop
  | statement, st' => st' = st
  | value, st' => st' = v :: st
  | condition, st' => ∃ w : Value, w.type = .i32 ∧ w.isZero = v.isZero ∧ st' = w :: st

theorem exec_ofValue (hinst : inst.module.valueType = t) (use : Use) (hv : v.type = t) :
    ∃ st', use.Leaves st v st' ∧
      (acts (use.ofValue t)).exec inst callee function ⟨v :: st, locals, store⟩ =
        (.ok (), ⟨st', locals, store⟩) := by
  cases use with
  | statement => exact ⟨st, rfl, rfl⟩
  | value => exact ⟨v :: st, rfl, rfl⟩
  | condition =>
    obtain ⟨w, hw, hzero, hexec⟩ := exec_isNotZero hinst hv
    exact ⟨w :: st, ⟨w, hw, hzero, rfl⟩, hexec⟩

theorem exec_ofFlag (use : Use) (b : Bool) :
    ∃ st', use.Leaves st (.ofBool t b) st' ∧
      (acts (use.ofFlag t)).exec inst callee function ⟨.flag b :: st, locals, store⟩ =
        (.ok (), ⟨st', locals, store⟩) := by
  cases use with
  | statement =>
    refine ⟨st, rfl, ?_⟩
    rw [Use.ofFlag, Code.acts_append, exec_append, exec_widen]
    rfl
  | value => exact ⟨.ofBool t b :: st, rfl, exec_widen b⟩
  | condition => exact ⟨.flag b :: st, ⟨.flag b, rfl, by simp, rfl⟩, rfl⟩

end

/-- The mnemonic of an operator is decoded as its operation. -/
theorem decodeMnemonic?_operator (t : ValueType) (op : BinaryOp) :
    decodeMnemonic? (op.mnemonic t) = some (t, .binary (op.operation t)) := by
  unfold BinaryOp.mnemonic
  rw [decodeMnemonic?_mnemonic]
  cases op <;> cases t <;> rfl

/-- The constant of a number has the value of the number. -/
theorem ConstantOf.ofDatum_eq {t : ValueType} {number d : Datum} (h : ConstantOf t number d) :
    ∃ v, Value.ofDatum t d = .ok v ∧ Value.ofDatum t number = .ok v := by
  -- What was converted ahead of time is converted to the same value at run time.
  cases h with
  | @real x hwidth hx =>
    have hfloat : t.isFloat = true := by cases t <;> first | rfl | cases hwidth
    have hnumber : Value.ofDatum t number = Value.ofDouble t x := by
      cases number with
      | null => cases hx
      | truth b => exact Value.ofInteger_of_doubleOfInt hfloat hx
      | int n => exact Value.ofInteger_of_doubleOfInt hfloat hx
      | real y => cases hx; rfl
      | text s =>
        rw [Value.ofDatum, if_pos hfloat, hx]
        rfl
    have hdouble : ∃ v, Value.ofDouble t x = .ok v := by
      cases t <;> first | exact ⟨_, rfl⟩ | cases hwidth
    obtain ⟨v, hv⟩ := hdouble
    exact ⟨v, hv, hnumber.trans hv⟩
  | @int width n hwidth hn hwrap =>
    have hfloat : t.isFloat = false := by cases t <;> first | rfl | cases hwidth
    have hnumber : Value.ofDatum t number = Value.ofInteger t n := by
      cases number with
      | null => cases hn
      | truth b => cases hn; rfl
      | int m => cases hn; rfl
      | real y => exact Value.ofDouble_of_truncate hfloat hn
      | text s =>
        rw [Value.ofDatum, hfloat, hn]
        rfl
    obtain ⟨v, hv, -⟩ := Value.exists_ofInteger hfloat n
    exact ⟨v, hv, hnumber.trans hv⟩

end StackScript
