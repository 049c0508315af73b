import StackScript.Proofs.Evaluation

/-!
# Operations on values of one type

Compiled code works on values of one type, and on flags. On these every operation is defined, apart
from the division of integers, and keeps to the type. The tests for zero, the widening of flags and
the negation that code is made of do what their names say.

## Main results

* `applyBinary_cases`: an operator on two values of a type gives one, or division traps.
* `applyUnary_eqz`, `applyBinary_eq_zero`, `applyBinary_ne_zero`: the tests for zero.
* `applyUnary_fromUnsigned_flag`: widening a flag gives one or zero.
* `applyUnary_neg`, `applyBinary_mul_negOne`: negation.
-/

namespace StackScript

namespace Value

variable {t : ValueType} {v : Value}

@[simp] theorem type_zero (t : ValueType) : (zero t).type = t := by
  cases t <;> rfl

@[simp] theorem type_one (t : ValueType) : (one t).type = t := by
  cases t <;> rfl

@[simp] theorem type_ofBool (t : ValueType) (b : Bool) : (ofBool t b).type = t := by
  cases b <;> simp [ofBool]

@[simp] theorem type_flag (b : Bool) : (flag b).type = .i32 := rfl

@[simp] theorem type_negate (v : Value) : v.negate.type = v.type := by
  cases v <;> rfl

@[simp] theorem isZero_zero (t : ValueType) : (zero t).isZero = true := by
  cases t <;> rfl

@[simp] theorem isZero_one (t : ValueType) : (one t).isZero = false := by
  cases t <;> decide

@[simp] theorem isZero_ofBool (t : ValueType) (b : Bool) : (ofBool t b).isZero = !b := by
  cases b <;> simp [ofBool]

@[simp] theorem isZero_flag (b : Bool) : (flag b).isZero = !b := by
  cases b <;> rfl

theorem ofInteger_zero (t : ValueType) : ofInteger t 0 = .ok (zero t) := by
  cases t <;> rfl

theorem ofInteger_one (t : ValueType) : ofInteger t 1 = .ok (one t) := by
  cases t with
  | i32 => rfl
  | i64 => rfl
  | f32 =>
    have hround : ((.ofInt 1 : Double).convert .binary32 : Single) = .ofInt 1 := by decide
    rw [one, ← hround]
    rfl
  | f64 => rfl

theorem ofDatum_zeroDatum (t : ValueType) : ofDatum t t.zeroDatum = .ok (zero t) := by
  cases t <;> rfl

theorem ofInteger_of_doubleOfInt {t : ValueType} (hfloat : t.isFloat = true) {n : Int} {x : Double}
    (h : Datum.doubleOfInt n = .ok x) : ofInteger t n = ofDouble t x := by
  cases t with
  | i32 => cases hfloat
  | i64 => cases hfloat
  | f32 => rw [ofInteger, h]; rfl
  | f64 => rw [ofInteger, h]; rfl

theorem ofDouble_of_truncate {t : ValueType} (hfloat : t.isFloat = false) {x : Double} {n : Int}
    (h : x.truncate = .ok n) : ofDouble t x = ofInteger t n := by
  cases t with
  | i32 => rw [ofDouble, h]; rfl
  | i64 => rw [ofDouble, h]; rfl
  | f32 => cases hfloat
  | f64 => cases hfloat

/-! ### Types -/

theorem type_of_ofInteger {n : Int} (h : ofInteger t n = .ok v) : v.type = t := by
  cases t with
  | i32 => cases h; rfl
  | i64 => cases h; rfl
  | f32 => cases hn : Datum.doubleOfInt n <;> rw [ofInteger, hn] at h <;> cases h; rfl
  | f64 => cases hn : Datum.doubleOfInt n <;> rw [ofInteger, hn] at h <;> cases h; rfl

theorem type_of_ofDouble {x : Double} (h : ofDouble t x = .ok v) : v.type = t := by
  cases t with
  | i32 => cases hx : x.truncate <;> rw [ofDouble, hx] at h <;> cases h; rfl
  | i64 => cases hx : x.truncate <;> rw [ofDouble, hx] at h <;> cases h; rfl
  | f32 => cases h; rfl
  | f64 => cases h; rfl

theorem type_of_ofDatum {d : Datum} (h : ofDatum t d = .ok v) : v.type = t := by
  cases d with
  | null =>
    simp only [ofDatum] at h
    split at h
    · exact type_of_ofDouble h
    · cases h
  | truth b => exact type_of_ofInteger h
  | int n => exact type_of_ofInteger h
  | real x => exact type_of_ofDouble h
  | text s =>
    simp only [ofDatum] at h
    split at h
    · cases hx : (Datum.text s).toDouble <;> rw [hx] at h
      · cases h
      · exact type_of_ofDouble h
    · cases hn : (Datum.text s).toInteger <;> rw [hn] at h
      · cases h
      · exact type_of_ofInteger h

/-- A value is what it is converted to in its own type. -/
theorem convert_of_type (hv : v.type = t) : v.convert t = .ok v := by
  cases v with
  | i32 n =>
    subst hv
    exact congrArg (fun n => Except.ok (i32 n)) (toWord_toInt n)
  | i64 n =>
    subst hv
    exact congrArg (fun n => Except.ok (i64 n)) (toWord_toInt n)
  | f32 x => subst hv; rfl
  | f64 x => subst hv; rfl

/-- Every value can be converted to a float type. -/
theorem exists_convert (hfloat : t.isFloat = true) (v : Value) :
    ∃ w, v.convert t = .ok w ∧ w.type = t := by
  cases t with
  | i32 => cases hfloat
  | i64 => cases hfloat
  | f32 => exact ⟨_, rfl, rfl⟩
  | f64 => exact ⟨_, rfl, rfl⟩

/-- A value of an integer type is an integer. -/
theorem exists_toInteger (hfloat : t.isFloat = false) (hv : v.type = t) :
    ∃ n, v.toInteger = .ok n := by
  cases v <;> subst hv <;> first | exact ⟨_, rfl⟩ | cases hfloat

/-- Every integer has a value of an integer type. -/
theorem exists_ofInteger (hfloat : t.isFloat = false) (n : Int) :
    ∃ w, ofInteger t n = .ok w ∧ w.type = t := by
  cases t with
  | i32 => exact ⟨_, rfl, rfl⟩
  | i64 => exact ⟨_, rfl, rfl⟩
  | f32 => cases hfloat
  | f64 => cases hfloat

end Value

/-! ### Tests for zero -/

theorem powNum_two_pos (e : Int) : 0 < powNum 2 e :=
  Nat.two_pow_pos _

theorem Floating.signed_eq_zero_iff {negative : Bool} {magnitude : Nat} :
    signed negative magnitude = 0 ↔ magnitude = 0 := by
  cases negative <;> simp [signed]

/-- A float compares as equal to zero if it is one of the zeros. -/
theorem Floating.compare?_zero {fmt : Format} (x : Floating fmt) :
    (x.compare? (zero false) == some .eq) = x.isZero := by
  cases x with
  | nan => rfl
  | infinite negative => cases negative <;> rfl
  | finite negative m e canonical =>
    have hpos := powNum_two_pos (e - min e fmt.minExponent)
    simp only [compare?, zero, isZero, Nat.zero_mul]
    rw [Bool.eq_iff_iff]
    simp only [beq_iff_eq, Option.some.injEq, Int.compare_eq_eq, decide_eq_true_eq]
    rw [signed_eq_zero_iff.mpr rfl, signed_eq_zero_iff, Nat.mul_eq_zero]
    exact or_iff_left (Nat.ne_of_gt hpos)

variable {t : ValueType} {v : Value}

theorem toInt_beq_zero {width : Nat} (n : BitVec width) : (n.toInt == 0) = (n == 0) := by
  rw [Bool.eq_iff_iff, beq_iff_eq, beq_iff_eq, ← BitVec.toInt_inj]
  exact iff_of_eq (congrArg (n.toInt = ·) BitVec.toInt_zero.symm)

/-- Whether the order of two integers is that of equal ones. -/
theorem compare_beq_eq (a b : Int) : (some (compare a b) == some .eq) = (a == b) := by
  rw [Bool.eq_iff_iff, beq_iff_eq, beq_iff_eq, Option.some.injEq, Int.compare_eq_eq]

theorem applyUnary_eqz (hfloat : t.isFloat = false) (hv : v.type = t) (mnemonic : Text) :
    applyUnary t mnemonic v .eqz = .ok (.flag v.isZero) := by
  cases v <;> subst hv
  · rename_i n
    exact congrArg (fun b => Except.ok (Value.flag b)) (toInt_beq_zero n)
  · rename_i n
    exact congrArg (fun b => Except.ok (Value.flag b)) (toInt_beq_zero n)
  · cases hfloat
  · cases hfloat

theorem applyBinary_eq_zero (hfloat : t.isFloat = true) (hv : v.type = t) (mnemonic : Text) :
    applyBinary t mnemonic v (.zero t) (.compare .eq) = .ok (.flag v.isZero) := by
  cases v <;> subst hv
  · cases hfloat
  · cases hfloat
  · rename_i x
    exact congrArg (fun b => Except.ok (Value.flag b)) x.compare?_zero
  · rename_i x
    exact congrArg (fun b => Except.ok (Value.flag b)) x.compare?_zero

theorem applyBinary_ne_zero (hv : v.type = t) (mnemonic : Text) :
    applyBinary t mnemonic v (.zero t) (.compare .ne) = .ok (.flag (!v.isZero)) := by
  cases v <;> subst hv
  · rename_i n
    exact congrArg (fun b => Except.ok (Value.flag !b))
      ((compare_beq_eq n.toInt 0).trans (toInt_beq_zero n))
  · rename_i n
    exact congrArg (fun b => Except.ok (Value.flag !b))
      ((compare_beq_eq n.toInt 0).trans (toInt_beq_zero n))
  · rename_i x
    exact congrArg (fun b => Except.ok (Value.flag !b)) x.compare?_zero
  · rename_i x
    exact congrArg (fun b => Except.ok (Value.flag !b)) x.compare?_zero

/-! ### Flags and negation -/

/-- Widening a flag gives one or zero. -/
theorem applyUnary_fromUnsigned_flag (t : ValueType) (mnemonic : Text) (b : Bool) :
    applyUnary t mnemonic (.flag b) .fromUnsigned = .ok (.ofBool t b) := by
  cases b with
  | false => exact congrArg Trap.ofConversion (Value.ofInteger_zero t)
  | true => exact congrArg Trap.ofConversion (Value.ofInteger_one t)

theorem applyUnary_neg (hfloat : t.isFloat = true) (hv : v.type = t) (mnemonic : Text) :
    applyUnary t mnemonic v .neg = .ok v.negate := by
  rw [applyUnary, if_pos hfloat, v.negate.convert_of_type (by rw [v.type_negate, hv])]
  rfl

theorem applyBinary_mul_negOne (hfloat : t.isFloat = false) (hv : v.type = t) (mnemonic : Text) :
    ∃ negOne, Value.ofDatum t (.int (-1)) = .ok negOne ∧
      applyBinary t mnemonic v negOne (.arithmetic .mul) = .ok v.negate := by
  have hneg {width : Nat} (n : BitVec width) : toWord width (n.toInt * -1) = -n := by
    rw [toWord_eq_ofInt, Int.mul_neg_one, BitVec.ofInt_neg, BitVec.ofInt_toInt]
  cases v <;> subst hv
  · rename_i n
    exact ⟨_, rfl, congrArg (fun n => Except.ok (Value.i32 n)) (hneg n)⟩
  · rename_i n
    exact ⟨_, rfl, congrArg (fun n => Except.ok (Value.i64 n)) (hneg n)⟩
  · cases hfloat
  · cases hfloat

/-- Widening an address gives the number that it is without a sign. -/
theorem applyUnary_fromUnsigned_address (t : ValueType) (mnemonic : Text) (n : Int) :
    applyUnary t mnemonic (.i32 (.ofInt 32 n)) .fromUnsigned =
      Trap.ofConversion (Value.ofInteger t (unsigned 32 n)) := by
  change Trap.ofConversion (Value.ofInteger t (unsigned 32 (BitVec.ofInt 32 n).toInt)) = _
  rw [unsigned_eq_toNat, BitVec.ofInt_toInt, unsigned_eq_toNat]

theorem ofInteger_i32_unsigned (n : Int) :
    Value.ofInteger .i32 (unsigned 32 n) = .ok (.i32 (.ofInt 32 n)) := by
  rw [Value.ofInteger, toWord_eq_ofInt, unsigned_eq_toNat, BitVec.ofInt_natCast, BitVec.ofNat_toNat,
    BitVec.setWidth_eq]

/-! ### Operators -/

/-- Signed division gives a value of its type or one of its two traps. -/
theorem signedDivision_cases (hfloat : t.isFloat = false) (a b : Int) :
    (∃ v, signedDivision t a b = .ok v ∧ v.type = t) ∨
      signedDivision t a b = .error .divideByZero ∨
      signedDivision t a b = .error .integerOverflow := by
  obtain ⟨v, hquotient, hv⟩ := Value.exists_ofInteger hfloat (truncatedQuotient a b)
  unfold signedDivision
  split
  · exact .inr (.inl rfl)
  · cases hwidth : t.width? with
    | none => cases t <;> cases hwidth <;> cases hfloat
    | some width =>
      simp only [hquotient, Trap.ofConversion]
      split
      · exact .inl ⟨v, rfl, hv⟩
      · exact .inr (.inr rfl)

/-- What an operator leaves: a comparison leaves a flag, any other a value of the type. -/
def BinaryOp.Leaves (t : ValueType) (op : BinaryOp) (v : Value) : Prop :=
  if op.isComparison then ∃ b, v = .flag b else v.type = t

/-- An operator on two values of a type leaves a value, unless it divides integers and traps. -/
theorem applyBinary_cases (op : BinaryOp) {a b : Value} (ha : a.type = t) (hb : b.type = t) :
    (∃ v, applyBinary t (op.mnemonic t) a b (op.operation t) = .ok v ∧ op.Leaves t v) ∨
      t.isFloat = false ∧
        (applyBinary t (op.mnemonic t) a b (op.operation t) = .error .divideByZero ∨
          applyBinary t (op.mnemonic t) a b (op.operation t) = .error .integerOverflow) := by
  cases hfloat : t.isFloat with
  -- the floating types compute in doubles and convert back, and division by zero has a result
  | true =>
    left
    have harithmetic (arith : Arithmetic) :
        ∃ v, applyBinary t (op.mnemonic t) a b (.arithmetic arith) = .ok v ∧ v.type = t := by
      obtain ⟨v, hconvert, hv⟩ := Value.exists_convert hfloat (mixedArithmetic arith a b)
      exact ⟨v, by simp [applyBinary, hfloat, hconvert, Trap.ofConversion], hv⟩
    have hcompare (r : Relation) :
        ∃ v, applyBinary t (op.mnemonic t) a b (.compare r) = .ok v ∧ ∃ b, v = .flag b :=
      ⟨.flag (r.holds (mixedCompare? a b)), by simp only [applyBinary, hfloat, if_true], _, rfl⟩
    cases op with
    | add => exact harithmetic .add
    | subtract => exact harithmetic .sub
    | multiply => exact harithmetic .mul
    | divide =>
      obtain ⟨v, hconvert, hv⟩ := Value.exists_convert hfloat (mixedDivision a b)
      refine ⟨v, ?_, hv⟩
      simp [BinaryOp.operation, applyBinary, hfloat, hconvert, Trap.ofConversion]
    | equal => exact hcompare .eq
    | notEqual => exact hcompare .ne
    | less => exact hcompare .lt
    | lessEqual => exact hcompare .le
    | greater => exact hcompare .gt
    | greaterEqual => exact hcompare .ge
  -- the integer types compute on integers, and only the division can stop
  | false =>
    obtain ⟨x, hx⟩ := Value.exists_toInteger hfloat ha
    obtain ⟨y, hy⟩ := Value.exists_toInteger hfloat hb
    have harithmetic (arith : Arithmetic) :
        ∃ v, applyBinary t (op.mnemonic t) a b (.arithmetic arith) = .ok v ∧ v.type = t := by
      obtain ⟨v, hinteger, hv⟩ := Value.exists_ofInteger hfloat (arith.onIntegers x y)
      refine ⟨v, ?_, hv⟩
      simp only [applyBinary, hfloat, hx, hy]
      exact congrArg Trap.ofConversion hinteger
    have hcompare (r : Relation) :
        ∃ v, applyBinary t (op.mnemonic t) a b (.compare r) = .ok v ∧ ∃ b, v = .flag b := by
      refine ⟨.flag (r.holds (some (compare x y))), ?_, _, rfl⟩
      simp only [applyBinary, hfloat, hx, hy]
      rfl
    cases op with
    | add => exact .inl (harithmetic .add)
    | subtract => exact .inl (harithmetic .sub)
    | multiply => exact .inl (harithmetic .mul)
    | divide =>
      have hdivision : applyBinary t (BinaryOp.divide.mnemonic t) a b (BinaryOp.divide.operation t) =
          signedDivision t x y := by
        simp only [BinaryOp.operation, hfloat, applyBinary, hx, hy]
        rfl
      rw [hdivision]
      exact (signedDivision_cases hfloat x y).imp_right fun h => ⟨rfl, h⟩
    | equal => exact .inl (hcompare .eq)
    | notEqual => exact .inl (hcompare .ne)
    | less => exact .inl (hcompare .lt)
    | lessEqual => exact .inl (hcompare .le)
    | greater => exact .inl (hcompare .gt)
    | greaterEqual => exact .inl (hcompare .ge)

end StackScript
