import Mathlib.Algebra.Order.Group.Unbundled.Int
import Mathlib.Data.Int.ModEq
import StackScript.Proofs.CodePieces

/-!
# Integers in two's complement

An integer type has a width, and its values are the integers of the signed range of that width.
Every integer is congruent to exactly one of these. Sums, differences and products wrap around to
it, so in a tree of them it does not matter at which steps numbers wrap around. A quotient is rounded
toward zero and never wraps around: it is in the range, or division traps.

## Main definitions

* `Fits`: the signed range of a width.
* `ArithmeticTree`: a tree of sums, differences and products.
* `Value.IsInt`: a value is an integer of a type.
* `ValueType.Gives`, `ValueType.Computes`, `ValueType.Traps`: what an instruction does on integers.
* `ValueType.TwosComplement`: the instructions of a type are arithmetic in two's complement.

## Main results

* `eq_wrap_iff`: wrapping around gives the one congruent integer of the range.
* `ArithmeticTree.wrapped_eq`: it does not matter at which steps numbers wrap around.
* `fits_tdiv_iff`: the one quotient that is not in the range.
* `ArithmeticTree.exec_actions`: the code of a tree pushes its number.
* `twosComplement_of_width`: the instructions of both integer types are arithmetic in two's
  complement.
-/

namespace StackScript

/-! ### Wrapping around -/

/-- An integer lies in the signed range of a width. -/
def Fits (width : Nat) (n : Int) : Prop :=
  -2 ^ (width - 1) ≤ n ∧ n < 2 ^ (width - 1)

instance (width : Nat) (n : Int) : Decidable (Fits width n) := inferInstanceAs (Decidable (_ ∧ _))

section Wrap

variable {width : Nat} {m n : Int}

theorem fits_wrap (width : Nat) (n : Int) : Fits width (wrap width n) := by
  rw [wrap_eq_toInt]
  exact ⟨BitVec.le_toInt _, BitVec.toInt_lt⟩

theorem wrap_modEq (width : Nat) (n : Int) : wrap width n ≡ n [ZMOD 2 ^ width] := by
  have hmod : (n.bmod (2 ^ width)) % ((2 ^ width : Nat) : Int) = n % ((2 ^ width : Nat) : Int) :=
    Int.bmod_emod
  rw [wrap_eq_toInt, BitVec.toInt_ofInt]
  exact_mod_cast hmod

/-- Integers wrap around to the same one if they are congruent. -/
theorem wrap_eq_wrap_iff : wrap width m = wrap width n ↔ m ≡ n [ZMOD 2 ^ width] := by
  constructor
  · intro h
    calc m ≡ wrap width m [ZMOD 2 ^ width] := (wrap_modEq width m).symm
      _ = wrap width n := h
      _ ≡ n [ZMOD 2 ^ width] := wrap_modEq width n
  · intro h
    have hmod : m % ((2 ^ width : Nat) : Int) = n % ((2 ^ width : Nat) : Int) := by exact_mod_cast h
    rw [wrap_eq_toInt, wrap_eq_toInt, BitVec.toInt_ofInt, BitVec.toInt_ofInt, ← Int.emod_bmod m,
      hmod, Int.emod_bmod]

theorem two_pow_eq (hwidth : 0 < width) : (2 : Int) ^ width = 2 ^ (width - 1) * 2 := by
  rw [← pow_succ, Nat.sub_add_cancel hwidth]

theorem wrap_eq_self_iff (hwidth : 0 < width) : wrap width n = n ↔ Fits width n := by
  constructor
  · intro h
    exact h ▸ fits_wrap width n
  · rintro ⟨hlow, hhigh⟩
    rw [wrap_eq_toInt, BitVec.toInt_ofInt]
    have hpow := two_pow_eq hwidth
    exact Int.bmod_eq_of_le_mul_two (by push_cast; omega) (by push_cast; omega)

/-- Wrapping around gives the one congruent integer of the range. -/
theorem eq_wrap_iff (hwidth : 0 < width) :
    m = wrap width n ↔ Fits width m ∧ m ≡ n [ZMOD 2 ^ width] := by
  constructor
  · rintro rfl
    exact ⟨fits_wrap width n, wrap_modEq width n⟩
  · rintro ⟨hfits, hmod⟩
    rw [← (wrap_eq_self_iff hwidth).mpr hfits]
    exact wrap_eq_wrap_iff.mpr hmod

end Wrap

/-! ### Trees -/

/-- Sums, differences and products of integers. -/
inductive ArithmeticTree where
  | number (n : Int)
  | node (op : Arithmetic) (left right : ArithmeticTree)

theorem Arithmetic.onIntegers_modEq (op : Arithmetic) {k a a' b b' : Int} (ha : a ≡ a' [ZMOD k])
    (hb : b ≡ b' [ZMOD k]) : op.onIntegers a b ≡ op.onIntegers a' b' [ZMOD k] := by
  cases op with
  | add => exact ha.add hb
  | sub => exact ha.sub hb
  | mul => exact ha.mul hb

/-- The name of an operation in mnemonics. -/
def Arithmetic.name : Arithmetic → String
  | add => "add"
  | sub => "sub"
  | mul => "mul"

namespace ArithmeticTree

/-- The number of a tree. -/
def exact : ArithmeticTree → Int
  | number n => n
  | node op left right => op.onIntegers left.exact right.exact

/-- The number of a tree when every step wraps around. -/
def wrapped (width : Nat) : ArithmeticTree → Int
  | number n => wrap width n
  | node op left right => wrap width (op.onIntegers (left.wrapped width) (right.wrapped width))

/-- The actions that push the number of a tree. -/
def actions (t : ValueType) : ArithmeticTree → List Action
  | number n => [.const (.int n)]
  | node op left right => left.actions t ++ right.actions t ++ [.bare (t.mnemonic op.name)]

/-- It is enough to wrap around once, at the end. -/
theorem wrapped_eq (width : Nat) (tree : ArithmeticTree) :
    tree.wrapped width = wrap width tree.exact := by
  induction tree with
  | number n => rfl
  | node op left right ihleft ihright =>
    rw [wrapped, exact, wrap_eq_wrap_iff, ihleft, ihright]
    exact op.onIntegers_modEq (wrap_modEq width _) (wrap_modEq width _)

end ArithmeticTree

/-! ### Quotients -/

/-- The one quotient that is not in the range. -/
theorem fits_tdiv_iff {width : Nat} {a b : Int} (ha : Fits width a) (hb : b ≠ 0) :
    Fits width (a.tdiv b) ↔ ¬ (a = -2 ^ (width - 1) ∧ b = -1) := by
  obtain ⟨hlow, hhigh⟩ := ha
  have hpos : (0 : Int) < 2 ^ (width - 1) := Int.pow_pos (by decide)
  unfold Fits
  generalize (2 : Int) ^ (width - 1) = bound at *
  have hsize : (a.tdiv b).natAbs = a.natAbs / b.natAbs := Int.natAbs_tdiv a b
  constructor
  · rintro ⟨-, hlt⟩ ⟨rfl, rfl⟩
    rw [Int.tdiv_neg, Int.tdiv_one] at hlt
    omega
  · intro hother
    rcases Nat.lt_or_ge 1 b.natAbs with htwo | hone
    · -- the quotient is at most half as large
      have hhalf : a.natAbs / b.natAbs ≤ a.natAbs / 2 := Nat.div_le_div_left htwo (by decide)
      omega
    · rcases (by omega : b = 1 ∨ b = -1) with rfl | rfl
      · rw [Int.tdiv_one]
        exact ⟨hlow, hhigh⟩
      · rw [Int.tdiv_neg, Int.tdiv_one]
        have hne : a ≠ -bound := fun h => hother ⟨h, rfl⟩
        omega

/-- A quotient that is rounded toward zero leaves a remainder of the sign of the dividend. -/
theorem exists_remainder (a : Int) {b : Int} (hb : b ≠ 0) :
    ∃ r, a = a.tdiv b * b + r ∧ |r| < |b| ∧ (r = 0 ∨ r.sign = a.sign) := by
  refine ⟨a.tmod b, ?_, ?_, ?_⟩
  · rw [Int.mul_comm, Int.mul_tdiv_add_tmod]
  · rw [Int.abs_eq_natAbs, Int.abs_eq_natAbs, Int.natAbs_tmod, Int.ofNat_lt]
    exact Nat.mod_lt _ (Int.natAbs_pos.mpr hb)
  · have hsign := Int.sign_tmod a b
    split at hsign
    · exact .inl (Int.sign_eq_zero_iff_zero.mp hsign)
    · exact .inr hsign

/-! ### Instructions -/

/-- A value is an integer of a type. -/
structure Value.IsInt (v : Value) (t : ValueType) (n : Int) : Prop where
  type_eq : v.type = t
  toInteger_eq : v.toInteger = .ok n

namespace ValueType

/-- An instruction of a type pops some integers, the last of which is on top of the stack, and
pushes a result or traps. -/
def Gives (t : ValueType) (operation : String) (operands : List Int) (result : Except Trap Value) :
    Prop :=
  ∀ (function : Text) (values : List Value) (a : Activation),
    List.Forall₂ (fun v n => v.IsInt t n) values operands →
      plainInstr function (t.mnemonic operation) .null
        { a with stack := values.reverse ++ a.stack } = a.push result

/-- An instruction of a type computes an integer of a type. -/
def Computes (t : ValueType) (operation : String) (operands : List Int) (u : ValueType) (n : Int) :
    Prop :=
  ∃ v : Value, v.IsInt u n ∧ t.Gives operation operands (.ok v)

/-- An instruction of a type traps with a message. -/
def Traps (t : ValueType) (operation : String) (operands : List Int) (message : Text) : Prop :=
  ∃ trap : Trap, trap.message? = some message ∧ t.Gives operation operands (.error trap)

end ValueType

section Instructions

variable {t : ValueType} {width : Nat} {operation : String} {a b n : Int}

theorem ValueType.width_pos (hwidth : t.width? = some width) : 0 < width := by
  cases t <;> cases hwidth <;> decide

theorem ValueType.isFloat_eq_false (hwidth : t.width? = some width) : t.isFloat = false := by
  cases t <;> cases hwidth <;> rfl

/-- Converting an integer to a type wraps it around. -/
theorem Value.exists_ofInteger_isInt (hwidth : t.width? = some width) (n : Int) :
    ∃ v, Value.ofInteger t n = .ok v ∧ v.IsInt t (wrap width n) := by
  rw [wrap_eq_toInt]
  cases t <;> cases hwidth <;> exact ⟨_, rfl, rfl, by rw [toWord_eq_ofInt]; rfl⟩

/-- The values of a type are the integers of its range. -/
theorem Value.exists_isInt_iff (hwidth : t.width? = some width) :
    (∃ v : Value, v.IsInt t n) ↔ Fits width n := by
  constructor
  · rintro ⟨v, rfl, hinteger⟩
    cases v <;> cases hwidth <;> cases hinteger <;> exact ⟨BitVec.le_toInt _, BitVec.toInt_lt⟩
  · intro hfits
    obtain ⟨v, -, hv⟩ := Value.exists_ofInteger_isInt hwidth n
    rw [(wrap_eq_self_iff (ValueType.width_pos hwidth)).mpr hfits] at hv
    exact ⟨v, hv⟩

theorem Value.isInt_flag (p : Prop) [Decidable p] :
    (Value.flag (decide p)).IsInt .i32 (if p then 1 else 0) := by
  by_cases h : p
  · rw [decide_eq_true h, if_pos h]
    exact ⟨rfl, rfl⟩
  · rw [decide_eq_false h, if_neg h]
    exact ⟨rfl, rfl⟩

theorem Activation.push_inj (act : Activation) {r r' : Except Trap Value}
    (h : act.push r = act.push r') : r = r' := by
  cases r <;> cases r' <;> simp_all [push]

/-- What an instruction does is determined, since there are such operands. -/
theorem ValueType.Gives.unique (hwidth : t.width? = some width) {operands : List Int}
    (hfits : ∀ n ∈ operands, Fits width n) {r r' : Except Trap Value}
    (h : t.Gives operation operands r) (hother : t.Gives operation operands r') : r = r' := by
  have hvalues : ∃ values : List Value,
      List.Forall₂ (fun v n => v.IsInt t n) values operands := by
    clear h hother
    induction operands with
    | nil => exact ⟨[], .nil⟩
    | cons n rest ih =>
      obtain ⟨hn, hrest⟩ := List.forall_mem_cons.mp hfits
      obtain ⟨v, hv⟩ := (Value.exists_isInt_iff hwidth).mpr hn
      obtain ⟨values, hvalues⟩ := ih hrest
      exact ⟨v :: values, .cons hv hvalues⟩
  obtain ⟨values, hvalues⟩ := hvalues
  let act : Activation := ⟨[], [], ⟨[], []⟩⟩
  exact act.push_inj ((h "" values act hvalues).symm.trans (hother "" values act hvalues))

/-- An instruction on one operand. -/
theorem ValueType.gives_unary (op : UnaryOperation) {result : Except Trap Value}
    (hop : operationNames.lookup operation = some (.unary op))
    (h : ∀ v : Value, v.IsInt t a → applyUnary t (t.mnemonic operation) v op = result) :
    t.Gives operation [a] result := by
  rintro function _ act (_ | ⟨hv, _ | _⟩)
  refine (exec_unary ?_ _).trans (congrArg act.push (h _ hv))
  rw [decodeMnemonic?_mnemonic, hop]
  rfl

/-- An instruction on two operands. -/
theorem ValueType.gives_binary (op : BinaryOperation) {result : Except Trap Value}
    (hop : operationNames.lookup operation = some (.binary op))
    (h : ∀ v w : Value, v.IsInt t a → w.IsInt t b →
      applyBinary t (t.mnemonic operation) v w op = result) :
    t.Gives operation [a, b] result := by
  rintro function _ act (_ | ⟨hv, _ | ⟨hw, _ | _⟩⟩)
  refine (exec_binary ?_ _ _).trans (congrArg act.push (h _ _ hv hw))
  rw [decodeMnemonic?_mnemonic, hop]
  rfl

theorem ValueType.gives_divS {result : Except Trap Value} (h : signedDivision t a b = result) :
    t.Gives "div_s" [a, b] result := by
  refine gives_binary .divS rfl fun v w hv hw => ?_
  rw [applyBinary, hv.toInteger_eq, hw.toInteger_eq]
  exact h

variable (hwidth : t.width? = some width)

include hwidth

theorem computes_arithmetic (op : Arithmetic) (a b : Int) :
    t.Computes op.name [a, b] t (wrap width (op.onIntegers a b)) := by
  obtain ⟨r, hr, hint⟩ := Value.exists_ofInteger_isInt hwidth (op.onIntegers a b)
  refine ⟨r, hint, ValueType.gives_binary (.arithmetic op) (by cases op <;> rfl) ?_⟩
  intro v w hv hw
  rw [applyBinary, ValueType.isFloat_eq_false hwidth, hv.toInteger_eq, hw.toInteger_eq]
  exact congrArg Trap.ofConversion hr

/-- A comparison gives a flag. -/
theorem computes_compare {r : Relation} (p : Prop) [Decidable p]
    (hop : operationNames.lookup operation = some (.binary (.compare r)))
    (hholds : r.holds (some (compare a b)) = decide p) :
    t.Computes operation [a, b] .i32 (if p then 1 else 0) := by
  refine ⟨_, Value.isInt_flag p, ValueType.gives_binary _ hop fun v w hv hw => ?_⟩
  rw [applyBinary, ValueType.isFloat_eq_false hwidth, hv.toInteger_eq, hw.toInteger_eq, ← hholds]
  rfl

theorem computes_eqz (a : Int) : t.Computes "eqz" [a] .i32 (if a = 0 then 1 else 0) := by
  refine ⟨_, Value.isInt_flag (a = 0), ValueType.gives_unary .eqz rfl fun v hv => ?_⟩
  rw [applyUnary, ValueType.isFloat_eq_false hwidth, hv.toInteger_eq]
  rfl

/-- What division does: it traps in two cases, and otherwise gives the quotient. -/
theorem divS_cases (ha : Fits width a) (b : Int) :
    (b = 0 ∧ t.Gives "div_s" [a, b] (.error .divideByZero)) ∨
    (b ≠ 0 ∧ (a = -2 ^ (width - 1) ∧ b = -1) ∧ t.Gives "div_s" [a, b] (.error .integerOverflow)) ∨
    (b ≠ 0 ∧ ¬ (a = -2 ^ (width - 1) ∧ b = -1) ∧ t.Computes "div_s" [a, b] t (a.tdiv b)) := by
  by_cases hb : b = 0
  · exact .inl ⟨hb, ValueType.gives_divS (by rw [signedDivision, if_pos hb])⟩
  have hwrap := wrap_eq_self_iff (n := a.tdiv b) (ValueType.width_pos hwidth)
  have hdivision : signedDivision t a b =
      if wrap width (a.tdiv b) = a.tdiv b then Trap.ofConversion (Value.ofInteger t (a.tdiv b))
      else .error .integerOverflow := by
    rw [signedDivision, if_neg hb, hwidth, truncatedQuotient_eq_tdiv]
  -- the least number divided by `-1` is the one quotient that does not fit
  by_cases hlast : a = -2 ^ (width - 1) ∧ b = -1
  · have hfits : ¬ Fits width (a.tdiv b) := fun h => (fits_tdiv_iff ha hb).mp h hlast
    rw [if_neg (mt hwrap.mp hfits)] at hdivision
    exact .inr (.inl ⟨hb, hlast, ValueType.gives_divS hdivision⟩)
  · have hquotient := hwrap.mpr ((fits_tdiv_iff ha hb).mpr hlast)
    obtain ⟨v, hv, hint⟩ := Value.exists_ofInteger_isInt hwidth (a.tdiv b)
    rw [hquotient] at hint
    rw [if_pos hquotient, hv] at hdivision
    exact .inr (.inr ⟨hb, hlast, v, hint, ValueType.gives_divS hdivision⟩)

/-- An instruction traps with a message if that is what it gives. -/
theorem traps_iff {operands : List Int} (hfits : ∀ n ∈ operands, Fits width n)
    {result : Except Trap Value} (h : t.Gives operation operands result) (message : Text) :
    t.Traps operation operands message ↔
      ∃ trap, result = .error trap ∧ trap.message? = some message := by
  constructor
  · rintro ⟨trap, hmessage, htrap⟩
    exact ⟨trap, h.unique hwidth hfits htrap, hmessage⟩
  · rintro ⟨trap, rfl, hmessage⟩
    exact ⟨trap, hmessage, h⟩

theorem traps_divS_iff (ha : Fits width a) (hb : Fits width b) :
    (t.Traps "div_s" [a, b] "Integer divide by zero" ↔ b = 0) ∧
      (t.Traps "div_s" [a, b] "Integer overflow" ↔ a = -2 ^ (width - 1) ∧ b = -1) := by
  have hfits : ∀ n ∈ [a, b], Fits width n :=
    List.forall_mem_cons.mpr ⟨ha, List.forall_mem_singleton.mpr hb⟩
  rcases divS_cases hwidth ha b with ⟨rfl, h⟩ | ⟨hne, hlast, h⟩ | ⟨hne, hlast, v, -, h⟩
  · rw [traps_iff hwidth hfits h, traps_iff hwidth hfits h]
    simp [Trap.message?]
  · rw [traps_iff hwidth hfits h, traps_iff hwidth hfits h]
    simp [Trap.message?, hlast]
  · rw [traps_iff hwidth hfits h, traps_iff hwidth hfits h]
    simp [hne, hlast]

/-! ### Code -/

section Code

open Code (acts)

variable {inst : Instance} {callee : Callee} {function : Text}
  (hinst : inst.module.valueType = t)

include hinst

/-- The code of a tree pushes its number. -/
theorem ArithmeticTree.exec_actions (tree : ArithmeticTree) (act : Activation) :
    ∃ v : Value, v.IsInt t (tree.wrapped width) ∧
      (acts (tree.actions t)).exec inst callee function act = act.push (.ok v) := by
  induction tree generalizing act with
  | number n =>
    obtain ⟨v, hv, hint⟩ := Value.exists_ofInteger_isInt hwidth n
    have hdatum : Value.ofDatum inst.module.valueType (.int n) = .ok v := hinst ▸ hv
    refine ⟨v, hint, ?_⟩
    rw [actions, acts, exec_act, exec_const hdatum]
    rfl
  | node op left right ihleft ihright =>
    obtain ⟨v, hv, hleft⟩ := ihleft act
    -- the right operand is computed above the left one
    obtain ⟨w, hw, hright⟩ := ihright { act with stack := v :: act.stack }
    obtain ⟨r, hr, hgives⟩ :=
      computes_arithmetic hwidth op (left.wrapped width) (right.wrapped width)
    have hop : (Action.bare (t.mnemonic op.name)).exec inst callee function
        { act with stack := w :: v :: act.stack } = act.push (.ok r) :=
      hgives function [v, w] act (.cons hv (.cons hw .nil))
    refine ⟨r, hr, ?_⟩
    rw [actions, Code.acts_append, Code.acts_append, exec_append, exec_append, hleft]
    simp only [Activation.push, Effect.andThen_ok, hright, acts, exec_act, hop]
    rfl

/-- Multiplying by minus one is subtracting from zero. -/
theorem exec_negateActions {x : Int} {v : Value} (hv : v.IsInt t x) (act : Activation) :
    ∃ w : Value, w.IsInt t (wrap width (0 - x)) ∧
      (acts t.negateActions).exec inst callee function { act with stack := v :: act.stack } =
        act.push (.ok w) := by
  refine ⟨v.negate, ⟨v.type_negate.trans hv.type_eq, ?_⟩, exec_negate hinst hv.type_eq⟩
  obtain ⟨rfl, hinteger⟩ := hv
  have hneg {w : Nat} (n : BitVec w) : (-n).toInt = wrap w (0 - n.toInt) := by
    rw [wrap_eq_toInt, Int.zero_sub, BitVec.ofInt_neg, BitVec.ofInt_toInt]
  cases v <;> cases hwidth <;> cases hinteger <;> exact congrArg Except.ok (hneg _)

end Code

end Instructions

/-! ### Both integer types -/

/-- The instructions of a type are arithmetic in two's complement of a width. -/
structure ValueType.TwosComplement (t : ValueType) (width : Nat) : Prop where
  /-- The values of the type are the integers of the signed range. -/
  values : ∀ n, (∃ v : Value, v.IsInt t n) ↔ Fits width n
  /-- Every integer wraps around to the one congruent integer of the range. -/
  wraps : ∀ m n, m = wrap width n ↔ Fits width m ∧ m ≡ n [ZMOD 2 ^ width]
  add : ∀ a b, Fits width a → Fits width b → t.Computes "add" [a, b] t (wrap width (a + b))
  sub : ∀ a b, Fits width a → Fits width b → t.Computes "sub" [a, b] t (wrap width (a - b))
  mul : ∀ a b, Fits width a → Fits width b → t.Computes "mul" [a, b] t (wrap width (a * b))
  divideByZero : ∀ a b, Fits width a → Fits width b →
    (t.Traps "div_s" [a, b] "Integer divide by zero" ↔ b = 0)
  overflow : ∀ a b, Fits width a → Fits width b →
    (t.Traps "div_s" [a, b] "Integer overflow" ↔ a = -2 ^ (width - 1) ∧ b = -1)
  /-- Otherwise division gives a quotient, and the remainder has the sign of the dividend. -/
  quotient : ∀ a b, Fits width a → Fits width b → b ≠ 0 → ¬ (a = -2 ^ (width - 1) ∧ b = -1) →
    ∃ q r, t.Computes "div_s" [a, b] t q ∧ a = q * b + r ∧ |r| < |b| ∧ (r = 0 ∨ r.sign = a.sign)
  eq : ∀ a b, Fits width a → Fits width b →
    t.Computes "eq" [a, b] .i32 (if a = b then 1 else 0)
  ne : ∀ a b, Fits width a → Fits width b →
    t.Computes "ne" [a, b] .i32 (if a ≠ b then 1 else 0)
  lt : ∀ a b, Fits width a → Fits width b →
    t.Computes "lt_s" [a, b] .i32 (if a < b then 1 else 0)
  le : ∀ a b, Fits width a → Fits width b →
    t.Computes "le_s" [a, b] .i32 (if a ≤ b then 1 else 0)
  gt : ∀ a b, Fits width a → Fits width b →
    t.Computes "gt_s" [a, b] .i32 (if a > b then 1 else 0)
  ge : ∀ a b, Fits width a → Fits width b →
    t.Computes "ge_s" [a, b] .i32 (if a ≥ b then 1 else 0)
  eqz : ∀ a, Fits width a → t.Computes "eqz" [a] .i32 (if a = 0 then 1 else 0)
  /-- Every integer that is computed lies in the range of its type. -/
  inRange : ∀ {operation operands u n w}, u.width? = some w → t.Computes operation operands u n →
    Fits w n
  /-- In a tree of sums, differences and products it is enough to wrap around once. -/
  tree : ∀ tree : ArithmeticTree, tree.wrapped width = wrap width tree.exact
  /-- The code of such a tree pushes the number that wraps around at each step. -/
  run : ∀ (tree : ArithmeticTree) (inst : Instance) (callee : Callee) (function : Text)
    (act : Activation), inst.module.valueType = t → ∃ v : Value,
      v.IsInt t (tree.wrapped width) ∧
        (Code.acts (tree.actions t)).exec inst callee function act = act.push (.ok v)
  /-- Negation is lowered to a multiplication by minus one, which is a subtraction from zero. -/
  negation : (Lower.negate t).Emits [.const (.int (-1)), .bare (t.mnemonic "mul")] ∧
    ∀ (x : Int) (v : Value) (inst : Instance) (callee : Callee) (function : Text)
      (act : Activation), inst.module.valueType = t → v.IsInt t x → ∃ w : Value,
        w.IsInt t (wrap width (0 - x)) ∧
          (Code.acts [.const (.int (-1)), .bare (t.mnemonic "mul")]).exec inst callee function
            { act with stack := v :: act.stack } = act.push (.ok w)

theorem Relation.holds_compare (a b : Int) :
    (eq.holds (some (compare a b)) = decide (a = b) ∧
      ne.holds (some (compare a b)) = decide (a ≠ b)) ∧
    (lt.holds (some (compare a b)) = decide (a < b) ∧
      le.holds (some (compare a b)) = decide (a ≤ b)) ∧
    gt.holds (some (compare a b)) = decide (a > b) ∧
      ge.holds (some (compare a b)) = decide (a ≥ b) := by
  rcases lt_trichotomy a b with h | rfl | h
  · rw [compare_lt_iff_lt.mpr h]
    simp [holds, h, h.le, h.ne, h.not_gt, h.not_ge]
  · rw [compare_eq_iff_eq.mpr rfl]
    simp [holds]
  · rw [compare_gt_iff_gt.mpr h]
    simp [holds, h, h.le, h.ne', h.not_gt, h.not_ge]

/-- The instructions of an integer type are arithmetic in two's complement of its width. -/
theorem twosComplement_of_width {t : ValueType} {width : Nat} (hwidth : t.width? = some width) :
    t.TwosComplement width where
  values := fun _ => Value.exists_isInt_iff hwidth
  wraps := fun _ _ => eq_wrap_iff (ValueType.width_pos hwidth)
  add := fun a b _ _ => computes_arithmetic hwidth .add a b
  sub := fun a b _ _ => computes_arithmetic hwidth .sub a b
  mul := fun a b _ _ => computes_arithmetic hwidth .mul a b
  divideByZero := fun _ _ ha hb => (traps_divS_iff hwidth ha hb).1
  overflow := fun _ _ ha hb => (traps_divS_iff hwidth ha hb).2
  quotient := fun a b ha _ hne hlast => by
    obtain ⟨r, hremainder⟩ := exists_remainder a hne
    rcases divS_cases hwidth ha b with ⟨hzero, -⟩ | ⟨-, hoverflow, -⟩ | ⟨-, -, hcomputes⟩
    · exact absurd hzero hne
    · exact absurd hoverflow hlast
    · exact ⟨_, r, hcomputes, hremainder⟩
  eq := fun a b _ _ => computes_compare hwidth _ rfl (Relation.holds_compare a b).1.1
  ne := fun a b _ _ => computes_compare hwidth _ rfl (Relation.holds_compare a b).1.2
  lt := fun a b _ _ => computes_compare hwidth _ rfl (Relation.holds_compare a b).2.1.1
  le := fun a b _ _ => computes_compare hwidth _ rfl (Relation.holds_compare a b).2.1.2
  gt := fun a b _ _ => computes_compare hwidth _ rfl (Relation.holds_compare a b).2.2.1
  ge := fun a b _ _ => computes_compare hwidth _ rfl (Relation.holds_compare a b).2.2.2
  eqz := fun a _ => computes_eqz hwidth a
  inRange := fun hw ⟨v, hv, _⟩ => (Value.exists_isInt_iff hw).mp ⟨v, hv⟩
  tree := ArithmeticTree.wrapped_eq width
  run := fun tree _ _ _ act hinst => tree.exec_actions hwidth hinst act
  negation := by
    have hactions : t.negateActions = [.const (.int (-1)), .bare (t.mnemonic "mul")] := by
      rw [ValueType.negateActions, ValueType.isFloat_eq_false hwidth]
      rfl
    rw [← hactions]
    exact ⟨Lower.emits_negate t, fun _ _ _ _ _ act hinst hv =>
      exec_negateActions hwidth hinst hv act⟩

/-- The ends of the range: one more than the greatest integer is the least, and the least divided by
minus one is no integer of the range. -/
theorem twosComplement_ends :
    ValueType.i32.width? = some 32 ∧
      ValueType.i32.Computes "add" [2 ^ 31 - 1, 1] .i32 (-2 ^ 31) ∧
      ValueType.i32.Traps "div_s" [-2 ^ 31, -1] "Integer overflow" := by
  have h := twosComplement_of_width (t := .i32) rfl
  have hsum := h.add (2 ^ 31 - 1) 1 (by decide) (by decide)
  have htrap := (h.overflow (-2 ^ 31) (-1) (by decide) (by decide)).mpr ⟨rfl, rfl⟩
  exact ⟨rfl, hsum, htrap⟩

end StackScript
