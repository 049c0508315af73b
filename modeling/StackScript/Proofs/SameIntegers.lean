import StackScript.Proofs.CallStack
import StackScript.Proofs.WidenedCode

/-!
# The same integers in both widths

Values of 32 and of 64 bits can be the same integers. If two activations hold the same integers, on
the stack, in the cells and in the log, then an action and its counterpart for wider integers have
the same effect: a trap in one is the same trap in the other, and otherwise they leave the same
integers.

One thing can come between them. Where the narrow action wraps around, the wide one does not, but
then it pushes an integer that has more than 32 bits. So all this is said of wide actions that leave
only integers of 32 bits on the stack.

## Main definitions

* `Value.IsNarrow`: a value is an integer of 32 bits.
* `Value.Same`, `Activation.Same`: the same integers in both widths.
* `SameOutcome`, `Effect.Same`: related results or the same trap.

## Main results

* `same_ofInteger`: integers of both widths are the same if the wide one is narrow.
* `applyUnary_same`, `applyBinary_same`, `applyUnary_fromUnsigned_same`: operations.
* `Action.Widens.exec_same`: actions other than calls have the same effect.
* `test_same`: testing a value does not change the condition.
-/

namespace StackScript

open Exec
open Code (acts)

/-! ### Values -/

/-- A value is an integer of 32 bits. -/
def Value.IsNarrow (v : Value) : Prop :=
  ∃ n, v.toInteger = .ok n ∧ Fits 32 n

instance (v : Value) : Decidable v.IsNarrow :=
  decidable_of_iff (v.toInteger.toOption.any (fun n => decide (Fits 32 n)) = true) <| by
    unfold Value.IsNarrow
    cases v.toInteger <;> simp [Except.toOption]

/-- A 32-bit value and a value of either width that are the same integer. -/
inductive Value.Same : Value → Value → Prop
  | narrow (n : BitVec 32) : Same (.i32 n) (.i32 n)
  | wide {n : BitVec 32} {n' : BitVec 64} : n'.toInt = n.toInt → Same (.i32 n) (.i64 n')

namespace Value.Same

variable {v v' : Value}

theorem exists_integer (h : v.Same v') :
    ∃ n, Fits 32 n ∧ v.toInteger = .ok n ∧ v'.toInteger = .ok n := by
  cases h with
  | narrow n => exact ⟨n.toInt, ⟨BitVec.le_toInt n, BitVec.toInt_lt⟩, rfl, rfl⟩
  | @wide n n' h =>
    refine ⟨n.toInt, ⟨BitVec.le_toInt n, BitVec.toInt_lt⟩, rfl, ?_⟩
    rw [Value.toInteger, h]

theorem isZero_eq (h : v.Same v') : v'.isZero = v.isZero := by
  cases h with
  | narrow n => rfl
  | wide h => rw [Value.isZero, Value.isZero, ← toInt_beq_zero, ← toInt_beq_zero, h]

theorem logText_eq (h : v.Same v') : v'.logText = v.logText := by
  cases h with
  | narrow n => rfl
  | wide h => rw [Value.logText, Value.logText, h]

theorem toDatum_eq (h : v.Same v') : v'.toDatum = v.toDatum := by
  cases h with
  | narrow n => rfl
  | wide h => rw [Value.toDatum, Value.toDatum, h]

end Value.Same

/-- Two outcomes with related results, or with the same trap. -/
inductive SameOutcome {α β : Type} (R : α → β → Prop) : Except Trap α → Except Trap β → Prop
  | ok {a : α} {b : β} : R a b → SameOutcome R (.ok a) (.ok b)
  | error (trap : Trap) : SameOutcome R (.error trap) (.error trap)

/-- The integer of a word. -/
theorem toInt_toWord (width : Nat) (n : Int) : (toWord width n).toInt = wrap width n := by
  rw [toWord_eq_ofInt, wrap_eq_toInt]

/-- If the wide integer is narrow, no width has wrapped around. -/
theorem wrap_eq_of_fits {n : Int} (h : Fits 32 (wrap 64 n)) : wrap 32 n = wrap 64 n := by
  have hmod : wrap 64 n ≡ n [ZMOD 2 ^ 32] := (wrap_modEq 64 n).of_dvd (by decide)
  exact ((eq_wrap_iff (by decide)).mpr ⟨h, hmod⟩).symm

/-- Integers of both widths are the same if the wide one is narrow. -/
theorem same_ofInteger {n : Int} (h : ∀ v, Value.ofInteger .i64 n = .ok v → v.IsNarrow) :
    ∃ v v', Value.ofInteger .i32 n = .ok v ∧ Value.ofInteger .i64 n = .ok v' ∧ v.Same v' := by
  obtain ⟨_, hn, hfits⟩ := h _ rfl
  cases hn
  rw [toInt_toWord] at hfits
  refine ⟨_, _, rfl, rfl, .wide ?_⟩
  rw [toInt_toWord, toInt_toWord, wrap_eq_of_fits hfits]

section Operations

variable {v v' w w' : Value} {mnemonic mnemonic' : Text}

theorem applyUnary_same {op : UnaryOperation} (hop : (Operation.unary op).isIntegral = true)
    (hv : v.Same v') :
    SameOutcome Value.Same (applyUnary .i32 mnemonic v op) (applyUnary .i64 mnemonic' v' op) := by
  obtain ⟨n, -, hn, hn'⟩ := hv.exists_integer
  cases op with
  | eqz =>
    rw [applyUnary, applyUnary, hn, hn']
    exact .ok (.narrow _)
  | neg => cases hop
  | fromUnsigned => cases hop

theorem signedDivision_same {a b : Int} (ha : Fits 32 a)
    (hnarrow : ∀ r, signedDivision .i64 a b = .ok r → r.IsNarrow) :
    SameOutcome Value.Same (signedDivision .i32 a b) (signedDivision .i64 a b) := by
  by_cases hb : b = 0
  · rw [signedDivision, signedDivision, if_pos hb, if_pos hb]
    exact .error _
  -- of numbers that fit 32 bits, no quotient overflows 64 bits
  · have hwide : wrap 64 (a.tdiv b) = a.tdiv b := by
      have hfits : Fits 64 a := by
        unfold Fits at ha ⊢
        omega
      refine (wrap_eq_self_iff (by decide)).mpr ((fits_tdiv_iff hfits hb).mpr ?_)
      rintro ⟨rfl, -⟩
      exact absurd ha (by decide)
    simp only [signedDivision, truncatedQuotient_eq_tdiv, if_neg hb, ValueType.width?,
      if_pos hwide] at hnarrow ⊢
    obtain ⟨r, r', hr, hr', hsame⟩ := same_ofInteger fun r hr => hnarrow r (by rw [hr]; rfl)
    obtain ⟨_, hn, hfits⟩ := hnarrow r' (by rw [hr']; rfl)
    cases hr'
    cases hn
    rw [toInt_toWord] at hfits
    -- the quotient is narrow by assumption, which leaves out the one overflow of 32 bits
    have hquotient : wrap 32 (a.tdiv b) = a.tdiv b := (wrap_eq_of_fits hfits).trans hwide
    rw [if_pos hquotient, hr]
    exact .ok hsame

theorem applyBinary_same {op : BinaryOperation} (hop : (Operation.binary op).isIntegral = true)
    (hv : v.Same v') (hw : w.Same w')
    (hnarrow : ∀ r, applyBinary .i64 mnemonic' v' w' op = .ok r → r.IsNarrow) :
    SameOutcome Value.Same (applyBinary .i32 mnemonic v w op)
      (applyBinary .i64 mnemonic' v' w' op) := by
  obtain ⟨a, ha, hva, hva'⟩ := hv.exists_integer
  obtain ⟨b, -, hwb, hwb'⟩ := hw.exists_integer
  cases op with
  | arithmetic op =>
    have hwide : applyBinary .i64 mnemonic' v' w' (.arithmetic op) =
        Trap.ofConversion (Value.ofInteger .i64 (op.onIntegers a b)) := by
      rw [applyBinary, hva', hwb']
      rfl
    have hsmall : applyBinary .i32 mnemonic v w (.arithmetic op) =
        Trap.ofConversion (Value.ofInteger .i32 (op.onIntegers a b)) := by
      rw [applyBinary, hva, hwb]
      rfl
    -- both widths wrap the same integer, which is narrow by assumption
    obtain ⟨r, r', hr, hr', hsame⟩ := same_ofInteger fun r hr => hnarrow r (by rw [hwide, hr]; rfl)
    rw [hwide, hsmall, hr, hr']
    exact .ok hsame
  | div => cases hop
  | divS =>
    have hwide : applyBinary .i64 mnemonic' v' w' .divS = signedDivision .i64 a b := by
      rw [applyBinary, hva', hwb']
      rfl
    have hsmall : applyBinary .i32 mnemonic v w .divS = signedDivision .i32 a b := by
      rw [applyBinary, hva, hwb]
      rfl
    rw [hwide] at hnarrow ⊢
    rw [hsmall]
    exact signedDivision_same ha hnarrow
  | compare r =>
    rw [applyBinary, applyBinary, hva, hva', hwb, hwb']
    exact .ok (.narrow _)

/-- Extending leaves an integer as it is, unless it gets too large. -/
theorem applyUnary_fromUnsigned_same (hv : v.Same v')
    (hnarrow : ∀ r, applyUnary .i64 mnemonic v' .fromUnsigned = .ok r → r.IsNarrow) :
    ∃ r, applyUnary .i64 mnemonic v' .fromUnsigned = .ok r ∧ v.Same r := by
  obtain ⟨n, -, hn, hn'⟩ := hv.exists_integer
  have hwide : applyUnary .i64 mnemonic v' .fromUnsigned =
      Trap.ofConversion (Value.ofInteger .i64 (unsigned 32 n)) := by
    rw [applyUnary, hn']
    rfl
  obtain ⟨r, r', hr, hr', hsame⟩ := same_ofInteger fun r hr => hnarrow r (by rw [hwide, hr]; rfl)
  have hv : v = r := by
    rw [ofInteger_i32_unsigned] at hr
    cases hr
    cases hv <;> cases hn <;> rw [BitVec.ofInt_toInt]
  exact ⟨r', by rw [hwide, hr']; rfl, hv ▸ hsame⟩

end Operations

/-! ### Activations -/

/-- Cells of the same names that hold the same integers. -/
def Cells.Same (cells cells' : Cells) : Prop :=
  List.Forall₂ (fun cell cell' => cell'.1 = cell.1 ∧ cell.2.Same cell'.2) cells cells'

/-- Stores that hold the same integers. -/
structure Store.Same (store store' : Store) : Prop where
  globals : Cells.Same store.globals store'.globals
  logged : List.Forall₂ Value.Same store.logged store'.logged

/-- Activations that hold the same integers. -/
structure Activation.Same (a a' : Activation) : Prop where
  stack : List.Forall₂ Value.Same a.stack a'.stack
  locals : Cells.Same a.locals a'.locals
  store : a.store.Same a'.store

/-- Two effects with related results, or with the same trap, that leave the same integers. -/
def Effect.Same {α β : Type} (R : α → β → Prop) (effect : Effect Activation α)
    (effect' : Effect Activation β) : Prop :=
  SameOutcome R effect.1 effect'.1 ∧ effect.2.Same effect'.2

namespace Cells.Same

variable {cells cells' : Cells}

theorem lookup (h : Cells.Same cells cells') (name : Text) :
    Option.Rel Value.Same (cells.lookup name) (cells'.lookup name) := by
  induction h with
  | nil => exact .none
  | @cons cell cell' rest rest' hcell _ ih =>
    obtain ⟨key, v⟩ := cell
    obtain ⟨key', v'⟩ := cell'
    obtain ⟨rfl, hv⟩ := hcell
    rw [List.lookup_cons, List.lookup_cons]
    cases name == key' with
    | true => exact .some hv
    | false => exact ih

theorem set (h : Cells.Same cells cells') (name : Text) {v v' : Value} (hv : v.Same v') :
    Cells.Same (cells.set name v) (cells'.set name v') := by
  induction h with
  | nil => exact .cons ⟨rfl, hv⟩ .nil
  | @cons cell cell' rest rest' hcell hrest ih =>
    obtain ⟨key, old⟩ := cell
    obtain ⟨key', old'⟩ := cell'
    obtain ⟨rfl, hold⟩ := hcell
    unfold Cells.set
    split
    · exact .cons ⟨rfl, hv⟩ hrest
    · exact .cons ⟨rfl, hold⟩ ih

theorem setZeros (h : Cells.Same cells cells') (names : List Text) :
    Cells.Same (cells.setZeros .i32 names) (cells'.setZeros .i64 names) := by
  unfold Cells.setZeros
  induction names generalizing cells cells' with
  | nil => exact h
  | cons name rest ih => exact ih (h.set name (.wide rfl))

end Cells.Same

theorem Effect.Same.andThen {α α' β β' : Type} {R : α → α' → Prop} {S : β → β' → Prop}
    {effect : Effect Activation α} {effect' : Effect Activation α'}
    {next : α → Activation → Effect Activation β} {next' : α' → Activation → Effect Activation β'}
    (h : Effect.Same R effect effect')
    (hnext : ∀ {v v' b b'}, effect' = (.ok v', b') → R v v' → b.Same b' →
      Effect.Same S (next v b) (next' v' b')) :
    Effect.Same S (effect.andThen next) (effect'.andThen next') := by
  obtain ⟨r, b⟩ := effect
  obtain ⟨r', b'⟩ := effect'
  obtain ⟨houtcome, hb⟩ := h
  cases houtcome with
  | ok hv => exact hnext rfl hv hb
  | error trap => exact ⟨.error trap, hb⟩

section Actions

variable {a a' : Activation} (ha : a.Same a')

include ha

theorem pop_same (function : Text) :
    Effect.Same Value.Same (onStack (pop function) a) (onStack (pop function) a') := by
  obtain ⟨stack, locals, store⟩ := a
  obtain ⟨stack', locals', store'⟩ := a'
  obtain ⟨hstack, hlocals, hstore⟩ := ha
  cases hstack with
  | nil => exact ⟨.error _, .nil, hlocals, hstore⟩
  | cons hv hrest => exact ⟨.ok hv, hrest, hlocals, hstore⟩

theorem push_same {v v' : Value} (hv : v.Same v') :
    Effect.Same Eq (onStack (push v) a) (onStack (push v') a') :=
  ⟨.ok rfl, .cons hv ha.stack, ha.locals, ha.store⟩

theorem popArguments_same (function : Text) (n : Nat) :
    Effect.Same (List.Forall₂ Value.Same) (popArguments function n a)
      (popArguments function n a') := by
  induction n generalizing a a' with
  | zero => exact ⟨.ok .nil, ha⟩
  | succ n ih =>
    rw [popArguments, bind_apply, bind_apply]
    refine (pop_same ha function).andThen fun _ hlast hb => ?_
    rw [bind_apply, bind_apply]
    refine (ih hb).andThen fun _ hothers hc => ?_
    exact ⟨.ok (List.rel_append hothers (.cons hlast .nil)), hc⟩

theorem pushResult_same {r r' : Except Trap Value} (h : SameOutcome Value.Same r r') :
    Effect.Same Eq (a.push r) (a'.push r') := by
  cases h with
  | ok hv => exact push_same ha hv
  | error trap => exact ⟨.error trap, ha⟩

theorem cells_same (inFunction : Bool) :
    Cells.Same (a.cells inFunction) (a'.cells inFunction) := by
  cases inFunction with
  | true => exact ha.locals
  | false => exact ha.store.globals

theorem setCell_same (inFunction : Bool) (name : Text) {v v' : Value} (hv : v.Same v') :
    (a.setCell inFunction name v).Same (a'.setCell inFunction name v') := by
  cases inFunction with
  | true => exact ⟨ha.stack, ha.locals.set name hv, ha.store⟩
  | false => exact ⟨ha.stack, ha.locals, ha.store.globals.set name hv, ha.store.logged⟩

end Actions

/-! ### Instructions -/

section Instructions

variable {t : ValueType} {function mnemonic : Text} {operand : Datum}

theorem plainInstr_unary {op : UnaryOperation}
    (hdecode : decodeMnemonic? mnemonic = some (t, .unary op)) (a : Activation) :
    plainInstr function mnemonic operand a = Effect.andThen (onStack (pop function) a)
      fun v b => b.push (applyUnary t mnemonic v op) := by
  rcases a with ⟨_ | ⟨v, st⟩, locals, store⟩
  · rw [plainInstr_eq_numeric (by simp [hdecode])]
    simp only [onStack, numeric, hdecode]
    rfl
  · exact exec_unary hdecode v

theorem plainInstr_binary {op : BinaryOperation}
    (hdecode : decodeMnemonic? mnemonic = some (t, .binary op)) (a : Activation) :
    plainInstr function mnemonic operand a = Effect.andThen (onStack (pop function) a)
      fun w b => Effect.andThen (onStack (pop function) b)
        fun v c => c.push (applyBinary t mnemonic v w op) := by
  rcases a with ⟨_ | ⟨w, _ | ⟨v, st⟩⟩, locals, store⟩
  · rw [plainInstr_eq_numeric (by simp [hdecode])]
    simp only [onStack, numeric, hdecode]
    rfl
  · rw [plainInstr_eq_numeric (by simp [hdecode])]
    simp only [onStack, numeric, hdecode]
    rfl
  · exact exec_binary hdecode v w

/-- The trap of a cell that is not there. -/
def missingCell (inFunction : Bool) (name function : Text) : Trap :=
  if inFunction then .unknownLocal (Datum.text name).display function
  else .unknownGlobal (Datum.text name).display

theorem plainInstr_load (inFunction : Bool) (name : Text) (a : Activation) :
    plainInstr function (cellClass inFunction ++ ".get" : String) (.text name) a =
      a.push (((a.cells inFunction).lookup name).elim
        (.error (missingCell inFunction name function)) .ok) := by
  cases hlookup : (a.cells inFunction).lookup name with
  | some v => exact exec_load hlookup function
  | none =>
    cases inFunction with
    | false =>
      change plainInstr function "global.get" (.text name) a = _
      have hcell : a.store.globals.lookup name = none := hlookup
      simp [plainInstr, bind_apply, cell?, hcell, missingCell, Activation.push]
    | true =>
      change plainInstr function "local.get" (.text name) a = _
      have hcell : a.locals.lookup name = none := hlookup
      simp [plainInstr, bind_apply, cell?, hcell, missingCell, Activation.push]

theorem plainInstr_store (inFunction : Bool) (name : Text) (a : Activation) :
    plainInstr function (cellClass inFunction ++ ".set" : String) (.text name) a =
      ((a.cells inFunction).lookup name).elim (.error (missingCell inFunction name function), a)
        fun _ => Effect.andThen (onStack (pop function) a)
          fun v b => (.ok (), b.setCell inFunction name v) := by
  cases hlookup : (a.cells inFunction).lookup name with
  | some old =>
    rcases a with ⟨_ | ⟨v, st⟩, locals, store⟩
    · -- the name is known, and there is nothing to store
      cases inFunction with
      | false =>
        change plainInstr function "global.set" (.text name) _ = _
        have hcell : store.globals.lookup name = some old := hlookup
        simp [plainInstr, bind_apply, cell?, hcell]
        rfl
      | true =>
        change plainInstr function "local.set" (.text name) _ = _
        have hcell : locals.lookup name = some old := hlookup
        simp [plainInstr, bind_apply, cell?, hcell]
        rfl
    · exact exec_store hlookup function
  -- a name that is not known is reported before anything is popped
  | none =>
    cases inFunction with
    | false =>
      change plainInstr function "global.set" (.text name) a = _
      have hcell : a.store.globals.lookup name = none := hlookup
      simp [plainInstr, bind_apply, cell?, hcell, missingCell]
    | true =>
      change plainInstr function "local.set" (.text name) a = _
      have hcell : a.locals.lookup name = none := hlookup
      simp [plainInstr, bind_apply, cell?, hcell, missingCell]

theorem plainInstr_drop (a : Activation) :
    plainInstr function "drop" operand a =
      Effect.andThen (onStack (pop function) a) fun _ b => (.ok (), b) := by
  rcases a with ⟨_ | ⟨v, st⟩, locals, store⟩ <;> rfl

end Instructions

/-- A numeric instruction leaves its result on the stack. -/
theorem Action.exists_cons_of_isNumeric {inst : Instance} {callee : Callee} {function : Text}
    {action : Action} (h : action.isNumeric = true) {a b : Activation}
    (hexec : action.exec inst callee function a = (.ok (), b)) : ∃ v st, b.stack = v :: st := by
  -- whatever is popped first, a result is pushed last
  have hpush {c : Activation} {r : Except Trap Value} (hc : c.push r = (.ok (), b)) :
      ∃ v st, b.stack = v :: st := by
    cases r with
    | error trap => cases hc
    | ok v =>
      cases hc
      exact ⟨v, _, rfl⟩
  cases action with
  | plain mnemonic operand =>
    obtain ⟨⟨t, op⟩, hdecode⟩ := Option.isSome_iff_exists.mp h
    rw [Action.exec] at hexec
    cases op with
    | const =>
      rw [exec_constant hdecode] at hexec
      exact hpush hexec
    | unary op =>
      rw [plainInstr_unary hdecode] at hexec
      obtain ⟨_, _, -, hlast⟩ := Effect.andThen_eq_ok hexec
      exact hpush hlast
    | binary op =>
      rw [plainInstr_binary hdecode] at hexec
      obtain ⟨_, _, -, hnext⟩ := Effect.andThen_eq_ok hexec
      obtain ⟨_, _, -, hlast⟩ := Effect.andThen_eq_ok hnext
      exact hpush hlast
  | _ => cases h

/-! ### Actions -/

/-- An effect that succeeds leaves integers of 32 bits on the stack. -/
def Effect.LeavesNarrow (effect : Effect Activation Unit) : Prop :=
  ∀ b, effect = (.ok (), b) → ∀ v ∈ b.stack, v.IsNarrow

theorem Effect.LeavesNarrow.of_push {a : Activation} {r : Except Trap Value}
    (h : Effect.LeavesNarrow (a.push r)) {v : Value} (hr : r = .ok v) : v.IsNarrow := by
  subst hr
  exact h _ rfl v List.mem_cons_self

section Actions

variable {a a' : Activation} (ha : a.Same a')

include ha

theorem operation_same {name : String} {op : Operation}
    (hlookup : operationNames.lookup name = some op) (hop : op.isIntegral = true)
    (function : Text)
    (hnarrow : Effect.LeavesNarrow
      (plainInstr function (ValueType.i64.mnemonic name) .null a')) :
    Effect.Same Eq (plainInstr function (ValueType.i32.mnemonic name) .null a)
      (plainInstr function (ValueType.i64.mnemonic name) .null a') := by
  have hdecode (t : ValueType) : decodeMnemonic? (t.mnemonic name) = some (t, op) := by
    rw [decodeMnemonic?_mnemonic, hlookup]
    rfl
  cases op with
  | const => cases hop
  | unary op =>
    rw [plainInstr_unary (hdecode .i32), plainInstr_unary (hdecode .i64)]
    exact (pop_same ha function).andThen fun _ hv hb => pushResult_same hb (applyUnary_same hop hv)
  | binary op =>
    rw [plainInstr_binary (hdecode .i64)] at hnarrow ⊢
    rw [plainInstr_binary (hdecode .i32)]
    refine (pop_same ha function).andThen fun hpop hw hb => ?_
    refine (pop_same hb function).andThen fun hpop' hv hc => ?_
    -- both operands are there, so what is left narrow is the result itself
    rw [hpop, Effect.andThen_ok, hpop', Effect.andThen_ok] at hnarrow
    exact pushResult_same hc (applyBinary_same hop hv hw fun _ => hnarrow.of_push)

/-- Extending leaves the same integers. -/
theorem extend_same {inst : Instance} {callee : Callee} {function : Text} {v' : Value}
    {st' : List Value} (hstack : a'.stack = v' :: st')
    (hnarrow : Effect.LeavesNarrow (Action.extend.exec inst callee function a')) :
    ∃ b, Action.extend.exec inst callee function a' = (.ok (), b) ∧ a.Same b := by
  obtain ⟨stack, locals, store⟩ := a
  obtain ⟨_, locals', store'⟩ := a'
  cases hstack
  obtain ⟨hstack, hlocals, hstore⟩ := ha
  cases hstack with
  | @cons v _ st _ hv hst =>
    have hexec : Action.extend.exec inst callee function ⟨v' :: st', locals', store'⟩ =
        Activation.push ⟨st', locals', store'⟩
          (applyUnary .i64 (ValueType.i64.mnemonic "extend_i32_u") v' .fromUnsigned) := by
      rw [Action.extend, Action.bare, Action.exec]
      exact exec_unary (decodeMnemonic?_mnemonic .i64 "extend_i32_u") v'
    rw [hexec] at hnarrow ⊢
    obtain ⟨r, hr, hsame⟩ := applyUnary_fromUnsigned_same hv fun _ => hnarrow.of_push
    rw [hr]
    exact ⟨_, rfl, .cons hsame hst, hlocals, hstore⟩

end Actions

/-- The two instances of modules that differ in the width of their integers. -/
structure Instance.Widens (inst inst' : Instance) : Prop where
  module : inst.module.Widens inst'.module
  host_eq : inst.host = .accepting
  host_eq_wide : inst'.host = .accepting

section Simulation

variable {inst inst' : Instance} (hinst : inst.Widens inst') {callee callee' : Callee}
  {function : Text} {a a' : Activation}

include hinst

/-- Actions other than calls have the same effect. -/
theorem Action.Widens.exec_same {action action' : Action} (h : action.Widens action')
    (hcall : ∀ name, action ≠ .call name) (ha : a.Same a')
    (hnarrow : Effect.LeavesNarrow (action'.exec inst' callee' function a')) :
    Effect.Same Eq (action.exec inst callee function a)
      (action'.exec inst' callee' function a') := by
  cases h with
  | @const n hn =>
    have hd : Value.ofDatum inst.module.valueType (.int n) = .ok (.i32 (toWord 32 n)) := by
      rw [hinst.module.valueType_eq]
      rfl
    have hd' : Value.ofDatum inst'.module.valueType (.int n) = .ok (.i64 (toWord 64 n)) := by
      rw [hinst.module.valueType_eq_wide]
      rfl
    rw [exec_const hd, exec_const hd']
    refine push_same ha (.wide ?_)
    rw [toInt_toWord, toInt_toWord, hn, wrap_eq_self_of_narrow hn]
  | call name => exact absurd rfl (hcall name)
  | drop =>
    rw [bare, exec, exec, plainInstr_drop, plainInstr_drop]
    exact (pop_same ha function).andThen fun _ _ hb => ⟨.ok rfl, hb⟩
  | load inFunction name =>
    rw [named, exec, exec, plainInstr_load, plainInstr_load]
    have hlookup := (cells_same ha inFunction).lookup name
    generalize (a.cells inFunction).lookup name = found,
      (a'.cells inFunction).lookup name = found' at hlookup
    cases hlookup with
    | none => exact pushResult_same ha (.error _)
    | some hv => exact pushResult_same ha (.ok hv)
  | store inFunction name =>
    rw [named, exec, exec, plainInstr_store, plainInstr_store]
    have hlookup := (cells_same ha inFunction).lookup name
    generalize (a.cells inFunction).lookup name = found,
      (a'.cells inFunction).lookup name = found' at hlookup
    cases hlookup with
    | none => exact ⟨.error _, ha⟩
    | some _ =>
      exact (pop_same ha function).andThen fun _ hv hb =>
        ⟨.ok rfl, setCell_same hb inFunction name hv⟩
  | address n =>
    rw [exec_i32Const, exec_i32Const]
    exact pushResult_same ha (.ok (.narrow _))
  | operation name hlookup hop => exact operation_same ha hlookup hop function hnarrow

end Simulation

/-! ### Conditions -/

theorem Effect.andThen_assoc {σ α β γ : Type} (effect : Effect σ α) (next : α → σ → Effect σ β)
    (last : β → σ → Effect σ γ) :
    (effect.andThen next).andThen last = effect.andThen fun a s => (next a s).andThen last := by
  rcases effect with ⟨trap | a, s⟩ <;> rfl

/-- A conditional behind some code pops its condition after that code. -/
theorem exec_append_ifElse (inst : Instance) (callee : Callee) (function : Text)
    (c first second rest : Code) (a : Activation) :
    (c ++ .ifElse first second rest).exec inst callee function a =
      Effect.andThen
        (Effect.andThen (c.exec inst callee function a) fun _ => onStack (pop function))
        fun v b => Effect.andThen ((if v.isZero then second else first).exec inst callee function b)
          fun _ => rest.exec inst callee function := by
  rw [exec_append, Effect.andThen_assoc]
  congr 1
  funext _ b
  rcases b with ⟨_ | ⟨v, st⟩, locals, store⟩
  · rfl
  · exact exec_ifElse first second rest v

theorem eq_of_pop_eq_ok {function : Text} {a b : Activation} {v : Value}
    (h : onStack (pop function) a = (.ok v, b)) : a = ⟨v :: b.stack, b.locals, b.store⟩ := by
  rcases a with ⟨_ | ⟨w, st⟩, locals, store⟩ <;> cases h
  rfl

/-- Whether the wide code tests a value or not, the condition is the same. -/
theorem test_same {inst' : Instance} (hwide : inst'.module.valueType = .i64) {callee' : Callee}
    {function : Text} {test : List Action} (htest : IsTest test) {a a' : Activation}
    (ha : a.Same a') :
    Effect.Same (fun v u => u.isZero = v.isZero) (onStack (pop function) a)
      (Effect.andThen ((acts test).exec inst' callee' function a')
        fun _ => onStack (pop function)) := by
  obtain ⟨stack, locals, store⟩ := a
  obtain ⟨stack', locals', store'⟩ := a'
  obtain ⟨hstack, hlocals, hstore⟩ := ha
  have hzero : Value.ofDatum inst'.module.valueType ValueType.i64.zeroDatum = .ok (.zero .i64) := by
    rw [hwide, Value.ofDatum_zeroDatum]
  have hdecode := decodeMnemonic?_mnemonic .i64 "ne"
  rcases htest with rfl | rfl
  · cases hstack with
    | nil => exact ⟨.error _, .nil, hlocals, hstore⟩
    | cons hv hrest => exact ⟨.ok hv.isZero_eq, hrest, hlocals, hstore⟩
  · cases hstack with
    | nil =>
      -- the zero is compared with nothing
      have hexec : (acts ValueType.i64.isNotZeroActions).exec inst' callee' function
          ⟨[], locals', store'⟩ = (.error (.stackUnderflow function), ⟨[], locals', store'⟩) := by
        rw [ValueType.isNotZeroActions, if_neg (by decide), acts, exec_act, exec_const hzero,
          Effect.andThen_ok, acts, exec_act, Action.bare, Action.exec, plainInstr_binary hdecode]
        rfl
      rw [hexec]
      exact ⟨.error _, .nil, hlocals, hstore⟩
    | @cons v v' st st' hv hrest =>
      have happly : applyBinary .i64 (ValueType.i64.mnemonic "ne") v' (.zero .i64) (.compare .ne) =
          .ok (.flag (!v'.isZero)) := by
        cases hv with
        | narrow n =>
          exact congrArg (fun b => Except.ok (Value.flag !b))
            ((compare_beq_eq n.toInt 0).trans (toInt_beq_zero n))
        | @wide n n' _ => exact applyBinary_ne_zero (v := .i64 n') rfl _
      have hexec : (acts ValueType.i64.isNotZeroActions).exec inst' callee' function
          ⟨v' :: st', locals', store'⟩ =
            (.ok (), ⟨.flag (!v'.isZero) :: st', locals', store'⟩) := by
        rw [ValueType.isNotZeroActions, if_neg (by decide)]
        exact exec_acts_const_binary hzero hdecode happly
      rw [hexec]
      refine ⟨.ok ?_, hrest, hlocals, hstore⟩
      rw [Value.isZero_flag, Bool.not_not, hv.isZero_eq]

end StackScript
