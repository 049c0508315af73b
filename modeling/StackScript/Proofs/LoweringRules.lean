import StackScript.Lowering.Generate
import StackScript.Proofs.Code

/-!
# The rules of lowering

What lowering a part of a program does when it succeeds, said once: for each kind of node the code
that it becomes, as a tree, and the scope after it. All that is proved about compiled programs is
proved from these rules.

## Main definitions

* `Lower.Yields`: lowering succeeds with some code, scope and result.
* `Part`: a node for a use, statements, or the arguments of a call.
* `Compiles`: the rules.

## Main results

* `lower_followsRules`: lowering that succeeds follows the rules.
* `exists_compiles_of_generate`: the module of a program, by the rules.
-/

namespace StackScript

/-! ### The code of single steps -/

namespace ValueType

/-- Replaces a value by a flag that tells whether it was zero. -/
def isZeroActions (t : ValueType) : List Action :=
  if t.isFloat then [.const t.zeroDatum, .bare (t.mnemonic "eq")] else [.bare (t.mnemonic "eqz")]

/-- Replaces a value by a flag that tells whether it was not zero. -/
def isNotZeroActions (t : ValueType) : List Action :=
  if t = .i32 then [] else [.const t.zeroDatum, .bare (t.mnemonic "ne")]

/-- Widens a flag or an address to a type. -/
def widenActions (t : ValueType) : List Action :=
  match t.fromFlag? with
  | some name => [.bare name]
  | none => []

/-- Replaces a number by its negation. -/
def negateActions (t : ValueType) : List Action :=
  if t.isFloat then [.bare (t.mnemonic "neg")]
  else [.const (.int (-1)), .bare (t.mnemonic "mul")]

end ValueType

namespace Use

/-- Puts a value to a use. -/
def ofValue (t : ValueType) : Use → List Action
  | statement => [.bare "drop"]
  | value => []
  | condition => t.isNotZeroActions

/-- Puts a flag to a use. -/
def ofFlag (t : ValueType) : Use → List Action
  | statement => t.widenActions ++ [.bare "drop"]
  | value => t.widenActions
  | condition => []

end Use

namespace Scope

/-- The class of cells that a name belongs to. -/
def cells (s : Scope) (name : Text) : String :=
  if s.isLocal name then "local" else "global"

/-- Whether a name belongs to some cell. -/
def isCell (s : Scope) (name : Text) : Prop :=
  s.isLocal name = true ∨ s.isGlobal name = true

/-- The class of the cells that are declared in a scope. -/
def declaredCells (s : Scope) : String :=
  if s.frame.isSome then "local" else "global"

/-- The scope with a declared name. -/
def declare (s : Scope) (name : Text) : Scope :=
  match s.frame with
  | some frame => s.setFrame (frame.addLocal name)
  | none => { s with module := (s.module.addGlobal name).2 }

/-- The scope with a known function. -/
def addSignature (s : Scope) (name : Text) (arity : Nat) : Scope :=
  { s with signatures := s.signatures ++ [(name, arity)] }

/-- The scope with some bytes among its data. -/
def addData (s : Scope) (data : Bytes) : Scope :=
  { s with module := (s.module.addData data).2 }

end Scope

/-- Whether a declared name can be written in module text. -/
def isAsciiName (name : String) : Bool :=
  name.toList.all fun c => c.toNat < 128

/-- The constant that a number becomes in a module of a type. -/
inductive ConstantOf (t : ValueType) (number : Datum) : Datum → Prop
  | real {x : Double} : t.width? = none → number.toDouble = .ok x → ConstantOf t number (.real x)
  | int {width : Nat} {n : Int} : t.width? = some width → number.toInteger = .ok n →
      wrap width n = n → ConstantOf t number (.int n)

/-! ### Lowering that succeeds -/

namespace Lower

instance : LawfulMonad Lower := by
  refine LawfulMonad.mk' Lower (fun l => ?_) (fun a next => ?_) (fun l next last => ?_)
  · funext s
    change Lower.bind l (Lower.pure ∘ id) s = l s
    rw [Lower.bind]
    rcases l s with ⟨code, s', e | a⟩
    · rfl
    · simp [Lower.pure]
  · funext s
    simp [bind, Lower.bind, pure, Lower.pure]
  · funext s
    simp only [bind, Lower.bind]
    cases (l s).result with
    | error e => rfl
    | ok a => cases h : (next a (l s).scope).result <;> simp [h]

/-- What follows a failure is not lowered. -/
theorem bind_eq_of_error {l : Lower Unit} {next : Unit → Lower Unit} {s : Scope} {e : Stopped}
    (h : (l s).result = .error e) : (l >>= next) s = l s := by
  simp only [bind, Lower.bind, h]
  rw [← h]

variable {α β : Type} {s s' : Scope} {code : List Instr}

/-- In a scope, lowering succeeds with some code, the scope after it and a result. -/
def Yields (l : Lower α) (s : Scope) (code : List Instr) (s' : Scope) (a : α) : Prop :=
  l s = ⟨code, s', .ok a⟩

theorem yields_of_result_eq_ok {l : Lower α} {a : α} (h : (l s).result = .ok a) :
    l.Yields s (l s).code (l s).scope a := by
  rw [Yields, ← h]

@[simp] theorem yields_pure {a b : α} :
    (pure a : Lower α).Yields s code s' b ↔ code = [] ∧ s' = s ∧ b = a := by
  simp [Yields, pure, Lower.pure, eq_comm]

@[simp] theorem yields_bind {l : Lower α} {next : α → Lower β} {b : β} :
    (l >>= next).Yields s code s' b ↔ ∃ code₁ s₁ a code₂, l.Yields s code₁ s₁ a ∧
      (next a).Yields s₁ code₂ s' b ∧ code = code₁ ++ code₂ := by
  simp only [Yields, bind, Lower.bind]
  constructor
  · intro h
    split at h
    · simp at h
    · rename_i a ha
      simp only [Emission.mk.injEq] at h
      exact ⟨(l s).code, (l s).scope, a, (next a (l s).scope).code, by rw [← ha],
        by rw [← h.2.1, ← h.2.2], h.1.symm⟩
  · rintro ⟨code₁, s₁, a, code₂, h₁, h₂, rfl⟩
    simp [h₁, h₂]

@[simp] theorem yields_emit {instr : Instr} {u : Unit} :
    (emit instr).Yields s code s' u ↔ code = [instr] ∧ s' = s := by
  simp [Yields, emit, eq_comm]

@[simp] theorem yields_scope {r : Scope} :
    Lower.scope.Yields s code s' r ↔ code = [] ∧ s' = s ∧ r = s := by
  simp [Yields, Lower.scope, eq_comm]

@[simp] theorem yields_modify {change : Scope → α × Scope} {a : α} :
    (modify change).Yields s code s' a ↔ code = [] ∧ s' = (change s).2 ∧ a = (change s).1 := by
  simp [Yields, modify, eq_comm]

@[simp] theorem not_yields_stop {e : CompileError} {a : α} :
    ¬ (stop e : Lower α).Yields s code s' a := by
  simp [Yields, stop]

@[simp] theorem not_yields_fail {fault : CompileFault} {line : Line} {a : α} :
    ¬ (fail fault line : Lower α).Yields s code s' a :=
  not_yields_stop

/-- Lowering goes on behind a check that does not fail. -/
theorem yields_unless_fail {c : Prop} [Decidable c] {fault : CompileFault} {line : Line}
    {next : Unit → Lower α} {rest : Lower α} {a : α} :
    (if c then fail fault line >>= next else rest).Yields s code s' a ↔
      ¬ c ∧ rest.Yields s code s' a := by
  split <;> simp_all

/-- Lowering emits some actions, whatever the scope, and leaves the scope as it is. -/
def Emits (l : Lower Unit) (actions : List Action) : Prop :=
  ∀ s, l s = ⟨actions.map Action.instr, s, .ok ()⟩

theorem Emits.yields {l : Lower Unit} {actions : List Action} {u : Unit} (h : l.Emits actions) :
    l.Yields s code s' u ↔ code = actions.map Action.instr ∧ s' = s := by
  simp [Yields, h s, eq_comm]

theorem emits_mnemonic (name : Text) : (mnemonic name).Emits [.bare name] := fun _ => rfl

theorem emits_zero (t : ValueType) : (zero t).Emits [.const t.zeroDatum] := fun _ => rfl

theorem emits_isZero (t : ValueType) : (isZero t).Emits t.isZeroActions := by
  intro s
  unfold isZero ValueType.isZeroActions
  split <;> rfl

theorem emits_isNotZero (t : ValueType) : (isNotZero t).Emits t.isNotZeroActions := by
  intro s
  unfold isNotZero ValueType.isNotZeroActions
  split <;> rfl

theorem emits_widen (t : ValueType) : (widen t).Emits t.widenActions := by
  cases t <;> exact fun _ => rfl

theorem emits_negate (t : ValueType) : (negate t).Emits t.negateActions := by
  intro s
  unfold negate ValueType.negateActions
  split <;> rfl

theorem emits_useValue (t : ValueType) (use : Use) : (useValue t use).Emits (use.ofValue t) := by
  cases use with
  | statement => exact emits_mnemonic "drop"
  | value => exact fun _ => rfl
  | condition => exact emits_isNotZero t

theorem emits_useFlag (t : ValueType) (use : Use) : (useFlag t use).Emits (use.ofFlag t) := by
  cases use with
  | statement =>
    intro s
    unfold useFlag Use.ofFlag
    simp [bind, Lower.bind, emits_widen t s, emits_mnemonic "drop" s]
  | value => exact emits_widen t
  | condition => exact fun _ => rfl

@[simp] theorem yields_useNothing {nodeName : String} {line : Line} {use : Use} {u : Unit} :
    (useNothing nodeName line use).Yields s code s' u ↔ use = .statement ∧ code = [] ∧ s' = s := by
  cases use <;> simp [useNothing]

/-! ### Names -/

theorem Yields.of_resolve {name : Text} {cells : String} {line : Line}
    (h : (resolve name line).Yields s code s' cells) :
    s.isCell name ∧ cells = s.cells name ∧ code = [] ∧ s' = s := by
  obtain ⟨code₁, s₁, r, code₂, h₁, h₂, rfl⟩ := yields_bind.mp h
  obtain ⟨rfl, rfl, rfl⟩ := yields_scope.mp h₁
  unfold Scope.isCell Scope.cells
  split at h₂
  · rename_i hlocal
    obtain ⟨rfl, rfl, rfl⟩ := yields_pure.mp h₂
    simp [hlocal]
  · rename_i hlocal
    split at h₂
    · rename_i hglobal
      obtain ⟨rfl, rfl, rfl⟩ := yields_pure.mp h₂
      simp [hlocal, hglobal]
    · split at h₂ <;> exact absurd h₂ not_yields_fail

theorem Yields.of_load {name : Text} {line : Line} {u : Unit}
    (h : (load name line).Yields s code s' u) :
    s.isCell name ∧ code = [.named (s.cells name ++ ".get" : String) name] ∧ s' = s := by
  obtain ⟨_, _, _, _, h₁, h₂, rfl⟩ := yields_bind.mp h
  obtain ⟨hcell, rfl, rfl, rfl⟩ := h₁.of_resolve
  obtain ⟨rfl, rfl⟩ := yields_emit.mp h₂
  exact ⟨hcell, rfl, rfl⟩

theorem Yields.of_store {name : Text} {line : Line} {u : Unit}
    (h : (store name line).Yields s code s' u) :
    s.isCell name ∧ code = [.named (s.cells name ++ ".set" : String) name] ∧ s' = s := by
  obtain ⟨_, _, _, _, h₁, h₂, rfl⟩ := yields_bind.mp h
  obtain ⟨hcell, rfl, rfl, rfl⟩ := h₁.of_resolve
  obtain ⟨rfl, rfl⟩ := yields_emit.mp h₂
  exact ⟨hcell, rfl, rfl⟩

theorem Yields.of_checkName {name : String} {line : Line} {u : Unit}
    (h : (checkName name line).Yields s code s' u) :
    isAsciiName name = true ∧ code = [] ∧ s' = s := by
  unfold checkName at h
  split at h
  · rename_i hname
    obtain ⟨rfl, rfl, -⟩ := yields_pure.mp h
    exact ⟨hname, rfl, rfl⟩
  · exact absurd h not_yields_fail

theorem Yields.of_checkNames {names : List String} {line : Line} {u : Unit}
    (h : (checkNames line names).Yields s code s' u) :
    (∀ name ∈ names, isAsciiName name = true) ∧ code = [] ∧ s' = s := by
  induction names generalizing code s with
  | nil =>
    obtain ⟨rfl, rfl, -⟩ := yields_pure.mp h
    simp
  | cons name rest ih =>
    obtain ⟨_, _, _, _, h₁, h₂, rfl⟩ := yields_bind.mp h
    obtain ⟨hname, rfl, rfl⟩ := h₁.of_checkName
    obtain ⟨hrest, rfl, rfl⟩ := ih h₂
    exact ⟨List.forall_mem_cons.mpr ⟨hname, hrest⟩, rfl, rfl⟩

theorem Yields.of_declare {name : Text} {u : Unit} (h : (declare name).Yields s code s' u) :
    code = [.named (s.declaredCells ++ ".set" : String) name] ∧ s' = s.declare name := by
  obtain ⟨_, _, _, _, h₁, h₂, rfl⟩ := yields_bind.mp h
  obtain ⟨rfl, rfl, rfl⟩ := yields_modify.mp h₁
  obtain ⟨rfl, rfl⟩ := yields_emit.mp h₂
  unfold Scope.declaredCells Scope.declare
  cases s.frame <;> simp

/-! ### Literals -/

theorem Yields.of_ofConversion {r : Except ConversionError α} {a : α}
    (h : (ofConversion r).Yields s code s' a) : r = .ok a ∧ code = [] ∧ s' = s := by
  cases r with
  | error e => exact absurd h not_yields_stop
  | ok b =>
    obtain ⟨rfl, rfl, rfl⟩ := yields_pure.mp h
    exact ⟨rfl, rfl, rfl⟩

theorem Yields.of_constant {t : ValueType} {number : Datum} {line : Line} {u : Unit}
    (h : (constant t number line).Yields s code s' u) :
    ∃ d, ConstantOf t number d ∧ code = [.const d] ∧ s' = s := by
  unfold constant at h
  split at h
  · -- a floating type takes the nearest double
    rename_i hwidth
    obtain ⟨_, _, x, _, h₁, h₂, rfl⟩ := yields_bind.mp h
    obtain ⟨hx, rfl, rfl⟩ := h₁.of_ofConversion
    obtain ⟨rfl, rfl⟩ := yields_emit.mp h₂
    exact ⟨_, .real hwidth hx, rfl, rfl⟩
  · rename_i width hwidth
    -- a number that is not whole is refused ahead of the range check
    have hrest : (do
        let n ← ofConversion number.toInteger
        if wrap width n = n then emit (.const (.int n)) else fail (.literalOutOfRange n t) line :
          Lower Unit).Yields s code s' u := by
      split at h
      · dsimp only at h
        split at h
        · exact h
        · simp at h
      · exact h
    obtain ⟨_, _, n, _, h₁, h₂, rfl⟩ := yields_bind.mp hrest
    obtain ⟨hn, rfl, rfl⟩ := h₁.of_ofConversion
    split at h₂
    · rename_i hwrap
      obtain ⟨rfl, rfl⟩ := yields_emit.mp h₂
      exact ⟨_, .int hwidth hn hwrap, rfl, rfl⟩
    · exact absurd h₂ not_yields_fail

theorem Yields.of_address {literal : Datum} {u : Unit} (h : (address literal).Yields s code s' u) :
    ∃ text : String, literal = .text text ∧ s' = s.addData (utf8 text) ∧
      code = [.plain "i32.const" (.int (s.module.addData (utf8 text)).1)] := by
  unfold address at h
  split at h
  · rename_i text
    -- a text with a lone surrogate has no bytes
    cases text with
    | broken => exact absurd h not_yields_stop
    | plain text =>
      obtain ⟨_, _, _, _, h₁, h₂, rfl⟩ := yields_bind.mp h
      obtain ⟨rfl, rfl, rfl⟩ := yields_modify.mp h₁
      obtain ⟨rfl, rfl⟩ := yields_emit.mp h₂
      exact ⟨text, rfl, rfl, rfl⟩
  · exact absurd h not_yields_stop

/-! ### Functions and calls -/

theorem Yields.of_checkCall {callee : Expr} {count : Nat} {line : Line} {called : Text}
    (h : (checkCall callee count line).Yields s code s' called) :
    ∃ name line', called = .plain name ∧ callee = .get name line' ∧ s.arity? name = some count ∧
      code = [] ∧ s' = s := by
  unfold checkCall at h
  split at h
  · rename_i name line'
    obtain ⟨_, _, _, _, h₁, h₂, rfl⟩ := yields_bind.mp h
    obtain ⟨rfl, rfl, rfl⟩ := yields_scope.mp h₁
    split at h₂
    · rename_i arity harity
      split at h₂
      · rename_i hcount
        obtain ⟨rfl, rfl, rfl⟩ := yields_pure.mp h₂
        exact ⟨name, line', rfl, rfl, by rw [harity, hcount], rfl, rfl⟩
      · exact absurd h₂ not_yields_fail
    · split at h₂ <;> exact absurd h₂ not_yields_fail
  · exact absurd h not_yields_fail

/-- The conditions under which a function can be defined in a scope. -/
structure Definable (options : Options) (s : Scope) (name : String) (params : List String) : Prop where
  topLevel : s.frame = none
  ascii : ∀ x ∈ name :: params, isAsciiName x = true
  ne_log : name ≠ logFunction
  ne_entry : name ≠ options.entry.functionName
  unknown : s.arity? name = none
  nodup : params.Nodup

theorem Yields.of_checkFunction {options : Options} {name : String} {params : List String}
    {line : Line} {u : Unit} (h : (checkFunction options name params line).Yields s code s' u) :
    Definable options s name params ∧ code = [] ∧ s' = s.addSignature name params.length := by
  unfold checkFunction at h
  obtain ⟨_, _, _, _, h₁, h₂, rfl⟩ := yields_bind.mp h
  obtain ⟨rfl, rfl, rfl⟩ := yields_scope.mp h₁
  dsimp only at h₂
  split at h₂
  · simp at h₂
  · rename_i hframe
    obtain ⟨_, _, _, _, h₃, h₄, rfl⟩ := yields_bind.mp h₂
    obtain ⟨hascii, rfl, rfl⟩ := h₃.of_checkNames
    rw [yields_unless_fail, yields_unless_fail, yields_unless_fail] at h₄
    obtain ⟨hreserved, hunknown, hnodup, h₅⟩ := h₄
    obtain ⟨rfl, rfl, -⟩ := yields_modify.mp h₅
    simp only [Bool.or_eq_true, decide_eq_true_eq, not_or] at hreserved
    refine ⟨⟨?_, hascii, hreserved.1, hreserved.2, by simpa using hunknown, by simpa using hnodup⟩,
      rfl, rfl⟩
    exact Option.eq_none_iff_forall_ne_some.mpr hframe

/-- A function is compiled as its body is lowered in its own scope. -/
theorem withFrame_congr {frame : Frame} {result : Option ValueType} {body body' : Lower Unit}
    (h : body (s.enter frame) = body' (s.enter frame)) :
    withFrame frame result body s = withFrame frame result body' s := by
  simp only [withFrame, h]

theorem yields_withFrame {frame : Frame} {result : Option ValueType} {body : Lower Unit}
    {u : Unit} :
    (withFrame frame result body).Yields s code s' u ↔
      ∃ inner final, body.Yields (s.enter frame) inner final () ∧ code = [] ∧
        s' = final.leave ((final.contexts.headD frame).function result inner) := by
  simp only [Yields, withFrame]
  constructor
  · intro h
    split at h
    · simp at h
    · rename_i hok
      simp only [Emission.mk.injEq] at h
      exact ⟨_, _, yields_of_result_eq_ok hok, h.1.symm, h.2.1.symm⟩
  · rintro ⟨inner, final, hbody, rfl, rfl⟩
    rw [hbody]

end Lower

/-! ### The rules -/

/-- A part of a program as it is lowered. -/
inductive Part where
  | node (use : Use) (e : Expr)
  | statements (keepLast : Bool) (list : List Expr)
  | arguments (list : List Expr)

open Code (acts)

/-- The rules of lowering: in a scope a part becomes some code, with the scope after it. -/
inductive Compiles (options : Options) : Scope → Part → Code → Scope → Prop
  | block {s s' : Scope} {body : List Expr} {line : Line} {c : Code} :
      Compiles options s (.statements false body) c s' →
      Compiles options s (.node .statement (.block body line)) c s'
  | binary {s s₁ s₂ : Scope} {use : Use} {left right : Expr} {op : BinaryOp} {line : Line}
      {c d : Code} :
      Compiles options s (.node .value left) c s₁ → Compiles options s₁ (.node .value right) d s₂ →
      Compiles options s (.node use (.binary left op right line))
        (c ++ d ++ acts (.bare (op.mnemonic options.valueType) ::
          if op.isComparison then use.ofFlag options.valueType
          else use.ofValue options.valueType)) s₂
  | negate {s s' : Scope} {use : Use} {operand : Expr} {line : Line} {c : Code} :
      Compiles options s (.node .value operand) c s' →
      Compiles options s (.node use (.unary .negate operand line))
        (c ++ acts (options.valueType.negateActions ++ use.ofValue options.valueType)) s'
  | not {s s' : Scope} {use : Use} {operand : Expr} {line : Line} {c : Code} :
      Compiles options s (.node .value operand) c s' →
      Compiles options s (.node use (.unary .not operand line))
        (c ++ acts (options.valueType.isZeroActions ++ use.ofFlag options.valueType)) s'
  | declare {s s' : Scope} {name : String} {value : Expr} {line : Line} {c : Code} :
      isAsciiName name = true → Compiles options s (.node .value value) c s' →
      Compiles options s (.node .statement (.declare name value line))
        (c ++ acts [.named (s'.declaredCells ++ ".set" : String) name]) (s'.declare name)
  | get {s : Scope} {use : Use} {name : String} {line : Line} :
      s.isCell name →
      Compiles options s (.node use (.get name line))
        (acts (.named (s.cells name ++ ".get" : String) name :: use.ofValue options.valueType)) s
  | assign {s s' : Scope} {name : String} {value : Expr} {line : Line} {c : Code} :
      Compiles options s (.node .value value) c s' → s'.isCell name →
      Compiles options s (.node .statement (.assign name value line))
        (c ++ acts [.named (s'.cells name ++ ".set" : String) name]) s'
  | assignValue {s s' : Scope} {use : Use} {name : String} {value : Expr} {line : Line} {c : Code} :
      use ≠ .statement → Compiles options s (.node .value value) c s' → s'.isCell name →
      Compiles options s (.node use (.assign name value line))
        (c ++ acts (.named (s'.cells name ++ ".set" : String) name ::
          .named (s'.cells name ++ ".get" : String) name :: use.ofValue options.valueType)) s'
  | print {s s' : Scope} {value : Expr} {line : Line} {c : Code} :
      Compiles options s (.node .value value) c s' →
      Compiles options s (.node .statement (.print value line)) (c ++ acts [.call logFunction]) s'
  | ifThen {s s₁ s₂ : Scope} {condition thenBranch : Expr} {line : Line} {c d : Code} :
      Compiles options s (.node .condition condition) c s₁ →
      Compiles options s₁ (.node .statement thenBranch) d s₂ →
      Compiles options s (.node .statement (.ifElse condition thenBranch none line))
        (c ++ .ifElse d .done .done) s₂
  | ifElse {s s₁ s₂ s₃ : Scope} {condition thenBranch elseBranch : Expr} {line : Line}
      {c d e : Code} :
      Compiles options s (.node .condition condition) c s₁ →
      Compiles options s₁ (.node .statement thenBranch) d s₂ →
      Compiles options s₂ (.node .statement elseBranch) e s₃ →
      Compiles options s (.node .statement (.ifElse condition thenBranch (some elseBranch) line))
        (c ++ .ifElse d e .done) s₃
  | function {s inner : Scope} {name : String} {params : List String} {body : List Expr}
      {line : Line} {c : Code} :
      Lower.Definable options s name params →
      Compiles options ((s.addSignature name params.length).enter (.ofDefinition name params))
        (.statements true body) c inner →
      Compiles options s (.node .statement (.function name params body line)) .done
        (inner.leave ((inner.contexts.headD (.ofDefinition name params)).function
          (some options.valueType) c.flatten))
  | call {s s' : Scope} {use : Use} {name : String} {args : List Expr} {line line' : Line}
      {c : Code} :
      s.arity? name = some args.length → Compiles options s (.arguments args) c s' →
      Compiles options s (.node use (.call (.get name line') args line))
        (c ++ acts (.call name :: use.ofValue options.valueType)) s'
  | number {s : Scope} {use : Use} {kind : LiteralKind} {value number d : Datum} {line : Line} :
      (kind = .number ∧ number = value ∨ kind = .true ∧ number = .int 1 ∨
        kind = .false ∧ number = .int 0) →
      ConstantOf options.valueType number d →
      Compiles options s (.node use (.literal kind value line))
        (acts (.const d :: use.ofValue options.valueType)) s
  | string {s : Scope} {use : Use} {text : String} {line : Line} :
      Compiles options s (.node use (.literal .string (.text text) line))
        (acts (.plain "i32.const" (.int (s.module.addData (utf8 text)).1) ::
          options.valueType.widenActions ++ use.ofValue options.valueType)) (s.addData (utf8 text))
  | done {s : Scope} : Compiles options s (.statements false []) .done s
  | zero {s : Scope} :
      Compiles options s (.statements true []) (acts [.const options.valueType.zeroDatum]) s
  | last {s s' : Scope} {e : Expr} {c : Code} :
      e.yieldsValue = true → Compiles options s (.node .value e) c s' →
      Compiles options s (.statements true [e]) c s'
  | next {s s₁ s₂ : Scope} {keepLast : Bool} {e : Expr} {rest : List Expr} {c d : Code} :
      (keepLast && rest.isEmpty && e.yieldsValue) = false →
      Compiles options s (.node .statement e) c s₁ →
      Compiles options s₁ (.statements keepLast rest) d s₂ →
      Compiles options s (.statements keepLast (e :: rest)) (c ++ d) s₂
  | noArguments {s : Scope} : Compiles options s (.arguments []) .done s
  | argument {s s₁ s₂ : Scope} {e : Expr} {rest : List Expr} {c d : Code} :
      Compiles options s (.node .value e) c s₁ → Compiles options s₁ (.arguments rest) d s₂ →
      Compiles options s (.arguments (e :: rest)) (c ++ d) s₂

/-- Lowering a part of a program. -/
def Part.lower (options : Options) : Part → Lower Unit
  | node use e => StackScript.lower options use e
  | statements keepLast list => lowerAll options keepLast list
  | arguments list => lowerArguments options list

/-- Whenever lowering a part succeeds, its code and its scope follow the rules. -/
def Part.FollowsRules (options : Options) (p : Part) : Prop :=
  ∀ ⦃s s' : Scope⦄ ⦃code : List Instr⦄ ⦃u : Unit⦄, (p.lower options).Yields s code s' u →
    ∃ c : Code, c.flatten = code ∧ Compiles options s p c s'

open Lower in
mutual

theorem lower_followsRules (options : Options) :
    ∀ (use : Use) (e : Expr), (Part.node use e).FollowsRules options
  | use, .block body line => by
    intro s s' code u h
    simp only [Part.lower, lower, yields_bind] at h
    obtain ⟨_, _, _, _, h₁, h₂, rfl⟩ := h
    obtain ⟨c, rfl, hc⟩ := lowerAll_followsRules options false body h₁
    obtain ⟨rfl, rfl, rfl⟩ := yields_useNothing.mp h₂
    exact ⟨c, by simp, .block hc⟩
  | use, .binary left op right line => by
    intro s s' code u h
    simp only [Part.lower, lower, yields_bind] at h
    obtain ⟨_, _, _, _, h₁, ⟨_, _, _, _, h₂, ⟨_, _, _, _, h₃, h₄, rfl⟩, rfl⟩, rfl⟩ := h
    obtain ⟨c, rfl, hc⟩ := lower_followsRules options .value left h₁
    obtain ⟨d, rfl, hd⟩ := lower_followsRules options .value right h₂
    obtain ⟨rfl, rfl⟩ := (emits_mnemonic _).yields.mp h₃
    have hcode : Compiles options s (.node use (.binary left op right line)) _ _ := .binary hc hd
    split at h₄
    · rename_i hop
      obtain ⟨rfl, rfl⟩ := (emits_useFlag _ _).yields.mp h₄
      exact ⟨_, by simp [hop], hcode⟩
    · rename_i hop
      obtain ⟨rfl, rfl⟩ := (emits_useValue _ _).yields.mp h₄
      exact ⟨_, by simp [hop], hcode⟩
  | use, .unary .negate operand line => by
    intro s s' code u h
    simp only [Part.lower, lower, yields_bind] at h
    obtain ⟨_, _, _, _, h₁, ⟨_, _, _, _, h₂, h₃, rfl⟩, rfl⟩ := h
    obtain ⟨c, rfl, hc⟩ := lower_followsRules options .value operand h₁
    obtain ⟨rfl, rfl⟩ := (emits_negate _).yields.mp h₂
    obtain ⟨rfl, rfl⟩ := (emits_useValue _ _).yields.mp h₃
    exact ⟨_, by simp, .negate hc⟩
  | use, .unary .not operand line => by
    intro s s' code u h
    simp only [Part.lower, lower, yields_bind] at h
    obtain ⟨_, _, _, _, h₁, ⟨_, _, _, _, h₂, h₃, rfl⟩, rfl⟩ := h
    obtain ⟨c, rfl, hc⟩ := lower_followsRules options .value operand h₁
    obtain ⟨rfl, rfl⟩ := (emits_isZero _).yields.mp h₂
    obtain ⟨rfl, rfl⟩ := (emits_useFlag _ _).yields.mp h₃
    exact ⟨_, by simp, .not hc⟩
  | use, .declare name value line => by
    intro s s' code u h
    simp only [Part.lower, lower, yields_bind] at h
    obtain ⟨_, _, _, _, h₁, ⟨_, _, _, _, h₂, ⟨_, _, _, _, h₃, h₄, rfl⟩, rfl⟩, rfl⟩ := h
    obtain ⟨hname, rfl, rfl⟩ := h₁.of_checkName
    obtain ⟨c, rfl, hc⟩ := lower_followsRules options .value value h₂
    obtain ⟨rfl, rfl⟩ := h₃.of_declare
    obtain ⟨rfl, rfl, rfl⟩ := yields_useNothing.mp h₄
    exact ⟨_, by simp, .declare hname hc⟩
  | use, .get name line => by
    intro s s' code u h
    simp only [Part.lower, lower, yields_bind] at h
    obtain ⟨_, _, _, _, h₁, h₂, rfl⟩ := h
    obtain ⟨hcell, rfl, rfl⟩ := h₁.of_load
    obtain ⟨rfl, rfl⟩ := (emits_useValue _ _).yields.mp h₂
    exact ⟨_, by simp, .get hcell⟩
  | use, .assign name value line => by
    intro s s' code u h
    simp only [Part.lower, lower, yields_bind] at h
    obtain ⟨_, _, _, _, h₁, ⟨_, _, _, _, h₂, h₃, rfl⟩, rfl⟩ := h
    obtain ⟨c, rfl, hc⟩ := lower_followsRules options .value value h₁
    obtain ⟨hcell, rfl, rfl⟩ := h₂.of_store
    cases use with
    | statement =>
      obtain ⟨rfl, rfl, -⟩ := yields_pure.mp h₃
      exact ⟨_, by simp, .assign hc hcell⟩
    | value =>
      obtain ⟨-, rfl, rfl⟩ := h₃.of_load
      exact ⟨_, by simp [Use.ofValue], .assignValue (by decide) hc hcell⟩
    | condition =>
      obtain ⟨_, _, _, _, h₄, h₅, rfl⟩ := yields_bind.mp h₃
      obtain ⟨-, rfl, rfl⟩ := h₄.of_load
      obtain ⟨rfl, rfl⟩ := (emits_isNotZero _).yields.mp h₅
      exact ⟨_, by simp [Use.ofValue], .assignValue (by decide) hc hcell⟩
  | use, .print value line => by
    intro s s' code u h
    simp only [Part.lower, lower, yields_bind] at h
    obtain ⟨_, _, _, _, h₁, ⟨_, _, _, _, h₂, h₃, rfl⟩, rfl⟩ := h
    obtain ⟨c, rfl, hc⟩ := lower_followsRules options .value value h₁
    obtain ⟨rfl, rfl⟩ := yields_emit.mp h₂
    obtain ⟨rfl, rfl, rfl⟩ := yields_useNothing.mp h₃
    exact ⟨_, by simp [Action.instr], .print hc⟩
  | use, .ifElse condition thenBranch none line => by
    intro s s' code u h
    simp only [Part.lower, lower, yields_bind] at h
    obtain ⟨_, _, _, _, h₁, ⟨_, _, _, _, h₂, ⟨_, _, _, _, h₃, ⟨_, _, _, _, h₄,
      ⟨_, _, _, _, h₅, h₆, rfl⟩, rfl⟩, rfl⟩, rfl⟩, rfl⟩ := h
    obtain ⟨c, rfl, hc⟩ := lower_followsRules options .condition condition h₁
    obtain ⟨rfl, rfl⟩ := yields_emit.mp h₂
    obtain ⟨d, rfl, hd⟩ := lower_followsRules options .statement thenBranch h₃
    obtain ⟨rfl, rfl⟩ := yields_emit.mp h₄
    obtain ⟨rfl, rfl⟩ := yields_emit.mp h₅
    obtain ⟨rfl, rfl, rfl⟩ := yields_useNothing.mp h₆
    exact ⟨_, by simp [Code.flatten], .ifThen hc hd⟩
  | use, .ifElse condition thenBranch (some elseBranch) line => by
    intro s s' code u h
    simp only [Part.lower, lower, yields_bind] at h
    obtain ⟨_, _, _, _, h₁, ⟨_, _, _, _, h₂, ⟨_, _, _, _, h₃, ⟨_, _, _, _, h₄,
      ⟨_, _, _, _, h₅, ⟨_, _, _, _, h₆, h₇, rfl⟩, rfl⟩, rfl⟩, rfl⟩, rfl⟩, rfl⟩ := h
    obtain ⟨c, rfl, hc⟩ := lower_followsRules options .condition condition h₁
    obtain ⟨rfl, rfl⟩ := yields_emit.mp h₂
    obtain ⟨d, rfl, hd⟩ := lower_followsRules options .statement thenBranch h₃
    obtain ⟨rfl, rfl⟩ := yields_emit.mp h₄
    obtain ⟨e, rfl, he⟩ := lower_followsRules options .statement elseBranch h₅
    obtain ⟨rfl, rfl⟩ := yields_emit.mp h₆
    obtain ⟨rfl, rfl, rfl⟩ := yields_useNothing.mp h₇
    exact ⟨_, by simp [Code.flatten], .ifElse hc hd he⟩
  | use, .function name params body line => by
    intro s s' code u h
    simp only [Part.lower, lower, yields_bind] at h
    obtain ⟨_, _, _, _, h₁, ⟨_, _, _, _, h₂, h₃, rfl⟩, rfl⟩ := h
    obtain ⟨hdef, rfl, rfl⟩ := h₁.of_checkFunction
    obtain ⟨_, final, hbody, rfl, rfl⟩ := yields_withFrame.mp h₂
    obtain ⟨c, rfl, hc⟩ := lowerAll_followsRules options true body hbody
    obtain ⟨rfl, rfl, rfl⟩ := yields_useNothing.mp h₃
    exact ⟨.done, rfl, .function hdef hc⟩
  | use, .call callee args line => by
    intro s s' code u h
    simp only [Part.lower, lower, yields_bind] at h
    obtain ⟨_, _, _, _, h₁, ⟨_, _, _, _, h₂, ⟨_, _, _, _, h₃, h₄, rfl⟩, rfl⟩, rfl⟩ := h
    obtain ⟨name, line', rfl, rfl, harity, rfl, rfl⟩ := h₁.of_checkCall
    obtain ⟨c, rfl, hc⟩ := lowerArguments_followsRules options args h₂
    obtain ⟨rfl, rfl⟩ := yields_emit.mp h₃
    obtain ⟨rfl, rfl⟩ := (emits_useValue _ _).yields.mp h₄
    exact ⟨_, by simp [Action.instr], .call harity hc⟩
  | use, .literal kind value line => by
    intro s s' code u h
    -- the three kinds that are numbers differ only in the number
    have hnumber (number : Datum) (hkind : kind = .number ∧ number = value ∨
        kind = .true ∧ number = .int 1 ∨ kind = .false ∧ number = .int 0)
        (h : (do constant options.valueType number line; useValue options.valueType use :
          Lower Unit).Yields s code s' u) :
        ∃ c : Code, c.flatten = code ∧
          Compiles options s (.node use (.literal kind value line)) c s' := by
      obtain ⟨_, _, _, _, h₁, h₂, rfl⟩ := yields_bind.mp h
      obtain ⟨d, hd, rfl, rfl⟩ := h₁.of_constant
      obtain ⟨rfl, rfl⟩ := (emits_useValue _ _).yields.mp h₂
      exact ⟨_, by simp [Action.instr], .number hkind hd⟩
    simp only [Part.lower, lower] at h
    cases kind with
    | number => exact hnumber value (.inl ⟨rfl, rfl⟩) h
    | true => exact hnumber (.int 1) (.inr (.inl ⟨rfl, rfl⟩)) h
    | false => exact hnumber (.int 0) (.inr (.inr ⟨rfl, rfl⟩)) h
    | string =>
      simp only [yields_bind] at h
      obtain ⟨_, _, _, _, h₁, ⟨_, _, _, _, h₂, h₃, rfl⟩, rfl⟩ := h
      obtain ⟨text, rfl, rfl, rfl⟩ := h₁.of_address
      obtain ⟨rfl, rfl⟩ := (emits_widen _).yields.mp h₂
      obtain ⟨rfl, rfl⟩ := (emits_useValue _ _).yields.mp h₃
      exact ⟨_, by simp [Action.instr], .string⟩

theorem lowerAll_followsRules (options : Options) :
    ∀ (keepLast : Bool) (list : List Expr), (Part.statements keepLast list).FollowsRules options
  | keepLast, [] => by
    intro s s' code u h
    cases keepLast with
    | false =>
      obtain ⟨rfl, rfl, -⟩ := yields_pure.mp h
      exact ⟨.done, rfl, .done⟩
    | true =>
      obtain ⟨rfl, rfl⟩ := (emits_zero _).yields.mp h
      exact ⟨_, by simp, .zero⟩
  | keepLast, e :: rest => by
    intro s s' code u h
    simp only [Part.lower, lowerAll] at h
    split at h
    · -- the last statement of a function has a value, and it is kept
      rename_i hlast
      simp only [Bool.and_eq_true, List.isEmpty_iff] at hlast
      obtain ⟨⟨rfl, rfl⟩, hvalue⟩ := hlast
      obtain ⟨c, rfl, hc⟩ := lower_followsRules options .value e h
      exact ⟨c, rfl, .last hvalue hc⟩
    · rename_i hlast
      obtain ⟨_, _, _, _, h₁, h₂, rfl⟩ := yields_bind.mp h
      obtain ⟨c, rfl, hc⟩ := lower_followsRules options .statement e h₁
      obtain ⟨d, rfl, hd⟩ := lowerAll_followsRules options keepLast rest h₂
      exact ⟨c ++ d, by simp, .next (by simpa using hlast) hc hd⟩

theorem lowerArguments_followsRules (options : Options) :
    ∀ list : List Expr, (Part.arguments list).FollowsRules options
  | [] => by
    intro s s' code u h
    obtain ⟨rfl, rfl, -⟩ := yields_pure.mp h
    exact ⟨.done, rfl, .noArguments⟩
  | e :: rest => by
    intro s s' code u h
    simp only [Part.lower, lowerArguments, yields_bind] at h
    obtain ⟨_, _, _, _, h₁, h₂, rfl⟩ := h
    obtain ⟨c, rfl, hc⟩ := lower_followsRules options .value e h₁
    obtain ⟨d, rfl, hd⟩ := lowerArguments_followsRules options rest h₂
    exact ⟨c ++ d, by simp, .argument hc hd⟩

end

/-- The function that runs top-level code. -/
def Options.entryFunction (options : Options) (code : List Instr) : Func where
  name := options.entry.functionName
  result := if options.entry.returnsValue then some options.valueType else none
  body := code

/-- The scope that top-level code starts in. -/
def Options.startScope (options : Options) : Scope :=
  Scope.enter { module := options.emptyModule } options.entryFrame

/-- What lowering the top level yields makes the module. -/
theorem generate_eq_ok_iff {options : Options} {program : Program} {m : Module} :
    (generate options program).result = .ok m ↔ ∃ code final,
      (lowerAll options options.entry.returnsValue program).Yields options.startScope code final
        () ∧
      m = final.module.addFunction
        ((final.contexts.headD options.entryFrame).function options.entryResult code) := by
  unfold generate
  dsimp only
  constructor
  · intro h
    split at h
    · rename_i hok
      obtain ⟨code, final, hbody, -, hfinal⟩ :=
        Lower.yields_withFrame.mp (Lower.yields_of_result_eq_ok hok)
      rw [hfinal] at h
      exact ⟨code, final, hbody, (Except.ok.inj h).symm⟩
    · cases h
  · rintro ⟨code, final, hbody, rfl⟩
    rw [Lower.yields_withFrame (u := ()) |>.mpr ⟨code, final, hbody, rfl, rfl⟩]
    rfl

/-- A program fails as lowering its top level does. -/
theorem generate_eq_error_iff {options : Options} {program : Program} {error : CompileError} :
    (generate options program).result = .error error ↔ ∃ stopped,
      (lowerAll options options.entry.returnsValue program options.startScope).result =
        .error stopped ∧ stopped.error = error := by
  unfold generate Lower.withFrame
  dsimp only
  change _ ↔ ∃ stopped, (lowerAll options options.entry.returnsValue program
    (Scope.enter { module := options.emptyModule } options.entryFrame)).result = _ ∧ _
  cases (lowerAll options options.entry.returnsValue program
    (Scope.enter { module := options.emptyModule } options.entryFrame)).result with
  | ok => simp
  | error stopped => simp

/-- The module of a program: its top-level code follows the rules, and it becomes the last function.
-/
theorem exists_compiles_of_generate {options : Options} {program : Program} {m : Module}
    (h : (generate options program).result = .ok m) :
    ∃ (c : Code) (s : Scope),
      Compiles options options.startScope (.statements options.entry.returnsValue program) c s ∧
      m = s.module.addFunction
        ((s.contexts.headD options.entryFrame).function options.entryResult c.flatten) := by
  obtain ⟨code, final, hyields, rfl⟩ := generate_eq_ok_iff.mp h
  obtain ⟨c, rfl, hc⟩ := lowerAll_followsRules options _ program hyields
  exact ⟨c, final, hc, rfl⟩

end StackScript
