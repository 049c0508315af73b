import StackScript.Proofs.CodePieces
import StackScript.Proofs.LoweringScope
import StackScript.Proofs.NamedCells

/-!
# Code does what its program means

The code of a part of a program, run in an activation, does what the evaluation of that part does in
a world that the activation mirrors: it leaves the value that its use asks for, changes the same
cells and logs the same values, or traps in the same way.

The proof is by induction over the rules of lowering. That the functions which the part calls do the
same on both sides is assumed here.

## Main definitions

* `World.MirroredBy`, `World.HeldIn`: an activation, a store mirrors a world.
* `Effect.Agrees`: two outcomes are the same.
* `Link`, `Link.Sound`: what the two sides share, and what is assumed of it.
* `Link.Simulates`: code does what an evaluation does, in states that mirror each other.

## Main results

* `Compiles.simulated`: compiled code does what its part means.
-/

namespace StackScript

open Code (acts)

/-! ### States that correspond -/

/-- A store mirrors a world: it holds the globals of some names and what has been logged. -/
structure World.HeldIn (w : World) (t : ValueType) (globals : List Text) (store : Store) :
    Prop where
  globals_eq : store.globals = .ofNames globals w.globals
  logged_eq : store.logged = w.logged
  type_globals : ∀ name, (w.globals name).type = t

/-- The cells and the store of an activation mirror a world. -/
structure World.MirroredBy (w : World) (t : ValueType) (globals locals : List Text)
    (a : Activation) : Prop where
  held : w.HeldIn t globals a.store
  locals_eq : a.locals = .ofNames locals w.locals
  type_locals : ∀ name, (w.locals name).type = t

namespace World.MirroredBy

variable {w : World} {t : ValueType} {globals locals : List Text} {a : Activation} {name : Text}

/-- The operand stack does not matter. -/
theorem withStack (h : w.MirroredBy t globals locals a) (st : List Value) :
    w.MirroredBy t globals locals ⟨st, a.locals, a.store⟩ :=
  ⟨h.held, h.locals_eq, h.type_locals⟩

/-- The value of a cell on both sides. -/
theorem lookup_eq (h : w.MirroredBy t globals locals a) (inFunction : Bool)
    (hname : name ∈ if inFunction then locals else globals) :
    (a.cells inFunction).lookup name =
      some (if inFunction then w.locals name else w.globals name) := by
  cases inFunction with
  | true => exact (congrArg (List.lookup name) h.locals_eq).trans (Cells.lookup_ofNames hname)
  | false =>
    exact (congrArg (List.lookup name) h.held.globals_eq).trans (Cells.lookup_ofNames hname)

theorem type_cell (h : w.MirroredBy t globals locals a) (inFunction : Bool) (name : Text) :
    (if inFunction then w.locals name else w.globals name).type = t := by
  cases inFunction with
  | true => exact h.type_locals name
  | false => exact h.held.type_globals name

end World.MirroredBy

/-- A world after a cell has been set. -/
def World.setCell (w : World) (inFunction : Bool) (name : Text) (v : Value) : World :=
  if inFunction then { w with locals := Function.update w.locals name v }
  else { w with globals := Function.update w.globals name v }

theorem World.MirroredBy.setCell {w : World} {t : ValueType} {globals locals : List Text}
    {a : Activation} (h : w.MirroredBy t globals locals a) (hglobals : globals.Nodup)
    (hlocals : locals.Nodup) (inFunction : Bool) {name : Text}
    (hname : name ∈ if inFunction then locals else globals) {v : Value} (hv : v.type = t) :
    (w.setCell inFunction name v).MirroredBy t globals locals (a.setCell inFunction name v) := by
  cases inFunction with
  | true =>
    refine ⟨⟨h.held.globals_eq, h.held.logged_eq, h.held.type_globals⟩, ?_,
      type_update h.type_locals name hv⟩
    exact (congrArg (Cells.set name v) h.locals_eq).trans (Cells.set_ofNames hlocals hname v)
  | false =>
    refine ⟨⟨?_, h.held.logged_eq, type_update h.held.type_globals name hv⟩, h.locals_eq,
      h.type_locals⟩
    exact (congrArg (Cells.set name v) h.held.globals_eq).trans (Cells.set_ofNames hglobals hname v)

/-! ### Outcomes that agree -/

namespace Effect

variable {σ τ α β α' β' : Type}

/-- Two outcomes agree: both are results in states that correspond, or both are the same trap. -/
def Agrees (stopped : σ → τ → Prop) (finished : α → σ → β → τ → Prop) :
    Effect σ α → Effect τ β → Prop
  | (.ok a, s), (.ok b, s') => finished a s b s'
  | (.error trap, s), (.error trap', s') => trap = trap' ∧ stopped s s'
  | _, _ => False

variable {stopped : σ → τ → Prop} {finished : α → σ → β → τ → Prop}
  {finished' : α' → σ → β' → τ → Prop}

/-- Outcomes that agree are the same trap, or results in states that correspond. -/
theorem Agrees.cases {e : Effect σ α} {e' : Effect τ β} (h : e.Agrees stopped finished e') :
    (∃ trap s s', e = (.error trap, s) ∧ e' = (.error trap, s') ∧ stopped s s') ∨
      ∃ a s b s', e = (.ok a, s) ∧ e' = (.ok b, s') ∧ finished a s b s' := by
  obtain ⟨trap | a, s⟩ := e <;> obtain ⟨trap' | b, s'⟩ := e'
  · obtain ⟨rfl, hstopped⟩ := h
    exact .inl ⟨trap, s, s', rfl, rfl, hstopped⟩
  · exact h.elim
  · exact h.elim
  · exact .inr ⟨a, s, b, s', rfl, rfl, h⟩

theorem Agrees.andThen {e : Effect σ α} {e' : Effect τ β} (h : e.Agrees stopped finished e')
    {next : α → σ → Effect σ α'} {next' : β → τ → Effect τ β'}
    (hnext : ∀ a s b s', finished a s b s' → (next a s).Agrees stopped finished' (next' b s')) :
    (e.andThen next).Agrees stopped finished' (e'.andThen next') := by
  rcases h.cases with ⟨trap, s, s', rfl, rfl, hstopped⟩ | ⟨a, s, b, s', rfl, rfl, hfinished⟩
  · exact ⟨rfl, hstopped⟩
  · exact hnext a s b s' hfinished

/-- Only the evaluation goes on, and does not trap. -/
theorem Agrees.andThen_right {e : Effect σ α} {e' : Effect τ β} (h : e.Agrees stopped finished e')
    {finished' : α → σ → β' → τ → Prop} {next' : β → τ → Effect τ β'}
    (hnext : ∀ a s b s', finished a s b s' → Agrees stopped finished' (.ok a, s) (next' b s')) :
    e.Agrees stopped finished' (e'.andThen next') := by
  rcases h.cases with ⟨trap, s, s', rfl, rfl, hstopped⟩ | ⟨a, s, b, s', rfl, rfl, hfinished⟩
  · exact ⟨rfl, hstopped⟩
  · exact hnext a s b s' hfinished

/-- Only the machine goes on. -/
theorem Agrees.andThen_left {e : Effect σ α} {e' : Effect τ β} (h : e.Agrees stopped finished e')
    {finished' : α' → σ → β → τ → Prop} {next : α → σ → Effect σ α'}
    (hnext : ∀ a s b s', finished a s b s' → Agrees stopped finished' (next a s) (.ok b, s')) :
    (e.andThen next).Agrees stopped finished' e' := by
  rcases h.cases with ⟨trap, s, s', rfl, rfl, hstopped⟩ | ⟨a, s, b, s', rfl, rfl, hfinished⟩
  · exact ⟨rfl, hstopped⟩
  · exact hnext a s b s' hfinished

/-- What is known of every result of the evaluation. -/
theorem Agrees.and_right {e : Effect σ α} {e' : Effect τ β} (h : e.Agrees stopped finished e')
    {known : β → Prop} (hknown : ∀ b s', e' = (.ok b, s') → known b) :
    e.Agrees stopped (fun a s b s' => finished a s b s' ∧ known b) e' := by
  rcases h.cases with ⟨trap, s, s', rfl, rfl, hstopped⟩ | ⟨a, s, b, s', rfl, rfl, hfinished⟩
  · exact ⟨rfl, hstopped⟩
  · exact ⟨hfinished, hknown b s' rfl⟩

end Effect

/-! ### The two sides -/

/-- The two sides of a simulation: a machine and an evaluation, the names of the globals, and the
scope in which the whole program has been compiled. -/
structure Link where
  options : Options
  inst : Instance
  callee : Callee
  call : Procedure
  /-- The addresses of string literals. -/
  address : Bytes → Nat
  globals : List Text
  final : Scope

namespace Link

variable (link : Link)

/-- The setting of the evaluation. -/
def setting : Setting where
  type := link.options.valueType
  host := link.inst.host
  address := link.address

/-- An activation mirrors a world. -/
def Mirrors (locals : List Text) (a : Activation) (w : World) : Prop :=
  w.MirroredBy link.options.valueType link.globals locals a

/-- The store of an activation mirrors a world. -/
def Holds (a : Activation) (w : World) : Prop :=
  w.HeldIn link.options.valueType link.globals a.store

/-- A function of the module, called with arguments of the type, does what the function of that name
does in the evaluation. -/
def CallsAgree (name : Text) (f : Func) : Prop :=
  ∀ (args : List Value) (store : Store) (w : World), args.length = f.arity →
    (∀ v ∈ args, v.type = link.options.valueType) →
    w.HeldIn link.options.valueType link.globals store →
    Effect.Agrees (fun store' w' => w'.HeldIn link.options.valueType link.globals store')
      (fun result store' v w' => result = some v ∧ v.type = link.options.valueType ∧
        w'.HeldIn link.options.valueType link.globals store' ∧ w'.locals = w.locals)
      (link.callee f args store) (link.call name args w)

/-- What is assumed of the two sides. -/
structure Sound : Prop where
  valueType_eq : link.inst.module.valueType = link.options.valueType
  nodup_globals : link.globals.Nodup
  mem_globals : ∀ {name : Text}, link.final.isGlobal name = true → name ∈ link.globals
  address_eq : ∀ {text : Bytes} {segment : Segment},
    link.final.module.data.find? (fun segment => segment.data == text) = some segment →
    segment.offset = link.address text
  callsAgree : ∀ {name : Text} {arity : Nat}, link.final.arity? name = some arity →
    name ≠ logFunction ∧ ∃ f, link.inst.module.function? name = some f ∧ f.arity = arity ∧
      link.CallsAgree name f

end Link

/-- The names of cells that an evaluation sees are those of a scope. -/
structure Scope.Sees (s : Scope) (names : LocalNames) : Prop where
  isSome_eq : names.isSome = s.frame.isSome
  has_eq : ∀ name, names.has name = s.isLocal name

section Scope

variable {options : Options} {s s' : Scope} {p : Part} {c : Code} {names : LocalNames}

/-- What an evaluation sees after a part. -/
theorem Scope.Sees.declare (hs : s.Sees names) (h : Compiles options s p c s') :
    s'.Sees (names.declare p.lets) := by
  refine ⟨?_, fun name => ?_⟩
  · rw [h.isSome_frame, ← hs.isSome_eq, LocalNames.declare, Option.isSome_map]
  · rw [h.isLocal_eq, ← hs.has_eq, ← hs.isSome_eq]
    cases names with
    | none => rfl
    | some list =>
      rw [Bool.eq_iff_iff]
      simp [LocalNames.declare, LocalNames.has]

/-- A part that is there for values declares nothing. -/
theorem Scope.Sees.of_values (hs : s.Sees names) (h : Compiles options s p c s')
    (hp : p.ofValues = true) : s'.Sees names := by
  have hdeclare := hs.declare h
  rw [(h.adds_nothing hp).1] at hdeclare
  cases names with
  | none => exact hdeclare
  | some list => simpa [LocalNames.declare] using hdeclare

end Scope

/-! ### The simulation -/

namespace Link

variable (link : Link) (function : Text) (locals : List Text)

/-- In activations and worlds that mirror each other, code does what an evaluation does, and leaves
on the stack what it is meant to. -/
def Simulates {α : Type} (c : Code) (e : Eval α) (leaves : List Value → α → List Value → Prop) :
    Prop :=
  ∀ (a : Activation) (w : World), link.Mirrors locals a w →
    Effect.Agrees link.Holds (fun _ a' v w' => leaves a.stack v a'.stack ∧ link.Mirrors locals a' w')
      (c.exec link.inst link.callee function a) (e w)

/-- What a node leaves for a use. -/
def leavesFor (use : Use) (st : List Value) (v : Value) (st' : List Value) : Prop :=
  v.type = link.options.valueType ∧ use.Leaves st v st'

/-- What arguments leave: their values, the last on top. -/
def leavesAll (count : Nat) (st vs st' : List Value) : Prop :=
  vs.length = count ∧ (∀ v ∈ vs, v.type = link.options.valueType) ∧ st' = vs.reverse ++ st

/-- The code of a part does what the part means. -/
def SimulatesPart (names : LocalNames) (c : Code) : Part → Prop
  | .node use e =>
    link.Simulates function locals c (evaluate link.setting link.call names e)
      (link.leavesFor use)
  | .statements keepLast list =>
    link.Simulates function locals c (evaluateAll link.setting link.call names list)
      (link.leavesFor (if keepLast then .value else .statement))
  | .arguments list =>
    link.Simulates function locals c (evaluateArguments link.setting link.call names list)
      (link.leavesAll list.length)

end Link

section Steps

variable {link : Link} {function : Text} {locals : List Text} {a : Activation} {w : World}
  {st : List Value} {v : Value}

theorem Link.Sound.exec_zero (hsound : link.Sound) :
    (Action.const link.options.valueType.zeroDatum).exec link.inst link.callee function a =
      (.ok (), { a with stack := .zero link.options.valueType :: a.stack }) :=
  exec_const (by rw [hsound.valueType_eq, Value.ofDatum_zeroDatum]) a

/-- A value is put to its use. -/
theorem Link.Sound.agrees_ofValue (hsound : link.Sound) (use : Use)
    (hmirrors : link.Mirrors locals a w) (hv : v.type = link.options.valueType)
    (hstack : a.stack = v :: st) :
    Effect.Agrees link.Holds
      (fun _ a' v w' => link.leavesFor use st v a'.stack ∧ link.Mirrors locals a' w')
      ((acts (use.ofValue link.options.valueType)).exec link.inst link.callee function a)
      (.ok v, w) := by
  obtain ⟨stack, cells, store⟩ := a
  subst hstack
  obtain ⟨st', hleaves, hexec⟩ := exec_ofValue hsound.valueType_eq use hv
  rw [hexec]
  exact ⟨⟨hv, hleaves⟩, hmirrors.withStack st'⟩

/-- A flag is put to its use. -/
theorem Link.agrees_ofFlag (use : Use)
    (hmirrors : link.Mirrors locals a w) {b : Bool} (hstack : a.stack = .flag b :: st) :
    Effect.Agrees link.Holds
      (fun _ a' v w' => link.leavesFor use st v a'.stack ∧ link.Mirrors locals a' w')
      ((acts (use.ofFlag link.options.valueType)).exec link.inst link.callee function a)
      (.ok (.ofBool link.options.valueType b), w) := by
  obtain ⟨stack, cells, store⟩ := a
  subst hstack
  obtain ⟨st', hleaves, hexec⟩ := exec_ofFlag use b
  rw [hexec]
  exact ⟨⟨Value.type_ofBool _ b, hleaves⟩, hmirrors.withStack st'⟩

/-- An operator on the two values on top, and its use. -/
theorem Link.Sound.agrees_operator (hsound : link.Sound) (use : Use) (op : BinaryOp)
    (hmirrors : link.Mirrors locals a w) {u : Value} (hu : u.type = link.options.valueType)
    (hv : v.type = link.options.valueType) (hstack : a.stack = v :: u :: st) :
    Effect.Agrees link.Holds
      (fun _ a' v w' => link.leavesFor use st v a'.stack ∧ link.Mirrors locals a' w')
      ((acts (.bare (op.mnemonic link.options.valueType) ::
        if op.isComparison then use.ofFlag link.options.valueType
        else use.ofValue link.options.valueType)).exec link.inst link.callee function a)
      (op.apply link.options.valueType u v, w) := by
  obtain ⟨stack, cells, store⟩ := a
  subst hstack
  rw [acts, exec_act, Action.bare, Action.exec, exec_binary (decodeMnemonic?_operator _ op)]
  unfold BinaryOp.apply
  rcases applyBinary_cases op hu hv with ⟨r, happly, hr⟩ | ⟨-, happly | happly⟩
  · rw [happly]
    simp only [Activation.push, Effect.andThen_ok]
    unfold BinaryOp.Leaves at hr
    split at hr
    · -- a comparison leaves a flag, which is widened to a value where one is used
      rename_i hcomparison
      obtain ⟨b, rfl⟩ := hr
      rw [if_pos hcomparison]
      simpa [pure, Except.pure, bind, Except.bind, hcomparison] using
        agrees_ofFlag use (hmirrors.withStack _) rfl
    · rename_i hcomparison
      rw [if_neg hcomparison]
      simpa [pure, Except.pure, bind, Except.bind, hcomparison] using
        hsound.agrees_ofValue use (hmirrors.withStack _) hr rfl
  · -- the two ways in which a division fails, alike on both sides
    rw [happly]
    exact ⟨rfl, hmirrors.held⟩
  · rw [happly]
    exact ⟨rfl, hmirrors.held⟩

theorem Eval.read_apply (inFunction : Bool) (name : Text) (w : World) :
    Eval.read inFunction name w =
      (.ok (if inFunction then w.locals name else w.globals name), w) := rfl

theorem Eval.write_apply (inFunction : Bool) (name : Text) (v : Value) (w : World) :
    Eval.write inFunction name v w = (.ok (), w.setCell inFunction name v) := rfl

/-- A cell is set on both sides. -/
theorem Link.Sound.exec_set (hsound : link.Sound) (hlocals : locals.Nodup)
    (hmirrors : link.Mirrors locals a w) (inFunction : Bool) {name : Text}
    (hname : name ∈ if inFunction then locals else link.globals)
    (hv : v.type = link.options.valueType) (hstack : a.stack = v :: st) :
    ∃ a' : Activation, a'.stack = st ∧ link.Mirrors locals a' (w.setCell inFunction name v) ∧
      (Action.named (cellClass inFunction ++ ".set" : String) name).exec link.inst link.callee
        function a = (.ok (), a') := by
  obtain ⟨stack, cells, store⟩ := a
  subst hstack
  refine ⟨Activation.setCell ⟨st, cells, store⟩ inFunction name v, ?_, ?_, ?_⟩
  · cases inFunction <;> rfl
  · exact (hmirrors.withStack st).setCell hsound.nodup_globals hlocals inFunction hname hv
  · exact exec_store (hmirrors.lookup_eq inFunction hname) function

/-- The value of a cell is pushed. -/
theorem Link.exec_get (hmirrors : link.Mirrors locals a w) (inFunction : Bool) {name : Text}
    (hname : name ∈ if inFunction then locals else link.globals) :
    (Action.named (cellClass inFunction ++ ".get" : String) name).exec link.inst link.callee
      function a = (.ok (), { a with
        stack := (if inFunction then w.locals name else w.globals name) :: a.stack }) :=
  exec_load (hmirrors.lookup_eq inFunction hname) function

/-- A function is called with the arguments on top, and its value is put to its use. -/
theorem Link.Sound.agrees_call (hsound : link.Sound) (use : Use) {name : Text} {f : Func}
    (hlog : name ≠ logFunction) (hfind : link.inst.module.function? name = some f)
    (hagree : link.CallsAgree name f) {args : List Value} {cells : Cells} {store : Store}
    (hmirrors : link.Mirrors locals ⟨args.reverse ++ st, cells, store⟩ w)
    (hcount : args.length = f.arity) (hargs : ∀ v ∈ args, v.type = link.options.valueType) :
    Effect.Agrees link.Holds
      (fun _ a' v w' => link.leavesFor use st v a'.stack ∧ link.Mirrors locals a' w')
      ((acts (.call name :: use.ofValue link.options.valueType)).exec link.inst link.callee function
        ⟨args.reverse ++ st, cells, store⟩)
      (link.call name args w) := by
  rw [acts, exec_act, Action.exec]
  rcases (hagree args store w hcount hargs hmirrors.held).cases with
    ⟨trap, store', w', hmachine, hreference, hheld⟩ |
      ⟨_, store', v, w', hmachine, hreference, rfl, hv, hheld, hcells⟩
  · rw [exec_call_error hlog hfind hcount hmachine, hreference]
    exact ⟨rfl, hheld⟩
  · rw [exec_call_ok hlog hfind hcount hmachine, hreference]
    refine hsound.agrees_ofValue use ⟨hheld, ?_, fun x => ?_⟩ hv rfl
    · -- the caller's own cells are out of the callee's reach
      rw [hcells]
      exact hmirrors.locals_eq
    · rw [hcells]
      exact hmirrors.type_locals x

/-- A value is logged on both sides, or refused. -/
theorem Link.agrees_log (hmirrors : link.Mirrors locals a w) (hstack : a.stack = v :: st) :
    Effect.Agrees link.Holds
      (fun _ a' _ w' => a'.stack = st ∧ link.Mirrors locals a' w')
      ((acts [.call logFunction]).exec link.inst link.callee function a)
      (Eval.log link.setting.host v w) := by
  obtain ⟨stack, cells, store⟩ := a
  subst hstack
  rw [acts, exec_act, Action.exec, exec_log]
  -- both sides ask the host with the same history of the log
  have hlogged : store.logged = w.logged := hmirrors.held.logged_eq
  have hlog : Eval.log link.setting.host v w =
      ((link.inst.host w.logged v).map fun _ => (),
        if (link.inst.host w.logged v).isOk then { w with logged := v :: w.logged } else w) := by
    simp only [Eval.log, bind_apply, get_apply, Effect.andThen_ok, liftExcept_apply, Link.setting]
    cases link.inst.host w.logged v <;> rfl
  rw [hlog, hlogged]
  cases link.inst.host w.logged v with
  | error trap => exact ⟨rfl, hmirrors.held⟩
  | ok u =>
    refine ⟨rfl, ⟨hmirrors.held.globals_eq, ?_, hmirrors.held.type_globals⟩, hmirrors.locals_eq,
      hmirrors.type_locals⟩
    exact rfl

end Steps

/-- An evaluation that has no other result than one value. -/
def Eval.Returns (x : Eval Value) (v : Value) : Prop :=
  ∀ (w w' : World) (u : Value), x w = (.ok u, w') → u = v

theorem Eval.returns_pure (v : Value) : Eval.Returns (pure v) v := by
  rintro w w' u h
  cases h
  rfl

theorem Eval.Returns.bind {α : Type} {x : Eval α} {next : α → Eval Value} {v : Value}
    (h : ∀ a, Eval.Returns (next a) v) : Eval.Returns (x >>= next) v := by
  intro w w' u hu
  rw [bind_apply] at hu
  rcases hx : x w with ⟨trap | a, w₁⟩ <;> rw [hx] at hu
  · cases hu
  · exact h a w₁ w' u hu

/-- A node that has no value is evaluated to zero. -/
theorem evaluate_returns_zero (setting : Setting) (call : Procedure) (names : LocalNames) {e : Expr}
    (he : e.yieldsValue = false) :
    Eval.Returns (evaluate setting call names e) (.zero setting.type) := by
  -- statements alone have no value of their own
  cases e with
  | block body line =>
    rw [evaluate]
    exact .bind fun _ => Eval.returns_pure _
  | declare name value line =>
    rw [evaluate]
    exact .bind fun _ => .bind fun _ => Eval.returns_pure _
  | print value line =>
    rw [evaluate]
    exact .bind fun _ => .bind fun _ => Eval.returns_pure _
  | ifElse condition thenBranch elseBranch line =>
    cases elseBranch with
    | none =>
      rw [evaluate]
      exact .bind fun _ => .bind fun _ => Eval.returns_pure _
    | some elseBranch =>
      rw [evaluate]
      exact .bind fun _ => .bind fun _ => Eval.returns_pure _
  | function name params body line =>
    rw [evaluate]
    exact Eval.returns_pure _
  | _ => cases he

variable {options : Options} {s s' : Scope} {p : Part} {c : Code}

/-- Compiled code does what its part means. -/
theorem Compiles.simulated {link : Link} (h : Compiles link.options s p c s') (hsound : link.Sound)
    {locals : List Text} (hlocals : locals.Nodup) {names : LocalNames} (hsees : s.Sees names)
    (hlinked : s'.LinkedTo link.final locals) (function : Text) :
    link.SimulatesPart function locals names c p := by
  induction h generalizing names with
  | block hbody ih =>
    intro a w hmirrors
    rw [evaluate, bind_apply]
    refine (ih hsees hlinked a w hmirrors).andThen_right ?_
    rintro - a' v w' ⟨⟨-, hstack⟩, hmirrors'⟩
    exact ⟨⟨Value.type_zero _, hstack⟩, hmirrors'⟩
  | @binary _ _ _ use _ _ op _ _ _ hleft hright ihleft ihright =>
    intro a w hmirrors
    rw [Code.append_assoc, exec_append, evaluate, bind_apply]
    refine (ihleft hsees (hlinked.of_compiles hright) a w hmirrors).andThen ?_
    rintro - a₁ u w₁ ⟨⟨hu, hstack₁⟩, hmirrors₁⟩
    rw [exec_append, bind_apply]
    refine (ihright (hsees.of_values hleft rfl) hlinked a₁ w₁ hmirrors₁).andThen ?_
    rintro - a₂ v w₂ ⟨⟨hv, hstack₂⟩, hmirrors₂⟩
    rw [liftExcept_apply]
    exact hsound.agrees_operator use op hmirrors₂ hu hv (hstack₂.trans (congrArg _ hstack₁))
  | @negate _ _ use _ _ _ h ih =>
    intro a w hmirrors
    rw [exec_append, evaluate, bind_apply]
    refine (ih hsees hlinked a w hmirrors).andThen ?_
    rintro - ⟨_, cells, store⟩ v w' ⟨⟨hv, rfl⟩, hmirrors'⟩
    rw [Code.acts_append, exec_append, exec_negate hsound.valueType_eq hv]
    exact hsound.agrees_ofValue use (hmirrors'.withStack _) ((Value.type_negate v).trans hv) rfl
  | @not _ _ use _ _ _ h ih =>
    intro a w hmirrors
    rw [exec_append, evaluate, bind_apply]
    refine (ih hsees hlinked a w hmirrors).andThen ?_
    rintro - ⟨_, cells, store⟩ v w' ⟨⟨hv, rfl⟩, hmirrors'⟩
    rw [Code.acts_append, exec_append, exec_isZero hsound.valueType_eq hv]
    exact Link.agrees_ofFlag use (hmirrors'.withStack _) rfl
  | @declare _ s' name _ _ _ _ h ih =>
    intro a w hmirrors
    have hname := Scope.mem_of_declare hsound.mem_globals hlinked
    rw [exec_append, evaluate, bind_apply]
    refine (ih hsees hlinked.of_declare a w hmirrors).andThen ?_
    rintro - a₁ v w₁ ⟨⟨hv, hstack⟩, hmirrors₁⟩
    obtain ⟨a₂, hstack₂, hmirrors₂, hexec⟩ :=
      hsound.exec_set hlocals hmirrors₁ s'.frame.isSome hname hv hstack
    change Effect.Agrees _ _
      ((acts [.named (cellClass s'.frame.isSome ++ ".set" : String) name]).exec ..) _
    rw [acts, exec_act, hexec, bind_apply, Eval.write_apply, hsees.isSome_eq, ← h.isSome_frame]
    exact ⟨⟨Value.type_zero _, hstack₂⟩, hmirrors₂⟩
  | @get s use name _ hcell =>
    intro a w hmirrors
    have hname := Scope.mem_of_isCell hsound.mem_globals hlinked hcell
    change Effect.Agrees _ _
      ((acts (.named (cellClass (s.isLocal name) ++ ".get" : String) name :: _)).exec ..) _
    rw [acts, exec_act, Link.exec_get hmirrors _ hname, evaluate, Eval.read_apply, hsees.has_eq]
    exact hsound.agrees_ofValue use (hmirrors.withStack _) (hmirrors.type_cell _ name) rfl
  | @assign _ s' name _ _ _ h hcell ih =>
    intro a w hmirrors
    have hname := Scope.mem_of_isCell hsound.mem_globals hlinked hcell
    rw [exec_append, evaluate, bind_apply]
    refine (ih hsees hlinked a w hmirrors).andThen ?_
    rintro - a₁ v w₁ ⟨⟨hv, hstack⟩, hmirrors₁⟩
    obtain ⟨a₂, hstack₂, hmirrors₂, hexec⟩ :=
      hsound.exec_set hlocals hmirrors₁ (s'.isLocal name) hname hv hstack
    change Effect.Agrees _ _
      ((acts [.named (cellClass (s'.isLocal name) ++ ".set" : String) name]).exec ..) _
    rw [acts, exec_act, hexec, bind_apply, Eval.write_apply, (hsees.of_values h rfl).has_eq]
    exact ⟨⟨hv, hstack₂⟩, hmirrors₂⟩
  | @assignValue _ s' use name _ _ _ _ h hcell ih =>
    intro a w hmirrors
    have hname := Scope.mem_of_isCell hsound.mem_globals hlinked hcell
    rw [exec_append, evaluate, bind_apply]
    refine (ih hsees hlinked a w hmirrors).andThen ?_
    rintro - a₁ v w₁ ⟨⟨hv, hstack⟩, hmirrors₁⟩
    obtain ⟨a₂, hstack₂, hmirrors₂, hexec⟩ :=
      hsound.exec_set hlocals hmirrors₁ (s'.isLocal name) hname hv hstack
    change Effect.Agrees _ _
      ((acts (.named (cellClass (s'.isLocal name) ++ ".set" : String) name ::
        .named (cellClass (s'.isLocal name) ++ ".get" : String) name :: _)).exec ..) _
    rw [acts, exec_act, hexec, Effect.andThen_ok, acts, exec_act,
      Link.exec_get hmirrors₂ _ hname, bind_apply, Eval.write_apply, (hsees.of_values h rfl).has_eq]
    have hcellValue : (if s'.isLocal name then (w₁.setCell (s'.isLocal name) name v).locals name
        else (w₁.setCell (s'.isLocal name) name v).globals name) = v := by
      cases s'.isLocal name <;> simp [World.setCell]
    rw [hcellValue, hstack₂]
    exact hsound.agrees_ofValue use (hmirrors₂.withStack _) hv rfl
  | print h ih =>
    intro a w hmirrors
    rw [exec_append, evaluate, bind_apply]
    refine (ih hsees hlinked a w hmirrors).andThen ?_
    rintro - a₁ v w₁ ⟨⟨hv, hstack⟩, hmirrors₁⟩
    rw [bind_apply]
    refine (Link.agrees_log hmirrors₁ hstack).andThen_right ?_
    rintro - a₂ - w₂ ⟨hstack₂, hmirrors₂⟩
    exact ⟨⟨Value.type_zero _, hstack₂⟩, hmirrors₂⟩
  | ifThen hcondition hthen ihcondition ih =>
    intro a w hmirrors
    rw [exec_append, evaluate, bind_apply]
    refine (ihcondition hsees (hlinked.of_compiles hthen) a w hmirrors).andThen ?_
    rintro - ⟨_, cells, store⟩ v w₁ ⟨⟨hv, flag, -, hflag, rfl⟩, hmirrors₁⟩
    have hsees₁ := hsees.of_values hcondition rfl
    rw [exec_ifElse, bind_apply, hflag]
    cases v.isZero with
    | true => exact ⟨⟨Value.type_zero _, rfl⟩, hmirrors₁.withStack _⟩
    | false =>
      refine (ih hsees₁ hlinked _ w₁ (hmirrors₁.withStack _)).andThen ?_
      rintro - a₂ u w₂ ⟨⟨-, hstack⟩, hmirrors₂⟩
      exact ⟨⟨Value.type_zero _, hstack⟩, hmirrors₂⟩
  | ifElse hcondition hthen helse ihcondition ihthen ihelse =>
    intro a w hmirrors
    have hlinked₁ := hlinked.of_compiles helse
    rw [exec_append, evaluate, bind_apply]
    refine (ihcondition hsees (hlinked₁.of_compiles hthen) a w hmirrors).andThen ?_
    rintro - ⟨_, cells, store⟩ v w₁ ⟨⟨hv, flag, -, hflag, rfl⟩, hmirrors₁⟩
    have hsees₁ := hsees.of_values hcondition rfl
    rw [exec_ifElse, bind_apply, hflag]
    cases v.isZero with
    | true =>
      refine (ihelse (hsees₁.declare hthen) hlinked _ w₁ (hmirrors₁.withStack _)).andThen ?_
      rintro - a₂ u w₂ ⟨⟨-, hstack⟩, hmirrors₂⟩
      exact ⟨⟨Value.type_zero _, hstack⟩, hmirrors₂⟩
    | false =>
      refine (ihthen hsees₁ hlinked₁ _ w₁ (hmirrors₁.withStack _)).andThen ?_
      rintro - a₂ u w₂ ⟨⟨-, hstack⟩, hmirrors₂⟩
      exact ⟨⟨Value.type_zero _, hstack⟩, hmirrors₂⟩
  | function hdef _ _ =>
    intro a w hmirrors
    exact ⟨⟨Value.type_zero _, rfl⟩, hmirrors⟩
  | @call s _ use name args _ _ _ harity hargs ih =>
    intro a w hmirrors
    rw [exec_append, evaluate, bind_apply]
    refine (ih hsees hlinked a w hmirrors).andThen ?_
    rintro - ⟨_, cells, store⟩ vs w₁ ⟨⟨hlength, hvs, rfl⟩, hmirrors₁⟩
    obtain ⟨hlog, f, hfind, hf, hagree⟩ :=
      hsound.callsAgree ((hargs.scope_below.trans hlinked.below).arity?_mono harity)
    exact hsound.agrees_call use hlog hfind hagree hmirrors₁ (hlength.trans hf.symm) hvs
  | @number s use kind value number d _ hkind hconstant =>
    intro a w hmirrors
    obtain ⟨v, hd, hnumber⟩ := hconstant.ofDatum_eq
    have hliteral : link.setting.literal kind value = .ok v := by
      obtain ⟨rfl, rfl⟩ | ⟨rfl, rfl⟩ | ⟨rfl, rfl⟩ := hkind <;>
        exact congrArg Trap.ofConversion hnumber
    rw [acts, exec_act, exec_const (hsound.valueType_eq ▸ hd), evaluate, liftExcept_apply, hliteral]
    exact hsound.agrees_ofValue use (hmirrors.withStack _) (Value.type_of_ofDatum hd) rfl
  | @string s use text _ =>
    intro a w hmirrors
    have haddress := hsound.address_eq
      (hlinked.below.find?_data_mono (s.module.find?_addData (utf8 text)))
    have hliteral : link.setting.literal .string (.text text) = Trap.ofConversion
        (Value.ofInteger link.options.valueType (unsigned 32 (link.address (utf8 text)))) := rfl
    rw [Code.acts_append, exec_append, exec_address, evaluate, liftExcept_apply, hliteral, ← haddress]
    cases hvalue : Value.ofInteger link.options.valueType
      (unsigned 32 (s.module.addData (utf8 text)).1) with
    | error e => exact ⟨rfl, hmirrors.held⟩
    | ok v =>
      exact hsound.agrees_ofValue use (hmirrors.withStack _) (Value.type_of_ofInteger hvalue) rfl
  | done =>
    intro a w hmirrors
    exact ⟨⟨Value.type_zero _, rfl⟩, hmirrors⟩
  | zero =>
    intro a w hmirrors
    rw [acts, exec_act, hsound.exec_zero]
    exact ⟨⟨Value.type_zero _, rfl⟩, hmirrors.withStack _⟩
  | last _ _ ih => exact ih hsees hlinked
  | @next s s₁ s₂ keepLast e rest c d hkeep hfirst hrest ih ihrest =>
    intro a w hmirrors
    rw [exec_append]
    have hfirst' := ih hsees (hlinked.of_compiles hrest) a w hmirrors
    cases rest with
    | cons second others =>
      rw [evaluateAll, bind_apply]
      refine hfirst'.andThen ?_
      rintro - a₁ v w₁ ⟨⟨-, hstack⟩, hmirrors₁⟩
      have hrest' := ihrest (hsees.declare hfirst) hlinked a₁ w₁ hmirrors₁
      rwa [show a₁.stack = a.stack from hstack] at hrest'
    | nil =>
      rw [evaluateAll]
      cases hrest with
      | done =>
        refine hfirst'.andThen_left ?_
        rintro - a₁ v w₁ ⟨hleaves, hmirrors₁⟩
        exact ⟨hleaves, hmirrors₁⟩
      | zero =>
        -- the statement has no value, so zero is the value of the whole
        have hzero := evaluate_returns_zero link.setting link.call names (by simpa using hkeep)
        refine (hfirst'.and_right fun v w₁ => hzero w w₁ v).andThen_left ?_
        rintro - a₁ v w₁ ⟨⟨⟨hv, hstack⟩, hmirrors₁⟩, rfl⟩
        rw [acts, exec_act, hsound.exec_zero]
        exact ⟨⟨hv, congrArg _ hstack⟩, hmirrors₁.withStack _⟩
  | noArguments =>
    intro a w hmirrors
    exact ⟨⟨rfl, by simp, rfl⟩, hmirrors⟩
  | argument hfirst hrest ih ihrest =>
    intro a w hmirrors
    rw [exec_append, evaluateArguments, bind_apply]
    refine (ih hsees (hlinked.of_compiles hrest) a w hmirrors).andThen ?_
    rintro - a₁ v w₁ ⟨⟨hv, hstack₁⟩, hmirrors₁⟩
    rw [bind_apply]
    refine (ihrest (hsees.of_values hfirst rfl) hlinked a₁ w₁ hmirrors₁).andThen_right ?_
    rintro - a₂ vs w₂ ⟨⟨hlength, hvs, hstack₂⟩, hmirrors₂⟩
    refine ⟨⟨by simp [hlength], List.forall_mem_cons.mpr ⟨hv, hvs⟩, ?_⟩, hmirrors₂⟩
    rw [hstack₂, hstack₁, List.reverse_cons, List.append_assoc]
    rfl

end StackScript
