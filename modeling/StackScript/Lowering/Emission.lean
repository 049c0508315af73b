import StackScript.Lowering.CompileError
import StackScript.Target.Module

/-!
# Emitting code in a scope

Lowering a part of a program yields the code of that part alone. It also changes the scope: the
module so far, the arities of the functions that are known, and the functions that are being
compiled. There are two levels of names, those of the module and those of one function.

The functions being compiled are kept on a list. A function is put on it before its body is lowered
and taken off when that is done. When lowering fails, nothing is taken off any more: the scope tells
which functions were left open, and the failure holds the code that they had.

## Main definitions

* `Scope`, `Frame`: what is known where a part of a program stands.
* `Emission`, `Lower`: the outcome of lowering, and lowering as a monad.
* `Lower.emit`, `Lower.fail`, `Lower.withFrame`: emitting an instruction, failing, compiling a
  function.
-/

namespace StackScript

/-- The names of a function being compiled. -/
structure Frame where
  name : Text
  params : List Text := []
  locals : List Text := []
  /-- Whether it is the entry, which the top-level code belongs to. -/
  isEntry : Bool := false
  deriving DecidableEq, Repr

namespace Frame

/-- Whether a name is a parameter or a local. -/
def holds (frame : Frame) (name : Text) : Bool :=
  frame.params.contains name || frame.locals.contains name

/-- The frame with a local of a name, unless it has that name already. -/
def addLocal (frame : Frame) (name : Text) : Frame :=
  if frame.holds name then frame else { frame with locals := frame.locals ++ [name] }

/-- The frame of a definition before its body. -/
def ofDefinition (name : String) (params : List String) : Frame where
  name := name
  params := params.map .plain

/-- The function of a frame, with its result and its code. -/
def function (frame : Frame) (result : Option ValueType) (code : List Instr) : Func where
  name := frame.name
  params := frame.params
  result := result
  locals := frame.locals
  body := code

end Frame

/-- What is known where a part of a program stands. -/
structure Scope where
  /-- The module so far. -/
  module : Module
  /-- The functions that are known, with the number of their parameters. -/
  signatures : List (Text × Nat) := []
  /-- The functions being compiled, the innermost first. -/
  contexts : List Frame := []

namespace Scope

/-- The definition being compiled; none at top level, where the entry is. -/
def frame (scope : Scope) : Option Frame :=
  scope.contexts.head?.filter fun frame => !frame.isEntry

/-- The scope in which a function is being compiled. -/
def enter (scope : Scope) (frame : Frame) : Scope :=
  { scope with contexts := frame :: scope.contexts }

/-- The scope with another state of the innermost function. -/
def setFrame (scope : Scope) (frame : Frame) : Scope :=
  { scope with contexts := frame :: scope.contexts.tail }

/-- The scope after the innermost function, which has been completed. -/
def leave (scope : Scope) (function : Func) : Scope :=
  { scope with
    contexts := scope.contexts.tail
    module := scope.module.addFunction function }

/-- Whether a name is a parameter or a local of the definition being compiled. -/
def isLocal (scope : Scope) (name : Text) : Bool :=
  scope.frame.any fun frame => frame.holds name

/-- Whether a name is a global. -/
def isGlobal (scope : Scope) (name : Text) : Bool :=
  (scope.module.global? name).isSome

/-- The number of parameters of a known function. -/
def arity? (scope : Scope) (name : Text) : Option Nat :=
  scope.signatures.lookup name

end Scope

/-- A failure of lowering. -/
structure Stopped where
  error : CompileError
  /-- The code of the functions that were left open, the innermost first. -/
  codes : List (List Instr) := []

/-- The outcome of lowering a part of a program. -/
structure Emission (α : Type) where
  code : List Instr
  scope : Scope
  result : Except Stopped α

/-- Lowering a part of a program: from the scope it stands in to its code and the scope after. -/
def Lower (α : Type) := Scope → Emission α

namespace Lower

/-- Lowering nothing. -/
protected def pure {α : Type} (a : α) : Lower α :=
  fun scope => ⟨[], scope, .ok a⟩

/-- One part after another; a failure of the first keeps its code. -/
protected def bind {α β : Type} (first : Lower α) (next : α → Lower β) : Lower β :=
  fun scope =>
    let done := first scope
    match done.result with
    | .error e => ⟨done.code, done.scope, .error e⟩
    | .ok a =>
      let more := next a done.scope
      ⟨done.code ++ more.code, more.scope, more.result⟩

instance : Monad Lower where
  pure := Lower.pure
  bind := Lower.bind

/-- Emits one instruction. -/
def emit (instr : Instr) : Lower Unit :=
  fun scope => ⟨[instr], scope, .ok ()⟩

/-- The scope at this place. -/
def scope : Lower Scope :=
  fun scope => ⟨[], scope, .ok scope⟩

/-- Changes the scope. -/
def modify {α : Type} (change : Scope → α × Scope) : Lower α :=
  fun scope =>
    let (a, scope') := change scope
    ⟨[], scope', .ok a⟩

/-- Fails. -/
def stop {α : Type} (error : CompileError) : Lower α :=
  fun scope => ⟨[], scope, .error { error := error }⟩

/-- Fails with a fault of the program at a line. -/
def fail {α : Type} (fault : CompileFault) (line : Line) : Lower α :=
  stop (.fault fault line)

/-- Compiles a function whose code is that of `body`. It is added to the module, and its code is
not part of the code around it. -/
def withFrame (frame : Frame) (result : Option ValueType) (body : Lower Unit) : Lower Unit :=
  fun scope =>
    let done := body (scope.enter frame)
    match done.result with
    | .error e => ⟨[], done.scope, .error { e with codes := e.codes ++ [done.code] }⟩
    | .ok () =>
      let final := done.scope.contexts.headD frame
      ⟨[], done.scope.leave (final.function result done.code), .ok ()⟩

end Lower

end StackScript
