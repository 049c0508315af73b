import Mathlib.Algebra.GroupWithZero.Nat
import Mathlib.Logic.Function.Basic
import StackScript.Lowering.Generate
import StackScript.Machine.Instance

/-!
# Evaluating programs

What a program means, by recursion over its tree and without any code. Operands and arguments are
evaluated from left to right, each once. Every node has a value; that of a statement is zero.

Cells are total: a cell that has not been set is zero. Inside a function a name belongs to a cell of
the function if it is a parameter or a `let` of it stands before in the text of the function, whether
or not that `let` was executed; otherwise it belongs to a global. At top level every name is global.

Arithmetic and comparisons are those of the machine, and so is the bound on open activations.

## Main definitions

* `Expr.lets`, `Expr.functions`, `Expr.strings`: the names, functions and string literals of a part
  of a program, in the order of the text.
* `World`, `Eval`: the state of an evaluation, and evaluation as a monad.
* `evaluate`, `evaluateAll`, `evaluateArguments`: the value of a node, of statements, of arguments.
* `Setting.call`: a call of a function.
* `Program.evaluate`: the evaluation of a program.
-/

namespace StackScript

/-! ### The parts of a program -/

/-- A function of a program. -/
structure FunctionDef where
  name : Text
  params : List Text
  body : List Expr

namespace Expr

mutual

/-- The names that a statement declares where it stands. A function keeps its own to itself. -/
@[simp] def lets : Expr → List Text
  | block body _ => allLets body
  | declare name _ _ => [name]
  | ifElse _ thenBranch none _ => thenBranch.lets
  | ifElse _ thenBranch (some elseBranch) _ => thenBranch.lets ++ elseBranch.lets
  | _ => []

/-- The names that statements declare where they stand. -/
@[simp] def allLets : List Expr → List Text
  | [] => []
  | e :: rest => e.lets ++ allLets rest

end

mutual

/-- The functions that a statement defines. -/
@[simp] def functions : Expr → List FunctionDef
  | block body _ => allFunctions body
  | ifElse _ thenBranch none _ => thenBranch.functions
  | ifElse _ thenBranch (some elseBranch) _ => thenBranch.functions ++ elseBranch.functions
  | function name params body _ => [⟨name, params.map .plain, body⟩]
  | _ => []

/-- The functions that statements define. -/
@[simp] def allFunctions : List Expr → List FunctionDef
  | [] => []
  | e :: rest => e.functions ++ allFunctions rest

end

mutual

/-- The bytes of the string literals of a node. -/
@[simp] def strings : Expr → List Bytes
  | block body _ => allStrings body
  | binary left _ right _ => left.strings ++ right.strings
  | unary _ operand _ => operand.strings
  | declare _ value _ => value.strings
  | get _ _ => []
  | assign _ value _ => value.strings
  | print value _ => value.strings
  | ifElse condition thenBranch none _ => condition.strings ++ thenBranch.strings
  | ifElse condition thenBranch (some elseBranch) _ =>
    condition.strings ++ thenBranch.strings ++ elseBranch.strings
  | function _ _ body _ => allStrings body
  | call _ args _ => allStrings args
  | literal .string (.text (.plain text)) _ => [utf8 text]
  | literal _ _ _ => []

/-- The bytes of the string literals of some nodes. -/
@[simp] def allStrings : List Expr → List Bytes
  | [] => []
  | e :: rest => e.strings ++ allStrings rest

end

end Expr

/-- The address of some bytes among those of string literals: the different literals lie side by side
in the order of their first occurrence. -/
def addressAmong (strings : List Bytes) (text : Bytes) : Nat :=
  ((strings.eraseDups.takeWhile (· != text)).map List.length).sum

/-! ### Values -/

namespace Value

/-- The number one of a type. -/
def one : ValueType → Value
  | .i32 => i32 1
  | .i64 => i64 1
  | .f32 => f32 (.ofInt 1)
  | .f64 => f64 (.ofInt 1)

/-- A truth value as a number of a type. -/
def ofBool (t : ValueType) (b : Bool) : Value :=
  if b then one t else zero t

end Value

/-- What an operator does to two values of a type, as an operation of the machine. -/
def BinaryOp.operation (t : ValueType) : BinaryOp → BinaryOperation
  | .add => .arithmetic .add
  | .subtract => .arithmetic .sub
  | .multiply => .arithmetic .mul
  | .divide => if t.isFloat then .div else .divS
  | .equal => .compare .eq
  | .notEqual => .compare .ne
  | .less => .compare .lt
  | .lessEqual => .compare .le
  | .greater => .compare .gt
  | .greaterEqual => .compare .ge

/-- The value of an operator: a comparison gives one or zero. -/
def BinaryOp.apply (t : ValueType) (op : BinaryOp) (a b : Value) : Except Trap Value := do
  let v ← applyBinary t (op.mnemonic t) a b (op.operation t)
  return if op.isComparison then .ofBool t (!v.isZero) else v

/-! ### Evaluation -/

/-- The state of an evaluation. -/
structure World where
  /-- The cells of the function that is evaluated. -/
  locals : Text → Value
  globals : Text → Value
  /-- The values that have been logged, the latest first. -/
  logged : List Value := []

/-- An evaluation, which may trap. -/
abbrev Eval := ExceptT Trap (StateM World)

/-- What a call of a named function does. -/
abbrev Procedure := Text → List Value → Eval Value

/-- What the evaluation of a program is given. -/
structure Setting where
  type : ValueType
  host : Host
  /-- The addresses of string literals. -/
  address : Bytes → Nat

/-- The names of cells of the function around a node; none at top level. -/
abbrev LocalNames := Option (List Text)

namespace LocalNames

/-- Whether a name belongs to a cell of the function. -/
def has (names : LocalNames) (name : Text) : Bool :=
  names.any fun list => list.contains name

/-- The names after some more have been declared. -/
def declare (names : LocalNames) (more : List Text) : LocalNames :=
  names.map (· ++ more)

end LocalNames

namespace Eval

/-- The value of a cell. -/
def read (inFunction : Bool) (name : Text) : Eval Value := do
  let world ← get
  return if inFunction then world.locals name else world.globals name

/-- Sets a cell. -/
def write (inFunction : Bool) (name : Text) (v : Value) : Eval Unit :=
  modify fun world =>
    if inFunction then { world with locals := Function.update world.locals name v }
    else { world with globals := Function.update world.globals name v }

/-- Hands a value to the host's log function. -/
def log (host : Host) (v : Value) : Eval Unit := do
  let world ← get
  liftExcept (host world.logged v)
  set { world with logged := v :: world.logged }

end Eval

/-- The value of a literal. A string is its address, taken as an unsigned 32-bit number. -/
def Setting.literal (setting : Setting) : LiteralKind → Datum → Except Trap Value
  | .number, number => Trap.ofConversion (Value.ofDatum setting.type number)
  | .true, _ => Trap.ofConversion (Value.ofInteger setting.type 1)
  | .false, _ => Trap.ofConversion (Value.ofInteger setting.type 0)
  | .string, .text (.plain text) =>
    Trap.ofConversion (Value.ofInteger setting.type (unsigned 32 (setting.address (utf8 text))))
  | .string, _ => .error (.conversion .unsupported)

mutual

/-- The value of a node. -/
def evaluate (setting : Setting) (call : Procedure) (names : LocalNames) : Expr → Eval Value
  | .block body _ => do
    let _ ← evaluateAll setting call names body
    return .zero setting.type
  | .binary left op right _ => do
    let a ← evaluate setting call names left
    let b ← evaluate setting call names right
    liftExcept (op.apply setting.type a b)
  | .unary .negate operand _ => do
    let v ← evaluate setting call names operand
    return v.negate
  | .unary .not operand _ => do
    let v ← evaluate setting call names operand
    return .ofBool setting.type v.isZero
  | .declare name value _ => do
    let v ← evaluate setting call names value
    Eval.write names.isSome name v
    return .zero setting.type
  | .get name _ => Eval.read (names.has name) name
  | .assign name value _ => do
    let v ← evaluate setting call names value
    Eval.write (names.has name) name v
    return v
  | .print value _ => do
    let v ← evaluate setting call names value
    Eval.log setting.host v
    return .zero setting.type
  | .ifElse condition thenBranch none _ => do
    let v ← evaluate setting call names condition
    let _ ← (if v.isZero then pure (.zero setting.type) else evaluate setting call names thenBranch)
    return .zero setting.type
  | .ifElse condition thenBranch (some elseBranch) _ => do
    let v ← evaluate setting call names condition
    -- the names of the first part stand before the second in the text
    let _ ← (if v.isZero then evaluate setting call (names.declare thenBranch.lets) elseBranch
      else evaluate setting call names thenBranch)
    return .zero setting.type
  -- a definition does nothing where it stands
  | .function _ _ _ _ => return .zero setting.type
  | .call callee args _ => do
    let values ← evaluateArguments setting call names args
    match callee with
    | .get name _ => call name values
    | _ => throw (.callUnknown callee.nodeName)
  | .literal kind value _ => liftExcept (setting.literal kind value)

/-- The value of the last of some statements, or zero if there is none. -/
def evaluateAll (setting : Setting) (call : Procedure) (names : LocalNames) :
    List Expr → Eval Value
  | [] => return .zero setting.type
  | [e] => evaluate setting call names e
  | e :: next :: rest => do
    let _ ← evaluate setting call names e
    evaluateAll setting call (names.declare e.lets) (next :: rest)

/-- The values of arguments. -/
def evaluateArguments (setting : Setting) (call : Procedure) (names : LocalNames) :
    List Expr → Eval (List Value)
  | [] => return []
  | e :: rest => do
    let v ← evaluate setting call names e
    let others ← evaluateArguments setting call names rest
    return v :: others

end

/-- The cells of a function that is called: the arguments under the names of the parameters, and
zeros. -/
def FunctionDef.cells (f : FunctionDef) (t : ValueType) (args : List Value) (name : Text) : Value :=
  ((f.params.zip args).lookup name).getD (.zero t)

/-- A call of one of some functions while `room` more activations may be opened. The cells of the
caller are untouched. -/
def Setting.call (setting : Setting) (functions : List FunctionDef) : (room : Nat) → Procedure
  | 0, name, _ => throw (.callStackExhausted name)
  | room + 1, name, args =>
    match functions.find? fun f => f.name == name with
    | none => throw (.callUnknown name)
    | some f => fun world =>
      let (result, final) := evaluateAll setting (setting.call functions room) (some f.params) f.body
        { world with locals := f.cells setting.type args }
      (result, { final with locals := world.locals })

theorem Setting.call_succ {setting : Setting} {functions : List FunctionDef} {name : Text}
    {f : FunctionDef} (hfind : functions.find? (fun f => f.name == name) = some f) (room : Nat)
    (args : List Value) (world : World) :
    setting.call functions (room + 1) name args world =
      let (result, final) := evaluateAll setting (setting.call functions room) (some f.params) f.body
        { world with locals := f.cells setting.type args }
      (result, { final with locals := world.locals }) := by
  rw [Setting.call, hfind]

namespace Program

/-- The setting in which a program is evaluated. -/
def setting (options : Options) (host : Host) (program : Program) : Setting where
  type := options.valueType
  host := host
  address := addressAmong (Expr.allStrings program)

/-- The state before a program is evaluated: all cells are zero. -/
def initialWorld (options : Options) : World where
  locals := fun _ => .zero options.valueType
  globals := fun _ => .zero options.valueType

/-- Evaluates a program: the result of its entry, and the state after it. The entry is itself an
activation. -/
def evaluate (options : Options) (host : Host) (program : Program) :
    Except Trap (Option Value) × World :=
  let setting := program.setting options host
  let call := setting.call (Expr.allFunctions program) (maxActivations - 1)
  let (result, final) := evaluateAll setting call none program (initialWorld options)
  (result.map fun v => if options.entry.returnsValue then some v else none, final)

end Program

end StackScript
