import StackScript.Lowering.Emission
import StackScript.Target.Opcode
import StackScript.Value

/-!
# Lowering programs

A node is lowered for a use: as a statement, which leaves nothing on the operand stack; as a value,
which leaves one value of the module's type; or as a condition, which leaves a 32-bit flag. A
comparison makes a flag, so only the other two uses widen it.

A `let` declares a local inside a function and a global at top level, from there on in the text,
whether or not it is executed. A function returns the value of its last statement, or zero.

## Main definitions

* `Use`: what a node is lowered for.
* `lower`, `lowerAll`: the code of a node, of a list of statements.
* `generate`, `Generation`: the module of a program.
-/

namespace StackScript

/-- What a node is lowered for. -/
inductive Use where
  /-- Its effects. -/
  | statement
  /-- One value of the module's type. -/
  | value
  /-- A 32-bit flag that is not zero if the value is not. -/
  | condition
  deriving DecidableEq, Repr

namespace Lower

/-- Emits a mnemonic without an immediate. -/
def mnemonic (name : Text) : Lower Unit := emit (.bare name)

/-- Emits the zero of a type. -/
def zero (t : ValueType) : Lower Unit := emit (.const t.zeroDatum)

/-- Replaces a value by a flag that tells whether it was zero. -/
def isZero (t : ValueType) : Lower Unit :=
  if t.isFloat then do
    zero t
    mnemonic (t.mnemonic "eq")
  else mnemonic (t.mnemonic "eqz")

/-- Replaces a value by a flag that tells whether it was not zero; a 32-bit integer is one. -/
def isNotZero (t : ValueType) : Lower Unit :=
  if t = .i32 then pure ()
  else do
    zero t
    mnemonic (t.mnemonic "ne")

/-- Widens a flag or an address to a type. -/
def widen (t : ValueType) : Lower Unit :=
  match t.fromFlag? with
  | some name => mnemonic name
  | none => pure ()

/-- Puts a value to a use. -/
def useValue (t : ValueType) : Use → Lower Unit
  | .statement => mnemonic "drop"
  | .value => pure ()
  | .condition => isNotZero t

/-- Puts a flag to a use. -/
def useFlag (t : ValueType) : Use → Lower Unit
  | .statement => do
    widen t
    mnemonic "drop"
  | .value => widen t
  | .condition => pure ()

/-- Puts a node that has no value to a use, which can only be its effects. -/
def useNothing (nodeName : String) (line : Line) : Use → Lower Unit
  | .statement => pure ()
  | .value | .condition => fail (.noValue nodeName) line

/-- The class of cells that a name belongs to. -/
def resolve (name : Text) (line : Line) : Lower String := do
  let scope ← Lower.scope
  if scope.isLocal name then return "local"
  else if scope.isGlobal name then return "global"
  else if (scope.arity? name).isSome then fail (.functionAsValue name) line
  else fail (.undefinedVariable name) line

/-- Pushes the value of a name. -/
def load (name : Text) (line : Line) : Lower Unit := do
  let cells ← resolve name line
  emit (.named (cells ++ ".get" : String) name)

/-- Pops a value into a name. -/
def store (name : Text) (line : Line) : Lower Unit := do
  let cells ← resolve name line
  emit (.named (cells ++ ".set" : String) name)

/-- Checks that a declared name can be written in module text. -/
def checkName (name : String) (line : Line) : Lower Unit :=
  if name.toList.all fun c => c.toNat < 128 then pure ()
  else fail (.nameNotAscii name) line

/-- Checks declared names in order. -/
def checkNames (line : Line) : List String → Lower Unit
  | [] => pure ()
  | name :: rest => do
    checkName name line
    checkNames line rest

/-- Pops a value into a name that this declares. -/
def declare (name : Text) : Lower Unit := do
  let cells ← modify fun scope =>
    match scope.frame with
    | some frame => ("local", scope.setFrame (frame.addLocal name))
    | none => ("global", { scope with module := (scope.module.addGlobal name).2 })
  emit (.named (cells ++ ".set" : String) name)

/-- Passes on the value of a conversion. -/
def ofConversion {α : Type} : Except ConversionError α → Lower α
  | .ok a => pure a
  | .error e => stop (.literal e)

/-- Pushes a number. A float type takes the nearest double; an integer type takes only whole numbers
of its range. -/
def constant (t : ValueType) (number : Datum) (line : Line) : Lower Unit :=
  match t.width? with
  | none => do
    let x ← ofConversion number.toDouble
    emit (.const (.real x))
  | some width => do
    match number with
    | .real x => if x.isWhole then pure () else fail (.fractionalLiteral x t) line
    | _ => pure ()
    let n ← ofConversion number.toInteger
    if wrap width n = n then emit (.const (.int n)) else fail (.literalOutOfRange n t) line

/-- Pushes the address of a string as a flag-sized integer. -/
def address (literal : Datum) : Lower Unit :=
  match literal with
  | .text s =>
    match s.utf8? with
    | some bytes => do
      let offset ← modify fun scope =>
        let (offset, module) := scope.module.addData bytes
        (offset, { scope with module := module })
      emit (.plain "i32.const" (.int offset))
    | none => stop .stringWithoutBytes
  | _ => stop .stringWithoutText

/-- Replaces a number by its negation. -/
def negate (t : ValueType) : Lower Unit :=
  if t.isFloat then mnemonic (t.mnemonic "neg")
  else do
    emit (.const (.int (-1)))
    mnemonic (t.mnemonic "mul")

/-- Checks a call: the function that is called, which takes so many arguments. -/
def checkCall (callee : Expr) (count : Nat) (line : Line) : Lower Text :=
  match callee with
  | .get name _ => do
    let scope ← Lower.scope
    match scope.arity? name with
    | some arity =>
      if count = arity then return name else fail (.argumentCount name arity count) line
    | none =>
      if scope.isLocal name || scope.isGlobal name then fail (.calleeVariable name) line
      else fail (.undefinedFunction name) line
  | _ => fail (.calleeNotName callee.nodeName) line

/-- Checks the heading of a function definition and makes its arity known. -/
def checkFunction (options : Options) (name : String) (params : List String) (line : Line) :
    Lower Unit := do
  let scope ← Lower.scope
  if let some frame := scope.frame then fail (.nestedFunction name frame.name) line
  checkNames line (name :: params)
  if name = logFunction || name = options.entry.functionName then fail (.reservedName name) line
  if (scope.arity? name).isSome then fail (.alreadyDefined name) line
  if !decide params.Nodup then fail (.duplicateParameter name) line
  -- known before its body, so that a function can call itself
  modify fun scope =>
    ((), { scope with signatures := scope.signatures ++ [(.plain name, params.length)] })

end Lower

open Lower in
mutual

/-- The code of a node for a use. -/
def lower (options : Options) (use : Use) : Expr → Lower Unit
  | .block body line => do
    lowerAll options false body
    useNothing "BlockExpr" line use
  | .binary left op right _ => do
    let t := options.valueType
    lower options .value left
    lower options .value right
    mnemonic (op.mnemonic t)
    if op.isComparison then useFlag t use else useValue t use
  | .unary .negate operand _ => do
    lower options .value operand
    negate options.valueType
    useValue options.valueType use
  | .unary .not operand _ => do
    lower options .value operand
    isZero options.valueType
    useFlag options.valueType use
  | .declare name value line => do
    checkName name line
    -- the value comes before the name is declared, so it may use an outer cell of that name
    lower options .value value
    declare name
    useNothing "LetAssignExpr" line use
  | .get name line => do
    load name line
    useValue options.valueType use
  | .assign name value line => do
    lower options .value value
    store name line
    -- as a value, an assignment is read back from the cell that it has set
    match use with
    | .statement => pure ()
    | .value => load name line
    | .condition =>
      load name line
      isNotZero options.valueType
  | .print value line => do
    lower options .value value
    emit (.call logFunction)
    useNothing "PrintExpr" line use
  | .ifElse condition thenBranch none line => do
    lower options .condition condition
    emit .openIf
    lower options .statement thenBranch
    emit .openElse
    emit .closeIf
    useNothing "IfElseExpr" line use
  | .ifElse condition thenBranch (some elseBranch) line => do
    lower options .condition condition
    emit .openIf
    lower options .statement thenBranch
    emit .openElse
    lower options .statement elseBranch
    emit .closeIf
    useNothing "IfElseExpr" line use
  | .function name params body line => do
    checkFunction options name params line
    withFrame (.ofDefinition name params) (some options.valueType) (lowerAll options true body)
    useNothing "FunctionDefExpr" line use
  | .call callee args line => do
    let name ← checkCall callee args.length line
    lowerArguments options args
    emit (.call name)
    useValue options.valueType use
  | .literal kind value line => do
    match kind with
    | .number => constant options.valueType value line
    | .true => constant options.valueType (.int 1) line
    | .false => constant options.valueType (.int 0) line
    | .string =>
      address value
      widen options.valueType
    useValue options.valueType use

/-- The code of statements. With `keepLast` they leave the value of the last one, or zero if it
has none. -/
def lowerAll (options : Options) (keepLast : Bool) : List Expr → Lower Unit
  | [] => if keepLast then zero options.valueType else pure ()
  | e :: rest =>
    if keepLast && rest.isEmpty && e.yieldsValue then lower options .value e
    else do
      lower options .statement e
      lowerAll options keepLast rest

/-- The code of the arguments of a call, from left to right. -/
def lowerArguments (options : Options) : List Expr → Lower Unit
  | [] => pure ()
  | e :: rest => do
    lower options .value e
    lowerArguments options rest

end

/-- Whether the top-level code leaves the value of its last statement. -/
def EntryStyle.returnsValue : EntryStyle → Bool
  | .script => false
  | .expression => true

/-- The module of options before any code. -/
def Options.emptyModule (options : Options) : Module where
  valueType := options.valueType
  entry := options.entry.functionName
  importModule := options.importModule
  memory := options.memory

/-- The entry before any code. -/
def Options.entryFrame (options : Options) : Frame where
  name := options.entry.functionName
  isEntry := true

/-- What the entry returns. -/
def Options.entryResult (options : Options) : Option ValueType :=
  if options.entry.returnsValue then some options.valueType else none

/-- The outcome of compiling a program. -/
structure Generation where
  /-- The functions that are known at the end, with their arities. -/
  signatures : List (Text × Nat)
  /-- The functions that were completed. -/
  functions : List Func
  /-- The functions that were left open, the innermost first. -/
  contexts : List Frame
  /-- The code that these had. -/
  codes : List (List Instr)
  result : Except CompileError Module

/-- Compiles a program. -/
def generate (options : Options) (program : Program) : Generation :=
  let statements := lowerAll options options.entry.returnsValue program
  let done :=
    Lower.withFrame options.entryFrame options.entryResult statements
      { module := options.emptyModule }
  { signatures := done.scope.signatures
    functions := done.scope.module.functions
    contexts := done.scope.contexts
    codes := match done.result with
      | .ok () => []
      | .error stopped => stopped.codes
    result := match done.result with
      | .ok () => .ok done.scope.module
      | .error stopped => .error stopped.error }

end StackScript
