import StackScript.Target.Instruction
import StackScript.Text.Utf8
import StackScript.ValueType

/-!
# Modules

A module is what a program is compiled to: globals, bytes to place in memory, and functions, one of
which is the entry. It imports the host's log function. Whether it has a memory, how large that is
and what it exports follow from these.

## Main definitions

* `Global`, `Segment`, `Func`: the parts of a module.
* `Module`: a module.
* `Module.addGlobal`, `Module.addData`, `Module.addFunction`: growing a module.
* `Module.dataSize`, `Module.memoryPages`, `Module.exports`: what follows from its parts.
-/

namespace StackScript

/-- The name of the host's log function. -/
def logFunction : String := "log"

/-- The name of the memory. -/
def memoryName : String := "memory"

/-- The number of bytes in a page of memory. -/
def pageSize : Nat := 65536

/-- A storage cell of a module. -/
structure Global where
  name : Text
  mutable : Bool
  type : ValueType
  deriving DecidableEq, Repr

/-- Bytes that are placed in memory at an offset. -/
structure Segment where
  offset : Int
  data : Bytes
  deriving DecidableEq, Repr

/-- A compiled function. Its parameters and locals have the module's value type. -/
structure Func where
  name : Text
  params : List Text := []
  result : Option ValueType := none
  locals : List Text := []
  body : List Instr := []
  deriving DecidableEq

/-- The number of parameters. -/
def Func.arity (f : Func) : Nat := f.params.length

/-- What the host can reach: a name, and the kind and the name of the thing behind it. -/
structure Export where
  name : Text
  kind : String
  reference : Text
  deriving DecidableEq, Repr

/-- A compiled program. -/
structure Module where
  valueType : ValueType := .f64
  /-- The name of the function that runs the top-level code. -/
  entry : Text := EntryStyle.script.functionName
  /-- The host's module that the log function comes from. -/
  importModule : Text := "env"
  /-- Whether there is a memory even without data. -/
  memory : Bool := false
  globals : List Global := []
  data : List Segment := []
  functions : List Func := []
  deriving DecidableEq

namespace Module

/-- The first global of a name. -/
def global? (m : Module) (name : Text) : Option Global :=
  m.globals.find? fun g => g.name == name

/-- The first function of a name. -/
def function? (m : Module) (name : Text) : Option Func :=
  m.functions.find? fun f => f.name == name

/-- The global of a name, which is added as a mutable one if there is none. -/
def addGlobal (m : Module) (name : Text) : Global × Module :=
  match m.global? name with
  | some g => (g, m)
  | none =>
    let g : Global := ⟨name, true, m.valueType⟩
    (g, { m with globals := m.globals ++ [g] })

/-- The end of the last data segment. -/
def dataSize (m : Module) : Int :=
  match m.data.getLast? with
  | some segment => segment.offset + segment.data.length
  | none => 0

/-- The offset of some bytes, which are added behind the data if no segment holds just them. -/
def addData (m : Module) (data : Bytes) : Int × Module :=
  match m.data.find? fun segment => segment.data == data with
  | some segment => (segment.offset, m)
  | none => (m.dataSize, { m with data := m.data ++ [⟨m.dataSize, data⟩] })

/-- The module with one more function. -/
def addFunction (m : Module) (f : Func) : Module :=
  { m with functions := m.functions ++ [f] }

/-- Whether a module has a memory. -/
def hasMemory (m : Module) : Bool :=
  m.memory || !m.data.isEmpty

/-- The number of pages that hold the data, and at least one. -/
def memoryPages (m : Module) : Int :=
  max 1 (-(-m.dataSize / pageSize))

/-- What the host can reach: the entry, and the memory if there is one. -/
def exports (m : Module) : List Export :=
  ⟨m.entry, "func", m.entry⟩ ::
    if m.hasMemory then [⟨memoryName, "memory", memoryName⟩] else []

end Module

end StackScript
