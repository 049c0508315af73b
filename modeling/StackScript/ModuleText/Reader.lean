import StackScript.ModuleText.Form
import StackScript.Numeral
import StackScript.Target.Module
import StackScript.Target.Opcode

/-!
# Reading modules from text

The reader takes the subset of the text format that the writer produces. The import comes first in
importance: it fixes the value type, and with it which constants belong to the module. The other
fields are taken in the order of the text.

## Main definitions

* `Form.asName`, `Form.asValueType`: the readings of single forms.
* `readInstructions`: a function body.
* `readFunction`, `readGlobal`, `readData`, `readExport`: the fields.
* `readModule`: a module.
-/

namespace StackScript

namespace Form

/-- A form as a name, which is marked by a dollar sign. -/
def asName (form : Form) : Except ReadError Text :=
  match form with
  | atom text =>
    match text.points with
    | .char '$' :: rest => .ok (.ofPoints rest)
    | _ => .error (.expectedName form.describe)
  | _ => .error (.expectedName form.describe)

/-- A form as a value type. -/
def asValueType (form : Form) : Except ReadError ValueType :=
  match form with
  | atom text =>
    match text.string?.bind ValueType.ofName? with
    | some t => .ok t
    | none => .error (.unknownValueType form.describe)
  | _ => .error (.unknownValueType form.describe)

end Form

/-- An atom as a number, a float or an integer. -/
def readNumber (float : Bool) (atom : Text) : Except ReadError Datum :=
  let number : Option Datum := do
    let numeral ← atom.string?
    if float then (Numeral.real? numeral).map .real
    else if Numeral.isBare numeral then (Numeral.integer? numeral).map .int
    else none
  match number with
  | some d => .ok d
  | none => .error (.invalidNumber (quoted atom))

/-! ### Function bodies -/

/-- The constants of all types, by mnemonic. -/
def constMnemonics : List (Text × ValueType) :=
  ValueType.all.map fun t => (t.mnemonic "const", t)

/-- The mnemonics whose immediate is a name. -/
def namedMnemonics : List Text :=
  ["local.get", "local.set", "local.tee", "global.get", "global.set"]

/-- Whether an immediate follows a mnemonic. -/
def takesImmediate (mnemonic : Text) : Bool :=
  mnemonic == "call" || namedMnemonics.contains mnemonic ||
    (constMnemonics.lookup mnemonic).isSome

/-- An instruction that has an immediate, in a module of a value type. -/
def readImmediate (t : ValueType) (mnemonic atom : Text) : Except ReadError Instr :=
  if mnemonic = "call" then do return .call (← (Form.atom atom).asName)
  else match constMnemonics.lookup mnemonic with
    | some u => do
      let number ← readNumber u.isFloat atom
      -- a constant of another type keeps its mnemonic
      return if u = t then .const number else .plain mnemonic number
    | none => do return .named mnemonic (← (Form.atom atom).asName)

mutual

/-- The instructions that a list of forms writes. -/
def readInstructions (t : ValueType) : List Form → Except ReadError (List Instr)
  | [] => .ok []
  | .list items :: rest => do
    let first ← readConditional t items
    let others ← readInstructions t rest
    return first ++ others
  | .string _ :: _ => .error .stringInBody
  | .atom mnemonic :: rest =>
    if takesImmediate mnemonic then
      match rest with
      | .atom immediate :: rest => do
        let first ← readImmediate t mnemonic immediate
        let others ← readInstructions t rest
        return first :: others
      | _ => .error (.missingImmediate mnemonic)
    else do
      let others ← readInstructions t rest
      return .bare mnemonic :: others

/-- The instructions of a conditional, with or without a second part. -/
def readConditional (t : ValueType) : List Form → Except ReadError (List Instr)
  | [.atom head, .list (.atom first :: body)] =>
    if head = "if" && first = "then" then do
      let body ← readInstructions t body
      return .openIf :: body ++ [.closeIf]
    else .error (.unsupportedFold (some head))
  | [.atom head, .list (.atom first :: body), .list (.atom second :: otherwise)] =>
    if head = "if" && first = "then" then do
      let body ← readInstructions t body
      if second = "else" then
        let otherwise ← readInstructions t otherwise
        return .openIf :: body ++ .openElse :: otherwise ++ [.closeIf]
      else .error .expectedElse
    else .error (.unsupportedFold (some head))
  | [.atom head, .list (.atom first :: body), _] =>
    if head = "if" && first = "then" then do
      -- a fault in the first part counts before that of the second
      let _ ← readInstructions t body
      .error .expectedElse
    else .error (.unsupportedFold (some head))
  | items => .error (.unsupportedFold (Form.headOf? items))

end

/-! ### Fields -/

/-- The form after the first word of a list. -/
def firstElement : List Form → Except ReadError Form
  | form :: _ => .ok form
  | [] => .error .missingElement

/-- Reads the headings of a function, its parameters, result and locals, and then its body. -/
def readHeadings (t : ValueType) (f : Func) : List Form → Except ReadError Func
  | .list (.atom head :: elements) :: rest =>
    if head = "param" then do
      let name ← (← firstElement elements).asName
      readHeadings t { f with params := f.params ++ [name] } rest
    else if head = "result" then do
      let result ← (← firstElement elements).asValueType
      readHeadings t { f with result := some result } rest
    else if head = "local" then do
      let name ← (← firstElement elements).asName
      readHeadings t { f with locals := f.locals ++ [name] } rest
    else do
      let body ← readInstructions t (.list (.atom head :: elements) :: rest)
      return { f with body := body }
  | items => do
    let body ← readInstructions t items
    return { f with body := body }

/-- Reads a function from the forms after its first word. -/
def readFunction (t : ValueType) : List Form → Except ReadError Func
  | [] => .error .unnamedFunction
  | name :: rest => do
    let name ← name.asName
    readHeadings t { name := name } rest

/-- Reads a global from the forms after its first word. Its first value does not matter. -/
def readGlobal : List Form → Except ReadError Global
  | [name, type, _] => do
    let name ← name.asName
    match type with
    | .list (.atom (.plain "mut") :: elements) =>
      let type ← (← firstElement elements).asValueType
      return ⟨name, true, type⟩
    | _ =>
      let type ← type.asValueType
      return ⟨name, false, type⟩
  | _ => .error .malformedGlobal

/-- Reads a data segment from the forms after its first word. -/
def readData : List Form → Except ReadError Segment
  | [.list [.atom (.plain "i32.const"), offset], .string data] =>
    match offset with
    | .atom text => do
      match ← readNumber false text with
      | .int offset => return ⟨offset, data⟩
      | _ => .error .offsetNotAtom
    | _ => .error .offsetNotAtom
  | _ => .error .malformedData

/-- Reads an export from the forms after its first word. Only a function matters; it becomes the
entry. -/
def readExport (m : Module) : List Form → Except ReadError Module
  | [.string _, .list [kind, reference]] =>
    match Form.headOf? [kind] with
    | some (.plain "func") => do return { m with entry := ← reference.asName }
    | some (.plain "memory") => .ok m
    | head => .error (.unsupportedExport head)
  | _ => .error .malformedExport

/-- Reads a field other than the import into a module. -/
def readField (m : Module) (field : Form) : Except ReadError Module :=
  match field with
  | .list (.atom head :: elements) =>
    match head with
    | .plain "import" => .ok m
    | .plain "memory" => .ok { m with memory := true }
    | .plain "global" => do return { m with globals := m.globals ++ [← readGlobal elements] }
    | .plain "data" => do return { m with data := m.data ++ [← readData elements] }
    | .plain "func" => do
      return { m with functions := m.functions ++ [← readFunction m.valueType elements] }
    | .plain "export" => readExport m elements
    | _ => .error (.unsupportedField (some head))
  | _ => .error (.unsupportedField none)

/-- Reads fields in order. -/
def readFields (m : Module) : List Form → Except ReadError Module
  | [] => .ok m
  | field :: rest => do
    let m ← readField m field
    readFields m rest

/-- The parts of a log import: the name of the host's module and the forms of the function's type.
-/
def logImport? : Form → Option (Bytes × List Form)
  | .list [_, .string host, .string function, .list (.atom (.plain "func") :: elements)] =>
    if function = utf8 logFunction then some (host, elements.drop 1) else none
  | _ => none

/-- Reads the first import of a module, which fixes its value type. -/
def readImport (fields : List Form) : Except ReadError Module :=
  match fields.find? fun field => field.head? == some (.plain "import") with
  | none => .error .missingImport
  | some field =>
    match logImport? field with
    | none => .error .unsupportedImport
    | some (host, elements) =>
      match elements.filter fun form => form.head? == some (.plain "param") with
      | [.list [_, type]] => do
        let type ← type.asValueType
        match ofUtf8? host with
        | some name => return { valueType := type, importModule := name }
        | none => .error .importNameNotUtf8
      | _ => .error .importParameters

/-- Reads a module from forms. Data implies a memory, so only a memory without data is kept as one
that was asked for. -/
def moduleOfForms : List Form → Except ReadError Module
  | [.list (.atom (.plain "module") :: fields)] => do
    let m ← readFields (← readImport fields) fields
    return { m with memory := m.memory && m.data.isEmpty }
  | _ => .error .expectedModule

/-- Reads a module from text. -/
def readModule (text : Text) : Except ReadError Module := do
  moduleOfForms (← formsOf (← tokenizeText text))

end StackScript
