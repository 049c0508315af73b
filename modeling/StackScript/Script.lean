import StackScript.Failure
import StackScript.Lowering.Generate
import StackScript.Machine.Instance
import StackScript.ModuleText.Reader
import StackScript.ModuleText.Writer

/-!
# Scripts

A script is a compiled source. It is run from its text, as a host would run it: the module is
written, read back, and made to run on a host that logs every value. What happens on the way is told
as events.

## Main definitions

* `Event`: what is told on the way.
* `parseSource`, `compileModule`, `compileText`: from source to program, module and text.
* `Script`, `compileScript`: a compiled source.
* `Script.execute`: a run of a script.
* `Module.same`: equality of modules, where numbers count by their value.
-/

namespace StackScript

/-! ### Events -/

/-- What happens while a source is compiled and run. -/
inductive Event where
  | functionAdded (f : Func)
  | moduleGenerated (globals functions segments : Nat)
  | compiled (file : Option String) (tokens : Nat)
  | invoking (function : Text) (args : Nat)
  | ran (function : Text) (lines : Nat)

/-- The name of a source in an event. -/
def sourceName (file : Option String) : String :=
  match file with
  | some "" | none => "<source>"
  | some name => name

/-- An event as it is told: its level, the part that tells it, and what it says. -/
def Event.render : Event → Text
  | functionAdded f =>
    "DEBUG teal.codegen: Added function '" ++ f.name ++ s!"' ({f.params.length} params, " ++
      s!"{f.locals.length} locals, {f.body.length} instructions)"
  | moduleGenerated globals functions segments =>
    s!"DEBUG teal.codegen: Generated module: {globals} globals, {functions} functions, " ++
      s!"{segments} data segments"
  | compiled file tokens =>
    s!"DEBUG teal_api.context: Compiled {sourceName file}: {tokens} tokens"
  | invoking function args =>
    "DEBUG teal_api.interpreter: Invoking '" ++ function ++ s!"' with {args} argument(s)"
  | ran function lines =>
    "INFO teal_api.context: Ran '" ++ function ++ s!"': {lines} line(s) logged"

/-- The events of compiling a program: its functions as they are completed, and the module. -/
def Generation.events (generation : Generation) : List Event :=
  match generation.result with
  | .ok m =>
    m.functions.dropLast.map .functionAdded ++
      [.moduleGenerated m.globals.length m.functions.length m.data.length]
  | .error _ => generation.functions.map .functionAdded

/-! ### Sources -/

/-- The tokens and the program of a source. -/
def readSource (source : String) : Except Failure (List Token × Program) :=
  match tokenize source with
  | .error e => .error (.lex e)
  | .ok tokens =>
    match parseProgram tokens with
    | .error e => .error (.parse e.error)
    | .ok parsed => .ok (tokens, parsed.value)

/-- The program of a source. -/
def parseSource (source : String) : Except Failure Program :=
  (readSource source).map Prod.snd

/-- The module of a program. -/
def generateModule (options : Options) (program : Program) : Except Failure Module :=
  match (generate options program).result with
  | .error e => .error (.compile e)
  | .ok m => .ok m

/-- The module of a source. -/
def compileModule (options : Options) (source : String) : Except Failure Module := do
  generateModule options (← parseSource source)

/-- The text of a module. -/
def moduleText (m : Module) : Except Failure Text :=
  match writeModule m with
  | .error e => .error (.write e)
  | .ok text => .ok text

/-- The module of a text. -/
def moduleOfText (text : Text) : Except Failure Module :=
  match readModule text with
  | .error e => .error (.read e)
  | .ok m => .ok m

/-- The module text of a source. -/
def compileText (options : Options) (source : String) : Except Failure Text := do
  moduleText (← compileModule options source)

/-! ### Scripts -/

/-- A compiled source. -/
structure Script where
  source : String
  module : Module
  file : Option String := none

/-- An outcome with the events that led to it. -/
structure Told (α : Type) where
  events : List Event
  result : Except Problem α

/-- Compiles a source, which may come from a file. -/
def compileScript (options : Options) (source : String) (file : Option String) : Told Script :=
  match readSource source with
  | .error e => ⟨[], .error ⟨e, file⟩⟩
  | .ok (tokens, program) =>
    let generation := generate options program
    match generation.result with
    | .error e => ⟨generation.events, .error ⟨.compile e, file⟩⟩
    | .ok m => ⟨generation.events ++ [.compiled file tokens.length], .ok ⟨source, m, file⟩⟩

/-- A run: the events, the lines that were logged, and the result. -/
structure Run where
  events : List Event
  lines : List String
  result : Except Failure (Option Datum)

/-- Runs the entry of a module. `before` is the number of lines that the log holds already. -/
def runEntry (m : Module) (before : Nat) : Run :=
  match instantiate m (some Host.accepting) with
  | .error trap => ⟨[], [], .error (.trap trap)⟩
  | .ok (inst, store) =>
    match inst.prepare m.entry [] with
    | .error trap => ⟨[], [], .error (.trap trap)⟩
    | .ok _ =>
      let (result, final) := inst.invoke store m.entry []
      let lines := final.log.map Value.logText
      let start := Event.invoking m.entry 0
      match result with
      | .error trap => ⟨[start], lines, .error (.trap trap)⟩
      | .ok v => ⟨[start, .ran m.entry (before + lines.length)], lines, .ok (v.map Value.toDatum)⟩

namespace Script

/-- The module text of a script. -/
def text (script : Script) : Except Failure Text :=
  moduleText script.module

/-- The module of a script, read back from its text. -/
def reread (script : Script) : Except Failure Module := do
  moduleOfText (← script.text)

/-- Runs a script. `before` is the number of lines that the log holds already. -/
def execute (script : Script) (before : Nat) : Run :=
  match script.reread with
  | .error e => ⟨[], [], .error e⟩
  | .ok m => runEntry m before

/-- The script of a module text that was read from a file. -/
def ofText (text file : String) : Except Failure Script := do
  return ⟨"", ← moduleOfText text, some file⟩

end Script

/-! ### Equality -/

/-- Equality of instructions, where numbers count by their value. -/
def Instr.same : Instr → Instr → Bool
  | .const a, .const b => a.sameNumber b
  | .plain m a, .plain n b => m == n && a.sameNumber b
  | a, b => a == b

/-- Equality of lists, element by element. -/
def sameList {α : Type} (same : α → α → Bool) : List α → List α → Bool
  | [], [] => true
  | a :: as, b :: bs => same a b && sameList same as bs
  | _, _ => false

/-- Equality of functions, where numbers count by their value. -/
def Func.same (f g : Func) : Bool :=
  f.name == g.name && f.params == g.params && f.result == g.result && f.locals == g.locals &&
    sameList Instr.same f.body g.body

/-- Equality of modules, where numbers count by their value. -/
def Module.same (m n : Module) : Bool :=
  m.valueType == n.valueType && m.entry == n.entry && m.importModule == n.importModule &&
    m.memory == n.memory && m.globals == n.globals && m.data == n.data &&
    sameList Func.same m.functions n.functions

end StackScript
