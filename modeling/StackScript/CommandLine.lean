import StackScript.Files
import StackScript.Script
import StackScript.Source.Outline
import StackScript.Text.ControlSequence
import StackScript.Text.Similarity

/-!
# The command line

The arguments are read from left to right into options and names of files. Then the values of the
options are checked in the order in which the options first appear, then the file, and last whether
the whole makes sense. Of an option that is given more than once the last value counts. A long name
that is no option is reported with the options that are spelt like it.

What a command line does is a function of its arguments and the files around it. What it prints is
meant for files as well as for terminals, so control sequences are left out of it; events are told
as they are.

## Main definitions

* `CliOption`: the options.
* `UsageError`: what is wrong with arguments.
* `suggestions`: the options that are spelt like a name.
* `readArguments`: the options and the names in arguments.
* `Invocation`: what is to be done.
* `Refusal`: why nothing is done.
* `Outcome`, `runCommandLine`: what a command line does.
-/

namespace StackScript

/-- The options. -/
inductive CliOption where
  | source | valueType | entry | memory | run | ast | output | verbose | version | help
  deriving DecidableEq, Repr

namespace CliOption

/-- The options by their long names. -/
def longNames : List (String × CliOption) :=
  [("--source", source), ("--value-type", valueType), ("--entry", entry), ("--memory", memory),
    ("--run", run), ("--ast", ast), ("--output", output), ("--verbose", verbose),
    ("--version", version), ("--help", help)]

/-- The options by their letters. -/
def letters : List (Char × CliOption) :=
  [('e', source), ('o', output), ('v', verbose)]

/-- Whether a value follows an option. -/
def takesValue : CliOption → Bool
  | source | valueType | entry | output => true
  | memory | run | ast | verbose | version | help => false

end CliOption

/-- The long names of the options that are spelt like a name: at most three, in order, of which at
least three fifths agree with it. -/
def suggestions (name : String) : List String :=
  closest ⟨3, 5⟩ 3 name (CliOption.longNames.map Prod.fst)

/-- What is wrong with arguments. -/
inductive UsageError where
  | missingValue (option : String)
  | unwantedValue (option : String)
  /-- A name is no option; there may be options that are spelt like it. -/
  | unknownOption (option : String) (suggestions : List String)
  /-- A value is not among those that an option takes. -/
  | notAChoice (option value : String) (choices : List String)
  | noFile (path : String)
  | isDirectory (parameter path : String)
  | extraArguments (arguments : List String)
  /-- There must be a file or a source, and not both. -/
  | notOneSource
  deriving DecidableEq, Repr

/-- How a usage error is put. -/
def UsageError.message : UsageError → String
  | missingValue option => s!"Option {quoted option} requires an argument."
  | unwantedValue option => s!"Option {quoted option} does not take a value."
  | unknownOption option similar =>
    let report := s!"No such option {quoted option}."
    let list := ", ".intercalate (similar.map fun name => quoted (.plain name))
    match similar with
    | [] => report
    | [_] => s!"{report} Did you mean {list}?"
    | _ => s!"{report} (Did you mean one of: {list}?)"
  | notAChoice option value choices =>
    let list := ", ".intercalate (choices.map fun name => quoted (.plain name))
    s!"Invalid value for '{option}': {quoted value} is not one of {list}."
  | noFile path => s!"Invalid value for '[INPUT_FILE]': File {quoted path} does not exist."
  | isDirectory parameter path =>
    s!"Invalid value for {parameter}: File {quoted path} is a directory."
  | extraArguments arguments =>
    let noun := if arguments.length = 1 then "argument" else "arguments"
    let list := " ".intercalate arguments
    s!"Got unexpected extra {noun} ({list})"
  | notOneSource => "Give exactly one of INPUT_FILE or -e SOURCE"

/-! ### Arguments -/

/-- The options in arguments, with their values, and the other arguments, both in order. -/
structure Arguments where
  options : List (CliOption × String) := []
  names : List String := []

namespace Arguments

/-- The arguments with one more option in front. -/
def addOption (option : CliOption) (value : String) (arguments : Arguments) : Arguments :=
  { arguments with options := (option, value) :: arguments.options }

/-- The last value of an option. -/
def value? (arguments : Arguments) (option : CliOption) : Option String :=
  (arguments.options.reverse.find? fun entry => entry.1 == option).map Prod.snd

/-- Whether an option is given. -/
def has (arguments : Arguments) (option : CliOption) : Bool :=
  (arguments.value? option).isSome

/-- The options that are given, in the order in which they first appear. -/
def given (arguments : Arguments) : List CliOption :=
  arguments.options.foldl
    (fun seen entry => if seen.contains entry.1 then seen else seen ++ [entry.1]) []

end Arguments

/-- The options in a cluster of letters, and the value that the last of them takes from the cluster.
A letter that takes a value takes the rest of the cluster, or the next argument if nothing is
left. -/
def readCluster :
    List Char → Except UsageError (List CliOption × Option (CliOption × String × List Char))
  | [] => .ok ([], none)
  | letter :: rest =>
    let name := String.ofList ['-', letter]
    match CliOption.letters.lookup letter with
    | none => .error (.unknownOption name [])
    | some option =>
      if option.takesValue then .ok ([], some (option, name, rest))
      else do
        let (options, last) ← readCluster rest
        return (option :: options, last)

/-- A long option with the value that an equals sign attaches to it. -/
def splitLong (argument : List Char) : String × Option String :=
  let name := String.ofList (argument.takeWhile (· != '='))
  match argument.dropWhile (· != '=') with
  | [] => (name, none)
  | _ :: value => (name, some (String.ofList value))

/-- Reads arguments from left to right. -/
def readArguments : List String → Except UsageError Arguments
  | [] => .ok {}
  | argument :: rest =>
    match argument.toList with
    | ['-', '-'] => .ok { names := rest }
    | '-' :: letter :: letters =>
      let (name, attached) := splitLong argument.toList
      match CliOption.longNames.lookup name with
      | some option =>
        if option.takesValue then
          match attached with
          | some value => do return (← readArguments rest).addOption option value
          | none =>
            match rest with
            | value :: rest => do return (← readArguments rest).addOption option value
            | [] => .error (.missingValue name)
        else if attached.isSome then .error (.unwantedValue name)
        else do return (← readArguments rest).addOption option ""
      | none =>
        if letter = '-' then .error (.unknownOption name (suggestions name))
        else do
          let (flags, last) ← readCluster (letter :: letters)
          let addFlags (arguments : Arguments) : Arguments :=
            flags.foldr (fun option arguments => arguments.addOption option "") arguments
          match last with
          | none => return addFlags (← readArguments rest)
          | some (option, name, []) =>
            match rest with
            | value :: rest =>
              return addFlags ((← readArguments rest).addOption option value)
            | [] => throw (.missingValue name)
          | some (option, _, value) =>
            return addFlags ((← readArguments rest).addOption option (String.ofList value))
    | _ => do
      let others ← readArguments rest
      return { others with names := argument :: others.names }

/-! ### What is to be done -/

/-- Where the source comes from. -/
inductive Input where
  | file (path text : String)
  | inline (source : String)

/-- The name of an input in messages. -/
def Input.name : Input → String
  | file path _ => normalPath path
  | inline _ => "<string>"

/-- The source of an input. -/
def Input.source : Input → String
  | file _ text => text
  | inline source => source

/-- What is to be done. -/
structure Invocation where
  input : Input
  options : Options
  run : Bool
  ast : Bool
  output : Option String
  verbose : Bool

/-- What goes wrong without a message. -/
inductive Breakdown where
  | failure (failure : Failure)
  | file (path : String) (error : FileError)
  /-- A text with a lone surrogate is to be printed. -/
  | noBytes

/-- Why nothing is done. -/
inductive Refusal where
  | usage (error : UsageError)
  | breakdown (breakdown : Breakdown)

/-- What a path leads to, if anything. Only a path that can be no name at all is refused. -/
def lookUp (files : Files) (path : String) : Except Refusal (Option Found) :=
  match files.look path with
  | .ok found => .ok (some found)
  | .error .zeroCharacter => .error (.breakdown (.file path .zeroCharacter))
  | .error _ => .ok none

/-- Checks the value of an option. -/
def checkOption (files : Files) (arguments : Arguments) (option : CliOption) :
    Except Refusal Unit :=
  let value := (arguments.value? option).getD ""
  match option with
  | .valueType =>
    if (ValueType.ofName? value).isSome then .ok ()
    else .error (.usage (.notAChoice "--value-type" value (ValueType.all.map ValueType.name)))
  | .entry =>
    if (EntryStyle.ofName? value).isSome then .ok ()
    else .error (.usage (.notAChoice "--entry" value (EntryStyle.all.map EntryStyle.functionName)))
  | .output => do
    if let some .directory := ← lookUp files value then
      throw (.usage (.isDirectory "'-o' / '--output'" value))
  | _ => .ok ()

/-- Checks the values of options in order. -/
def checkOptions (files : Files) (arguments : Arguments) :
    List CliOption → Except Refusal Unit
  | [] => .ok ()
  | option :: rest => do
    checkOption files arguments option
    checkOptions files arguments rest

/-- The input file among the names, which must exist. -/
def inputFile (files : Files) : List String → Except Refusal (Option Input)
  | [] => .ok none
  | path :: _ => do
    match ← lookUp files path with
    | some (.file _ text) => return some (.file path (unifyNewlines text))
    | some .directory => throw (.usage (.isDirectory "'[INPUT_FILE]'" path))
    | _ => throw (.usage (.noFile path))

/-- What arguments ask for. -/
def invocation (files : Files) (arguments : Arguments) : Except Refusal Invocation := do
  checkOptions files arguments arguments.given
  let file ← inputFile files arguments.names
  -- a file that does not exist is reported before a name too many
  if 1 < arguments.names.length then
    throw (.usage (.extraArguments (arguments.names.drop 1)))
  let input ← match file, arguments.value? .source with
    | some input, none => pure input
    | none, some source => pure (.inline source)
    | _, _ => throw (.usage .notOneSource)
  return {
    input := input
    options := {
      valueType := ((arguments.value? .valueType).bind ValueType.ofName?).getD .f64
      entry := ((arguments.value? .entry).bind EntryStyle.ofName?).getD .script
      memory := arguments.has .memory }
    run := arguments.has .run
    ast := arguments.has .ast
    output := arguments.value? .output
    verbose := arguments.has .verbose }

/-! ### What is done -/

/-- What a command line does: its exit code, what it prints, and the files after it. -/
structure Outcome where
  exit : Nat
  stdout : String := ""
  stderr : String := ""
  files : Files
  breakdown : Option Breakdown := none

/-- Lines, each with its end. -/
def joinLines (lines : List String) : String :=
  String.join (lines.map (· ++ "\n"))

/-- The text of `--version`. -/
def versionText : String := "teal, version 0.1.0\n"

/-- The text of `--help`. -/
def helpText : String :=
  joinLines ["Usage: teal [OPTIONS] [INPUT_FILE]", "",
    "  -e, --source SOURCE             compile SOURCE instead of a file",
    "  --value-type [i32|i64|f32|f64]  the type of every value",
    "  --entry [main|init]             whether the last value is returned",
    "  --memory                        always declare a memory",
    "  --run                           run the module and print what it logs",
    "  --ast                           print an outline of the program",
    "  -o, --output FILE               write the module text to FILE",
    "  -v, --verbose                   tell what happens",
    "  --version                       print the version",
    "  --help                          print this text"]

namespace Invocation

/-- The outcome of a problem after some events. -/
def stop (i : Invocation) (files : Files) (told : String) (problem : Problem) : Outcome :=
  match (problem.orInFile i.input.name).diagnostic? with
  | some d => { exit := 1, stderr := told ++ plainText (d.render.escaped ++ "\n"), files := files }
  | none =>
    { exit := 1, stderr := told, files := files, breakdown := some (.failure problem.failure) }

/-- Events as they are printed, if they are asked for. -/
def tell (i : Invocation) (events : List Event) : String :=
  if i.verbose then joinLines (events.map fun event => event.render.escaped) else ""

/-- Prints an outline of the program. -/
def printOutline (i : Invocation) (files : Files) : Outcome :=
  match parseSource i.input.source with
  | .error e => i.stop files "" { failure := e }
  | .ok program =>
    { exit := 0, stdout := plainText (program.outline ++ "\n"), files := files }

/-- Runs a script and prints what it logs and returns. -/
def runScript (i : Invocation) (files : Files) (events : List Event) (script : Script) : Outcome :=
  let run := script.execute 0
  let told := i.tell (events ++ run.events)
  match run.result with
  | .error e => i.stop files told { failure := e }
  | .ok result =>
    let last := result.toList.map fun d => "=> " ++ d.display.escaped
    let printed := plainText (joinLines (run.lines ++ last))
    { exit := 0, stdout := printed, stderr := told, files := files }

/-- Writes the text of a script to a file, or prints it. -/
def writeScript (i : Invocation) (files : Files) (events : List Event) (script : Script) :
    Outcome :=
  let told := i.tell events
  match script.text.map Text.string? with
  | .error e => i.stop files told { failure := e }
  | .ok none => { exit := 1, stderr := told, files := files, breakdown := some .noBytes }
  | .ok (some text) =>
    match i.output with
    | none => { exit := 0, stdout := plainText text, stderr := told, files := files }
    | some path =>
      let path := normalPath path
      match files.write path text with
      | .error e =>
        { exit := 1, stderr := told, files := files, breakdown := some (.file path e) }
      | .ok files =>
        let report := if i.verbose then s!"Compiled {i.input.name} -> {path}\n" else ""
        { exit := 0, stdout := plainText report, stderr := told, files := files }

/-- Does what is asked. -/
def perform (i : Invocation) (files : Files) : Outcome :=
  if i.ast then i.printOutline files
  else
    let compiled := compileScript i.options i.input.source (some i.input.name)
    match compiled.result with
    | .error problem => i.stop files (i.tell compiled.events) problem
    | .ok script =>
      if i.run then i.runScript files compiled.events script
      else i.writeScript files compiled.events script

end Invocation

/-- The outcome of a usage error. -/
def usageOutcome (files : Files) (error : UsageError) : Outcome :=
  { exit := 2, stderr := plainText ("Error: " ++ error.message), files := files }

/-- What a command line does among some files. -/
def runCommandLine (files : Files) (args : List String) : Outcome :=
  match readArguments args with
  | .error e => usageOutcome files e
  | .ok arguments =>
    -- these two answer before any value is checked
    match arguments.given.find? fun option => option == .version || option == .help with
    | some .version => { exit := 0, stdout := versionText, files := files }
    | some _ => { exit := 0, stdout := helpText, files := files }
    | none =>
      match invocation files arguments with
      | .error (.usage e) => usageOutcome files e
      | .error (.breakdown b) => { exit := 1, files := files, breakdown := some b }
      | .ok i => i.perform files

end StackScript
