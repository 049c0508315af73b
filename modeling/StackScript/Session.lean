import StackScript.Files
import StackScript.Script

/-!
# Sessions

A session keeps options, files, scripts by name and a log that its scripts share. A command that
fails leaves the scripts and the files as they were, except that a file is opened before its text is
there to be written. What a failed run has logged stays in the log.

## Main definitions

* `Session`: the state.
* `Command`, `Reply`, `SessionError`: what a session is asked, and what it answers.
* `Session.perform`: a command.
-/

namespace StackScript

/-- The state of a session. -/
structure Session where
  options : Options := {}
  files : Files := {}
  scripts : List (String × Script) := []
  /-- The lines that have been logged, in order. -/
  lines : List String := []

/-- What a session is asked to do. -/
inductive Command where
  /-- Compiles a source and keeps it under a name. -/
  | compile (id source : String) (file : Option String)
  /-- Compiles a file and keeps it under a name. -/
  | compileFile (id path : String)
  /-- The module text of a file. -/
  | textOfFile (path : String)
  | execute (id : String)
  | save (id path : String)
  | load (id path : String)
  /-- Whether two scripts have the same module. -/
  | same (first second : String)
  /-- Runs a source with a log of its own. -/
  | run (source : String)
  | setOptions (options : Options)
  | clear

/-- What a session answers. -/
inductive Reply where
  | script (script : Script) (text : Text)
  | text (text : Text)
  | same (equal : Bool)
  | ran (lines : List String) (result : Option Datum)
  | done

/-- Why a session cannot do what it is asked. -/
inductive SessionError where
  | problem (problem : Problem)
  | noScript (id : String)
  | file (path : String) (error : FileError)

namespace Session

/-- The script of a name. -/
def script (session : Session) (id : String) : Except SessionError Script :=
  match session.scripts.lookup id with
  | some script => .ok script
  | none => .error (.noScript id)

/-- The text of a file. -/
def fileText (session : Session) (path : String) : Except SessionError String :=
  match session.files.read path with
  | .ok text => .ok text
  | .error e => .error (.file path e)

/-- The session with a script under a name. -/
def keep (session : Session) (id : String) (script : Script) : Session :=
  { session with scripts := (id, script) :: session.scripts.filter fun entry => entry.1 != id }

/-- A result of compiling or running as one of a session. -/
def lift {α : Type} : Except Failure α → Except SessionError α
  | .ok a => .ok a
  | .error e => .error (.problem { failure := e })

/-- Compiles a source with the session's options. -/
def compiled (session : Session) (source : String) (file : Option String) :
    Except SessionError Script :=
  match (compileScript session.options source file).result with
  | .ok script => .ok script
  | .error problem => .error (.problem problem)

/-- Keeps a script and answers with it and its text. -/
def keepScript (session : Session) (id : String) (script : Script) :
    Except SessionError (Reply × Session) := do
  return (.script script (← lift script.text), session.keep id script)

/-- Whether the scripts of two names have the same module. A script is the same as itself. -/
def sameScripts (session : Session) (first second : String) : Except SessionError Bool := do
  let a ← session.script first
  let b ← session.script second
  return first == second || a.module.same b.module

/-- Runs a kept script into the session's log. -/
def execute (session : Session) (id : String) : Except SessionError Reply × Session :=
  match session.script id with
  | .error e => (.error e, session)
  | .ok script =>
    let run := script.execute session.lines.length
    let session := { session with lines := session.lines ++ run.lines }
    (lift run.result |>.map (.ran run.lines), session)

/-- What is written to a file for a script. A text with a lone surrogate cannot be written. -/
def fileContent (script : Script) (path : String) : Except SessionError String := do
  match (← lift script.text).string? with
  | some text => return text
  | none => throw (.file path .noBytes)

/-- Writes a kept script to a file. The file is opened first, so that it is empty if there is no
content for it. -/
def save (session : Session) (id path : String) : Except SessionError Reply × Session :=
  match session.script id with
  | .error e => (.error e, session)
  | .ok script =>
    let content := fileContent script path
    match session.files.write path (content.toOption.getD "") with
    | .error e => (.error (.file path e), session)
    | .ok files => (content.map fun _ => .done, { session with files := files })

/-- An answer with the session after it; a failure leaves the session as it is. -/
def settle (session : Session) (answer : Except SessionError (Reply × Session)) :
    Except SessionError Reply × Session :=
  match answer with
  | .ok (reply, session) => (.ok reply, session)
  | .error e => (.error e, session)

/-- Performs a command. -/
def perform (session : Session) : Command → Except SessionError Reply × Session
  | .execute id => session.execute id
  | .compile id source file => session.settle do
    session.keepScript id (← session.compiled source file)
  | .compileFile id path => session.settle do
    let source ← session.fileText path
    session.keepScript id (← session.compiled source (some path))
  | .textOfFile path => session.settle do
    let source ← session.fileText path
    return (.text (← lift (compileText session.options source)), session)
  | .save id path => session.save id path
  | .load id path => session.settle do
    let text ← session.fileText path
    session.keepScript id (← lift (Script.ofText text path))
  | .same first second => session.settle do
    return (.same (← session.sameScripts first second), session)
  | .run source => session.settle do
    let script ← session.compiled source none
    let run := script.execute 0
    return (.ran run.lines (← lift run.result), session)
  | .setOptions options => (.ok .done, { session with options := options })
  | .clear => (.ok .done, { session with lines := [] })

end Session

end StackScript
