import StackScript.Lowering.CompileError
import StackScript.Machine.Trap
import StackScript.ModuleText.Number
import StackScript.ModuleText.ReadError
import StackScript.Source.Parser
import StackScript.Source.Scanner

/-!
# Failures of all stages

## Main definitions

* `Failure`: a failure of some stage.
* `Problem`: a failure in a file.
* `Problem.diagnostic?`: what a reader is told.
-/

namespace StackScript

/-- A failure on the way from a source to the end of its run. -/
inductive Failure where
  | lex (error : LexError)
  | parse (error : ParseError)
  | compile (error : CompileError)
  | write (error : WriteError)
  | read (error : ReadError)
  | trap (trap : Trap)

/-- What a failure tells its reader, if there are words for it. -/
def Failure.diagnostic? : Failure → Option Diagnostic
  | lex e => some e.diagnostic
  | parse e => e.diagnostic?
  | compile e => e.diagnostic?
  | write _ => none
  | read e => e.diagnostic?
  | trap t => t.diagnostic?

/-- A failure, and the file it arose in if that is known. -/
structure Problem where
  failure : Failure
  file : Option String := none

namespace Problem

/-- What a problem tells its reader, if there are words for it. -/
def diagnostic? (problem : Problem) : Option Diagnostic :=
  problem.failure.diagnostic?.map fun d => { d with file := problem.file }

/-- The problem in a file, unless its file is known already. -/
def orInFile (problem : Problem) (file : String) : Problem :=
  { problem with file := some (problem.file.getD file) }

end Problem

end StackScript
