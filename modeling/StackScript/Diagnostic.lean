import StackScript.Text.Basic

/-!
# Diagnostics

What a failure tells its reader: a message, and the line and the file it belongs to as far as they
are known.

## Main definitions

* `Diagnostic`: a message with its place.
* `Diagnostic.render`: the message with the place in front.
-/

namespace StackScript

/-- A line number. Lines of a source text count from one. -/
abbrev Line := Int

/-- A message, with the line and the file it belongs to as far as they are known. -/
structure Diagnostic where
  message : Text
  line : Option Line := none
  file : Option String := none
  deriving DecidableEq, Repr

namespace Diagnostic

/-- The same message in a file. -/
def inFile (d : Diagnostic) (file : String) : Diagnostic :=
  { d with file := some file }

/-- The file, unless it is unknown or has an empty name. -/
def namedFile? (d : Diagnostic) : Option String :=
  d.file.filter fun name => name != ""

/-- The message with its place in front. -/
def render (d : Diagnostic) : Text :=
  match d.namedFile?, d.line with
  | some file, some line => s!"{file}:{line}: " ++ d.message
  | some file, none => s!"{file}: " ++ d.message
  | none, some line => s!"line {line}: " ++ d.message
  | none, none => d.message

end Diagnostic

end StackScript
