import StackScript.CommandLine

/-!
# The program

Reads the files that the arguments name, does what the arguments ask for, and writes what has
changed.

## Main definitions

* `main`: the program.
-/

namespace StackScript

/-- The text of a file, if it can be read. -/
def readText? (path : String) : IO (Option String) := do
  try
    return some (← IO.FS.readFile path)
  catch _ =>
    return none

/-- Whether a path leads to a directory. -/
def isDirectory (path : String) : IO Bool := do
  try
    -- only behind a directory is there a point
    let _ ← IO.FS.realPath (path ++ "/.")
    return true
  catch _ =>
    return false

/-- The paths that lead to a path, and the path itself. -/
def pathsTo (path : String) : List String :=
  let parts := pathParts path
  (List.range parts.length).map fun n => "/".intercalate (parts.take (n + 1))

/-- The files and directories that arguments name, and the directories on the way to them. -/
def namedFiles (args : List String) : IO Files := do
  let mut entries := []
  let mut directories := []
  for path in args do
    if let some text ← readText? path then
      entries := entries ++ [(path, text)]
    for way in pathsTo path do
      if ← isDirectory way then
        directories := directories ++ [way]
  return { entries := entries, directories := directories }

/-- Reports what went wrong without a message of its own. -/
def reportBreakdown : Breakdown → IO Unit
  | .failure _ | .noBytes => IO.eprintln "Error: a number or a text is not usable"
  | .file path _ => IO.eprintln s!"Error: cannot use {path}"

end StackScript

open StackScript in
/-- The program. -/
def main (args : List String) : IO UInt32 := do
  let files ← namedFiles args
  let outcome := runCommandLine files args
  for (path, text) in outcome.files.changedSince files do
    IO.FS.writeFile path text
  IO.print outcome.stdout
  IO.eprint outcome.stderr
  if outcome.exit = 2 then IO.eprintln ""
  if let some breakdown := outcome.breakdown then reportBreakdown breakdown
  return outcome.exit.toUInt32
