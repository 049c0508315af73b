import StackScript.Text.Newline
import StackScript.Text.Utf8

/-!
# Files of a directory

Text files are known by their paths below one directory. A path is followed part by part: an empty
part and a single point stay where they are, two points go back, and every part but the last must
lead to a directory. A slash at the end asks for a directory.

## Main definitions

* `FileError`: why a path cannot be read from or written to.
* `Place`, `placeOf`: where a path leads to, if every part of it exists.
* `normalPath`: a path without the parts that stay where they are.
* `Files`: text files by path.
* `Files.enter`, `Files.find`, `Files.look`: what a path leads to.
* `Files.read`, `Files.write`: reading and writing a file.
* `Files.changedSince`: the files that differ from earlier ones.
-/

namespace StackScript

/-- Why a path cannot be read from or a text written to it. -/
inductive FileError where
  /-- Nothing is there. -/
  | notFound
  /-- It leads to a directory, or asks for one by a slash at its end. -/
  | isDirectory
  /-- It goes on behind a file. -/
  | notDirectory
  /-- It or one of its parts has too many bytes. -/
  | tooLong
  /-- It holds the character zero, which no name may hold. -/
  | zeroCharacter
  /-- The text to be written has a lone surrogate, for which there are no bytes. -/
  | noBytes
  deriving DecidableEq, Repr

/-! ### Paths -/

/-- The parts of a path between its slashes. -/
def pathParts (path : String) : List String :=
  (path.toList.splitOn '/').map String.ofList

/-- Whether a part of a path stays where it is. -/
def staysHere (part : String) : Bool :=
  part == "" || part == "."

/-- Whether a path starts at the root of all directories. -/
def isAbsolute (path : String) : Bool :=
  path.toList.head? == some '/'

/-- A path without the parts that stay where they are. -/
def normalPath (path : String) : String :=
  let parts := "/".intercalate ((pathParts path).filter fun part => !staysHere part)
  if isAbsolute path then "/" ++ parts else if parts == "" then "." else parts

/-- The greatest number of bytes in a part of a path. -/
def maxPartBytes : Nat := 255

/-- The greatest number of bytes in a path. -/
def maxPathBytes : Nat := 4095

/-- Checks that a path can lead anywhere at all. -/
def checkPath (path : String) : Except FileError Unit :=
  if path.toList.any fun c => c.toNat == 0 then .error .zeroCharacter
  else if path == "" then .error .notFound
  else if maxPathBytes < (utf8 path).length then .error .tooLong
  else .ok ()

/-- A place by the names that lead to it from the directory around all files. The first is a slash
where they lead from the root. -/
abbrev Place := List String

namespace Place

/-- Where a path starts. -/
def start (path : String) : Place :=
  if isAbsolute path then ["/"] else []

/-- The directory around a place. -/
def outer (place : Place) : Place :=
  match place.getLast? with
  | none | some ".." => place ++ [".."]
  | some "/" => place
  | some _ => place.dropLast

/-- The place that a part of a path leads to. -/
def step (place : Place) (part : String) : Place :=
  if staysHere part then place
  else if part == ".." then place.outer
  else place ++ [part]

/-- A place as a path. -/
def path : Place → String
  | "/" :: names => "/" ++ "/".intercalate names
  | names => "/".intercalate names

end Place

/-- Where a path leads to, if every part of it exists. -/
def placeOf (path : String) : Place :=
  (pathParts path).foldl Place.step (Place.start path)

/-! ### Files -/

/-- Text files by path. -/
structure Files where
  entries : List (String × String) := []
  /-- The directories that are known beside those that the files are in. -/
  directories : List String := []

/-- What a path leads to. -/
inductive Found where
  | file (place : Place) (text : String)
  | directory
  /-- Nothing yet, in a directory that exists. -/
  | vacant (place : Place)

namespace Files

/-- Whether a place is a directory: one that is always there, that a file is in, or that is
known. -/
def hasDirectory (files : Files) (place : Place) : Bool :=
  place == ["/"] || place.all (· == "..") ||
    (files.entries.any fun entry => place.isPrefixOf (placeOf entry.1).dropLast) ||
    files.directories.any fun path => place.isPrefixOf (placeOf path)

/-- The text of the file at a place. -/
def text? (files : Files) (place : Place) : Option String :=
  (files.entries.find? fun entry => placeOf entry.1 == place).map Prod.snd

/-- The directory that the parts of a path lead to from a place. -/
def enter (files : Files) (place : Place) : List String → Except FileError Place
  | [] => .ok place
  | part :: rest =>
    let next := place.step part
    if maxPartBytes < (utf8 part).length then .error .tooLong
    else if files.hasDirectory next then files.enter next rest
    else if (files.text? next).isSome then .error .notDirectory
    else .error .notFound

/-- What the last part of a path leads to from a directory. -/
def find (files : Files) (place : Place) (part : String) : Except FileError Found :=
  let next := place.step part
  if maxPartBytes < (utf8 part).length then .error .tooLong
  else if files.hasDirectory next then .ok .directory
  else match files.text? next with
    | some text => .ok (.file next text)
    | none => .ok (.vacant next)

/-- What a path leads to. -/
def look (files : Files) (path : String) : Except FileError Found := do
  checkPath path
  let parts := pathParts path
  files.find (← files.enter (Place.start path) parts.dropLast) (parts.getLastD "")

/-- The text of a file, with its line ends unified. -/
def read (files : Files) (path : String) : Except FileError String := do
  match ← files.look path with
  | .file _ text => return unifyNewlines text
  | .directory => throw .isDirectory
  | .vacant _ => throw .notFound

/-- Entries with a text at a place, instead of the one that was there. -/
def put (place : Place) (text : String) : List (String × String) → List (String × String)
  | [] => [(place.path, text)]
  | entry :: rest =>
    if placeOf entry.1 == place then (entry.1, text) :: rest else entry :: put place text rest

/-- Writes a text to a path, whose directory must exist. -/
def write (files : Files) (path text : String) : Except FileError Files := do
  checkPath path
  let parts := pathParts path
  let named := (parts.reverse.dropWhile (· == "")).reverse
  let place ← files.enter (Place.start path) named.dropLast
  -- a slash behind the last name asks for a directory, whatever the name is
  if named.length < parts.length then throw .isDirectory
  match ← files.find place (named.getLastD "") with
  | .directory => throw .isDirectory
  | .file place _ | .vacant place =>
    return { files with entries := put place text files.entries }

/-- The files that are new or have another text than before. -/
def changedSince (files before : Files) : List (String × String) :=
  files.entries.filter fun entry => before.entries.lookup entry.1 != some entry.2

end Files

end StackScript
