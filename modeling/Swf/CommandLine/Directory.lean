import Swf.CommandLine.Command

/-!
# Running a request in a directory

A directory holds files and no further directories. A path may leave it, by steps up or from the
root; nothing is known of the directories it then leads to but the files that a request has written
there. A request that fails leaves all files as they were.
-/

namespace Swf

/-- The files within reach of a directory, each once and by its shortest path from there: its name,
behind one `../` for each level up, or behind `/` for the root. -/
structure Directory where
  files : List (String × List UInt8) := []
deriving DecidableEq, Repr

/-- Why a path cannot be used. -/
inductive PathError where
  | notFound
  | notADirectory
  | isADirectory
  | nameTooLong
  /-- No path holds the character that ends one. -/
  | containsNul
deriving DecidableEq, Repr

/-- The wording of a path error, with its number if it has one. -/
def PathError.message : PathError → String
  | notFound => "No such file or directory (os error 2)"
  | notADirectory => "Not a directory (os error 20)"
  | isADirectory => "Is a directory (os error 21)"
  | nameTooLong => "File name too long (os error 36)"
  | containsNul => "file name contained an unexpected NUL byte"

namespace Directory

/-- The most bytes that a file name has. -/
def maxNameSize : Nat := 255

/-- The most bytes that a path has. -/
def maxPathSize : Nat := 4095

/-- The content of a file. -/
def find? (d : Directory) (path : String) : Option (List UInt8) := d.files.lookup path

/-- Puts a file in place of the one of its path. -/
def insert (path : String) (content : List UInt8) (d : Directory) : Directory where
  files := (path, content) :: d.files.filter (·.1 ≠ path)

/-- Refuses a name that no file can have. -/
def checkName (name : String) : Except PathError Unit :=
  if name.utf8ByteSize > maxNameSize then .error .nameTooLong else .ok ()

/-- The directory that one step of a path leads to, each directory given by how the shortest paths
of its files start. -/
def enter (d : Directory) (place step : String) : Except PathError String := do
  if step = "." then return place
  if step = ".." then return if place = "/" then place else "../" ++ place
  checkName step
  throw (if (d.find? (place ++ step)).isSome then .notADirectory else .notFound)

/-- The shortest path of the file that a path leads to, whether or not the file is there. A path
with a slash at its end leads to no file, which is found out from the slash alone if the file is to
be `created`, and else from what is there. -/
def locate (d : Directory) (created : Bool) (path : String) : Except PathError String := do
  if path.toList.contains '\x00' then throw .containsNul
  if path.utf8ByteSize > maxPathSize then throw .nameTooLong
  if path = "" then throw .notFound
  let steps := (path.splitOn "/").filter (· ≠ "")
  let place ← steps.dropLast.foldlM d.enter (if path.startsWith "/" then "/" else "")
  let name := steps.getLastD "."
  if name = "." || name = ".." then throw .isADirectory
  if path.endsWith "/" then
    if created then throw .isADirectory
    d.enter place name
  else
    checkName name
    return place ++ name

/-- Reads a file. -/
def read (d : Directory) (path : String) : Except CommandError (List UInt8) :=
  (do
    match d.find? (← d.locate false path) with
    | some content => pure content
    | none => throw .notFound : Except PathError (List UInt8)).mapError
    fun err => .unreadable path err.message

/-- Writes a file. -/
def write (d : Directory) (path : String) (content : List UInt8) : Except CommandError Directory :=
  match d.locate true path with
  | .ok found => .ok (d.insert found content)
  | .error err => .error (.unwritable path err.message)

end Directory

namespace DumpRequest

/-- Lists a file of a directory. -/
def runIn (request : DumpRequest) (d : Directory) : Except CommandError String := do
  request.run (← d.read request.input)

end DumpRequest

namespace ReencodeRequest

/-- Re-encodes a file of a directory. -/
def runIn (request : ReencodeRequest) (d : Directory) : Except CommandError Directory := do
  let output ← request.run (← d.read request.input)
  d.write request.output output

end ReencodeRequest

end Swf
