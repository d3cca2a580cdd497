import Swf.CommandLine.Arguments
import Swf.CommandLine.Command

/-!
# The program

Reads the arguments, the input file (or standard input for a single dash), and writes what the
request asks for. Failures go to standard error.
-/

namespace Swf

/-- What is printed for arguments that are no request. -/
def UsageError.message : UsageError → String
  | invalidValue => "error: invalid value"
  | tooManyValues => "error: unexpected value"
  | unknownArgument => "error: unexpected argument"
  | invalidSubcommand => "error: unrecognized subcommand"
  | missingSubcommand => "error: a subcommand is required"
  | missingRequiredArgument => "error: a required argument is missing"
  | argumentConflict => "error: arguments cannot be used together"
  | displayHelp | displayHelpOnMissingArgument =>
    "Inspect and re-encode SWF files\n\n" ++
      "  swf dump <FILE> [--format text|json] [--unknown preserve|skip|error]\n" ++
      "  swf rewrite <FILE> -o <OUT> [--compress|--decompress] [--unknown POLICY] [--check]\n\n" ++
      "-v raises the log level; - reads standard input."

/-- Reads all of a stream. -/
partial def readAll (stream : IO.FS.Stream) (before : ByteArray) : IO ByteArray := do
  let chunk ← stream.read 65536
  if chunk.isEmpty then return before else readAll stream (before ++ chunk)

/-- The content of the input, or why it cannot be read. -/
def loadInput (path : String) : IO (Except CommandError (List UInt8)) := do
  let standard := path = "-"
  try
    let content ← if standard then readAll (← IO.getStdin) .empty else IO.FS.readBinFile path
    return .ok content.toList
  catch err =>
    let reason := toString err
    return .error (if standard then .unreadableInput reason else .unreadable path reason)

/-- Writes the output, or says why it cannot be written. -/
def storeOutput (path : String) (content : List UInt8) : IO (Except CommandError Unit) := do
  try
    IO.FS.writeBinFile path ⟨content.toArray⟩
    return .ok ()
  catch err => return .error (.unwritable path (toString err))

/-- Answers a request. -/
def Request.perform : Request → IO (Except CommandError Unit)
  | .dump request => do
    match (← loadInput request.input).bind request.run with
    | .ok text =>
      IO.print text
      return .ok ()
    | .error err => return .error err
  | .reencode request => do
    match (← loadInput request.input).bind request.run with
    | .ok output => storeOutput request.output output
    | .error err => return .error err

end Swf

def main (args : List String) : IO UInt32 := do
  match Swf.Invocation.parse args with
  | .error err =>
    IO.eprintln err.message
    return if err = .displayHelp then 0 else 2
  | .ok invocation =>
    match ← invocation.request.perform with
    | .ok () => return 0
    | .error err =>
      IO.eprintln s!"error: {err.message}"
      return 1
