import Swf.CommandLine.Invocation
import Swf.Movie.File

/-!
# Commands

Both commands are functions of the content of the file they read. Listing a movie gives a text;
re-encoding one gives the bytes of a new file, and when asked to check, refuses a file whose plain
form is not that of the input.
-/

namespace Swf

/-- Why a command fails. -/
inductive CommandError where
  | unreadable (path reason : String)
  /-- Standard input cannot be read. -/
  | unreadableInput (reason : String)
  | undecodable (path : String) (cause : CodecError)
  | unlistable (cause : CodecError)
  | unencodable (cause : CodecError)
  /-- A plain form cannot be told. -/
  | noImage (cause : CodecError)
  /-- The plain forms differ first at this offset; their sizes follow. -/
  | differs (offset sizeIn sizeOut : Nat)
  | unwritable (path reason : String)
deriving DecidableEq, Repr

/-- The wording of a failure. -/
def CommandError.message : CommandError → String
  | unreadable path reason => s!"failed to read '{path}': {reason}"
  | unreadableInput reason => s!"failed to read stdin: {reason}"
  | undecodable path cause => s!"failed to decode '{path}': {cause.message}"
  | unlistable cause => cause.message
  | unencodable cause => s!"failed to encode: {cause.message}"
  | noImage cause => cause.message
  | differs offset sizeIn sizeOut =>
    s!"re-encoded file differs from input at byte {offset} " ++
      s!"({sizeIn} bytes in, {sizeOut} bytes out)"
  | unwritable path reason => s!"failed to write '{path}': {reason}"

/-- Reads a movie from the content of a file. -/
def decodeMovie (path : String) (policy : UnknownTagPolicy) (content : List UInt8) :
    Except CommandError Movie :=
  (Movie.ofBytes policy content).mapError (.undecodable path)

/-- The length of the longest common start of two lists. -/
def commonLength : List UInt8 → List UInt8 → Nat
  | a :: as, b :: bs => if a = b then commonLength as bs + 1 else 0
  | _, _ => 0

/-- Refuses an output whose plain form is not that of the input. -/
def checkLossless (input output : List UInt8) : Except CommandError Unit := do
  let expected ← (Movie.uncompressedImage input).mapError .noImage
  let actual ← (Movie.uncompressedImage output).mapError .noImage
  if expected ≠ actual then
    throw (.differs (commonLength expected actual) expected.length actual.length)

namespace DumpRequest

/-- The listing of the movie in a file. -/
def run (request : DumpRequest) (content : List UInt8) : Except CommandError String := do
  let movie ← decodeMovie request.input request.unknown content
  (movie.render request.format).mapError .unlistable

end DumpRequest

namespace ReencodeRequest

/-- The new file of the movie in a file, whose body is compressed by `compress` if it is. -/
def runWith (compress : List UInt8 → List UInt8) (request : ReencodeRequest)
    (content : List UInt8) : Except CommandError (List UInt8) := do
  let movie ← decodeMovie request.input request.unknown content
  let compressed := request.compression.resolve movie.compressed
  let output ← (({ movie with compressed } : Movie).toBytesWith compress).mapError .unencodable
  if request.check then checkLossless content output
  return output

/-- The new file of the movie in a file. -/
def run (request : ReencodeRequest) (content : List UInt8) : Except CommandError (List UInt8) :=
  request.runWith Zlib.compress content

end ReencodeRequest

end Swf
