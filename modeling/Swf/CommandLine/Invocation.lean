import Swf.Listing.Render
import Swf.Record

/-!
# Invocations

What the program can be asked to do, and what can be wrong with how it is asked.
-/

namespace Swf

/-- The body of a file that is written. -/
inductive BodyCompression where
  /-- As in the file that was read. -/
  | keep
  | compress
  | decompress
deriving DecidableEq, Repr

/-- Whether the body is compressed, given whether that of the input was. -/
def BodyCompression.resolve (c : BodyCompression) (inputCompressed : Bool) : Bool :=
  match c with
  | .keep => inputCompressed
  | .compress => true
  | .decompress => false

/-- Lists a movie. -/
structure DumpRequest where
  input : String
  format : ListingFormat
  unknown : UnknownTagPolicy
deriving DecidableEq, Repr

/-- Reads a movie and writes it again. -/
structure ReencodeRequest where
  input : String
  output : String
  compression : BodyCompression
  unknown : UnknownTagPolicy
  /-- Whether the plain forms of both files have to agree. -/
  check : Bool
deriving DecidableEq, Repr

/-- A request of one of the two commands. -/
inductive Request where
  | dump (request : DumpRequest)
  | reencode (request : ReencodeRequest)
deriving DecidableEq, Repr

/-- A request and how much is to be logged about it. -/
structure Invocation where
  request : Request
  verbosity : Nat
deriving DecidableEq, Repr

namespace Invocation

/-- The level of the log. -/
def logLevel (i : Invocation) : String :=
  match i.verbosity with
  | 0 => "warn"
  | 1 => "debug"
  | _ => "trace"

end Invocation

/-- Why arguments are no request. The two kinds of help count among these. -/
inductive UsageError where
  /-- A value is not one of those allowed, is empty, or is missing. -/
  | invalidValue
  /-- A value stands with an option that takes none. -/
  | tooManyValues
  | unknownArgument
  | invalidSubcommand
  | missingSubcommand
  | missingRequiredArgument
  /-- Two options exclude each other, or one is given twice. -/
  | argumentConflict
  | displayHelp
  | displayHelpOnMissingArgument
deriving DecidableEq, Repr

end Swf
