import Swf.CommandLine.Invocation

/-!
# Arguments

Arguments are read from left to right. An option is a long name behind two dashes, its value behind
an equals sign or in the next argument, or a letter behind one dash, further letters and the value
attached; after two dashes alone all arguments are positional.

A value that stands in an argument of its own is kept back until the next option or the end, and
only then looked at. So of two mistakes an unknown option wins over a bad value before it, and a bad
value over everything that is wrong with the request as a whole.
-/

namespace Swf

/-- The commands that have options of their own. -/
inductive CommandName where
  | dump
  | reencode
deriving DecidableEq, Repr

/-- What an argument can set. -/
inductive Slot where
  | help
  | verbose
  | input
  | output
  | format
  | unknown
  | compress
  | decompress
  | check
deriving DecidableEq, Repr

namespace Slot

/-- The long name of an option. -/
def longName : Slot → Option String
  | help => some "help"
  | verbose => some "verbose"
  | input => none
  | output => some "output"
  | format => some "format"
  | unknown => some "unknown"
  | compress => some "compress"
  | decompress => some "decompress"
  | check => some "check"

/-- The letter of an option. -/
def letter : Slot → Option Char
  | help => some 'h'
  | verbose => some 'v'
  | output => some 'o'
  | _ => none

/-- Whether an option comes with a value. -/
def takesValue : Slot → Bool
  | input | output | format | unknown => true
  | _ => false

/-- Whether a text may stand in a slot. -/
def accepts : Slot → String → Bool
  | format, text => ["text", "json"].contains text
  | unknown, text => ["preserve", "skip", "error"].contains text
  | _, text => text ≠ ""

/-- The options before a command. -/
def common : List Slot := [help, verbose]

/-- The options of a command. -/
def ofCommand : CommandName → List Slot
  | .dump => common ++ [format, unknown]
  | .reencode => common ++ [output, compress, decompress, unknown, check]

end Slot

/-- What the arguments so far have set. -/
structure Settings where
  /-- The slots that are set, with their values; an option without a value has an empty one. -/
  values : List (Slot × String) := []
  /-- How often more logging was asked for. -/
  verbosity : Nat := 0
  /-- A slot that is being set, with its value if that has come. -/
  pending : Option (Slot × Option String) := none
  /-- Whether the positional argument has come. -/
  positional : Bool := false
deriving DecidableEq, Repr

namespace Settings

/-- Sets a slot once. -/
def assign (slot : Slot) (value : String) (s : Settings) : Except UsageError Settings :=
  if (s.values.lookup slot).isSome then .error .argumentConflict
  else if slot.takesValue && !slot.accepts value then .error .invalidValue
  else .ok { s with values := s.values ++ [(slot, value)] }

/-- Sets the slot that was kept back. -/
def settle (s : Settings) : Except UsageError Settings :=
  match s.pending with
  | none => .ok s
  | some (_, none) => .error .invalidValue
  | some (slot, some value) => assign slot value { s with pending := none }

/-- The highest count of requests for more logging. -/
def maxVerbosity : Nat := 255

/-- Takes an option that has no value. -/
def raise (slot : Slot) (s : Settings) : Except UsageError Settings := do
  let s ← s.settle
  match slot with
  | .help => throw .displayHelp
  | .verbose => return { s with verbosity := min (s.verbosity + 1) maxVerbosity }
  | slot => assign slot "" s

/-- Takes an option with the value that is attached to it, or waits for its value. -/
def request (slot : Slot) (attached : Option String) (s : Settings) :
    Except UsageError Settings := do
  let s ← s.settle
  match attached with
  | some value => assign slot value s
  | none => return { s with pending := some (slot, none) }

/-- Takes the letters behind one dash. -/
def takeLetters (options : List Slot) : List Char → Settings → Except UsageError Settings
  | [], s => .ok s
  | c :: rest, s =>
    match options.find? (·.letter == some c) with
    | none => .error .unknownArgument
    | some slot =>
      if slot.takesValue then
        match rest with
        | [] => s.request slot none
        | '=' :: value => s.request slot (some (String.ofList value))
        | value => s.request slot (some (String.ofList value))
      else do takeLetters options rest (← s.raise slot)

/-- Takes what stands behind two dashes: a name, and a value behind an equals sign. -/
def takeLong (options : List Slot) (text : List Char) (s : Settings) : Except UsageError Settings :=
  let name := String.ofList (text.takeWhile (· ≠ '='))
  let attached := match text.dropWhile (· ≠ '=') with
    | [] => none
    | _ :: value => some (String.ofList value)
  match options.find? (·.longName == some name) with
  | none => .error .unknownArgument
  | some slot =>
    if slot.takesValue then s.request slot attached
    else if attached.isSome then .error .tooManyValues
    else s.raise slot

/-- Takes the positional argument; a second one is unknown. -/
def takePositional (text : String) (s : Settings) : Except UsageError Settings := do
  if s.positional then throw .unknownArgument
  let s ← s.settle
  return { s with pending := some (.input, some text), positional := true }

/-- Takes the arguments of a command. `trailing` says that two dashes alone have come. -/
def takeAll (options : List Slot) : Bool → List String → Settings → Except UsageError Settings
  | _, [], s => s.settle
  | true, arg :: args, s => do takeAll options true args (← s.takePositional arg)
  | false, arg :: args, s =>
    match arg.toList, s.pending with
    | ['-', '-'], _ => takeAll options true args s
    | '-' :: '-' :: text, _ => do takeAll options false args (← s.takeLong options text)
    | '-' :: c :: letters, _ => do
      takeAll options false args (← s.takeLetters options (c :: letters))
    -- A dash alone is a value like any other.
    | _, some (slot, none) =>
      takeAll options false args { s with pending := some (slot, some arg) }
    | _, _ => do takeAll options false args (← s.takePositional arg)

/-! ### Requests -/

/-- The value of a slot that has to be set. -/
def require (slot : Slot) (s : Settings) : Except UsageError String :=
  match s.values.lookup slot with
  | some value => .ok value
  | none => .error .missingRequiredArgument

/-- Whether a slot is set. -/
def isSet (slot : Slot) (s : Settings) : Bool := (s.values.lookup slot).isSome

/-- The policy that is set; records of unknown kinds are kept unless another one is. -/
def policy (s : Settings) : UnknownTagPolicy :=
  match s.values.lookup .unknown with
  | some "skip" => .skip
  | some "error" => .error
  | _ => .preserve

/-- The format that is set; it is text unless another one is. -/
def listingFormat (s : Settings) : ListingFormat :=
  match s.values.lookup .format with
  | some "json" => .json
  | _ => .text

/-- The compression that is set. -/
def compression (s : Settings) : BodyCompression :=
  if s.isSet .compress then .compress
  else if s.isSet .decompress then .decompress
  else .keep

/-- The request of a command with these settings. -/
def toRequest (command : CommandName) (s : Settings) : Except UsageError Request := do
  if s.isSet .compress && s.isSet .decompress then throw .argumentConflict
  let input ← s.require .input
  match command with
  | .dump => return .dump { input, format := s.listingFormat, unknown := s.policy }
  | .reencode =>
    let output ← s.require .output
    return .reencode
      { input, output, compression := s.compression, unknown := s.policy
        check := s.isSet .check }

end Settings

namespace Invocation

/-- The command of a name. -/
def command? : String → Option CommandName
  | "dump" => some .dump
  | "rewrite" => some .reencode
  | _ => none

/-- Whether a text names something that stands where a command does. -/
def names (text : String) : Bool := text == "help" || (command? text).isSome

/-- Asks for help, about the program or about one of its commands. -/
def help : List String → UsageError
  | [] => .displayHelp
  | [topic] => if names topic then .displayHelp else .invalidSubcommand
  | _ => .invalidSubcommand

/-- Reads the arguments of a command. What it says about logging counts; only if it says nothing
does what was said before. -/
def ofCommand (command : CommandName) (before : Settings) (args : List String) :
    Except UsageError Invocation := do
  let s ← Settings.takeAll (Slot.ofCommand command) false args {}
  let request ← s.toRequest command
  return { request, verbosity := if s.verbosity = 0 then before.verbosity else s.verbosity }

/-- What is wrong when no command comes. -/
def noCommand (s : Settings) : UsageError :=
  if s.verbosity = 0 then .displayHelpOnMissingArgument else .missingSubcommand

/-- What is wrong with an argument that stands where a command should, behind two dashes alone. -/
def afterDashes (s : Settings) : List String → UsageError
  | [] => noCommand s
  | arg :: _ => if names arg then .unknownArgument else .invalidSubcommand

/-- Reads the arguments before a command, and with it those behind it. -/
def parseFrom (s : Settings) : List String → Except UsageError Invocation
  | [] => .error (noCommand s)
  | arg :: args =>
    if arg = "help" then .error (help args)
    else
      match command? arg, arg.toList with
      | some command, _ => ofCommand command s args
      | none, ['-', '-'] => .error (afterDashes s args)
      | none, '-' :: '-' :: text => do parseFrom (← s.takeLong Slot.common text) args
      | none, '-' :: c :: letters => do parseFrom (← s.takeLetters Slot.common (c :: letters)) args
      | none, _ => .error .invalidSubcommand

/-- Reads the arguments of the program. -/
def parse (args : List String) : Except UsageError Invocation := parseFrom {} args

end Invocation

end Swf
