import Swf.Word

/-!
# The bits of a compressed stream

A compressed stream is read bit by bit from the low end of each byte. A computation on it keeps
the content decoded so far also when it stops, since content that came before a stop is handed
out.
-/

namespace Swf.Zlib

/-- Why decoding stops before the end of a stream. -/
inductive Stop where
  /-- The stream is cut off. -/
  | cutOff
  /-- The stream breaks the rules of its format. -/
  | damaged
deriving DecidableEq, Repr

/-- The size of a window of the content. A repeat reaches back no further than one window. -/
def windowSize : Nat := 32768

/-- A compressed stream in the middle of being decoded. -/
structure Progress where
  input : List UInt8
  /-- How many low bits of the first byte are used. -/
  used : Nat := 0
  /-- The content decoded so far. -/
  output : Array UInt8 := #[]
  /-- For each full window of the content, how many bytes of the input were untouched when the
  byte behind the window was due. -/
  untouched : Array Nat := #[]

/-- Notes the untouched input if the next byte of the content is the first one of a new window. -/
def Progress.noteWindow (p : Progress) : Progress :=
  if p.output.size ≠ 0 && p.output.size % windowSize = 0 then
    { p with untouched := p.untouched.push (p.input.length - if p.used = 0 then 0 else 1) }
  else p

/-- A step of decoding. -/
abbrev Inflater (α : Type) := EStateM Stop Progress α

namespace Inflater

/-- The next bit. -/
def takeBit : Inflater Bool := fun p =>
  match p.input with
  | [] => .error .cutOff p
  | b :: rest =>
    let bit := b.toNat.testBit p.used
    if p.used = 7 then .ok bit { p with input := rest, used := 0 }
    else .ok bit { p with used := p.used + 1 }

/-- The next `n` bits as a number, its low bit first. -/
def takeBits : Nat → Inflater Nat
  | 0 => pure 0
  | n + 1 => do
    let bit ← takeBit
    return bit.toNat + 2 * (← takeBits n)

/-- Passes over the rest of a byte that is partly used. -/
def toByte : Inflater Unit := modify fun p =>
  if p.used = 0 then p else { p with input := p.input.drop 1, used := 0 }

/-- The next byte, from a byte boundary. -/
def takeByte : Inflater UInt8 := fun p =>
  match p.input with
  | [] => .error .cutOff p
  | b :: rest => .ok b { p with input := rest }

/-- The next `n` bytes, from a byte boundary. -/
def takeBytes : Nat → Inflater (List UInt8)
  | 0 => pure []
  | n + 1 => do
    let b ← takeByte
    return b :: (← takeBytes n)

/-- Adds a byte to the content, all bits that lead to it being taken. -/
def put (b : UInt8) : Inflater Unit := modify fun p =>
  let p := p.noteWindow
  { p with output := p.output.push b }

/-- Copies the next byte to the content as it is, from a byte boundary. The byte counts as
untouched until there is room for it. -/
def copyByte : Inflater Unit := do
  modify Progress.noteWindow
  let b ← takeByte
  modify fun p => { p with output := p.output.push b }

/-- Adds `count` bytes, each a copy of the one `distance` bytes before it. What lies before the
start of the content counts as zeros. -/
def copyBack (distance : Nat) : Nat → Inflater Unit
  | 0 => pure ()
  | count + 1 => do
    let output := (← get).output
    put (if distance ≤ output.size then output.getD (output.size - distance) 0 else 0)
    copyBack distance count

end Inflater

end Swf.Zlib
