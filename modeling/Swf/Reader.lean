import Swf.CodecError
import Swf.Source
import Swf.Word

/-!
# Reading fields from a byte source

A reader is a source together with its position, the bits left over from a bit field, and the
number of bytes that the record being read may still take. Integers have their low byte first. Bit
fields are read from the top bit down and share a byte with the bit field before them; every
byte-level read drops what is left of that byte.

A decoder keeps the reader it has reached also when it fails: positions after a failure are
observable, and a record that fails leaves its stream where the bytes ran out.
-/

namespace Swf

/-- A byte source in the middle of being decoded. -/
structure Reader where
  source : Source
  /-- Offset of the next byte of the source. -/
  position : Nat := 0
  /-- The byte that the last bit field ended in. -/
  bitBuf : UInt8 := 0
  /-- How many low bits of `bitBuf` are unread. -/
  bitCount : Nat := 0
  /-- How many bytes may still be taken; unbounded outside of a record payload. -/
  limit : Option Nat := none
deriving DecidableEq, Repr

/-- A computation that reads fields and may fail; the reader outlives the failure. -/
abbrev Decoder (α : Type) := EStateM CodecError Reader α

namespace Reader

/-- A reader at the start of `source`, whose offsets start at `position`. -/
def ofSource (source : Source) (position : Nat) : Reader := { source, position }

/-- A reader of bytes in memory. -/
def ofBytes (data : List UInt8) : Reader := ofSource (.ofBytes data) 0

/-- The most bytes that a request for `n` may take. -/
def allowance (r : Reader) (n : Nat) : Nat := min n (r.limit.getD n)

/-- The reader after `n` bytes have come from the source, which is now `source`. -/
def advance (r : Reader) (n : Nat) (source : Source) : Reader :=
  { r with source, position := r.position + n, limit := r.limit.map (· - n) }

end Reader

namespace Decoder

/-- Drops the unread bits of the last bit field. -/
def align : Decoder Unit := modify fun r => { r with bitCount := 0 }

/-- The offset of the next byte. -/
def position : Decoder Nat := Reader.position <$> get

/-- Takes `n` bytes from the source; the bit state stays. Bytes that came before a failure count
as taken. -/
def fill (n : Nat) : Decoder (List UInt8) := fun r =>
  let (got, short, source) := r.source.gather (r.allowance n)
  let r' := r.advance got.length source
  match short with
  | some (.fault cause) => .error (.io cause) r'
  | _ =>
    if got.length < n then .error (.unexpectedEof (n - got.length) r'.position) r'
    else .ok got r'

/-- Turns the errors of `m` into others. -/
def mapError (f : CodecError → CodecError) {α : Type} (m : Decoder α) : Decoder α := fun r =>
  match m r with
  | .ok a r' => .ok a r'
  | .error err r' => .error (f err) r'

/-- Adds to the number of bytes that an end of stream reports as missing. -/
def missingMore (extra : Nat) : CodecError → CodecError
  | .unexpectedEof expected offset => .unexpectedEof (expected + extra) offset
  | err => err

/-- Bytes are taken in pieces of this size, so that a declared length costs nothing before its
bytes arrive. -/
def chunkSize : Nat := 4096

/-- Takes exactly `n` bytes in pieces. On a short stream the error counts every missing byte, not
just those of the current piece. -/
def drain (n : Nat) : Decoder (List UInt8) :=
  if _h : n = 0 then pure []
  else do
    let left := n - min n chunkSize
    -- An end of stream in this piece lacks all later pieces too.
    let chunk ← mapError (missingMore left) (fill (min n chunkSize))
    return chunk ++ (← drain left)
termination_by n
decreasing_by simp [chunkSize]; omega

/-- Reads `n` bytes at once. -/
def readFully (n : Nat) : Decoder (List UInt8) := do align; fill n

/-- Reads exactly `n` bytes. -/
def readBytes (n : Nat) : Decoder (List UInt8) := do align; drain n

/-- Passes over exactly `n` bytes. -/
def skip (n : Nat) : Decoder Unit := do let _ ← readBytes n

/-- An 8-bit integer. -/
def readUInt8 : Decoder UInt8 := do return UInt8.ofNat (littleEndian (← readFully 1))

/-- A 16-bit integer, low byte first. -/
def readUInt16 : Decoder UInt16 := do return UInt16.ofNat (littleEndian (← readFully 2))

/-- A 32-bit integer, low byte first. -/
def readUInt32 : Decoder UInt32 := do return UInt32.ofNat (littleEndian (← readFully 4))

/-- The next byte, whatever bits are left over. -/
def takeByte : Decoder UInt8 := (·.headD 0) <$> fill 1

/-- Bytes that were taken came off the front of the source, all that were asked for. -/
theorem remaining_of_fill {n : Nat} {r r' : Reader} {got : List UInt8} (h : fill n r = .ok got r') :
    r.source.remaining = got ++ r'.source.remaining ∧ n ≤ got.length := by
  have hall := Source.remaining_gather (r.allowance n) r.source
  unfold fill at h
  simp only at h
  split at h
  · simp at h
  · split at h
    · simp at h
    · obtain ⟨rfl, rfl⟩ := by simpa using h
      exact ⟨hall.symm, by omega⟩

/-- A byte that was read is gone from the source. -/
theorem remaining_lt_of_takeByte {r r' : Reader} {b : UInt8} (h : takeByte r = .ok b r') :
    r'.source.remaining.length < r.source.remaining.length := by
  simp only [takeByte, Functor.map, EStateM.map] at h
  cases hf : fill 1 r with
  | error e s => simp [hf] at h
  | ok got s =>
    obtain ⟨hrem, hlen⟩ := remaining_of_fill hf
    have hs : s = r' := by simpa [hf] using (show _ ∧ s = r' by simpa [hf] using h).2
    subst hs
    simp only [hrem, List.length_append]
    omega

/-- The bytes up to the next zero byte, which is taken and left out. `taken` holds the bytes
before, the last one first. -/
def takeUntilNul (taken : List UInt8) : Decoder (List UInt8) := fun r =>
  match _h : takeByte r with
  | .error err r' => .error err r'
  | .ok b r' => if b = 0 then .ok taken.reverse r' else takeUntilNul (b :: taken) r'
termination_by r => r.source.remaining.length
decreasing_by exact remaining_lt_of_takeByte _h

/-- A string of UTF-8 that ends with a zero byte. An error names the offset of its first byte. -/
def readString : Decoder String := do
  align
  let start ← position
  let bytes ← takeUntilNul []
  match String.fromUTF8? (ByteArray.mk bytes.toArray) with
  | some text => return text
  | none => throw (.invalidString start)

/-- One call of the source for at most `n` bytes. -/
def readSome (n : Nat) : Decoder (List UInt8) := do
  align
  fun r =>
    if r.limit = some 0 then .ok [] r
    else
      let (delivery, source) := r.source.read (r.allowance n)
      let r' := r.advance delivery.data.length source
      match delivery with
      | .bytes data => .ok data r'
      | .interrupted => .error (.io .interrupted) r'
      | .fault cause => .error (.io cause) r'

/-- The reader after a part of it was read as a stream of its own. -/
def leave (before after : Reader) : Reader :=
  { after with
    bitCount := 0
    limit := before.limit.map (· - (after.position - before.position)) }

/-- Runs `m` on the next `n` bytes alone, with bit fields of its own. -/
def within (n : Nat) {α : Type} (m : Decoder α) : Decoder α := fun r =>
  match m { r with bitCount := 0, limit := some (r.allowance n) } with
  | .ok a r' => .ok a (leave r r')
  | .error err r' => .error err (leave r r')

/-- The next bit, from the top of the byte down. A new byte is taken when none is left over. -/
def readBit : Decoder Bool := do
  if (← get).bitCount = 0 then
    let byte ← fill 1
    modify fun r => { r with bitBuf := byte.headD 0, bitCount := 8 }
  modify fun r => { r with bitCount := r.bitCount - 1 }
  let r ← get
  return r.bitBuf.toNat.testBit r.bitCount

/-- Appends `bits` bits below those of `value`. -/
def readBits (value : UInt32) : Nat → Decoder UInt32
  | 0 => pure value
  | bits + 1 => do
    let bit ← readBit
    readBits ((value <<< 1) ||| bit.toUInt32) bits

/-- An unsigned bit field of at most 32 bits. -/
def readUnsigned (bits : Nat) : Decoder UInt32 := readBits 0 bits

/-- A signed bit field of at most 32 bits, in two's complement. -/
def readSigned (bits : Nat) : Decoder Int32 :=
  if bits = 0 then pure 0 else signExtend bits <$> readUnsigned bits

/-- A flag of one bit. -/
def readFlag : Decoder Bool := (· == 1) <$> readUnsigned 1

/-- An error that was found outside of any source. -/
def ofExcept {α : Type} : Except CodecError α → Decoder α
  | .ok a => pure a
  | .error err => throw err

end Decoder

end Swf
