import Swf.Word
import Swf.Zlib.Checksum

/-!
# Writing a compressed stream

Content is written as stored blocks, the one kind of block that every content has: a block holds
its bytes as they are, behind their number and its complement. Which kinds of block a writer
chooses is its own affair; a reader accepts them all.
-/

namespace Swf.Zlib

/-- The most bytes that one stored block holds. -/
def maxStored : Nat := 65535

/-- One stored block; `lastFlag` is 1 on the last block of a stream. -/
def storedBlock (lastFlag : UInt8) (data : List UInt8) : List UInt8 :=
  lastFlag :: bytesOfUInt16 (UInt16.ofNat data.length) ++
    bytesOfUInt16 (UInt16.ofNat (maxStored - data.length)) ++ data

/-- Content cut into stored blocks. -/
def storedBlocks (data : List UInt8) : List UInt8 :=
  if data.length ≤ maxStored then storedBlock 1 data
  else storedBlock 0 (data.take maxStored) ++ storedBlocks (data.drop maxStored)
termination_by data.length
decreasing_by simp only [List.length_drop, maxStored] at *; omega

/-- The two bytes that start a stream: the method with its window, and a check digit. -/
def streamHeader : List UInt8 := [0x78, 0x01]

/-- A stream that holds `content`. -/
def compress (content : List UInt8) : List UInt8 :=
  streamHeader ++ storedBlocks content ++ (bytesOfUInt32 (UInt32.ofNat (checksum content))).reverse

end Swf.Zlib
