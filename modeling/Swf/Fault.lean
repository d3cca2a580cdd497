/-!
# Failures of the transport

What can go wrong below the codec: a byte source or a byte sink refuses, or a compressed body
turns out to be damaged or cut off. `interrupted` is the one failure that asks for another try;
all others are final.
-/

namespace Swf

/-- A failure of a byte source, a byte sink or a compressed stream. -/
inductive Fault where
  | interrupted
  | sourceFailed
  | sinkFull
  | damagedStream
  | unfinishedStream
deriving DecidableEq, Repr

/-- The wording of a failure. -/
def Fault.message : Fault → String
  | .interrupted => "operation interrupted"
  | .sourceFailed => "source failed"
  | .sinkFull => "sink full"
  | .damagedStream => "corrupt deflate stream"
  | .unfinishedStream => "incomplete deflate stream"

end Swf
