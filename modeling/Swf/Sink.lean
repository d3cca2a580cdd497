/-!
# Byte sinks

A sink keeps what is written to it. It may be bounded, and single writes to come may be refused;
a refused write stores nothing. Writing no bytes is not a write.
-/

namespace Swf

/-- A byte sink and its contents. -/
structure Sink where
  bytes : Array UInt8 := #[]
  /-- The most bytes that fit. -/
  capacity : Option Nat := none
  /-- For each of the coming writes, whether it is refused. Later writes are not. -/
  outages : List Bool := []
deriving DecidableEq, Repr

namespace Sink

/-- Appends `data`, or refuses it as a whole. -/
def write (data : List UInt8) (s : Sink) : Bool × Sink :=
  if data.isEmpty then (true, s)
  else
    let later := { s with outages := s.outages.drop 1 }
    if s.outages.headD false || s.capacity.any (s.bytes.size + data.length > ·) then (false, later)
    else (true, { later with bytes := s.bytes.appendList data })

/-- What has been written. -/
def toList (s : Sink) : List UInt8 := s.bytes.toList

end Sink

end Swf
