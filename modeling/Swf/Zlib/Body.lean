import Swf.Source
import Swf.Zlib.Inflate

/-!
# A compressed stream as a byte source

The compressed bytes come from a source of their own, which is called for at most 2^15 bytes at a
time. Where that source returns all that is asked for, the content comes as one: all of it when the
stream is complete, and what can be decoded followed by a fault when it is cut off. Where the
calls are scheduled, each piece that arrives yields the content that it adds.

Content is decoded in runs. A run goes on to the end of a window of the content and stops when a
byte is due that has no room in it. So damage takes away only the content of the run that meets
it; the windows before have been handed out.
-/

namespace Swf

namespace Zlib.Inflated

/-- What can be handed out: of a damaged stream, the windows that were filled before the run that
meets the damage. -/
def delivered (z : Inflated) : List UInt8 :=
  match z.ending with
  | .stopped .damaged => z.content.take (windowSize * z.untouched.length)
  | _ => z.content

/-- The fault that a source meets behind the content. -/
def fault (z : Inflated) : Option Fault :=
  match z.ending with
  | .complete _ => none
  | .stopped .cutOff => some .unfinishedStream
  | .stopped .damaged => some .damagedStream

/-- The runs of decoding from offset `start` of the content on, given the full windows behind it:
their ends, each with the number of bytes then untouched. A run that has touched the last byte is
the last one of a piece. -/
def runs (z : Inflated) (start : Nat) : List (Nat × Nat) → Piece
  | [] =>
    match z.ending with
    | .stopped .damaged => ⟨[], .damaged⟩
    | .stopped .cutOff => ⟨[z.content.drop start].filter (!·.isEmpty), .needsMore⟩
    | .complete _ => ⟨[z.content.drop start].filter (!·.isEmpty), .complete⟩
  | (stop, untouched) :: windows =>
    let run := (z.content.drop start).take (stop - start)
    if untouched = 0 then ⟨[run], .needsMore⟩
    else
      let p := z.runs stop windows
      { p with runs := run :: p.runs }

/-- The piece that makes a stream as long as `z`, when the first `start` bytes of the content came
from the pieces before. -/
def piece (z : Inflated) (start : Nat) : Piece :=
  let windows := (z.untouched.zipIdx 1).map fun (untouched, k) => (windowSize * k, untouched)
  z.runs start (windows.filter (start < ·.1))

end Zlib.Inflated

namespace Inflating

/-- The most compressed bytes that one call asks for. -/
def pieceSize : Nat := 32768

/-- The content from `start` on of a stream of which nothing more arrives, and its ending. -/
def conclude (stream : List UInt8) (start : Nat) : List UInt8 × Option Fault :=
  let z := Zlib.inflate stream
  (z.delivered.drop start, z.fault)

/-- What the scheduled calls for the rest of a stream supply, after `before` has arrived, with the
content and the ending behind them. The first `start` bytes of the content came with `before`;
`isOver` says whether the stream has seemed to be over. -/
def plan (before data : List UInt8) (start : Nat) (isOver : Bool) :
    List Turn → List Supply × List UInt8 × Option Fault
  | [] =>
    if isOver && !data.isEmpty then ([.piece ⟨[], .damaged⟩], conclude before start)
    else ([], conclude (before ++ data) start)
  | .interrupted :: turns =>
    let (supplies, rest) := plan before data start isOver turns
    (.interrupted :: supplies, rest)
  | .failed :: turns =>
    let (supplies, rest) := plan before data start isOver turns
    (.failed :: supplies, rest)
  | .upTo most :: turns =>
    let size := min most pieceSize
    if (data.take size).isEmpty then
      let (supplies, rest) := plan before data start true turns
      (.nothing :: supplies, rest)
    else if isOver then ([.piece ⟨[], .damaged⟩], conclude before start)
    else
      let arrived := Zlib.inflate (before ++ data.take size)
      let p := arrived.piece start
      match p.outcome, arrived.ending with
      | .damaged, _ => ([.piece p], [], arrived.fault)
      -- No more is asked for once bytes behind the stream have arrived.
      | _, .complete (_ :: _) => ([.piece p], [], none)
      | _, _ =>
        let (supplies, rest) := plan (before ++ data.take size) (data.drop size)
          (start + p.content.length) false turns
        (.piece p :: supplies, rest)

/-- The content of the compressed stream that a feed holds. -/
def ofFeed (f : Feed) : Inflating :=
  let (supplies, last, ending) := plan [] f.data 0 false f.schedule
  { ready := [], supplies, last, ending }

end Inflating

namespace Source

/-- The content of the compressed stream that a source holds. What an inflating source holds is
taken as a whole. -/
def inflate : Source → Source
  | .feed f => .inflating (.ofFeed f)
  | .inflating z => .inflating (.ofFeed { data := (Source.inflating z).remaining })

end Source

end Swf
