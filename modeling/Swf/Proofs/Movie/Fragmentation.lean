import Swf.Proofs.Field.Sequence
import Swf.Proofs.Movie.Shortfall

/-!
# How a source cuts up its bytes does not show

A source hands out its bytes in pieces of any size and asks to be called again whenever it likes.
Whoever reads fields and records from it cannot tell: neither the results nor the offsets depend on
it, and this holds for failures too, which are where a careless reader would count differently.

The statement is about two runs of the same operations, and it is proved operation by operation:
each one leaves two readers that differ in nothing but the schedule of their sources.
-/

namespace Swf

open Decoder

/-- What a reader can be asked for, other than one call of its source. -/
inductive Operation where
  | field (shape : FieldShape)
  /-- Bytes that are read at once. -/
  | block (count : Nat)
  | skip (count : Nat)
  | tag (header : RecordHeader)
  | record (policy : UnknownTagPolicy)
deriving DecidableEq, Repr

/-- What an operation gives. -/
inductive Answer where
  | field (value : FieldValue)
  | bytes (data : List UInt8)
  | nothing
  | tag (tag : Tag)
  | record (tag : Option Tag)
deriving DecidableEq, Repr

namespace Operation

/-- Carries out an operation. -/
def run : Operation → Decoder Answer
  | .field shape => .field <$> shape.read
  | .block count => .bytes <$> readFully count
  | .skip count => (fun _ => .nothing) <$> Decoder.skip count
  | .tag header => .tag <$> Tag.read header
  | .record policy => .record <$> Record.read policy

/-- What operations give one after the other, each with the offset behind it, and the reader that is
left at the end. After a failure the next operation goes on from where that one has stopped. -/
def trace : List Operation → Reader → List (Except CodecError Answer × Nat) × Reader
  | [], r => ([], r)
  | op :: ops, r =>
    let r' := op.run.after r
    ((op.run.outcome r, r'.position) :: (trace ops r').1, (trace ops r').2)

end Operation

theorem Decoder.ClosedInFields.fieldShape {P : ∀ {α : Type}, Decoder α → Prop}
    (hP : ClosedInFields P) (shape : FieldShape) : P shape.read := by
  cases shape with
  | uint8 => exact hP.map _ hP.readUInt8
  | uint16 => exact hP.map _ hP.readUInt16
  | uint32 => exact hP.map _ hP.readUInt32
  | unsigned bits => exact hP.map _ (hP.readUnsigned bits)
  | signed bits => exact hP.map _ (hP.readSigned bits)
  | bytes count => exact hP.map _ (hP.readBytes count)
  | string => exact hP.map _ hP.readString
  | align => exact hP.map _ hP.align
  | rect => exact hP.map _ hP.rect
  | header => exact hP.map _ hP.recordHeader

namespace Operation

theorem tracks_run (op : Operation) : Tracks op.run := by
  cases op with
  | field shape => exact Tracks.closed.map _ (Tracks.closed.fieldShape shape)
  | block count => exact Tracks.closed.map _ (Tracks.closed.readFully count)
  | skip count => exact Tracks.closed.map _ (Tracks.closed.skip count)
  | tag header => exact Tracks.closed.map _ (Tracks.closed.tag header)
  | record policy => exact Tracks.closed.map _ (Record.tracks_read policy)

/-- Sources that hold the same bytes give the same traces. -/
theorem trace_onto (ops : List Operation) {r : Reader} {t : Source} (h : r.source.Lacks [] t) :
    (trace ops (r.onto t)).1 = (trace ops r).1 ∧
      ∃ t', (trace ops (r.onto t)).2 = (trace ops r).2.onto t' ∧
        (trace ops r).2.source.Lacks [] t' := by
  induction ops generalizing r t with
  | nil => exact ⟨rfl, t, rfl, h⟩
  | cons op ops ih =>
    have hsame := (op.tracks_run r).same h
    obtain ⟨t₁, hafter, hlacks⟩ := hsame.after
    obtain ⟨hsteps, hlast⟩ := ih hlacks
    unfold trace
    dsimp only
    rw [hafter, hsame.outcome, hsteps]
    exact ⟨rfl, hlast⟩

/-- A schedule that only delays hides no byte. -/
theorem lacks_nil_of_harmless (data : List UInt8) {schedule : List Turn}
    (h : ∀ turn ∈ schedule, turn.Harmless) :
    (Source.ofBytes data).Lacks [] (.feed ⟨data, schedule⟩) :=
  ⟨Source.steady_ofBytes data, h, (List.append_nil data).symm⟩

/-- **Fragmentation does not show.** Whatever is asked of a reader, one operation after the other
and on after failures: if the coming calls of its source deliver few bytes at a time or ask to be
made again, then each operation gives what it gives when every call delivers all that is asked for,
each one ends at the same offset, and the same bytes are left unread. So a whole file that is not
compressed is read as if it were in memory, under any policy. -/
theorem trace_of_harmless {schedule : List Turn} (h : ∀ turn ∈ schedule, turn.Harmless)
    (data : List UInt8) :
    (∀ (ops : List Operation) (r : Reader),
      (trace ops (r.onto (.feed ⟨data, schedule⟩))).1 =
        (trace ops (r.onto (.ofBytes data))).1 ∧
      (trace ops (r.onto (.feed ⟨data, schedule⟩))).2.source.remaining =
        (trace ops (r.onto (.ofBytes data))).2.source.remaining) ∧
    (data.take 3 ≠ Movie.compressedSignature → ∀ policy,
      Movie.read policy (.feed ⟨data, schedule⟩) = Movie.ofBytes policy data) := by
  have hlacks := lacks_nil_of_harmless data h
  refine ⟨fun ops r => ?_, fun hplain policy => ?_⟩
  · obtain ⟨hsteps, t', hlast, hlacks'⟩ := trace_onto ops (r := r.onto (.ofBytes data)) hlacks
    refine ⟨hsteps, ?_⟩
    have hrem := hlacks'.remaining
    rw [List.append_nil] at hrem
    rw [hrem]
    exact congrArg (fun r : Reader => r.source.remaining) hlast
  · exact Movie.read_of_lacks_nil hlacks hplain policy

/-- A file of 17 bytes of which the last one is missing, from a source that hands out one byte or
none: field by field, and as a movie. -/
theorem trace_of_harmless_truncated :
    ∃ (data : List UInt8) (source : Source),
      data = [70, 87, 83, 10, 17, 0, 0, 0, 0, 0, 24, 1, 0, 64, 0, 0] ∧
      source = .feed ⟨data, [.interrupted, .upTo 1, .upTo 1, .interrupted, .upTo 2]⟩ ∧
      (trace [.block 8, .field .rect, .skip 4, .record .error, .record .error, .field .uint8]
          (.ofSource source 0)).1 =
        [(.ok (.bytes [70, 87, 83, 10, 17, 0, 0, 0]), 8), (.ok (.field (.rect ⟨0, 0, 0, 0⟩)), 9),
          (.ok .nothing, 13), (.ok (.record (some .showFrame)), 15),
          (.error (.unexpectedEof 1 16), 16), (.error (.unexpectedEof 1 16), 16)] ∧
      Movie.read .error source = .error (.unexpectedEof 1 16) := by
  have hall : ∀ turn ∈ ([.interrupted, .upTo 1, .upTo 1, .interrupted, .upTo 2] : List Turn),
      turn.Harmless := by simp [Turn.Harmless]
  obtain ⟨htrace, hmovie⟩ :=
    trace_of_harmless hall [70, 87, 83, 10, 17, 0, 0, 0, 0, 0, 24, 1, 0, 64, 0, 0]
  refine ⟨_, _, rfl, rfl, ?_, ?_⟩
  · refine (htrace _ (.ofBytes [])).1.trans ?_
    decide +kernel
  · refine (hmovie (by decide) .error).trans ?_
    decide +kernel

end Operation

end Swf
