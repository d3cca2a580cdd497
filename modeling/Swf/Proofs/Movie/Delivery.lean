import Swf.Proofs.Movie.RoundTrip
import Swf.Proofs.Writer.Delivery

/-!
# What a failure leaves behind of a file

A file is encoded as a whole before any of it is written, and then it is written in four parts:
signature, version, length and body. So a movie that cannot be encoded leaves the sink alone,
whichever of its tags is to blame, and a sink that refuses a part holds the parts before it and
nothing else. A file that is not complete is always reported (`writeWith_on_sink`).
-/

namespace Swf.Movie

open Encoder

/-- The parts of a file, in the order in which they are written. -/
def parts (m : Movie) (fileLength : UInt32) (stored : List UInt8) : List (List UInt8) :=
  [m.signature, [m.header.version], bytesOfUInt32 fileLength, stored]

theorem flatten_parts (m : Movie) (fileLength : UInt32) (stored : List UInt8) :
    (m.parts fileLength stored).flatten = m.fileHeader fileLength ++ stored := by
  simp [parts, fileHeader]

/-- Behind the encoding of the body, there is nothing but the writes. -/
theorem delivers_parts {compress : List UInt8 → List UInt8} {m : Movie} {body : List UInt8}
    {fileLength : UInt32} (h : m.encodeBody = .ok (body, fileLength)) :
    Delivers (m.writeWith compress) (m.parts fileLength (m.stored compress body)) := by
  have hrun : m.writeWith compress = (do
      Encoder.writeBytes m.signature
      Encoder.writeUInt8 m.header.version
      Encoder.writeUInt32 fileLength
      Encoder.emit (m.stored compress body)) := by
    unfold writeWith
    rw [h]
    rfl
  rw [hrun]
  exact (Delivers.writeBytes _).bind ((Delivers.writeBytes _).bind
    ((Delivers.writeBytes _).bind (Delivers.emit _)))

/-- **A failure never leaves a misleading file.** The sink may hold anything before, have any
capacity and refuse any of the writes to come. If the movie cannot be encoded, then the sink has not
been touched and the error is that of the encoding. If it can, then a plain file is written in
whole parts: behind what the sink held before stands a front of the file, made of the first few of
signature, version, length and body. Either that is the whole file and the writing has succeeded, or
it is not, and the writing has failed because the sink has refused the next part. -/
theorem writeWith_on_sink (compress : List UInt8 → List UInt8) (m : Movie) (s : Sink) :
    (∀ err, m.toBytesWith compress = .error err →
      m.writeWith compress { sink := s } = .error err { sink := s }) ∧
    ∀ file, m.toBytesWith compress = .ok file → m.compressed = false →
      ∃ (body : List UInt8) (fileLength : UInt32) (count : Nat) (held : List UInt8) (w : Writer),
        m.encodeBody = .ok (body, fileLength) ∧
        file = (m.parts fileLength body).flatten ∧
        held = ((m.parts fileLength body).take count).flatten ∧ held <+: file ∧
        w.sink.toList = s.toList ++ held ∧
        ((m.writeWith compress { sink := s } = .ok () w ∧ held = file) ∨
          (m.writeWith compress { sink := s } = .error (.io .sinkFull) w ∧ held ≠ file ∧
            ∃ (before : Sink) (part : List UInt8), (m.parts fileLength body)[count]? = some part ∧
              before.toList = w.sink.toList ∧ before.write part = (false, w.sink))) := by
  cases hbody : m.encodeBody with
  | error err =>
    have hfile : m.toBytesWith compress = .error err := by
      rw [toBytesWith_eq_map, hbody]
      rfl
    refine ⟨fun err' h => ?_, fun file h => ?_⟩
    · obtain rfl : err = err' := Except.error.inj (hfile.symm.trans h)
      unfold writeWith
      rw [hbody]
      rfl
    · rw [hfile] at h
      cases h
  | ok encoded =>
    obtain ⟨body, fileLength⟩ := encoded
    have hfile : m.toBytesWith compress =
        .ok (m.parts fileLength (m.stored compress body)).flatten := by
      rw [toBytesWith_eq_map, hbody, flatten_parts]
      rfl
    refine ⟨fun err h => ?_, fun file h hplain => ?_⟩
    · rw [hfile] at h
      cases h
    · have hstored : m.stored compress body = body := by
        unfold stored
        rw [hplain]
        rfl
      have hdelivers : Delivers (m.writeWith compress) (m.parts fileLength body) := by
        rw [← hstored]
        exact delivers_parts hbody
      rw [hstored] at hfile
      obtain rfl := Except.ok.inj (hfile.symm.trans h)
      obtain ⟨count, w, hsink, hend⟩ := (hdelivers { sink := s } rfl).held
      refine ⟨body, fileLength, count, _, w, rfl, rfl, rfl,
        ⟨((m.parts fileLength body).drop count).flatten, ?_⟩, hsink, hend⟩
      rw [← List.flatten_append, List.take_append_drop]

/-- In front of a sink that holds two bytes and refuses the third write to come, a file is left with
its signature and version, and nothing is written of a movie with a zero byte in its metadata. -/
theorem writeWith_on_sink_outage :
    (∃ w, writeWith Zlib.compress { tags := [.showFrame] }
        { sink := { bytes := #[1, 2], outages := [false, false, true] } } =
          .error (.io .sinkFull) w ∧ w.sink.toList = [1, 2] ++ [70, 87, 83, 10] ∧
        ([70, 87, 83, 10] : List UInt8) <+: [70, 87, 83, 10, 25, 0, 0, 0, 120, 0, 5, 95, 0, 0, 15,
          160, 0, 0, 24, 1, 0, 64, 0, 0, 0]) ∧
      writeWith Zlib.compress { compressed := true, tags := [.showFrame, .metadata "a\x00b"] }
        { sink := { bytes := #[1, 2], outages := [false, false, true] } } =
          .error (.interiorNul 1)
            { sink := { bytes := #[1, 2], outages := [false, false, true] } } := by
  constructor
  · have hbody : encodeBody { tags := [.showFrame] } =
        .ok ([120, 0, 5, 95, 0, 0, 15, 160, 0, 0, 24, 1, 0, 64, 0, 0, 0], 25) := by
      decide +kernel
    have hrun : writeWith Zlib.compress { tags := [.showFrame] }
        { sink := { bytes := #[1, 2], outages := [false, false, true] } } =
        .error (.io .sinkFull)
          { sink := { bytes := #[1, 2, 70, 87, 83, 10] }, position := 4 } := by
      unfold writeWith
      rw [hbody]
      rfl
    have hfile : toBytesWith Zlib.compress { tags := [.showFrame] } =
        .ok [70, 87, 83, 10, 25, 0, 0, 0, 120, 0, 5, 95, 0, 0, 15, 160, 0, 0, 24, 1, 0, 64, 0, 0,
          0] := by
      decide +kernel
    obtain ⟨_, _, _, held, w, -, -, -, hfront, hheld, hcase⟩ :=
      (writeWith_on_sink Zlib.compress { tags := [.showFrame] }
        { bytes := #[1, 2], outages := [false, false, true] }).2 _ hfile rfl
    rcases hcase with ⟨hok, -⟩ | ⟨herr, -⟩
    · cases hrun.symm.trans hok
    · cases hrun.symm.trans herr
      have hsplit : [1, 2] ++ [70, 87, 83, 10] = [1, 2] ++ held := hheld
      obtain rfl := List.append_cancel_left hsplit
      exact ⟨_, hrun, hheld, hfront⟩
  · refine (writeWith_on_sink Zlib.compress _ _).1 (.interiorNul 1) ?_
    decide +kernel

end Swf.Movie
