import Swf.Proofs.Field.Sequence
import Swf.Proofs.Tag.Refusal
import Swf.Proofs.Writer.Account

/-!
# Fields in front of a sink that refuses

Fields may be written one after the other whether or not those before have failed. The writer goes
on from wherever it has stopped, and its books are in order after every single one
(`Field.accounted_after_each`). A field that is refused for its value or for a zero byte has left no
trace.
-/

namespace Swf

open Encoder

namespace Field

/-- **One field** is refused before anything of it is written, or it is composed of primitives. -/
theorem looksFirst_write (field : Field) : LooksFirst field.write := by
  cases field with
  | uint8 v => exact .inr fun _ hP => hP.writeBytes _
  | uint16 v => exact .inr fun _ hP => hP.writeBytes _
  | uint32 v => exact .inr fun _ hP => hP.writeBytes _
  | unsigned bits v => exact LooksFirst.writeUnsigned bits v
  | signed bits v => exact LooksFirst.writeSigned (Nat.le_of_lt_succ bits.isLt) v
  | bytes data => exact .inr fun _ hP => hP.writeBytes data
  | string text => exact LooksFirst.writeString text
  | align => exact .inr fun _ hP => hP.align
  | rect r => exact r.looksFirst_write
  | header h forceLong => exact h.looksFirst_write forceLong

/-- The writers that fields leave behind, one after the other. After a failure the next field goes
on from where that one has stopped. -/
def states : List Field → Writer → List Writer
  | [], _ => []
  | field :: fields, w => field.write.after w :: states fields (field.write.after w)

/-- **All fields** keep the books in order. -/
theorem accounted_of_mem_states {before : List UInt8} {fields : List Field} {w w' : Writer}
    (h : w.Accounted before) (hmem : w' ∈ states fields w) : w'.Accounted before := by
  induction fields generalizing w with
  | nil => exact absurd hmem List.not_mem_nil
  | cons field fields ih =>
    have hnext := field.looksFirst_write.keepsAccount before w h
    rcases List.mem_cons.mp hmem with rfl | hlater
    · exact hnext
    · exact ih hnext hlater

/-- **The books of a writer.** Fields are written in front of any sink, which may refuse any of the
writes to come, and they go on after failures. After each of them less than a byte is pending, the
bits of it that are not in use are zero, and behind what the sink held at first stand just as many
bytes as the position counts. A field that is refused for its value or for a zero byte leaves the
sink, the position and the pending bits as they were, whatever they were. -/
theorem accounted_after_each (s : Sink) (fields : List Field) :
    (∀ w ∈ states fields { sink := s },
      w.bitCount < 8 ∧ (∀ i, i < 8 - w.bitCount → w.bitBuf.toNat.testBit i = false) ∧
      ∃ written, w.sink.toList = s.toList ++ written ∧ w.position = written.length) ∧
    ∀ (field : Field) (w w' : Writer) (err : CodecError),
      field.write w = .error err w' → err.IsRefusal → w' = w := by
  constructor
  · intro w hmem
    have h := accounted_of_mem_states (Writer.accounted_ofSink s) hmem
    exact ⟨h.bitCount_lt, h.testBit_unused, h.holds⟩
  · intro field w w' err hrun hrefusal
    rcases field.looksFirst_write.io_or_eq_of_error hrun with ⟨fault, rfl⟩ | hsame
    · exact hrefusal.elim
    · exact hsame

/-- A byte is refused in the middle of a bit field. Its bits are gone, and the value that has no
room in the next field leaves the writer alone. -/
theorem accounted_after_each_outage :
    ∃ w : Writer,
      w ∈ states [.uint8 1, .unsigned 5 21, .unsigned 9 300, .unsigned 3 5]
        { sink := { bytes := #[9], outages := [false, true] } } ∧
      (w.bitCount = 3 ∧ w.bitBuf = 0xa0 ∧ w.position = 1 ∧ w.sink.toList = [9, 1]) ∧
      (∀ i, i < 8 - w.bitCount → w.bitBuf.toNat.testBit i = false) ∧
      (Field.unsigned 3 8).write w = .error (.rangeOverflow .unsignedBits 4 3) w := by
  let s : Sink := { bytes := #[9], outages := [false, true] }
  let fields : List Field := [.uint8 1, .unsigned 5 21, .unsigned 9 300, .unsigned 3 5]
  let w : Writer := { sink := { bytes := #[9, 1] }, position := 1, bitBuf := 0xa0, bitCount := 3 }
  have hmem : w ∈ states fields { sink := s } := by decide +kernel
  obtain ⟨hstates, hrefused⟩ := accounted_after_each s fields
  have hrun : ∃ w', (Field.unsigned 3 8).write w =
      .error (.rangeOverflow .unsignedBits 4 3) w' := ⟨w, rfl⟩
  obtain ⟨w', hrun⟩ := hrun
  have hsame : w' = w := hrefused _ w w' _ hrun trivial
  rw [hsame] at hrun
  exact ⟨w, hmem, ⟨rfl, rfl, rfl, rfl⟩, (hstates w hmem).2.1, hrun⟩

end Field

end Swf
