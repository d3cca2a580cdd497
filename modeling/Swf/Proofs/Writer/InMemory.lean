import Swf.Proofs.Writer.BitFields

/-!
# Sinks that take everything

In front of a sink in memory nothing can be refused. What a writer does there with bytes depends on
its pending bits alone: they are filled up to a byte, and the bytes go behind it.
-/

namespace Swf

open Encoder

namespace Writer

/-- The sink takes everything. Any number of bits may be pending. -/
structure InMemory (w : Writer) : Prop where
  /-- There is always room. -/
  capacity : w.sink.capacity = none
  /-- No write is refused. -/
  outages : w.sink.outages = []

/-- The writer after the pending byte has been filled up and written. -/
def flushed (w : Writer) : Writer :=
  if w.bitCount > 0 then { w.append [w.bitBuf] with bitBuf := 0, bitCount := 0 } else w

theorem bitCount_flushed (w : Writer) : w.flushed.bitCount = 0 := by
  unfold flushed
  split
  · rfl
  · omega

/-- At a byte boundary there is nothing to fill up. -/
theorem flushed_append {w : Writer} (h : w.bitCount = 0) (bytes : List UInt8) :
    (w.append bytes).flushed = w.append bytes := by
  have hnone : ¬ (w.append bytes).bitCount > 0 := by
    show ¬ w.bitCount > 0
    omega
  unfold flushed
  rw [if_neg hnone]

theorem InMemory.append {w : Writer} (h : w.InMemory) (bytes : List UInt8) :
    (w.append bytes).InMemory := ⟨h.capacity, h.outages⟩

theorem InMemory.flushed {w : Writer} (h : w.InMemory) : w.flushed.InMemory := by
  unfold Writer.flushed
  split
  · exact ⟨h.capacity, h.outages⟩
  · exact h

end Writer

namespace Encoder

variable {w : Writer}

theorem align_of_inMemory (h : w.InMemory) : align w = .ok () w.flushed := by
  unfold Writer.flushed
  by_cases hpos : w.bitCount > 0
  · rw [if_pos hpos, align_of_pos h.capacity h.outages hpos]
  · unfold align
    rw [get_bind, if_neg hpos, if_neg hpos]
    rfl

theorem emit_of_inMemory (h : w.InMemory) (data : List UInt8) :
    emit data w = .ok () (w.append data) := by
  unfold emit Sink.write
  by_cases hd : data.isEmpty
  · obtain rfl : data = [] := by simpa using hd
    simp
  · simp [hd, h.capacity, h.outages, Writer.append]

theorem writeBytes_of_inMemory (h : w.InMemory) (data : List UInt8) :
    writeBytes data w = .ok () (w.flushed.append data) := by
  unfold writeBytes
  rw [bind_of_ok (align_of_inMemory h), emit_of_inMemory h.flushed]

/-- Bytes behind bytes. -/
theorem writeBytes_append (h : w.InMemory) (front data : List UInt8) :
    writeBytes data (w.flushed.append front) = .ok () (w.flushed.append (front ++ data)) := by
  rw [writeBytes_of_inMemory (h.flushed.append front),
    Writer.flushed_append w.bitCount_flushed, Writer.append_append]

end Encoder

end Swf
