import Swf.Proofs.Writer.Composition
import Swf.Proofs.Writer.Delivery

/-!
# Writers keep account of their bytes

A sink may refuse any write, in the middle of a bit field too, and the writer goes on. What it says
of itself stays right (`Writer.Accounted`): the position counts the bytes that the sink has taken,
and of the byte that is not complete only bits that were written can be set. The reason is that a
byte leaves the writer before it is handed to the sink, so that no bit of a byte that was refused is
left behind for the next field. `Encoder.KeepsAccount` says this of an encoder; it is enough to
show it of the primitives.

A value that has no room and a string with a zero byte are refused by the field itself, which looks
before it writes. The primitives fail only where the sink does (`Encoder.OnlyTransport`), so whoever
fails for another reason has not done anything.
-/

namespace Swf

namespace Writer

/-- Behind what the sink held before stand as many bytes as the position counts. -/
def Holds (before : List UInt8) (w : Writer) : Prop :=
  ∃ written, w.sink.toList = before ++ written ∧ w.position = written.length

/-- The books of a writer in front of a sink that held some bytes before. -/
structure Accounted (before : List UInt8) (w : Writer) : Prop where
  /-- A byte that is complete is not kept. -/
  bitCount_lt : w.bitCount < 8
  /-- The bits that are not in use are zero. -/
  testBit_unused : ∀ i, i < 8 - w.bitCount → w.bitBuf.toNat.testBit i = false
  holds : w.Holds before

/-- A new writer has written nothing. -/
theorem accounted_ofSink (s : Sink) : Accounted s.toList { sink := s } where
  bitCount_lt := Nat.succ_pos 7
  testBit_unused := fun i _ => Nat.zero_testBit i
  holds := ⟨[], (List.append_nil _).symm, rfl⟩

end Writer

namespace Encoder

variable {before : List UInt8} {w : Writer}

/-- The writer that an encoder leaves behind. -/
def after (m : Encoder Unit) (w : Writer) : Writer :=
  match m w with
  | .ok _ w' => w'
  | .error _ w' => w'

theorem after_of_ok {m : Encoder Unit} {w' : Writer} (h : m w = .ok () w') :
    m.after w = w' := by
  unfold after
  rw [h]

theorem after_of_error {m : Encoder Unit} {err : CodecError} {w' : Writer}
    (h : m w = .error err w') : m.after w = w' := by
  unfold after
  rw [h]

/-! ## The account is kept -/

/-- Whether or not it succeeds, `m` leaves the books in order. -/
def KeepsAccount (m : Encoder Unit) : Prop :=
  ∀ (before : List UInt8) (w : Writer), w.Accounted before → (m.after w).Accounted before

/-- Bytes that are handed to the sink are counted if it takes them. -/
theorem holds_after_emit (h : w.Holds before) (data : List UInt8) :
    ((emit data).after w).Holds before := by
  obtain ⟨written, hsink, hposition⟩ := h
  unfold after emit
  rcases hwrite : w.sink.write data with ⟨_ | _, sink⟩
  · exact ⟨written, (Sink.toList_of_refused hwrite).trans hsink, hposition⟩
  · refine ⟨written ++ data, ?_, ?_⟩
    · rw [← List.append_assoc, ← hsink]
      exact Sink.toList_of_taken hwrite
    · rw [List.length_append, ← hposition]

/-- The bits that are pending are none of the sink's business. -/
theorem bits_after_emit (data : List UInt8) (w : Writer) :
    ((emit data).after w).bitBuf = w.bitBuf ∧ ((emit data).after w).bitCount = w.bitCount := by
  unfold after emit
  rcases w.sink.write data with ⟨_ | _, sink⟩ <;> exact ⟨rfl, rfl⟩

/-- The pending byte is gone, whether or not the sink has taken it. -/
theorem accounted_after_align (h : w.Holds before) (hpos : 0 < w.bitCount) :
    (align.after w).Accounted before := by
  have hrun : align w = emit [w.bitBuf] { w with bitBuf := 0, bitCount := 0 } := by
    unfold align
    rw [get_bind, if_pos hpos, set_bind]
  have hafter : align.after w = (emit [w.bitBuf]).after { w with bitBuf := 0, bitCount := 0 } := by
    unfold after
    rw [hrun]
  obtain ⟨hbuf, hcount⟩ := bits_after_emit [w.bitBuf] { w with bitBuf := 0, bitCount := 0 }
  have hholds : Writer.Holds before { w with bitBuf := 0, bitCount := 0 } := h
  rw [hafter]
  constructor
  · rw [hcount]
    exact Nat.succ_pos 7
  · intro i _
    rw [hbuf]
    exact Nat.zero_testBit i
  · exact holds_after_emit hholds [w.bitBuf]

theorem keepsAccount_bind {m m' : Encoder Unit} (h : KeepsAccount m) (h' : KeepsAccount m') :
    KeepsAccount (m >>= fun _ => m') := by
  intro before w hw
  have hfirst := h before w hw
  cases hrun : m w with
  | ok _ w₁ =>
    rw [after_of_ok hrun] at hfirst
    have hsecond := h' before w₁ hfirst
    unfold after at hsecond ⊢
    rwa [bind_of_ok hrun]
  | error err w₁ =>
    rw [after_of_error hrun] at hfirst
    rwa [after_of_error (bind_of_error hrun)]

theorem keepsAccount_emit (data : List UInt8) : KeepsAccount (emit data) := by
  intro before w h
  obtain ⟨hbuf, hcount⟩ := bits_after_emit data w
  constructor
  · rw [hcount]
    exact h.bitCount_lt
  · rw [hbuf, hcount]
    exact h.testBit_unused
  · exact holds_after_emit h.holds data

theorem keepsAccount_align : KeepsAccount align := by
  intro before w h
  by_cases hpos : 0 < w.bitCount
  · exact accounted_after_align h.holds hpos
  · have hrun : align w = .ok () w := by
      unfold align
      rw [get_bind, if_neg hpos]
      rfl
    rw [after_of_ok hrun]
    exact h

/-- **One bit** goes right behind those that are pending. -/
theorem keepsAccount_writeBit (bit : Bool) : KeepsAccount (writeBit bit) := by
  intro before w h
  have hlt := h.bitCount_lt
  unfold after
  rw [writeBit_eq]
  by_cases hfull : w.bitCount + 1 = 8
  · -- the byte is complete, and nothing need be known of its bits: they all go
    rw [if_pos hfull]
    exact accounted_after_align h.holds (Nat.succ_pos _)
  · -- the bit stands above those that stay unused
    rw [if_neg hfull]
    refine ⟨?_, ?_, h.holds⟩
    · show w.bitCount + 1 < 8
      omega
    · intro i hi
      have hbelow : i < 7 - w.bitCount := by
        have hi' : i < 8 - (w.bitCount + 1) := hi
        omega
      have hbit : (bit.toNat * 2 ^ (7 - w.bitCount)).testBit i = false := by
        rw [Nat.testBit_mul_two_pow, decide_eq_false (Nat.not_le.mpr hbelow), Bool.false_and]
      show (w.bitBuf ||| (bit.toUInt8 <<< UInt8.ofNat (7 - w.bitCount))).toNat.testBit i = false
      rw [UInt8.toNat_or, toNat_shiftLeft_bit bit (by omega), Nat.testBit_or, hbit,
        h.testBit_unused i (by omega), Bool.or_false]

theorem closed_keepsAccount : Closed KeepsAccount where
  pure := fun _ _ h => h
  bind := keepsAccount_bind
  emit := keepsAccount_emit
  align := keepsAccount_align
  writeBit := keepsAccount_writeBit

/-! ## What is refused is refused first -/

/-- `m` fails only where the sink does. -/
def OnlyTransport (m : Encoder Unit) : Prop :=
  ∀ w err w', m w = .error err w' → ∃ fault, err = .io fault

theorem onlyTransport_bind {m m' : Encoder Unit} (h : OnlyTransport m) (h' : OnlyTransport m') :
    OnlyTransport (m >>= fun _ => m') := by
  intro w err w' hbind
  cases hrun : m w with
  | ok _ w₁ => exact h' w₁ err w' ((bind_of_ok hrun).symm.trans hbind)
  | error err₁ w₁ =>
    cases (bind_of_error hrun).symm.trans hbind
    exact h w err w' hrun

theorem onlyTransport_emit (data : List UInt8) : OnlyTransport (emit data) := by
  intro w err w' h
  unfold emit at h
  split at h
  · cases h
  · cases h
    exact ⟨_, rfl⟩

theorem onlyTransport_align : OnlyTransport align := by
  intro w err w' h
  unfold align at h
  rw [get_bind] at h
  split at h
  · exact onlyTransport_emit [w.bitBuf] _ err w' h
  · cases h

theorem onlyTransport_writeBit (bit : Bool) : OnlyTransport (writeBit bit) := by
  intro w err w' h
  rw [writeBit_eq] at h
  split at h
  · exact onlyTransport_align _ err w' h
  · cases h

theorem closed_onlyTransport : Closed OnlyTransport where
  pure := by
    intro w err w' h
    cases h
  bind := onlyTransport_bind
  emit := onlyTransport_emit
  align := onlyTransport_align
  writeBit := onlyTransport_writeBit

namespace LooksFirst

variable {m : Encoder Unit}

/-- What is refused at once has no effect on the books. -/
theorem keepsAccount (h : LooksFirst m) : KeepsAccount m := by
  rcases h with ⟨err, hrefused⟩ | hcomposed
  · intro before w hw
    rwa [after_of_error (hrefused w)]
  · exact hcomposed _ closed_keepsAccount

/-- Whoever looks first fails where the sink does, or without a trace. -/
theorem io_or_eq_of_error (h : LooksFirst m) {err : CodecError} {w' : Writer}
    (hrun : m w = .error err w') : (∃ fault, err = .io fault) ∨ w' = w := by
  rcases h with ⟨err', hrefused⟩ | hcomposed
  · cases (hrefused w).symm.trans hrun
    exact .inr rfl
  · exact .inl (hcomposed _ closed_onlyTransport w err w' hrun)

end LooksFirst

end Encoder

end Swf
