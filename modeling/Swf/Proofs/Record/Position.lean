import Swf.Proofs.Movie.Fragmentation
import Swf.Proofs.Reader.Position

/-!
# Positions through records and failures

A record reads its payload on its own and translates what goes wrong there, and after all of this
the reader still is where it says (`Record.keepsBooks_read`). A translation may replace an end of
the stream by a mismatch of lengths, but it never moves an offset.

Demands of every kind may follow one another, one call of the source among them, whatever has
failed before and whatever the source does (`Demand.position_after_each`). They make finitely many
calls, so a schedule can hold any behaviour that they may meet.
-/

namespace Swf

open Decoder

/-! ### Layouts -/

/-- Behind some fields, the rest of what the record declares is a blob. -/
theorem RecordHeader.keepsBooks_rest {α : Type} (header : RecordHeader) (consumed : Nat)
    (f : List UInt8 → α) :
    KeepsBooks (do
      let size ← Decoder.ofExcept (header.remaining consumed)
      return f (← readBytes size)) := by
  refine KeepsBooks.bind ?_ fun size => KeepsBooks.closed.map f (KeepsBooks.closed.readBytes size)
  unfold RecordHeader.remaining
  split
  · exact KeepsBooks.throw fun _ => id
  · exact KeepsBooks.pure _

/-- **Every layout** keeps the books, those that end in a blob too. -/
theorem Tag.keepsBooks_read (header : RecordHeader) : KeepsBooks (Tag.read header) := by
  have closed := KeepsBooks.closed
  refine closed.tagOf ?_ ?_ ?_
  · exact closed.readUInt16.bind fun id => header.keepsBooks_rest 2 fun imageData =>
      ({ characterId := id, imageData } : DefineBitsJpeg2)
  · exact closed.position.bind fun start => closed.readUInt32.bind fun flags =>
      closed.readString.bind fun name => closed.position.bind fun here =>
        header.keepsBooks_rest (here - start) fun abcData => ({ flags, name, abcData } : DoAbc)
  · exact closed.readUInt16.bind fun id => closed.readUInt32.bind fun reserved =>
      header.keepsBooks_rest 6 fun data =>
        ({ characterId := id, reserved, data } : DefineBinaryData)

namespace Record

/-! ### Records -/

/-- An end of the stream that is seen from the record is where it was seen from the payload. -/
theorem endsAt_of_payloadError {header : RecordHeader} {start stop : Nat} {err : CodecError}
    (h : (payloadError header start err).EndsAt stop) : err.EndsAt stop := by
  cases err with
  | unexpectedEof expected offset =>
    by_cases hfull : offset - start = header.length.toNat
    · rw [payloadError, if_pos hfull] at h
      exact h.elim
    · rw [payloadError, if_neg hfull] at h
      exact h
  | _ => exact h

theorem keepsBooks_skip (code : UInt16) (n : Nat) :
    KeepsBooks (mapError (.insideRecord code) (skip n)) :=
  (KeepsBooks.closed.skip n).mapError fun err _ h => by cases err <;> exact h

theorem keepsBooks_readPayload (header : RecordHeader) : KeepsBooks (readPayload header) := by
  have closed := KeepsBooks.closed
  refine closed.position.bind fun start => KeepsBooks.within _ ?_
  refine ((Tag.keepsBooks_read header).mapError fun _ _ => endsAt_of_payloadError).bind
    fun tag => closed.position.bind fun here => ?_
  dsimp only
  split
  · exact (keepsBooks_skip header.code _).bind fun _ => KeepsBooks.pure tag
  · exact KeepsBooks.pure tag

/-- **A record** keeps the books, whether it is read, dropped or refused. -/
theorem keepsBooks_read (policy : UnknownTagPolicy) : KeepsBooks (Record.read policy) := by
  have closed := KeepsBooks.closed
  refine closed.position.bind fun offset => closed.recordHeader.bind fun header => ?_
  split
  · exact (keepsBooks_skip header.code _).bind fun _ => KeepsBooks.pure none
  · exact KeepsBooks.throw fun _ => id
  · exact closed.map some (keepsBooks_readPayload header)

end Record

theorem Operation.keepsBooks_run (op : Operation) : KeepsBooks op.run := by
  have closed := KeepsBooks.closed
  cases op with
  | field shape => exact closed.map _ (closed.fieldShape shape)
  | block count => exact closed.map _ (closed.readFully count)
  | skip count => exact closed.map _ (closed.skip count)
  | tag header => exact closed.map _ (Tag.keepsBooks_read header)
  | record policy => exact closed.map _ (Record.keepsBooks_read policy)

/-! ### Demands -/

/-- What a reader can be asked for. -/
inductive Demand where
  | operation (op : Operation)
  /-- One call of the source for at most so many bytes. -/
  | call (size : Nat)
deriving DecidableEq, Repr

namespace Demand

/-- Carries out a demand. -/
def run : Demand → Decoder Answer
  | .operation op => op.run
  | .call size => .bytes <$> readSome size

/-- What demands give one after the other, each with the reader that it leaves behind. After a
failure the next demand goes on from there. -/
def steps : List Demand → Reader → List (Except CodecError Answer × Reader)
  | [], _ => []
  | demand :: demands, r =>
    (demand.run.outcome r, demand.run.after r) :: steps demands (demand.run.after r)

/-- **One demand**, of any kind. -/
theorem keepsBooks_run (demand : Demand) : KeepsBooks demand.run := by
  cases demand with
  | operation op => exact op.keepsBooks_run
  | call size => exact KeepsBooks.closed.map _ (KeepsBooks.readSome size)

/-- **All demands**: each leaves a reader that has counted from the first one on, and each error
names the place where it was left. -/
theorem counts_of_mem_steps {demands : List Demand} {r : Reader}
    {step : Except CodecError Answer × Reader} (hmem : step ∈ steps demands r) :
    r.Counts step.2 ∧
      ∀ err stop, step.1 = .error err → err.EndsAt stop → stop = step.2.position := by
  induction demands generalizing r with
  | nil => exact absurd hmem List.not_mem_nil
  | cons demand demands ih =>
    have hcounts := demand.keepsBooks_run.counts r
    rcases List.mem_cons.mp hmem with rfl | hlater
    · exact ⟨hcounts, fun _ _ herr hend => demand.keepsBooks_run.ends herr hend⟩
    · obtain ⟨hlater, hends⟩ := ih hlater
      exact ⟨hcounts.trans hlater, hends⟩

/-- **The position of a reader.** Demands are made of a new reader, one after the other and on after
failures, and at every call the source may do what it likes. After each of them the position is the
first one plus the number of bytes that the source has handed out in its calls so far, which have
come off the front of what it held; less than a byte is pending; and an error that says where the
bytes have ended, in a record or outside, names just this position.

There are two readers at work in a record, and they agree. The one of the payload passes its calls
on to the one around it, which counts for itself; when the payload is done or has failed, both are
in front of the same source at the same position. -/
theorem position_after_each (s : Source) (start : Nat) (demands : List Demand) :
    (∀ step ∈ steps demands (.ofSource s start),
      (∃ sizes, (s.calls sizes).2 = step.2.source ∧
        (s.calls sizes).1 ++ step.2.source.remaining = s.remaining ∧
        step.2.position = start + (s.calls sizes).1.length) ∧
      step.2.bitCount ≤ 7 ∧
      ∀ err stop, step.1 = .error err → err.EndsAt stop → stop = step.2.position) ∧
    ∀ (header : RecordHeader) (around : Reader), around.limit = none →
      ∃ sizes,
        (around.calls sizes).source = ((Record.readPayload header).after around).source ∧
        (around.calls sizes).position = ((Record.readPayload header).after around).position := by
  constructor
  · intro step hmem
    obtain ⟨hcounts, hends⟩ := counts_of_mem_steps hmem
    have hbits : step.2.bitCount < 8 := hcounts.bitCount_lt (Nat.succ_pos 7)
    exact ⟨hcounts.called.handedOut, Nat.le_of_lt_succ hbits, hends⟩
  · intro header around hlimit
    have hcounts := (Record.keepsBooks_readPayload header).counts around
    exact hcounts.called.exists_calls hlimit

/-- A call that asks to be made again, a block that fails behind its first byte, and a colour within
which the source seems to end: each of them goes on where the one before has stopped. And a payload
that such a source fails in the middle of leaves the reader around it there too. -/
theorem position_after_each_faults :
    ∃ (s : Source) (r : Reader),
      s = .feed ⟨[0xa5, 7, 0x43, 2, 10, 20, 30, 40],
        [.upTo 1, .interrupted, .upTo 1, .failed, .upTo 2, .upTo 1, .upTo 0]⟩ ∧
      (.error (.truncatedRecord 9 1 105), r) ∈
        steps [.operation (.field (.unsigned 3)), .call 4, .operation (.block 3),
          .operation (.record .preserve), .operation (.field (.unsigned 12))]
          (.ofSource s 100) ∧
      (∃ sizes, (s.calls sizes).2 = r.source ∧ (s.calls sizes).1 = [0xa5, 7, 0x43, 2, 10]) ∧
      r.position = 105 ∧ r.bitCount ≤ 7 ∧
      (Reader.ofSource s 100).limit = none ∧
      ∃ sizes, ((Reader.ofSource s 100).calls sizes).position = 102 := by
  let s : Source := .feed ⟨[0xa5, 7, 0x43, 2, 10, 20, 30, 40],
    [.upTo 1, .interrupted, .upTo 1, .failed, .upTo 2, .upTo 1, .upTo 0]⟩
  let r : Reader := { source := .feed ⟨[20, 30, 40], []⟩, position := 105, bitBuf := 0xa5 }
  let demands : List Demand := [.operation (.field (.unsigned 3)), .call 4, .operation (.block 3),
    .operation (.record .preserve), .operation (.field (.unsigned 12))]
  have hmem : (.error (.truncatedRecord 9 1 105), r) ∈ steps demands (.ofSource s 100) := by
    decide +kernel
  have hpayload : ((Record.readPayload ⟨9, 3⟩).after (.ofSource s 100)).position = 102 := by
    decide +kernel
  obtain ⟨hsteps, haround⟩ := position_after_each s 100 demands
  obtain ⟨⟨sizes, hsource, hremaining, -⟩, hbits, hends⟩ := hsteps _ hmem
  obtain ⟨sizes', -, hposition⟩ := haround ⟨9, 3⟩ (.ofSource s 100) rfl
  have hhanded : (s.calls sizes).1 ++ [20, 30, 40] = [0xa5, 7, 0x43, 2, 10] ++ [20, 30, 40] :=
    hremaining
  exact ⟨s, r, rfl, hmem, ⟨sizes, hsource, List.append_cancel_right hhanded⟩,
    (hends _ 105 rfl rfl).symm, hbits, rfl, sizes', hposition.trans hpayload⟩

end Demand

end Swf
