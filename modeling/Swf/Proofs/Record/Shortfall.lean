import Swf.Proofs.Reader.Shortfall
import Swf.Record.Composition

/-!
# Records that are cut off

A record has two errors for a payload that wants more bytes than there are. If the declared length
is used up, the lengths disagree; if the stream ends in front of that, the record is truncated. The
two are told apart by the offset of the error alone, and this is enough: a stream that ends within
the payload ends in front of its limit, so its offset is less than the declared length away from
the start.
-/

namespace Swf.Record

open Decoder

/-- An end of the stream in front of the declared length stays one. -/
theorem endsAt_payloadError {header : RecordHeader} {start stop : Nat} {err : CodecError}
    (hle : start ≤ stop) (hlt : stop < start + header.length.toNat) (h : err.EndsAt stop) :
    (payloadError header start err).EndsAt stop := by
  cases err with
  | unexpectedEof expected offset =>
    have hoffset : offset = stop := h
    have hne : ¬ offset - start = header.length.toNat := by omega
    simp only [payloadError, if_neg hne]
    exact h
  | _ => exact h

theorem tracks_skip (code : UInt16) (n : Nat) : Tracks (mapError (.insideRecord code) (skip n)) :=
  fun r => (Tracks.closed.skip n r).mapError fun _ _ _ _ h => h.insideRecord code

theorem tracks_readPayload (header : RecordHeader) : Tracks (readPayload header) := by
  intro r
  refine (Tracks.position r).bind fun start r' h => ?_
  cases h
  refine TracksAt.within (TracksAt.bind ?_ fun tag s _ => ?_)
  · refine (Tracks.closed.tag header _).mapError fun err stop hle hbound h => ?_
    have hlt := hbound _ rfl
    have hallow : r.allowance header.length.toNat ≤ header.length.toNat := Nat.min_le_left ..
    exact endsAt_payloadError hle (Nat.lt_of_lt_of_le hlt (Nat.add_le_add_left hallow _)) h
  · refine (Tracks.position s).bind fun consumed s' _ => ?_
    dsimp only
    split
    · exact (tracks_skip header.code _ s').bind fun _ s'' _ => Tracks.pure tag s''
    · exact Tracks.pure tag s'

/-- **A record** is the same on a source that lacks bytes, or it reports where the bytes end. -/
theorem tracks_read (policy : UnknownTagPolicy) : Tracks (Record.read policy) := by
  refine Tracks.position.bind fun offset => Tracks.closed.recordHeader.bind fun header => ?_
  split
  · exact (tracks_skip header.code _).bind fun _ => Tracks.pure none
  · exact Tracks.throw _
  · exact Tracks.closed.map _ (tracks_readPayload header)

end Swf.Record
