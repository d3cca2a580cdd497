import Swf.Proofs.RecordHeader
import Swf.Proofs.Tag.Layout
import Swf.Record

/-!
# Records are read back

A record is its header and its payload. The writer checks the payload against the length that the
tag declares, and that check never fires (`Record.encodes_write`): the length of a tag is the
length of its payload. The reader confines the payload to the declared length, and a payload of
just that length leaves nothing to pass over (`Record.reads_read`).
-/

namespace Swf

open Decoder Encoder

namespace Tag

/-- The header of a tag whose payload is `declared` bytes long. -/
def header (tag : Tag) (declared : UInt32) : RecordHeader :=
  { code := tag.code, length := declared }

end Tag

namespace Record

/-- The bytes of a record, or why there are none. -/
def layout (tag : Tag) : Layout := do
  let declared ← tag.length
  let payload ← tag.layout
  Layout.followedBy ((tag.header declared).layout (requiresLongHeader tag.code)) (.ok payload)

theorem encodes_write (tag : Tag) : Encodes (Record.write tag) (layout tag) := by
  refine Encodes.bind_ofExcept fun declared hlength => ?_
  rw [tag.collect_write]
  refine Encodes.bind_ofExcept fun payload hpayload => ?_
  have hsame : declared.toNat = payload.length := by
    rw [Tag.length_eq hpayload] at hlength
    exact Tag.recordLength_eq_ok hlength
  rw [if_neg (not_not_intro hsame.symm)]
  exact (RecordHeader.encodes_write _ _).bind (Encodes.writeBytes _)

/-- A record that there is consists of the header for its payload and of the payload. -/
theorem layout_eq_ok {tag : Tag} {bytes : List UInt8} (h : layout tag = .ok bytes) :
    ∃ declared payload, tag.layout = .ok payload ∧ declared.toNat = payload.length ∧
      tag.code.toNat < 1024 ∧
      bytes = (tag.header declared).bytes (requiresLongHeader tag.code) ++ payload := by
  unfold layout at h
  cases hlength : tag.length with
  | error err => rw [hlength] at h; exact absurd h (by simp [Bind.bind, Except.bind])
  | ok declared =>
    cases hpayload : tag.layout with
    | error err => rw [hlength, hpayload] at h; exact absurd h (by simp [Bind.bind, Except.bind])
    | ok payload =>
      rw [hlength, hpayload] at h
      obtain ⟨front, back, hfront, hback, rfl⟩ := Layout.followedBy_eq_ok h
      cases hback
      rw [Tag.length_eq hpayload] at hlength
      unfold RecordHeader.layout at hfront
      split at hfront
      · exact absurd hfront (by simp)
      · next hcode =>
        cases hfront
        exact ⟨declared, payload, rfl, Tag.recordLength_eq_ok hlength,
          RecordHeader.code_le_iff.mp hcode, rfl⟩

/-- And this is all that a record needs. -/
theorem layout_of_payload {tag : Tag} {payload : List UInt8} (h : tag.layout = .ok payload)
    (hcode : tag.code.toNat < 1024) (hlen : payload.length < 0x100000000) :
    layout tag = .ok ((tag.header (UInt32.ofNat payload.length)).bytes
      (requiresLongHeader tag.code) ++ payload) := by
  have hlength : tag.length = .ok (UInt32.ofNat payload.length) := by
    rw [Tag.length_eq h]
    unfold recordLength
    rw [if_pos hlen]
  have hheader : (tag.header (UInt32.ofNat payload.length)).layout (requiresLongHeader tag.code) =
      .ok ((tag.header (UInt32.ofNat payload.length)).bytes (requiresLongHeader tag.code)) := by
    unfold RecordHeader.layout
    exact if_neg (RecordHeader.code_le_iff.mpr hcode)
  unfold layout
  rw [hlength, h]
  show Layout.followedBy _ _ = _
  rw [hheader, Layout.followedBy_ok]

theorem length_pos_of_layout {tag : Tag} {bytes : List UInt8} (h : layout tag = .ok bytes) :
    0 < bytes.length := by
  obtain ⟨declared, payload, _, _, _, rfl⟩ := layout_eq_ok h
  rw [List.length_append, RecordHeader.length_bytes]
  unfold RecordHeader.encodedLength
  split <;> omega

/-! ## Reading -/

theorem reads_readPayload {p : Nat} {tag : Tag} {payload : List UInt8} {declared : UInt32}
    (hcanon : tag.Canonical) (h : tag.layout = .ok payload)
    (hlen : declared.toNat = payload.length) :
    Reads p (readPayload (tag.header declared)) payload tag := by
  have hinner : Reads p (do
      let tag' ← Decoder.mapError (payloadError (tag.header declared) p)
        (Tag.read (tag.header declared))
      let consumed := (← Decoder.position) - p
      if consumed < payload.length then
        Decoder.mapError (.insideRecord tag.code) (Decoder.skip (payload.length - consumed))
      return tag') payload tag := by
    refine ((Tag.reads_read hcanon h rfl hlen).mapError _).bind_nil ?_
    refine (Reads.position _).nil_bind ?_
    -- the layout took all of the payload
    rw [if_neg (by omega)]
    exact Reads.pure _ tag
  refine (Reads.position p).nil_bind ?_
  have := hinner.within
  rw [← hlen] at this
  exact this

/-- Behind a header in either form, a payload is read as its tag. -/
theorem reads_framed {p : Nat} {tag : Tag} {payload : List UInt8} {declared : UInt32}
    (forceLong : Bool) (hcanon : tag.Canonical) (h : tag.layout = .ok payload)
    (hlen : declared.toNat = payload.length) (hcode : tag.code.toNat < 1024) :
    Reads p (Record.read .preserve) ((tag.header declared).bytes forceLong ++ payload)
      (some tag) := by
  refine (Reads.position p).nil_bind ((RecordHeader.reads_read hcode).bind ?_)
  have hread := (reads_readPayload (p := p + ((tag.header declared).bytes forceLong).length)
    hcanon h hlen).map some
  cases hkind : TagKind.ofCode? (tag.header declared).code with
  | none => simpa only [hkind] using hread
  | some kind => simpa only [hkind] using hread

/-- A record is read as its tag. -/
theorem reads_read {p : Nat} {tag : Tag} {bytes : List UInt8} (hcanon : tag.Canonical)
    (h : layout tag = .ok bytes) : Reads p (Record.read .preserve) bytes (some tag) := by
  obtain ⟨declared, payload, hpayload, hlen, hcode, rfl⟩ := layout_eq_ok h
  exact reads_framed _ hcanon hpayload hlen hcode

end Record

end Swf
