import Swf.Proofs.Record.Layout
import Swf.Proofs.Tag.Refusal
import Swf.Proofs.Writer.InMemory

/-!
# A record is written as a whole or not at all

Everything that can go wrong with a record goes wrong in front of its first byte. The length of the
tag is worked out and its payload is collected in a sink apart, and the header looks at its code
before it writes anything; behind that point only the sink could still refuse. So in front of a sink
that takes everything, a record that is not written leaves the writer as it was, with the bits that
were pending still pending (`Record.write_of_inMemory`).

What can go wrong are five things, and each of them can be told from the tag
(`Tag.Unwritable`). That the payload is not as long as the tag declares is none of them.
-/

namespace Swf

open Encoder

namespace RecordHeader

/-- A header is written as its layout says, or the writer is as it was. -/
theorem write_of_inMemory (h : RecordHeader) (forceLong : Bool) {w : Writer} (hw : w.InMemory) :
    h.write forceLong w =
      match h.layout forceLong with
      | .error err => .error err w
      | .ok bytes => .ok () (w.flushed.append bytes) := by
  unfold RecordHeader.write layout bytes
  by_cases hcode : h.code > maxCode
  · rw [if_pos hcode]
    simp only [hcode, if_true]
    rfl
  · rw [if_neg hcode]
    simp only [hcode, if_false]
    by_cases hlong : h.needsLongForm forceLong
    · rw [if_pos hlong]
      simp only [hlong, if_true]
      exact (bind_of_ok (writeBytes_of_inMemory hw _)).trans (writeBytes_append hw _ _)
    · rw [if_neg hlong]
      simp only [hlong]
      exact writeBytes_of_inMemory hw _

end RecordHeader

namespace Record

/-- **A record** is written as its layout says, or the writer is as it was. -/
theorem write_of_inMemory (tag : Tag) {w : Writer} (hw : w.InMemory) :
    Record.write tag w =
      match layout tag with
      | .error err => .error err w
      | .ok bytes => .ok () (w.flushed.append bytes) := by
  unfold Record.write layout
  rw [tag.collect_write]
  cases hlength : tag.length with
  | error err => rfl
  | ok declared =>
    cases hpayload : tag.layout with
    | error err => rfl
    | ok payload =>
      have hsame : payload.length = declared.toNat := by
        rw [Tag.length_eq hpayload] at hlength
        exact (Tag.recordLength_eq_ok hlength).symm
      have hheader := (tag.header declared).write_of_inMemory (requiresLongHeader tag.code) hw
      show (if payload.length ≠ declared.toNat then _ else _ : Encoder Unit) w =
        match ((tag.header declared).layout (requiresLongHeader tag.code)).followedBy
          (.ok payload) with
        | .error err => .error err w
        | .ok bytes => .ok () (w.flushed.append bytes)
      rw [if_neg (not_not_intro hsame)]
      -- the header is the last thing that can be refused
      cases hfront : (tag.header declared).layout (requiresLongHeader tag.code) with
      | error err =>
        rw [hfront] at hheader
        exact bind_of_error hheader
      | ok front =>
        rw [hfront] at hheader
        exact (bind_of_ok hheader).trans (writeBytes_append hw front payload)

/-! ## What can go wrong -/

theorem layout_eq_error_iff {tag : Tag} : (∃ err, layout tag = .error err) ↔ tag.Unwritable := by
  constructor
  · rintro ⟨err, herr⟩
    by_contra hwritable
    have hpayload : ¬ ∃ err, tag.layout = .error err := by
      rw [Tag.layout_eq_error_iff]
      rintro (⟨text, hmem, hnul⟩ | ⟨table, htable, hmany⟩ | ⟨rect, hrect, v, hv, hbig⟩)
      · exact hwritable (.nul hmem hnul)
      · exact hwritable (.links htable hmany)
      · exact hwritable (.bound hrect hv hbig)
    cases hlayout : tag.layout with
    | error err' => exact hpayload ⟨err', hlayout⟩
    | ok payload =>
      have hcode : tag.code.toNat < 1024 :=
        Nat.lt_of_not_le fun hle => hwritable (.code hle)
      have hsize : payload.length < 0x100000000 := by
        rw [Tag.length_of_layout hlayout]
        exact Nat.lt_of_not_le fun hle => hwritable (.size hle)
      rw [layout_of_payload hlayout hcode hsize] at herr
      cases herr
  · intro hunwritable
    cases hlayout : layout tag with
    | error err => exact ⟨err, rfl⟩
    | ok bytes =>
      obtain ⟨declared, payload, hpayload, hlen, hcode, -⟩ := layout_eq_ok hlayout
      have hparts : ¬ ∃ err, tag.layout = .error err := by simp [hpayload]
      rw [Tag.layout_eq_error_iff] at hparts
      exfalso
      cases hunwritable with
      | code h => omega
      | nul hmem h => exact hparts (.inl ⟨_, hmem, h⟩)
      | links htable h => exact hparts (.inr (.inl ⟨_, htable, h⟩))
      | bound hrect hv h => exact hparts (.inr (.inr ⟨_, hrect, _, hv, h⟩))
      | size h =>
        have := declared.toNat_lt
        rw [← Tag.length_of_layout hpayload] at h
        omega

theorem refuses_layout (tag : Tag) : (layout tag).Refuses := by
  intro err h
  unfold layout at h
  cases hlength : tag.length with
  | error err' =>
    rw [hlength] at h
    cases h
    exact Tag.isRefusal_of_length hlength
  | ok declared =>
    cases hpayload : tag.layout with
    | error err' =>
      rw [hlength, hpayload] at h
      cases h
      exact tag.refuses_layout _ hpayload
    | ok payload =>
      rw [hlength, hpayload] at h
      exact ((RecordHeader.refuses_layout _ _).followedBy (Layout.refuses_ok payload)) err h

/-! ## All or nothing -/

/-- **All or nothing.** A payload that can be written is as long as its tag declares, so that check
of the writer never fails. In front of a sink that takes everything, and with any bits pending, a
record is written if and only if nothing in the tag keeps it from being written. Then all of it is
written behind what was pending; and if it is not, the writer is as it was. -/
theorem write_whole_or_nothing (tag : Tag) {w : Writer} (hw : w.InMemory) :
    (∀ payload, Writer.collect tag.write = .ok payload →
      payload.length = tag.size ∧
      (∀ declared, tag.length = .ok declared → declared.toNat = payload.length) ∧
      (payload.length < 2 ^ 32 → ∃ declared, tag.length = .ok declared)) ∧
    (∀ code declared actual w',
      Record.write tag w ≠ .error (.lengthMismatch code declared actual) w') ∧
    ((∃ err w', Record.write tag w = .error err w') ↔ tag.Unwritable) ∧
    (∀ err w', Record.write tag w = .error err w' → w' = w) ∧
    (∀ w', Record.write tag w = .ok () w' → ∃ declared payload,
      tag.length = .ok declared ∧ Writer.collect tag.write = .ok payload ∧
      w' = w.flushed.append
        ((tag.header declared).bytes (requiresLongHeader tag.code) ++ payload)) := by
  have hwrite := write_of_inMemory tag hw
  refine ⟨fun payload hpayload => ?_, fun code declared actual w' h => ?_, ?_, fun err w' h => ?_,
    fun w' h => ?_⟩
  · rw [tag.collect_write] at hpayload
    refine ⟨Tag.length_of_layout hpayload, fun declared h => ?_, fun hlt => ?_⟩
    · rw [Tag.length_eq hpayload] at h
      exact Tag.recordLength_eq_ok h
    · rw [Tag.length_eq hpayload]
      exact ⟨_, if_pos hlt⟩
  · cases hlayout : layout tag with
    | ok bytes => rw [hwrite, hlayout] at h; cases h
    | error err =>
      rw [hwrite, hlayout] at h
      cases h
      exact refuses_layout tag _ hlayout
  · rw [← layout_eq_error_iff, hwrite]
    cases layout tag <;> simp
  · cases hlayout : layout tag with
    | ok bytes => rw [hwrite, hlayout] at h; cases h
    | error err' => rw [hwrite, hlayout] at h; cases h; rfl
  · cases hlayout : layout tag with
    | error err => rw [hwrite, hlayout] at h; cases h
    | ok bytes =>
      obtain ⟨declared, payload, hpayload, hlen, -, rfl⟩ := layout_eq_ok hlayout
      rw [hwrite, hlayout] at h
      cases h
      exact ⟨declared, payload, Tag.length_of_payload hpayload hlen,
        tag.collect_write.trans hpayload, rfl⟩

/-- Three bits are pending. A table whose second name would end too early leaves them pending, also
though its first link could be written; a colour goes behind the byte that they are filled up to. -/
theorem write_whole_or_nothing_pending :
    ∃ w : Writer,
      w = { sink := { bytes := #[0x46] }, position := 1, bitBuf := 0xA0, bitCount := 3 } ∧
      (∃ err, Record.write (.symbolClass ⟨[(1, "a"), (2, "b\x00c")]⟩) w = .error err w) ∧
      ∃ w', Record.write (.setBackgroundColor ⟨1, 2, 3⟩) w = .ok () w' ∧
        w'.sink.toList = [0x46, 0xA0, 0x43, 2, 1, 2, 3] ∧ w'.position = 7 := by
  obtain ⟨w, hw⟩ : ∃ w : Writer,
      w = { sink := { bytes := #[0x46] }, position := 1, bitBuf := 0xA0, bitCount := 3 } :=
    ⟨_, rfl⟩
  have hmemory : w.InMemory := by rw [hw]; exact ⟨rfl, rfl⟩
  refine ⟨w, hw, ?_, ?_⟩
  · obtain ⟨-, -, hfails, hsame, -⟩ :=
      write_whole_or_nothing (.symbolClass ⟨[(1, "a"), (2, "b\x00c")]⟩) hmemory
    have hname : "b\x00c" ∈ (Tag.symbolClass ⟨[(1, "a"), (2, "b\x00c")]⟩).strings := by decide
    obtain ⟨err, w', h⟩ := hfails.mpr (.nul hname (by decide +kernel))
    obtain rfl := hsame err w' h
    exact ⟨err, h⟩
  · obtain ⟨-, -, hfails, -, hall⟩ :=
      write_whole_or_nothing (.setBackgroundColor ⟨1, 2, 3⟩) hmemory
    cases hrun : Record.write (.setBackgroundColor ⟨1, 2, 3⟩) w with
    | error err w' =>
      exfalso
      cases hfails.mp ⟨err, w', hrun⟩ with
      | code h => exact absurd h (by decide)
      | nul hmem _ => cases hmem
      | links htable _ => cases htable
      | bound hrect _ _ => cases hrect
      | size h => exact absurd h (by decide)
    | ok _ w' =>
      obtain ⟨declared, payload, hlength, hpayload, rfl⟩ := hall w' hrun
      rw [Tag.collect_write] at hpayload
      cases hlength
      cases hpayload
      rw [hw]
      exact ⟨_, rfl, rfl, rfl⟩

end Record

end Swf
