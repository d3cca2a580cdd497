import Swf.Proofs.Writer.Encodes

/-!
# What the bit fields write

Inside a bit field the writer has sent out the whole bytes and keeps the bits of the last one. So
after some bits it is one particular writer, `Writer.extend w bits`, however the fields divide
those bits among them; `Encoder.WritesBits m bits` says that `m` gets from any such writer to the
one with `bits` more. Filling up the last byte leaves nothing but the packed bits behind
(`align_extend`), and the layout is one of bytes again.
-/

namespace Swf

/-- The byte whose top bits are `pending`, with zeros below. -/
def openByte (pending : List Bool) : UInt8 :=
  UInt8.ofNat (bitsValue (pending ++ List.replicate (8 - pending.length) false))

theorem toNat_openByte {pending : List Bool} (h : pending.length ≤ 8) :
    (openByte pending).toNat = bitsValue pending * 2 ^ (8 - pending.length) := by
  have hlt := bitsValue_lt (pending ++ List.replicate (8 - pending.length) false)
  have hlen : (pending ++ List.replicate (8 - pending.length) false).length = 8 := by simp; omega
  rw [hlen] at hlt
  unfold openByte
  rw [UInt8.toNat_ofNat_of_lt' hlt, bitsValue_append, bitsValue_zeros, List.length_replicate,
    Nat.add_zero]

theorem bitsOf_openByte {pending : List Bool} (h : pending.length ≤ 8) :
    bitsOf (openByte pending).toNat 8 =
      pending ++ List.replicate (8 - pending.length) false := by
  have hlen : (pending ++ List.replicate (8 - pending.length) false).length = 8 := by simp; omega
  have hback := bitsOf_bitsValue (pending ++ List.replicate (8 - pending.length) false)
  rw [hlen, bitsValue_append, bitsValue_zeros, List.length_replicate, Nat.add_zero] at hback
  rw [toNat_openByte h, hback]

theorem packBits_of_length_le {pending : List Bool} (hpos : pending ≠ [])
    (h : pending.length ≤ 8) : packBits pending = [openByte pending] := by
  have hlen := List.length_pos_iff.mpr hpos
  refine (eq_packBits (k := 8 - pending.length) (by omega) ?_).symm
  rw [bitsOfBytes_cons, bitsOf_openByte h, bitsOfBytes_nil, List.append_nil]

/-- One bit at its place in a byte. -/
theorem toNat_shiftLeft_bit (bit : Bool) {k : Nat} (h : k < 8) :
    (bit.toUInt8 <<< UInt8.ofNat k).toNat = bit.toNat * 2 ^ k := by
  have hk8 : (UInt8.ofNat k).toNat % 8 = k := by
    rw [UInt8.toNat_ofNat_of_lt' (by simp only [UInt8.size]; omega), Nat.mod_eq_of_lt h]
  have hle : 2 ^ k ≤ 2 ^ 7 := Nat.pow_le_pow_right (by decide) (by omega)
  rw [UInt8.toNat_shiftLeft, hk8, Nat.shiftLeft_eq]
  cases bit
  · show 0 * 2 ^ k % 2 ^ 8 = 0 * 2 ^ k
    omega
  · show 1 * 2 ^ k % 2 ^ 8 = 1 * 2 ^ k
    omega

/-- Setting the highest free bit. -/
theorem setBit_openByte {pending : List Bool} (bit : Bool) (h : pending.length < 8) :
    openByte pending ||| (bit.toUInt8 <<< UInt8.ofNat (7 - pending.length)) =
      openByte (pending ++ [bit]) := by
  obtain ⟨k, hk⟩ : ∃ k, 7 - pending.length = k := ⟨_, rfl⟩
  have hfree : 8 - pending.length = k + 1 := by omega
  have hfree' : 8 - (pending ++ [bit]).length = k := by simp; omega
  have hlow : bit.toNat * 2 ^ k < 2 ^ (k + 1) := by
    have := Nat.mul_le_mul_right (2 ^ k) bit.toNat_le
    have := Nat.two_pow_pos k
    rw [pow_succ]
    omega
  apply UInt8.toNat_inj.mp
  rw [hk, UInt8.toNat_or, toNat_shiftLeft_bit bit (by omega), toNat_openByte (by omega),
    toNat_openByte (by simp; omega), hfree, hfree', Nat.mul_comm,
    ← Nat.two_pow_add_eq_or_of_lt hlow, bitsValue_append, pow_succ]
  simp [bitsValue]
  ring

/-- Whole bytes first, then less than a byte. -/
theorem exists_split (bits : List Bool) :
    ∃ bytes pending, bits = bitsOfBytes bytes ++ pending ∧ pending.length < 8 := by
  refine ⟨packBits (bits.take (8 * (bits.length / 8))), bits.drop (8 * (bits.length / 8)), ?_, ?_⟩
  · have hlen : (bits.take (8 * (bits.length / 8))).length = 8 * (bits.length / 8) := by
      rw [List.length_take]; omega
    have hpad : padding (8 * (bits.length / 8)) = 0 := by unfold padding; omega
    rw [bitsOfBytes_packBits, hlen, hpad, List.replicate_zero, List.append_nil,
      List.take_append_drop]
  · rw [List.length_drop]; omega

namespace Writer

/-- The writer after `bits` have been written. -/
def extend (w : Writer) (bits : List Bool) : Writer :=
  { w.append (packBits (bits.take (8 * (bits.length / 8)))) with
    bitBuf := openByte (bits.drop (8 * (bits.length / 8)))
    bitCount := bits.length % 8 }

/-- Where the bits fall into whole bytes and pending bits, the writer is told by both. -/
theorem extend_eq {w : Writer} {bits : List Bool} {bytes : List UInt8} {pending : List Bool}
    (hbits : bits = bitsOfBytes bytes ++ pending) (hlt : pending.length < 8) :
    w.extend bits =
      { w.append bytes with bitBuf := openByte pending, bitCount := pending.length } := by
  have hlen : bits.length = 8 * bytes.length + pending.length := by rw [hbits]; simp
  have hwhole : 8 * (bits.length / 8) = (bitsOfBytes bytes).length := by
    rw [length_bitsOfBytes]; omega
  have hmod : bits.length % 8 = pending.length := by omega
  have hpack : packBits (bitsOfBytes bytes) = bytes :=
    (eq_packBits (k := 0) (by omega) (by simp)).symm
  unfold extend
  rw [hmod, hwhole, hbits, List.take_left, List.drop_left, hpack]

/-- Whole bytes are written as bytes. -/
theorem AtByte.extend_bytes {w : Writer} (h : w.AtByte) (bytes : List UInt8) :
    w.extend (bitsOfBytes bytes) = w.append bytes := by
  have hsplit : bitsOfBytes bytes = bitsOfBytes bytes ++ [] := (List.append_nil _).symm
  have hcount := h.bitCount
  have hbuf := h.bitBuf
  rw [extend_eq hsplit (by decide)]
  cases w
  simp only at hcount hbuf
  subst hcount hbuf
  rfl

theorem AtByte.extend_nil {w : Writer} (h : w.AtByte) : w.extend [] = w := by
  have := h.extend_bytes []
  rwa [append_nil] at this

end Writer

namespace Encoder

/-- Wherever in a byte it starts, `m` writes `bits`. -/
def WritesBits (m : Encoder Unit) (bits : List Bool) : Prop :=
  ∀ (w : Writer) (before : List Bool), w.AtByte →
    m (w.extend before) = .ok () (w.extend (before ++ bits))

theorem WritesBits.pure : WritesBits (pure ()) [] := by
  intro w before _
  rw [List.append_nil]
  rfl

theorem WritesBits.bind {m m' : Encoder Unit} {bits bits' : List Bool} (h : WritesBits m bits)
    (h' : WritesBits m' bits') : WritesBits (m >>= fun _ => m') (bits ++ bits') := by
  intro w before hw
  rw [bind_of_ok (h w before hw), h' w (before ++ bits) hw, List.append_assoc]

/-! ## Fields -/

/-- Filling up the byte that is open. -/
theorem align_of_pos {w : Writer} (hcap : w.sink.capacity = none) (hout : w.sink.outages = [])
    (hpos : 0 < w.bitCount) :
    align w = .ok () { w.append [w.bitBuf] with bitBuf := 0, bitCount := 0 } := by
  unfold align
  rw [get_bind, if_pos hpos, set_bind]
  simp [emit, Sink.write, hcap, hout, Writer.append]

theorem writeBit_eq (bit : Bool) (w : Writer) :
    writeBit bit w =
      (if w.bitCount + 1 = 8 then align else pure ()) { w with
        bitBuf := w.bitBuf ||| (bit.toUInt8 <<< UInt8.ofNat (7 - w.bitCount))
        bitCount := w.bitCount + 1 } := by
  unfold writeBit
  rw [get_bind, set_bind]

theorem WritesBits.writeBit (bit : Bool) : WritesBits (writeBit bit) [bit] := by
  intro w before hw
  obtain ⟨bytes, pending, hbits, hlt⟩ := exists_split before
  rw [writeBit_eq, Writer.extend_eq hbits hlt]
  simp only [setBit_openByte bit hlt]
  by_cases hfull : pending.length = 7
  · -- the byte is complete and leaves the writer
    have hbyte : bitsOf (openByte (pending ++ [bit])).toNat 8 = pending ++ [bit] := by
      rw [bitsOf_openByte (by simp; omega)]
      simp [hfull]
    have hnext : before ++ [bit] = bitsOfBytes (bytes ++ [openByte (pending ++ [bit])]) ++ [] := by
      rw [hbits, bitsOfBytes_append, bitsOfBytes_cons, hbyte, bitsOfBytes_nil]
      simp
    rw [if_pos (by omega), Writer.extend_eq hnext (by decide), ← Writer.append_append, align_of_pos]
    · rfl
    · exact hw.capacity
    · exact hw.outages
    · exact Nat.succ_pos _
  · have hnext : before ++ [bit] = bitsOfBytes bytes ++ (pending ++ [bit]) := by
      rw [hbits, List.append_assoc]
    rw [if_neg (by omega), Writer.extend_eq hnext (by simp; omega), List.length_append]
    rfl

theorem WritesBits.writeBits (v : UInt32) (n : Nat) :
    WritesBits (writeBits v n) (bitsOf v.toNat n) := by
  induction n with
  | zero => exact WritesBits.pure
  | succ n ih => exact (WritesBits.writeBit (v.toNat.testBit n)).bind ih

theorem WritesBits.writeUnsigned {n : Nat} {v : UInt32} (h : v.toNat < 2 ^ n) :
    WritesBits (writeUnsigned n v) (bitsOf v.toNat n) := by
  have hfits : ¬ bitLength v.toNat > n := Nat.not_lt.mpr (bitLength_le_iff.mpr h)
  intro w before hw
  rw [← WritesBits.writeBits v n w before hw]
  unfold Encoder.writeUnsigned
  rw [if_neg hfits]

theorem WritesBits.writeSigned {n : Nat} {v : Int32} (hn : n ≤ 32) (h : FitsSigned n v) :
    WritesBits (writeSigned n v) (bitsOf (twosComplement n v.toInt).toNat n) := by
  intro w before hw
  rw [← WritesBits.writeUnsigned (twosComplement_lt hn v.toInt) w before hw]
  unfold Encoder.writeSigned
  rw [if_pos h]

theorem WritesBits.writeFlag (b : Bool) : WritesBits (writeFlag b) [b] := by
  have hlt : b.toUInt32.toNat < 2 ^ 1 := by cases b <;> decide
  have hbits : bitsOf b.toUInt32.toNat 1 = [b] := by cases b <;> rfl
  have := WritesBits.writeUnsigned hlt
  rwa [hbits] at this

/-! ## Bits that fill bytes -/

theorem align_extend {w : Writer} (hw : w.AtByte) (bits : List Bool) :
    align (w.extend bits) = .ok () (w.append (packBits bits)) := by
  obtain ⟨bytes, pending, hbits, hlt⟩ := exists_split bits
  have hpack : packBits bits = bytes ++ packBits pending := by
    refine (eq_packBits (padding_lt pending.length) ?_).symm
    rw [bitsOfBytes_append, bitsOfBytes_packBits, hbits, List.append_assoc]
  rw [Writer.extend_eq hbits hlt, hpack]
  by_cases hnone : pending = []
  · -- nothing is open
    subst hnone
    have hpack0 : packBits [] = [] := by rw [packBits]; rfl
    rw [← Writer.extend_eq hbits hlt, hbits, List.append_nil, hw.extend_bytes, hpack0,
      List.append_nil]
    exact align_of_atByte (hw.append bytes)
  · have hcount := hw.bitCount
    have hbuf := hw.bitBuf
    rw [packBits_of_length_le hnone (by omega), ← Writer.append_append, align_of_pos]
    · simp only [Writer.append, hcount, hbuf]
    · exact hw.capacity
    · exact hw.outages
    · exact List.length_pos_iff.mpr hnone

/-- Bit fields with zeros up to the next byte. -/
theorem Encodes.of_packed {m : Encoder Unit} {bits : List Bool} (h : WritesBits m bits) :
    Encodes (m >>= fun _ => Encoder.align) (.ok (packBits bits)) := by
  intro w hw
  have hm := h w [] hw
  rw [hw.extend_nil, List.nil_append] at hm
  show (m >>= fun _ => Encoder.align) w = .ok () (w.append (packBits bits))
  rw [bind_of_ok hm, align_extend hw]

/-- Bit fields that end at a byte boundary of their own accord. -/
theorem Encodes.of_bits {m : Encoder Unit} {bytes : List UInt8}
    (h : WritesBits m (bitsOfBytes bytes)) : Encodes m (.ok bytes) := by
  intro w hw
  have hm := h w [] hw
  rw [hw.extend_nil, List.nil_append, hw.extend_bytes] at hm
  exact hm

end Encoder

end Swf
