import Swf.Proofs.Words
import Swf.Proofs.Reader.Window
import Mathlib.Data.Nat.ModEq

/-!
# What the bit fields read

Inside a bit field the reader stands between two bits, and what it can still see is a bit string:
the unread bits of its byte, then those of its window. `Decoder.ReadsBits m bits a` says that `m`
takes exactly `bits` off that string. It does not say how many bytes came from the source
meanwhile, and it need not: when all bits of a byte string are taken but fewer than eight, the
lengths decide how many there were (`Reads.of_bits`), and the layout is one of bytes again.
-/

namespace Swf

namespace Reader

/-- The bits that may still be taken. -/
def bits (r : Reader) : List Bool := bitsOf r.bitBuf.toNat r.bitCount ++ bitsOfBytes r.window

/-- `r'` is `r` after `bits` have been taken, less than a byte of them being left over. -/
structure TookBits (r : Reader) (bits : List Bool) (r' : Reader) : Prop where
  /-- Some bytes came from the source meanwhile. -/
  took : ∃ bytes, r.Took bytes r'
  /-- The bits came off the front. -/
  bits : r.bits = bits ++ r'.bits
  /-- The byte that is open has been begun. -/
  lt : r'.bitCount < 8

theorem TookBits.steady {r r' : Reader} {bits : List Bool} (h : r.TookBits bits r') :
    r'.source.Steady := by
  obtain ⟨_, t⟩ := h.took
  exact t.steady

theorem TookBits.trans {r s t : Reader} {bits bits' : List Bool} (h : r.TookBits bits s)
    (h' : s.TookBits bits' t) : r.TookBits (bits ++ bits') t where
  took := by
    obtain ⟨_, tb⟩ := h.took
    obtain ⟨_, tb'⟩ := h'.took
    exact ⟨_, tb.trans tb'⟩
  bits := by rw [h.bits, h'.bits, List.append_assoc]
  lt := h'.lt

end Reader

namespace Decoder

variable {α β : Type} {p : Nat}

/-- `m` takes exactly `bits` and gives `a`. -/
def ReadsBits (m : Decoder α) (bits : List Bool) (a : α) : Prop :=
  ∀ (r : Reader) (rest : List Bool), r.source.Steady → r.bitCount < 8 → r.bits = bits ++ rest →
    ∃ r', m r = .ok a r' ∧ r.TookBits bits r'

theorem ReadsBits.pure (a : α) : ReadsBits (pure a) [] a :=
  fun r _ hs hlt _ => ⟨r, rfl, ⟨[], Reader.took_nil hs rfl rfl rfl⟩, rfl, hlt⟩

theorem ReadsBits.bind {m : Decoder α} {f : α → Decoder β} {bits bits' : List Bool} {a : α} {b : β}
    (hm : ReadsBits m bits a) (hf : ReadsBits (f a) bits' b) :
    ReadsBits (m >>= f) (bits ++ bits') b := by
  intro r rest hs hlt hbits
  obtain ⟨r₁, h₁, t₁⟩ := hm r (bits' ++ rest) hs hlt (by rw [hbits, List.append_assoc])
  have hbits₁ : r₁.bits = bits' ++ rest := by
    have := t₁.bits
    rw [hbits, List.append_assoc] at this
    exact (List.append_cancel_left this).symm
  obtain ⟨r₂, h₂, t₂⟩ := hf r₁ rest t₁.steady t₁.lt hbits₁
  exact ⟨r₂, (bind_of_ok h₁).trans h₂, t₁.trans t₂⟩

/-- A last step that takes nothing. -/
theorem ReadsBits.bind_nil {m : Decoder α} {f : α → Decoder β} {bits : List Bool} {a : α} {b : β}
    (hm : ReadsBits m bits a) (hf : ReadsBits (f a) [] b) : ReadsBits (m >>= f) bits b := by
  have := hm.bind hf
  rwa [List.append_nil] at this

theorem ReadsBits.map {m : Decoder α} {bits : List Bool} {a : α} (f : α → β)
    (hm : ReadsBits m bits a) : ReadsBits (f <$> m) bits (f a) := by
  intro r rest hs hlt hbits
  obtain ⟨r', h, t⟩ := hm r rest hs hlt hbits
  exact ⟨r', by simp only [Functor.map, EStateM.map, h], t⟩

/-! ## Fields -/

theorem readBit_of_pos {r : Reader} {k : Nat} (h : r.bitCount = k + 1) :
    readBit r = .ok (r.bitBuf.toNat.testBit k) { r with bitCount := k } := by
  have hne : ¬ r.bitCount = 0 := by omega
  have hcount : r.bitCount - 1 = k := by omega
  unfold readBit
  rw [get_bind, if_neg hne]
  show EStateM.Result.ok (r.bitBuf.toNat.testBit (r.bitCount - 1))
    { r with bitCount := r.bitCount - 1 } = _
  rw [hcount]

theorem readBit_of_zero {r r' : Reader} {byte : UInt8} (h : r.bitCount = 0)
    (hf : fill 1 r = .ok [byte] r') :
    readBit r = .ok (byte.toNat.testBit 7) { r' with bitBuf := byte, bitCount := 7 } := by
  unfold readBit
  rw [get_bind, if_pos h, bind_of_ok hf]
  rfl

theorem ReadsBits.readBit (b : Bool) : ReadsBits readBit [b] b := by
  intro r rest hs hlt hbits
  unfold Reader.bits at hbits
  rcases hk : r.bitCount with _ | k
  · -- a new byte is taken: the window cannot be empty
    rw [hk, bitsOf, List.nil_append] at hbits
    obtain ⟨byte, window, hw⟩ : ∃ byte window, r.window = byte :: window := by
      rcases h : r.window with _ | ⟨byte, window⟩
      · rw [h] at hbits; exact absurd hbits (by simp)
      · exact ⟨byte, window, rfl⟩
    obtain ⟨r', hf, t, _, _⟩ := fill_of_le (n := 1) hs (by rw [hw]; simp)
    have htake : r.window.take 1 = [byte] := by rw [hw]; rfl
    rw [htake] at hf t
    have hw' : r'.window = window := by
      have := t.window
      rw [hw] at this
      simpa using this.symm
    rw [hw, bitsOfBytes_cons, bitsOf] at hbits
    obtain ⟨rfl, -⟩ : byte.toNat.testBit 7 = b ∧ _ := by simpa using hbits
    have topen : r'.Took [] { r' with bitBuf := byte, bitCount := 7 } :=
      Reader.took_nil t.steady rfl rfl rfl
    refine ⟨{ r' with bitBuf := byte, bitCount := 7 }, readBit_of_zero hk hf, ⟨_, t.trans topen⟩,
      ?_, ?_⟩
    · show bitsOf _ _ ++ bitsOfBytes r.window = _ ++ (bitsOf byte.toNat 7 ++ bitsOfBytes r'.window)
      rw [hk, hw, hw', bitsOf, List.nil_append, bitsOfBytes_cons, bitsOf]
      rfl
    · show 7 < 8
      omega
  · -- a bit of the open byte
    rw [hk, bitsOf] at hbits
    obtain ⟨rfl, -⟩ : r.bitBuf.toNat.testBit k = b ∧ _ := by simpa using hbits
    refine ⟨_, readBit_of_pos hk, ⟨[], Reader.took_nil hs rfl rfl rfl⟩, ?_, ?_⟩
    · show bitsOf _ _ ++ bitsOfBytes r.window =
        _ ++ (bitsOf r.bitBuf.toNat k ++ bitsOfBytes r.window)
      rw [hk]
      rfl
    · show k < 8
      omega

theorem shiftIn_eq (v : UInt32) (b : Bool) :
    (v <<< 1) ||| b.toUInt32 = UInt32.ofNat (2 * v.toNat + b.toNat) := by
  apply UInt32.toNat_inj.mp
  rw [UInt32.toNat_or, UInt32.toNat_shiftLeft, UInt32.toNat_ofNat']
  have hb : b.toUInt32.toNat = b.toNat := by cases b <;> rfl
  have hv := v.toNat_lt
  rw [hb]
  -- the lowest bit is free
  have heven : v.toNat <<< ((1 : UInt32).toNat % 32) % 2 ^ 32 = 2 * (v.toNat % 2 ^ 31) := by
    show v.toNat <<< 1 % 2 ^ 32 = _
    rw [Nat.shiftLeft_eq]
    omega
  rw [heven]
  have hor : 2 * (v.toNat % 2 ^ 31) ||| b.toNat = 2 * (v.toNat % 2 ^ 31) + b.toNat := by
    have := Nat.two_pow_add_eq_or_of_lt (i := 1) (b := b.toNat) (by have := b.toNat_le; omega)
      (v.toNat % 2 ^ 31)
    rw [pow_one] at this
    exact this.symm
  rw [hor]
  have := b.toNat_le
  omega

theorem ReadsBits.readBits (bits : List Bool) (v : UInt32) :
    ReadsBits (readBits v bits.length) bits
      (UInt32.ofNat (v.toNat * 2 ^ bits.length + bitsValue bits)) := by
  induction bits generalizing v with
  | nil =>
    have hv : UInt32.ofNat (v.toNat * 2 ^ ([] : List Bool).length + bitsValue []) = v := by
      simp [bitsValue]
    rw [hv]
    exact ReadsBits.pure v
  | cons b bits ih =>
    have hstep := (ReadsBits.readBit b).bind (f := fun bit =>
      Decoder.readBits ((v <<< 1) ||| bit.toUInt32) bits.length)
      (ih ((v <<< 1) ||| b.toUInt32))
    -- appending the bit first or last is the same up to a multiple of the word size
    have hval : UInt32.ofNat (((v <<< 1) ||| b.toUInt32).toNat * 2 ^ bits.length + bitsValue bits)
        = UInt32.ofNat (v.toNat * 2 ^ (b :: bits).length + bitsValue (b :: bits)) := by
      apply UInt32.toNat_inj.mp
      rw [shiftIn_eq, UInt32.toNat_ofNat', UInt32.toNat_ofNat', UInt32.toNat_ofNat',
        bitsValue_cons, List.length_cons, pow_succ 2 bits.length]
      have hmod : Nat.ModEq (2 ^ 32)
          ((2 * v.toNat + b.toNat) % 2 ^ 32 * 2 ^ bits.length + bitsValue bits)
          ((2 * v.toNat + b.toNat) * 2 ^ bits.length + bitsValue bits) :=
        ((Nat.mod_modEq _ _).mul_right _).add_right _
      refine hmod.trans ?_
      show _ % _ = _ % _
      congr 1
      ring
    rw [hval] at hstep
    exact hstep

theorem ReadsBits.readUnsigned (bits : List Bool) :
    ReadsBits (readUnsigned bits.length) bits (UInt32.ofNat (bitsValue bits)) := by
  have hzero : (0 : UInt32).toNat * 2 ^ bits.length + bitsValue bits = bitsValue bits := by simp
  have := ReadsBits.readBits bits 0
  rwa [hzero] at this

/-- A field reads the value that its width holds. -/
theorem ReadsBits.readUnsigned_bitsOf {n : Nat} {v : UInt32} (h : v.toNat < 2 ^ n) :
    ReadsBits (Decoder.readUnsigned n) (bitsOf v.toNat n) v := by
  have := ReadsBits.readUnsigned (bitsOf v.toNat n)
  rwa [length_bitsOf, bitsValue_bitsOf_of_lt h, UInt32.ofNat_toNat] at this

theorem ReadsBits.readSigned {n : Nat} {v : Int32} (hn : n ≤ 32) (h : Encoder.FitsSigned n v) :
    ReadsBits (readSigned n) (bitsOf (twosComplement n v.toInt).toNat n) v := by
  unfold Decoder.readSigned
  by_cases h0 : n = 0
  · subst h0
    obtain rfl : v = 0 := h
    exact ReadsBits.pure 0
  · rw [if_neg h0]
    have := (ReadsBits.readUnsigned_bitsOf (twosComplement_lt hn v.toInt)).map (signExtend n)
    rwa [signExtend_twosComplement (Nat.pos_of_ne_zero h0) hn h] at this

theorem ReadsBits.readFlag (b : Bool) : ReadsBits readFlag [b] b := by
  have h := (ReadsBits.readUnsigned [b]).map (· == 1)
  have hb : (UInt32.ofNat (bitsValue [b]) == 1) = b := by cases b <;> rfl
  rwa [hb] at h

/-! ## Bits that fill bytes -/

/-- Where the bits of a byte string are used up but for less than a byte, its bytes are what has
come from the source. -/
theorem took_of_tookBits {r r' : Reader} {bits pad : List Bool} {bytes rest : List UInt8}
    (h : r.TookBits bits r') (hb : r.bitCount = 0) (hw : r.window = bytes ++ rest)
    (hbytes : bitsOfBytes bytes = bits ++ pad) (hpad : pad.length < 8) :
    r.Took bytes r' ∧ r'.bitCount = pad.length := by
  obtain ⟨taken, t⟩ := h.took
  have hbits : bits ++ (pad ++ bitsOfBytes rest) = bits ++ r'.bits := by
    rw [← h.bits, ← List.append_assoc, ← hbytes, ← bitsOfBytes_append, ← hw]
    unfold Reader.bits
    rw [hb]
    rfl
  have hleft := congrArg List.length (List.append_cancel_left hbits)
  unfold Reader.bits at hleft
  simp only [List.length_append, length_bitsOfBytes, length_bitsOf] at hleft
  have hlt := h.lt
  have hwin := t.window
  rw [hw] at hwin
  obtain ⟨rfl, -⟩ := List.append_inj' hwin (by omega)
  exact ⟨t, by omega⟩

/-- A layout of bit fields that ends at a byte boundary of its own accord. -/
theorem Reads.of_bits {m : Decoder α} {a : α} {bytes : List UInt8}
    (h : ReadsBits m (bitsOfBytes bytes) a) : Reads p m bytes a := by
  intro r rest hs hp hb hw
  obtain ⟨r', hm, t⟩ := h r (bitsOfBytes rest) hs (by omega)
    (by unfold Reader.bits; rw [hb, hw, bitsOfBytes_append]; rfl)
  have hnone : bitsOfBytes bytes = bitsOfBytes bytes ++ [] := (List.append_nil _).symm
  obtain ⟨took, hcount⟩ := took_of_tookBits t hb hw hnone (by decide)
  exact ⟨r', hm, took, hcount⟩

/-- A layout of bit fields with zeros up to the next byte. -/
theorem Reads.of_packed {m : Decoder α} {a : α} {bits : List Bool} (h : ReadsBits m bits a) :
    Reads p (m >>= fun a => Decoder.align >>= fun _ => Pure.pure a) (packBits bits) a := by
  intro r rest hs hp hb hw
  have hpack := bitsOfBytes_packBits bits
  obtain ⟨r', hm, t⟩ := h r (List.replicate (padding bits.length) false ++ bitsOfBytes rest) hs
    (by omega)
    (by unfold Reader.bits
        rw [hb, hw, bitsOfBytes_append, hpack, List.append_assoc]
        rfl)
  obtain ⟨took, -⟩ := took_of_tookBits t hb hw hpack (by simpa using padding_lt _)
  refine ⟨{ r' with bitCount := 0 }, ?_, ?_, rfl⟩
  · rw [bind_of_ok hm]
    rfl
  · have talign : r'.Took [] { r' with bitCount := 0 } :=
      Reader.took_nil took.steady rfl rfl rfl
    have := took.trans talign
    rwa [List.append_nil] at this

end Decoder

end Swf
