import Swf.Proofs.Reader.BitFields
import Swf.Proofs.Reader.Fields
import Swf.Proofs.Writer.BitFields

/-!
# Fields at any place of a byte

A bit field goes on where the field before it has ended; a field of whole bytes goes on to the next
byte first. So what a field occupies depends on how many bits stand before it, and on nothing else.
`Encoder.WritesFrom n m bits` and `Decoder.ReadsFrom n m bits a` say what is written and read `n`
bits into a byte string, and both are closed under sequencing with `n` going on.

The two ends keep different books. A writer holds back the bits of a byte that is not full, and a
reader has taken the whole byte at its first bit. Where no bit is open on either side, they are at
the same place (`Reader.TookBits.position`).
-/

namespace Swf

/-- The zeros up to the next byte, `n` bits into a byte string. -/
def gap (n : Nat) : List Bool := List.replicate (padding n) false

/-- What whole bytes occupy `n` bits into a byte string: those zeros, and the bytes. -/
def alignedBits (n : Nat) (bytes : List UInt8) : List Bool := gap n ++ bitsOfBytes bytes

@[simp] theorem length_gap (n : Nat) : (gap n).length = padding n := List.length_replicate

theorem append_gap (bits : List Bool) :
    bits ++ gap bits.length = bitsOfBytes (packBits bits) := (bitsOfBytes_packBits bits).symm

/-- Where one bit string goes on as bytes, so does an equal one. -/
theorem eq_append_of_bitsOfBytes {bytes front : List UInt8} {rest : List Bool}
    (h : bitsOfBytes bytes = bitsOfBytes front ++ rest) :
    ∃ back, bytes = front ++ back ∧ rest = bitsOfBytes back := by
  have hlen := congrArg List.length h
  simp only [List.length_append, length_bitsOfBytes] at hlen
  have hsplit := List.take_append_drop front.length bytes
  rw [← hsplit, bitsOfBytes_append] at h
  obtain ⟨hfront, hback⟩ := List.append_inj h (by simp; omega)
  rw [bitsOfBytes_inj hfront] at hsplit
  exact ⟨bytes.drop front.length, hsplit.symm, hback.symm⟩

/-! ## Writing -/

@[simp] theorem Writer.bitCount_extend (w : Writer) (bits : List Bool) :
    (w.extend bits).bitCount = bits.length % 8 := rfl

/-- A writer has counted the bytes that are complete. -/
theorem Writer.position_extend (w : Writer) (bits : List Bool) :
    (w.extend bits).position = w.position + bits.length / 8 := by
  show w.position + (packBits (bits.take (8 * (bits.length / 8)))).length = _
  rw [length_packBits, List.length_take]
  omega

namespace Encoder

variable {m m' : Encoder Unit} {bits bits' : List Bool} {n : Nat}

/-- After any `n` bits, `m` writes `bits`. -/
def WritesFrom (n : Nat) (m : Encoder Unit) (bits : List Bool) : Prop :=
  ∀ (w : Writer) (before : List Bool), w.AtByte → before.length = n →
    m (w.extend before) = .ok () (w.extend (before ++ bits))

theorem WritesBits.writesFrom (h : WritesBits m bits) (n : Nat) : WritesFrom n m bits :=
  fun w before hw _ => h w before hw

theorem WritesFrom.pure (n : Nat) : WritesFrom n (pure ()) [] := WritesBits.pure.writesFrom n

theorem WritesFrom.bind (h : WritesFrom n m bits) (h' : WritesFrom (n + bits.length) m' bits') :
    WritesFrom n (m >>= fun _ => m') (bits ++ bits') := by
  intro w before hw hn
  rw [bind_of_ok (h w before hw hn), h' w (before ++ bits) hw (by rw [List.length_append, hn]),
    List.append_assoc]

theorem WritesFrom.align (n : Nat) : WritesFrom n align (gap n) := by
  intro w before hw hn
  subst hn
  rw [align_extend hw, append_gap, hw.extend_bytes]

/-- Filling up the open byte beforehand makes no difference. -/
def AlignsFirst (m : Encoder Unit) : Prop := (align >>= fun _ => m) = m

/-- Filled up once, the byte is not open any more. -/
theorem alignsFirst_align : AlignsFirst align := by
  funext w
  by_cases hopen : w.bitCount > 0
  · have halign : align w = emit [w.bitBuf] { w with bitBuf := 0, bitCount := 0 } := by
      unfold align
      rw [get_bind, if_pos hopen, set_bind]
    cases hemit : emit [w.bitBuf] { w with bitBuf := 0, bitCount := 0 } with
    | error err w' => rw [bind_of_error (halign.trans hemit), halign, hemit]
    | ok u w' =>
      have hclosed : ¬ w'.bitCount > 0 := by
        unfold emit at hemit
        split at hemit <;> cases hemit
        exact Nat.lt_irrefl 0
      rw [bind_of_ok (halign.trans hemit), halign, hemit]
      unfold align
      rw [get_bind, if_neg hclosed]
      rfl
  · have halign : align w = .ok () w := by
      unfold align
      rw [get_bind, if_neg hopen]
      rfl
    rw [bind_of_ok halign]

theorem AlignsFirst.bind (h : AlignsFirst m) (f : Unit → Encoder Unit) :
    AlignsFirst (m >>= f) := by
  unfold AlignsFirst at h ⊢
  rw [← bind_assoc, h]

theorem alignsFirst_writeBytes (data : List UInt8) : AlignsFirst (writeBytes data) :=
  alignsFirst_align.bind fun _ => emit data

/-- Whole bytes, behind the zeros that fill up the open byte. -/
theorem WritesFrom.of_encodes {bytes : List UInt8} (h : Encodes m (.ok bytes))
    (hm : AlignsFirst m) (n : Nat) : WritesFrom n m (alignedBits n bytes) := by
  intro w before hw hn
  subst hn
  rw [← hm, bind_of_ok (align_extend hw before), h.ok (hw.append _), Writer.append_append,
    ← hw.extend_bytes, bitsOfBytes_append, ← append_gap, List.append_assoc]
  rfl

end Encoder

/-! ## Reading -/

theorem Reader.TookBits.length {r r' : Reader} {bits : List Bool} (h : r.TookBits bits r') :
    r.bitCount + 8 * r.window.length = bits.length + r'.bitCount + 8 * r'.window.length := by
  have := congrArg List.length h.bits
  unfold Reader.bits at this
  simp only [List.length_append, length_bitsOf, length_bitsOfBytes] at this
  omega

/-- How many bits are left over follows from the number of bits before. -/
theorem Reader.TookBits.bitCount {r r' : Reader} {bits : List Bool} {n : Nat}
    (h : r.TookBits bits r') (hn : r.bitCount = padding n) :
    r'.bitCount = padding (n + bits.length) := by
  have hlen := h.length
  have hlt := h.lt
  unfold padding at hn ⊢
  omega

/-- So does the position: all bytes have been taken that the bits have begun. -/
theorem Reader.TookBits.position {r r' : Reader} {bits : List Bool} {n : Nat}
    (h : r.TookBits bits r') (hn : r.bitCount = padding n) :
    r'.position + (n + 7) / 8 = r.position + (n + bits.length + 7) / 8 := by
  have hlen := h.length
  have hcount := h.bitCount hn
  obtain ⟨bytes, took⟩ := h.took
  have hpos := took.position
  have hwin := congrArg List.length took.window
  rw [List.length_append] at hwin
  unfold padding at hn hcount
  omega

/-- Bytes that the bits fill but for zeros are used up with them. -/
theorem remaining_of_tookBits {bits : List Bool} {r : Reader}
    (h : (Reader.ofBytes (packBits bits)).TookBits bits r) : r.source.remaining = [] := by
  have hlen := h.length
  have hcount := h.bitCount (n := 0) rfl
  obtain ⟨_, took⟩ := h.took
  have hlimit : r.limit = none := took.limit
  have hwindow : r.window = r.source.remaining := by unfold Reader.window; rw [hlimit]
  have hstart : (Reader.ofBytes (packBits bits)).window = packBits bits := rfl
  have hclosed : (Reader.ofBytes (packBits bits)).bitCount = 0 := rfl
  rw [hwindow, hstart, hclosed, length_packBits] at hlen
  unfold padding at hcount
  exact List.length_eq_zero_iff.mp (by omega)

namespace Decoder

variable {α β : Type} {n : Nat}

/-- After `n` bits, `m` takes exactly `bits` and gives `a`. -/
def ReadsFrom (n : Nat) (m : Decoder α) (bits : List Bool) (a : α) : Prop :=
  ∀ (r : Reader) (rest : List Bool), r.source.Steady → r.bitCount = padding n →
    r.bits = bits ++ rest → ∃ r', m r = .ok a r' ∧ r.TookBits bits r'

theorem ReadsBits.readsFrom {m : Decoder α} {bits : List Bool} {a : α} (h : ReadsBits m bits a)
    (n : Nat) : ReadsFrom n m bits a :=
  fun r rest hs hn hbits => h r rest hs (hn ▸ padding_lt n) hbits

theorem ReadsFrom.pure (n : Nat) (a : α) : ReadsFrom n (pure a) [] a :=
  (ReadsBits.pure a).readsFrom n

theorem ReadsFrom.bind {m : Decoder α} {f : α → Decoder β} {bits bits' : List Bool} {a : α} {b : β}
    (hm : ReadsFrom n m bits a) (hf : ReadsFrom (n + bits.length) (f a) bits' b) :
    ReadsFrom n (m >>= f) (bits ++ bits') b := by
  intro r rest hs hn hbits
  obtain ⟨r₁, h₁, t₁⟩ := hm r (bits' ++ rest) hs hn (by rw [hbits, List.append_assoc])
  have hbits₁ : r₁.bits = bits' ++ rest := by
    have := t₁.bits
    rw [hbits, List.append_assoc] at this
    exact (List.append_cancel_left this).symm
  obtain ⟨r₂, h₂, t₂⟩ := hf r₁ rest t₁.steady (t₁.bitCount hn) hbits₁
  exact ⟨r₂, (bind_of_ok h₁).trans h₂, t₁.trans t₂⟩

/-- A last step that takes nothing. -/
theorem ReadsFrom.bind_nil {m : Decoder α} {f : α → Decoder β} {bits : List Bool} {a : α} {b : β}
    (hm : ReadsFrom n m bits a) (hf : ReadsFrom (n + bits.length) (f a) [] b) :
    ReadsFrom n (m >>= f) bits b := by
  have := hm.bind hf
  rwa [List.append_nil] at this

theorem ReadsFrom.map {m : Decoder α} {bits : List Bool} {a : α} (f : α → β)
    (hm : ReadsFrom n m bits a) : ReadsFrom n (f <$> m) bits (f a) := by
  have := hm.bind (f := fun a => Pure.pure (f a)) (ReadsFrom.pure _ (f a))
  rwa [List.append_nil] at this

/-- Whole bytes, read after the unread bits of the open byte were dropped. -/
theorem ReadsFrom.of_reads {m : Decoder α} {bytes : List UInt8} {a : α}
    (h : ∀ p, Reads p m bytes a) (hm : ∀ r : Reader, m { r with bitCount := 0 } = m r) (n : Nat) :
    ReadsFrom n m (alignedBits n bytes) a := by
  intro r rest hs hn hbits
  unfold Reader.bits alignedBits at hbits
  rw [List.append_assoc] at hbits
  obtain ⟨hgap, hbytes⟩ := List.append_inj hbits (by rw [length_bitsOf, length_gap, hn])
  obtain ⟨back, hw, -⟩ := eq_append_of_bitsOfBytes hbytes
  obtain ⟨r', hread, took, hcount⟩ := h r.position { r with bitCount := 0 } back hs rfl rfl hw
  rw [hm] at hread
  have took' : r.Took bytes r' := { took with }
  refine ⟨r', hread, ⟨bytes, took'⟩, ?_, by omega⟩
  unfold Reader.bits alignedBits
  rw [hgap, hcount, took'.window, bitsOfBytes_append, List.append_assoc]
  rfl

theorem ReadsFrom.align (n : Nat) : ReadsFrom n align (gap n) () := by
  have := ReadsFrom.of_reads Reads.align (fun _ => rfl) n
  unfold alignedBits at this
  rwa [bitsOfBytes_nil, List.append_nil] at this

end Decoder

end Swf
