import Swf.Proofs.Reader.Ensures
import Swf.Proofs.Rect
import Swf.Proofs.Writer.InMemory

/-!
# The width of a rectangle

The width of the fields is worked out from magnitudes and the fields are in two's complement, so the
rule and the fields do not quite agree: the negative of a power of two is counted with one bit more
than its field needs. Two consequences are told here.

When writing, the bit too much costs the bound `-2^30`, which the widest field could hold: a
rectangle can be written just when its bounds lie strictly between `-2^30` and `2^30`. When reading,
a rectangle that came in fields of `n` bits is counted with `n + 1` bits if a bound is the lowest
one of those fields, and with no more than `n` otherwise (`numberOfBits_of_fits`).
-/

namespace Swf

open Encoder Decoder

/-! ## Writing, wherever in a byte -/

namespace Encoder

/-- In front of a sink that takes everything `m` succeeds, however many bits are pending. -/
def Unrefused (m : Encoder Unit) : Prop :=
  ∀ w : Writer, w.InMemory → ∃ w', m w = .ok () w' ∧ w'.InMemory

theorem closed_unrefused : Closed Unrefused where
  pure := fun w hw => ⟨w, rfl, hw⟩
  bind := by
    intro m m' h h' w hw
    obtain ⟨w₁, hm, hw₁⟩ := h w hw
    obtain ⟨w₂, hm', hw₂⟩ := h' w₁ hw₁
    exact ⟨w₂, (bind_of_ok hm).trans hm', hw₂⟩
  emit := fun data _ hw => ⟨_, emit_of_inMemory hw data, hw.append data⟩
  align := fun _ hw => ⟨_, align_of_inMemory hw, hw.flushed⟩
  writeBit := by
    intro bit w hw
    rw [writeBit_eq]
    split
    · exact ⟨_, align_of_inMemory ⟨hw.capacity, hw.outages⟩,
        Writer.InMemory.flushed ⟨hw.capacity, hw.outages⟩⟩
    · exact ⟨_, rfl, hw.capacity, hw.outages⟩

end Encoder

namespace Rect

/-- A rectangle that is too wide is refused before anything is written. -/
theorem write_of_wide {r : Rect} (h : r.numberOfBits > maxFieldBits) (w : Writer) :
    r.write w = .error (.rangeOverflow .rectBound r.numberOfBits maxFieldBits) w := by
  unfold Rect.write
  simp only [h, if_true]
  rfl

/-- The width field can say the width if and only if every bound takes less than 31 bits. -/
theorem numberOfBits_le_max_iff {r : Rect} :
    r.numberOfBits ≤ maxFieldBits ↔ ∀ v ∈ r.bounds, -2 ^ 30 < v.toInt ∧ v.toInt < 2 ^ 30 := by
  rw [numberOfBits_le_iff]
  refine forall₂_congr fun v _ => ?_
  rw [countBits_le_iff]
  omega

/-! ## What was read in fields of a width -/

/-- A bound in a field of `n` bits. Only the lowest one that the field holds is counted with more
bits than it has. -/
theorem countBits_of_fits {n : Nat} {v : Int32} (h : FitsSigned n v) :
    countBits v ≤ n + 1 ∧ (n + 1 ≤ countBits v ↔ 1 ≤ n ∧ v.toInt = -2 ^ (n - 1)) := by
  unfold FitsSigned at h
  by_cases hn : n = 0
  · rw [if_pos hn] at h
    subst h hn
    decide
  · rw [if_neg hn, Nat.pow_eq] at h
    have hpos := Nat.two_pow_pos (n - 1)
    have hdouble : 2 ^ n = 2 * 2 ^ (n - 1) := by
      rw [← pow_succ']
      congr 1
      omega
    have hcast : ((2 ^ (n - 1) : Nat) : Int) = 2 ^ (n - 1) := by norm_cast
    unfold countBits
    by_cases hv : v = 0
    · -- zero is counted with no bit, and it is not the lowest bound of any field
      subst hv
      have hzero : (0 : Int32).toInt = 0 := rfl
      rw [if_pos rfl, hzero, ← hcast]
      omega
    · have hle : bitLength v.toInt.natAbs ≤ n := bitLength_le_iff.mpr (by omega)
      have hfewer := bitLength_le_iff (n := v.toInt.natAbs) (k := n - 1)
      rw [if_neg hv, ← hcast]
      omega

/-- A rectangle of bounds in fields of `n` bits. -/
theorem numberOfBits_of_fits {n : Nat} {r : Rect} (h : ∀ v ∈ r.bounds, FitsSigned n v) :
    r.numberOfBits ≤ n + 1 ∧
      (r.numberOfBits = n + 1 ↔ 1 ≤ n ∧ ∃ v ∈ r.bounds, v.toInt = -2 ^ (n - 1)) := by
  have hle : r.numberOfBits ≤ n + 1 :=
    numberOfBits_le_iff.mpr fun v hv => (countBits_of_fits (h v hv)).1
  have hwide : n + 1 ≤ r.numberOfBits ↔ ∃ v ∈ r.bounds, n + 1 ≤ countBits v := by
    have := numberOfBits_le_iff (r := r) (n := n)
    rw [Nat.succ_le_iff, ← Nat.not_le, this]
    simp only [not_forall, Nat.not_le, exists_prop, Nat.succ_le_iff]
  refine ⟨hle, ?_⟩
  calc r.numberOfBits = n + 1 ↔ n + 1 ≤ r.numberOfBits := by omega
    _ ↔ ∃ v ∈ r.bounds, n + 1 ≤ countBits v := hwide
    _ ↔ ∃ v ∈ r.bounds, 1 ≤ n ∧ v.toInt = -2 ^ (n - 1) :=
        exists_congr fun v => and_congr_right fun hv => (countBits_of_fits (h v hv)).2
    _ ↔ 1 ≤ n ∧ ∃ v ∈ r.bounds, v.toInt = -2 ^ (n - 1) := by
        simp only [and_left_comm, exists_and_left]

end Rect

/-- A signed field gives what fits into it. -/
theorem Decoder.Ensures.readSigned_fits {n : Nat} (hn : n ≤ 32) :
    Ensures (Decoder.readSigned n) fun v _ => FitsSigned n v := by
  by_cases h0 : n = 0
  · subst h0
    exact Ensures.pure rfl
  · refine (Ensures.readSigned hn).mono fun v _ hv => ?_
    unfold FitsSigned
    rw [if_neg h0]
    exact hv

namespace Rect

/-- Reads the bounds, in fields of `n` bits. -/
def readBounds (n : Nat) : Decoder Rect := do
  let minX ← readSigned n
  let maxX ← readSigned n
  let minY ← readSigned n
  let maxY ← readSigned n
  Decoder.align
  return { minX, maxX, minY, maxY }

theorem ensures_readBounds {n : Nat} (hn : n ≤ 32) :
    Ensures (readBounds n) fun r _ => ∀ v ∈ r.bounds, FitsSigned n v := by
  have hbound := Ensures.readSigned_fits hn
  refine hbound.bind fun minX _ hminX => hbound.bind fun maxX _ hmaxX =>
    hbound.bind fun minY _ hminY => hbound.bind fun maxY _ hmaxY =>
      Ensures.align.bind fun _ _ _ => Ensures.pure ?_
  intro v hv
  simp only [bounds, List.mem_cons, List.not_mem_nil, or_false] at hv
  rcases hv with rfl | rfl | rfl | rfl <;> assumption

end Rect

/-! ## The width that is read -/

namespace Decoder

/-- No bit is read where there is no byte. -/
theorem window_ne_nil_of_readBit {r r' : Reader} {b : Bool} (hb : r.bitCount = 0)
    (h : readBit r = .ok b r') : r.window ≠ [] := by
  intro hnone
  unfold readBit at h
  rw [get_bind, if_pos hb] at h
  obtain ⟨got, s, hfill, -⟩ := ok_of_bind h
  obtain ⟨hlen, hallow, -⟩ := gather_of_fill hfill
  have hall := (remaining_of_fill hfill).1
  have htake := r.take_allowance 1
  rw [hallow, hnone, hall] at htake
  cases got with
  | nil => cases hlen
  | cons byte got => cases htake

/-- The upper bits of a number and the lower ones. -/
theorem bitsOf_add (v m n : Nat) : bitsOf v (m + n) = bitsOf (v / 2 ^ n) m ++ bitsOf v n := by
  induction m with
  | zero => rw [Nat.zero_add, bitsOf, List.nil_append]
  | succ m ih =>
    rw [Nat.add_right_comm, bitsOf, bitsOf, ih, Nat.testBit_div_two_pow, List.cons_append]

/-- The width of a rectangle stands in the upper five bits of its first byte. -/
theorem toNat_of_readWidth {r r' : Reader} {width : UInt32} (hs : r.source.Steady)
    (hb : r.bitCount = 0) (h : readUnsigned Rect.widthBits r = .ok width r') :
    width.toNat = (r.window.headD 0).toNat / 8 := by
  obtain ⟨b, s, hbit, -⟩ : ∃ b s, readBit r = .ok b s ∧ _ := ok_of_bind h
  obtain ⟨byte, rest, hwindow⟩ := List.exists_cons_of_ne_nil (window_ne_nil_of_readBit hb hbit)
  have hbyte := byte.toNat_lt
  have hvalue : (UInt32.ofNat (byte.toNat / 8)).toNat = byte.toNat / 8 :=
    UInt32.toNat_ofNat_of_lt' (by simp only [UInt32.size]; omega)
  have hread := ReadsBits.readUnsigned_bitsOf (n := 5) (v := UInt32.ofNat (byte.toNat / 8))
    (by rw [hvalue]; omega)
  have hbits : r.bits = bitsOf (UInt32.ofNat (byte.toNat / 8)).toNat 5 ++
      (bitsOf byte.toNat 3 ++ bitsOfBytes rest) := by
    unfold Reader.bits
    rw [hb, hwindow, bitsOfBytes_cons, bitsOf_add _ 5 3, hvalue, List.append_assoc]
    rfl
  obtain ⟨r₁, hok, -⟩ := hread r _ hs (by omega) hbits
  obtain rfl : UInt32.ofNat (byte.toNat / 8) = width := by
    have : readUnsigned Rect.widthBits r = .ok (UInt32.ofNat (byte.toNat / 8)) r₁ := hok
    rw [h] at this
    cases this
    rfl
  rw [hvalue, hwindow]
  rfl

end Decoder

namespace Rect

/-- A rectangle that was read has bounds that fit the width in front of it. -/
theorem fits_of_read {reader reader' : Reader} {r : Rect} (hs : reader.source.Steady)
    (hb : reader.bitCount = 0) (h : Rect.read reader = .ok r reader') :
    ∀ v ∈ r.bounds, FitsSigned ((reader.window.headD 0).toNat / 8) v := by
  have heq : Rect.read = readUnsigned widthBits >>= fun width => readBounds width.toNat := rfl
  rw [heq] at h
  obtain ⟨width, s, hwidth, hbounds⟩ := ok_of_bind h
  have hlt := (reader.window.headD 0).toNat_lt
  have hvalue := toNat_of_readWidth hs hb hwidth
  obtain ⟨_, hfits, _⟩ := ensures_readBounds (n := width.toNat) (by omega) s r reader' hbounds
  rwa [hvalue] at hfits

/-- **Rectangles, exactly.** In front of a sink that takes everything, a rectangle can be written if
and only if its bounds lie strictly between `-2^30` and `2^30`, and else it is refused before
anything is written. From a byte boundary it takes as many bytes as its encoded length says, and the
writer is at a byte boundary again; and from these bytes, whatever stands behind them, the same
rectangle is read, and the reader stands right behind them.

Of a rectangle that is read the first five bits say the width `n` of the fields. Its own width is no
more than `n + 1`, and that much only if a bound is the lowest one in `n` bits. -/
theorem read_write_exact :
    (∀ (r : Rect) (w : Writer), w.InMemory →
      ((∃ w', r.write w = .ok () w') ↔ ∀ v ∈ r.bounds, -2 ^ 30 < v.toInt ∧ v.toInt < 2 ^ 30) ∧
        ((∃ v ∈ r.bounds, ¬ (-2 ^ 30 < v.toInt ∧ v.toInt < 2 ^ 30)) →
          r.write w = .error (.rangeOverflow .rectBound r.numberOfBits 31) w)) ∧
    (∀ (r : Rect) (w : Writer), w.AtByte →
      (∀ v ∈ r.bounds, -2 ^ 30 < v.toInt ∧ v.toInt < 2 ^ 30) →
      ∃ bytes, r.write w = .ok () (w.append bytes) ∧ (w.append bytes).AtByte ∧
        bytes.length = r.encodedLength ∧ ∀ p, Reads p Rect.read bytes r) ∧
    ∀ (reader reader' : Reader) (r : Rect) (n : Nat), reader.source.Steady →
      reader.bitCount = 0 → Rect.read reader = .ok r reader' →
      n = (reader.window.headD 0).toNat / 8 →
      r.numberOfBits ≤ n + 1 ∧
        (r.numberOfBits = n + 1 ↔ 1 ≤ n ∧ ∃ v ∈ r.bounds, v.toInt = -2 ^ (n - 1)) := by
  refine ⟨fun r w hw => ?_, fun r w hw hbounds => ?_, ?_⟩
  · rw [← numberOfBits_le_max_iff]
    refine ⟨⟨fun ⟨w', hok⟩ => ?_, fun h => ?_⟩, fun ⟨v, hv, hout⟩ => ?_⟩
    · rw [← Nat.not_lt]
      intro hwide
      rw [write_of_wide hwide] at hok
      cases hok
    · obtain ⟨w', hok, -⟩ := closed_write closed_unrefused h w hw
      exact ⟨w', hok⟩
    · refine write_of_wide (Nat.lt_of_not_le fun h => ?_) w
      exact hout (numberOfBits_le_max_iff.mp h v hv)
  · have hnarrow := numberOfBits_le_max_iff.mpr hbounds
    have hlayout : r.layout = .ok (packBits r.fields) := by
      unfold layout
      rw [if_neg (Nat.not_lt.mpr hnarrow)]
    have hencodes := encodes_write r
    rw [hlayout] at hencodes
    exact ⟨_, hencodes.ok hw, hw.append _, length_of_layout hlayout, fun p => reads_read hlayout⟩
  · rintro reader reader' r n hs hb hread rfl
    exact numberOfBits_of_fits (fits_of_read hs hb hread)

/-- The widest bounds that can be written, the narrowest one that can not, and fields of two bits
that hold their lowest value. -/
theorem read_write_exact_narrow :
    (∃ bytes, Rect.write ⟨-1073741823, 1073741823, 0, 1⟩ {} = .ok () (Writer.append {} bytes) ∧
      bytes.length = 17 ∧ Reads 3 Rect.read bytes ⟨-1073741823, 1073741823, 0, 1⟩) ∧
    Rect.write ⟨0, 0, -1073741824, 0⟩ {} = .error (.rangeOverflow .rectBound 32 31) {} ∧
    (∃ reader', Rect.read (.ofBytes [0x14, 0x98, 0xff]) = .ok ⟨-2, 1, 0, -1⟩ reader') ∧
      (⟨-2, 1, 0, -1⟩ : Rect).numberOfBits = 2 + 1 := by
  obtain ⟨hwrites, hbytes, hread⟩ := read_write_exact
  have hnarrow : ∀ v ∈ (⟨-1073741823, 1073741823, 0, 1⟩ : Rect).bounds,
      -2 ^ 30 < v.toInt ∧ v.toInt < 2 ^ 30 := by simp [bounds]
  have hwide : ∃ v ∈ (⟨0, 0, -1073741824, 0⟩ : Rect).bounds,
      ¬ (-2 ^ 30 < v.toInt ∧ v.toInt < 2 ^ 30) :=
    ⟨-1073741824, by simp [bounds], fun h => absurd h.1 (by decide)⟩
  obtain ⟨bytes, hwrite, -, hlen, hreads⟩ := hbytes _ {} Writer.atByte_empty hnarrow
  have hok : Decoder.outcome Rect.read (.ofBytes [0x14, 0x98, 0xff]) = .ok ⟨-2, 1, 0, -1⟩ := by
    decide +kernel
  have hlowest : ∃ v ∈ (⟨-2, 1, 0, -1⟩ : Rect).bounds, v.toInt = -2 ^ (2 - 1) :=
    ⟨-2, by simp [bounds], by decide⟩
  unfold Decoder.outcome at hok
  split at hok
  · next r reader' hr =>
    cases hok
    exact ⟨⟨bytes, hwrite, hlen, hreads 3⟩, (hwrites _ {} ⟨rfl, rfl⟩).2 hwide, ⟨reader', hr⟩,
      (hread _ _ _ 2 (Source.steady_ofBytes _) rfl hr (by decide)).2.mpr ⟨by decide, hlowest⟩⟩
  · cases hok

end Rect

end Swf
