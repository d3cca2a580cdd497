import Swf.Sequencing
import Swf.Proofs.Words
import Swf.Proofs.Zlib.Delivers
import Swf.Zlib.Stored

/-!
# Stored blocks are decoded to their content

A stream of stored blocks holds its content as it is, and the decoder copies it out again. The one
thing to see is that the bounds on its loops never bind: every block but the last one holds bytes,
so there are no more blocks than bytes, and the stream is longer than its content.
-/

namespace Swf.Zlib

namespace Inflater

variable {α β : Type}

/-- From a byte boundary, `m` takes exactly `bytes`, adds `content` and gives `a`. -/
def Yields (m : Inflater α) (bytes content : List UInt8) (a : α) : Prop :=
  ∀ (p : Progress) (rest : List UInt8), p.used = 0 → p.input = bytes ++ rest →
    ∃ p', m p = .ok a p' ∧ p'.used = 0 ∧ p'.input = rest ∧
      p'.output.toList = p.output.toList ++ content

theorem toByte_eq (p : Progress) :
    toByte p = .ok () (if p.used = 0 then p else { p with input := p.input.drop 1, used := 0 }) :=
  rfl

theorem Yields.pure (a : α) : Yields (pure a) [] [] a :=
  fun p _ hu hi => ⟨p, rfl, hu, hi, (List.append_nil _).symm⟩

theorem Yields.bind {m : Inflater α} {f : α → Inflater β}
    {bytes bytes' content content' : List UInt8} {a : α} {b : β}
    (hm : Yields m bytes content a) (hf : Yields (f a) bytes' content' b) :
    Yields (m >>= f) (bytes ++ bytes') (content ++ content') b := by
  intro p rest hu hi
  obtain ⟨p₁, h₁, u₁, i₁, o₁⟩ := hm p (bytes' ++ rest) hu (by rw [hi, List.append_assoc])
  obtain ⟨p₂, h₂, u₂, i₂, o₂⟩ := hf p₁ rest u₁ i₁
  refine ⟨p₂, ?_, u₂, i₂, by rw [o₂, o₁, List.append_assoc]⟩
  rw [bind_of_ok h₁, h₂]

/-- Bits of one byte. Its last bit makes the next byte the first one. -/
theorem takeBits_of_used {p : Progress} {b : UInt8} {rest : List UInt8} {n : Nat}
    (hi : p.input = b :: rest) (hu : p.used < 8) (hn : p.used + n ≤ 8) :
    takeBits n p = .ok (b.toNat >>> p.used % 2 ^ n)
      (if p.used + n = 8 then { p with input := rest, used := 0 }
        else { p with used := p.used + n }) := by
  induction n generalizing p with
  | zero =>
    rw [pow_zero, Nat.mod_one, if_neg (by omega)]
    rfl
  | succ n ih =>
    have hval : (b.toNat.testBit p.used).toNat + 2 * (b.toNat >>> (p.used + 1) % 2 ^ n) =
        b.toNat >>> p.used % 2 ^ (n + 1) := by
      rw [Nat.toNat_testBit, Nat.shiftRight_succ, pow_succ', Nat.mod_mul, Nat.shiftRight_eq_div_pow]
    rw [takeBits, ← hval]
    by_cases hlast : p.used = 7
    · -- the top bit, behind which no more are asked for
      obtain rfl : n = 0 := by omega
      have hbit : takeBit p = .ok (b.toNat.testBit p.used) { p with input := rest, used := 0 } := by
        unfold takeBit
        rw [hi]
        simp only [hlast, if_true]
      have hend : p.used + (0 + 1) = 8 := by omega
      rw [bind_of_ok hbit, if_pos hend, pow_zero, Nat.mod_one]
      rfl
    · have hbit : takeBit p = .ok (b.toNat.testBit p.used) { p with used := p.used + 1 } := by
        unfold takeBit
        rw [hi]
        simp only
        rw [if_neg hlast]
      have hmore := ih (p := { p with used := p.used + 1 }) hi (by simp only; omega)
        (by simp only; omega)
      rw [bind_of_ok hbit, bind_of_ok hmore]
      simp only [Nat.add_assoc, Nat.add_comm 1 n]
      rfl

theorem Yields.takeBits_byte (b : UInt8) : Yields (takeBits 8) [b] [] b.toNat := by
  intro p rest hu hi
  have htake := takeBits_of_used (n := 8) hi (by omega) (by omega)
  have hval : b.toNat >>> 0 % 2 ^ 8 = b.toNat := by
    have := b.toNat_lt
    rw [Nat.shiftRight_zero]
    omega
  rw [if_pos (by omega), hu, hval] at htake
  exact ⟨_, htake, rfl, rfl, (List.append_nil _).symm⟩

theorem Yields.takeBytes (bytes : List UInt8) :
    Yields (takeBytes bytes.length) bytes [] bytes := by
  induction bytes with
  | nil => exact Yields.pure []
  | cons b bytes ih =>
    have hbyte : Yields takeByte [b] [] b := by
      intro p rest hu hi
      refine ⟨{ p with input := rest }, ?_, hu, rfl, (List.append_nil _).symm⟩
      unfold takeByte
      rw [hi]
      rfl
    have hrest := ih.bind (f := fun bs => Pure.pure (b :: bs)) (Yields.pure (b :: bytes))
    rw [List.append_nil, List.append_nil] at hrest
    exact hbyte.bind hrest

theorem Yields.copyByte (b : UInt8) : Yields copyByte [b] [b] () := by
  intro p rest hu hi
  have hnote : p.noteWindow.used = p.used ∧ p.noteWindow.input = p.input ∧
      p.noteWindow.output = p.output := by
    unfold Progress.noteWindow
    split <;> exact ⟨rfl, rfl, rfl⟩
  obtain ⟨hu', hi', ho'⟩ := hnote
  have htake : takeByte p.noteWindow = .ok b { p.noteWindow with input := rest } := by
    unfold takeByte
    rw [hi', hi]
    rfl
  refine ⟨{ p.noteWindow with input := rest, output := p.noteWindow.output.push b },
    ?_, ?_, rfl, ?_⟩
  · unfold Inflater.copyByte
    rw [modify_bind, bind_of_ok htake]
    rfl
  · exact hu'.trans hu
  · simp [ho']

end Inflater

open Inflater

theorem yields_storedBytes (data : List UInt8) : Yields (storedBytes data.length) data data () := by
  induction data with
  | nil => exact Yields.pure ()
  | cons b data ih => exact (Yields.copyByte b).bind ih

/-! ## Blocks -/

/-- What follows the three bits that start a stored block. -/
def storedTail (data : List UInt8) : List UInt8 :=
  bytesOfUInt16 (UInt16.ofNat data.length) ++
    bytesOfUInt16 (UInt16.ofNat (maxStored - data.length)) ++ data

/-- A stored block from the middle of the byte that its three bits are in. -/
theorem stored_of_used {p : Progress} {flag : UInt8} {data rest : List UInt8}
    (hlen : data.length ≤ maxStored) (hu : p.used = 3)
    (hi : p.input = flag :: (storedTail data ++ rest)) :
    ∃ p', stored p = .ok () p' ∧ p'.used = 0 ∧ p'.input = rest ∧
      p'.output.toList = p.output.toList ++ data := by
  have hmax : maxStored = 65535 := rfl
  have hone : (UInt16.ofNat data.length).toNat = data.length :=
    UInt16.toNat_ofNat_of_lt' (by simp only [UInt16.size]; omega)
  have hother : (UInt16.ofNat (maxStored - data.length)).toNat = maxStored - data.length :=
    UInt16.toNat_ofNat_of_lt' (by simp only [UInt16.size]; omega)
  have htail : Yields (do
      let length := littleEndian (← takeBytes 2)
      let complement := littleEndian (← takeBytes 2)
      unless length + complement = 0xFFFF do throw Stop.damaged
      storedBytes length) (storedTail data) data () := by
    unfold storedTail
    rw [List.append_assoc]
    refine (Yields.takeBytes (bytesOfUInt16 (UInt16.ofNat data.length))).bind ?_
    refine (Yields.takeBytes (bytesOfUInt16 (UInt16.ofNat (maxStored - data.length)))).bind ?_
    simp only [littleEndian_bytesOfUInt16, hone, hother]
    rw [if_pos (by omega)]
    exact yields_storedBytes data
  have hbyte : toByte p = .ok () { p with input := storedTail data ++ rest, used := 0 } := by
    rw [toByte_eq, if_neg (by omega), hi]
    rfl
  obtain ⟨p', h, hu', hi', ho'⟩ :=
    htail { p with input := storedTail data ++ rest, used := 0 } rest rfl rfl
  refine ⟨p', ?_, hu', hi', ho'⟩
  show (toByte >>= fun _ => _) p = _
  rw [bind_of_ok hbyte]
  exact h

theorem yields_block (last : Bool) {data : List UInt8} (fuel : Nat)
    (hlen : data.length ≤ maxStored) :
    Yields (block fuel) (storedBlock last.toUInt8 data) data last := by
  intro p rest hu hi
  have hin : p.input = last.toUInt8 :: (storedTail data ++ rest) := by
    rw [hi]
    simp [storedBlock, storedTail]
  have hbit : takeBit p = .ok last { p with used := 1 } := by
    unfold takeBit
    rw [hin, hu]
    cases last <;> rfl
  have hkind : takeBits 2 { p with used := 1 } = .ok 0 { p with used := 3 } := by
    have htake := takeBits_of_used (p := { p with used := 1 }) (n := 2) hin (by simp only; omega)
      (by simp only; omega)
    rw [htake]
    cases last <;> rfl
  obtain ⟨p', h, hu', hi', ho'⟩ :=
    stored_of_used (p := { p with used := 3 }) hlen rfl hin
  refine ⟨p', ?_, hu', hi', ho'⟩
  rw [block, bind_of_ok hbit, bind_of_ok hkind]
  exact bind_of_ok h

theorem yields_blocks {data : List UInt8} (symbols : Nat) {fuel : Nat}
    (hfuel : data.length < fuel) :
    Yields (blocks symbols fuel) (storedBlocks data) data () := by
  induction hn : data.length using Nat.strongRecOn generalizing data fuel with
  | ind n ih =>
    obtain ⟨fuel, rfl⟩ : ∃ k, fuel = k + 1 := ⟨fuel - 1, by omega⟩
    have hmax : maxStored = 65535 := rfl
    unfold blocks
    rw [storedBlocks]
    by_cases hshort : data.length ≤ maxStored
    · -- the last block
      rw [if_pos hshort]
      have := (yields_block true symbols hshort).bind (f := fun last =>
        unless last do blocks symbols fuel) (Yields.pure ())
      rwa [List.append_nil, List.append_nil] at this
    · rw [if_neg hshort]
      have htake : (data.take maxStored).length ≤ maxStored := List.length_take_le ..
      have hdrop : (data.drop maxStored).length = data.length - maxStored := List.length_drop ..
      have hrest : Yields (blocks symbols fuel) (storedBlocks (data.drop maxStored))
          (data.drop maxStored) () := ih _ (by omega) (by omega) rfl
      have := (yields_block false symbols htake).bind (f := fun last =>
        unless last do blocks symbols fuel) hrest
      rwa [List.take_append_drop] at this

theorem le_length_storedBlocks (data : List UInt8) : data.length ≤ (storedBlocks data).length := by
  fun_induction storedBlocks data with
  | case1 data h =>
    simp only [storedBlock, List.length_append]
    omega
  | case2 data h ih =>
    rw [List.length_drop] at ih
    simp only [storedBlock, List.length_append, List.length_cons, List.length_take]
    omega

/-! ## Streams -/

theorem checksum_lt (content : List UInt8) : checksum content < 2 ^ 32 := by
  have hsums : ∀ sums : Nat × Nat, sums.1 < 65536 ∧ sums.2 < 65536 →
      (content.foldl checksumStep sums).1 < 65536 ∧
        (content.foldl checksumStep sums).2 < 65536 := by
    induction content with
    | nil => exact fun _ h => h
    | cons b content ih =>
      intro sums _
      refine ih _ ?_
      simp only [checksumStep, checksumModulus]
      omega
  obtain ⟨h₁, h₂⟩ := hsums (1, 0) (by decide)
  simp only [checksum]
  omega

theorem yields_header : Yields header streamHeader [] () := by
  show Yields header ([0x78] ++ ([0x01] ++ [])) ([] ++ ([] ++ [])) ()
  refine (Yields.takeBits_byte 0x78).bind ((Yields.takeBits_byte 0x01).bind ?_)
  -- the check digit is right, and no dictionary is asked for
  rw [if_neg (by decide)]
  exact Yields.pure ()

theorem stream_compress {content : List UInt8} {bits : Nat} (hbits : content.length ≤ bits) :
    ∃ p, stream bits { input := compress content } = .ok () p ∧ p.input = [] ∧
      p.output.toList = content := by
  have hsum : (UInt32.ofNat (checksum content)).toNat = checksum content :=
    UInt32.toNat_ofNat_of_lt' (checksum_lt content)
  obtain ⟨p₀, h₀, u₀, i₀, o₀⟩ := yields_header { input := compress content }
    (storedBlocks content ++ (bytesOfUInt32 (UInt32.ofNat (checksum content))).reverse) rfl
    (List.append_assoc ..)
  obtain ⟨p₁, h₁, u₁, i₁, o₁⟩ := yields_blocks (bits + 1) (Nat.lt_succ_of_le hbits)
    p₀ (bytesOfUInt32 (UInt32.ofNat (checksum content))).reverse u₀ i₀
  have hbyte : toByte p₁ = .ok () p₁ := by
    rw [toByte_eq, if_pos u₁]
  obtain ⟨p₂, h₂, u₂, i₂, o₂⟩ := (Yields.takeBytes
    (bytesOfUInt32 (UInt32.ofNat (checksum content))).reverse) p₁ [] u₁
    (by rw [i₁, List.append_nil])
  have hout : p₂.output.toList = content := by rw [o₂, o₁, o₀]; simp
  have hfour : (bytesOfUInt32 (UInt32.ofNat (checksum content))).reverse.length = 4 := rfl
  rw [hfour] at h₂
  refine ⟨p₂, ?_, i₂, hout⟩
  unfold stream
  rw [bind_of_ok h₀, bind_of_ok h₁, bind_of_ok hbyte, bind_of_ok h₂, get_bind, hout,
    List.reverse_reverse, littleEndian_bytesOfUInt32, hsum, if_pos rfl]
  rfl

/-- The decoder delivers what is compressed as stored blocks. -/
theorem inverts_compress : Inverts compress := by
  intro content
  have hlen : content.length ≤ 8 * (compress content).length := by
    have := le_length_storedBlocks content
    simp only [compress, List.length_append]
    omega
  obtain ⟨p, hstream, _, hout⟩ := stream_compress hlen
  have hinflate : inflate (compress content) =
      ⟨p.output.toList, .complete p.input, p.untouched.toList⟩ := by
    unfold inflate
    rw [hstream]
  unfold Delivers
  rw [hinflate]
  exact ⟨hout, rfl⟩

end Swf.Zlib
