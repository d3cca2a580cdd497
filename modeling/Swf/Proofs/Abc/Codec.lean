import Swf.Proofs.Words
import Swf.Proofs.Abc.Varint
import Swf.Abc.Codec

/-!
# Operations are read back

The table of opcodes and the encoder are separate descriptions of the format, and they agree: under
the opcode of an operation stands how its operand is read (`Op.reads_encode`). The reader knows
where an operation ends without looking further, so code is read back operation by operation.

In the other direction the same operations may come from many byte strings: the long forms of the
first locals, numbers with more bytes than they need, bits beyond those that a number has. Of all of
them the encoder writes a shortest one (`yields_readOp`).
-/

namespace Swf

/-- The three low bytes of a word. -/
theorem littleEndian_take_three (v : UInt32) :
    littleEndian ((bytesOfUInt32 v).take 3) = v.toNat % 2 ^ 24 := by
  have := v.toNat_lt
  simp [bytesOfUInt32, littleEndian, Nat.shiftRight_eq_div_pow]
  omega

theorem littleEndian_lt (bytes : List UInt8) : littleEndian bytes < 256 ^ bytes.length := by
  induction bytes with
  | nil => decide
  | cons b bytes ih =>
    have := b.toNat_lt
    rw [littleEndian, List.length_cons, Nat.pow_succ']
    omega

/-- The low bits of a word are those of the integer that it stands for. -/
theorem twosComplement_eq_mod {bits : Nat} (hbits : bits ≤ 32) (v : Int32) :
    twosComplement bits v.toInt = UInt32.ofNat (v.toUInt32.toNat % 2 ^ bits) := by
  have hdvd : ((2 ^ bits : Nat) : Int) ∣ (2 ^ 32 : Nat) := by
    exact_mod_cast Nat.pow_dvd_pow 2 hbits
  have hlow : v.toInt % (2 ^ bits : Nat) = (v.toUInt32.toNat : Int) % (2 ^ bits : Nat) := by
    show v.toBitVec.toInt % _ = (v.toBitVec.toNat : Int) % _
    rw [BitVec.toInt_eq_toNat_bmod, ← Int.emod_emod_of_dvd _ hdvd, Int.bmod_emod,
      Int.emod_emod_of_dvd _ hdvd]
  unfold twosComplement
  rw [Nat.pow_eq, hlow, ← Int.natCast_emod, Int.toNat_natCast]

namespace Abc

open CodeReader

/-- Whether the branch offset of an operation, if it has one, is one of 24 bits. -/
def Op.InRange : Op → Prop
  | .branch _ offset => -2 ^ 23 ≤ offset.toInt ∧ offset.toInt < 2 ^ 23
  | _ => True

instance (op : Op) : Decidable op.InRange := by
  unfold Op.InRange; split <;> infer_instance

/-! ## Reading what was written -/

theorem reads_branch {kind : BranchKind} {offset : Int32} (h : (Op.branch kind offset).InRange) :
    Reads (Layout.branch kind).read ((bytesOfUInt32 offset.toUInt32).take 3)
      (.branch kind offset) := by
  have hvalue : signExtend 24 (UInt32.ofNat (littleEndian ((bytesOfUInt32 offset.toUInt32).take 3)))
      = offset := by
    rw [littleEndian_take_three, ← twosComplement_eq_mod (by decide)]
    exact signExtend_twosComplement (by decide) (by decide) h
  have : Reads takeTriple ((bytesOfUInt32 offset.toUInt32).take 3)
      ((bytesOfUInt32 offset.toUInt32).take 3) := Reads.takeTriple _ _ _
  have := this.map fun bytes =>
    Op.branch kind (signExtend 24 (UInt32.ofNat (littleEndian bytes)))
  rwa [hvalue] at this

theorem reads_readOp (layout : Layout) {opcode : UInt8} {operand : List UInt8} {op : Op}
    (hlookup : layouts.lookup opcode = some layout) (h : Reads layout.read operand op) :
    Reads readOp (opcode :: operand) op := by
  intro rest offset
  have := h rest (offset + 1)
  simp only [readOp, takeByte, List.cons_append, hlookup, this, List.length_cons]
  congr 2
  omega

theorem reads_readOp_whole {opcode : UInt8} {op : Op}
    (hlookup : layouts.lookup opcode = some (.whole op)) : Reads readOp [opcode] op :=
  reads_readOp _ hlookup (Reads.pure op)

/-- The locals with an opcode of their own. -/
theorem eq_of_lt_four {index : UInt32} (h : index < 4) :
    index = 0 ∨ index = 1 ∨ index = 2 ∨ index = 3 := by
  have hlt : index.toNat < 4 := h
  simp only [← UInt32.toNat_inj, UInt32.reduceToNat]
  omega

/-- **Writing.** An operation is read from its bytes. -/
theorem Op.reads_encode {op : Op} (h : op.InRange) : Reads readOp op.encode op := by
  cases op with
  | branch kind offset =>
    exact reads_readOp (.branch kind) (by cases kind <;> rfl) (reads_branch h)
  | push value =>
    cases value with
    | byte value =>
      have := (Reads.takeByte value.toUInt8).map fun b => Op.push (.byte b.toInt8)
      rw [Int8.toInt8_toUInt8] at this
      exact reads_readOp .byte rfl this
    | short value =>
      -- the literal is written as a number without a sign, of which 16 bits are read
      have := (Varint.reads_read value.toUInt16.toUInt32).map fun n =>
        Op.push (.short n.toUInt16.toInt16)
      rw [UInt16.toUInt16_toUInt32, Int16.toInt16_toUInt16] at this
      exact reads_readOp .short rfl this
    | _ => exact reads_readOp_whole rfl
  | pushPooled kind index =>
    exact reads_readOp (.pooled kind) (by cases kind <;> rfl)
      ((Varint.reads_read index).map _)
  | getLocal index =>
    -- the first four locals have opcodes of their own
    show Reads readOp (localBytes 0xd0 0x62 index) _
    unfold localBytes
    by_cases hshort : index < 4
    · rw [if_pos hshort]
      rcases eq_of_lt_four hshort with rfl | rfl | rfl | rfl
      all_goals exact reads_readOp_whole rfl
    · rw [if_neg hshort]
      exact reads_readOp .getLocal rfl ((Varint.reads_read index).map _)
  | setLocal index =>
    show Reads readOp (localBytes 0xd4 0x63 index) _
    unfold localBytes
    by_cases hshort : index < 4
    · rw [if_pos hshort]
      rcases eq_of_lt_four hshort with rfl | rfl | rfl | rfl
      all_goals exact reads_readOp_whole rfl
    · rw [if_neg hshort]
      exact reads_readOp .setLocal rfl ((Varint.reads_read index).map _)
  | convert conversion => exact reads_readOp_whole (by cases conversion <;> rfl)
  | unary op => exact reads_readOp_whole (by cases op <;> rfl)
  | binary op => exact reads_readOp_whole (by cases op <;> rfl)
  | _ => exact reads_readOp_whole rfl

theorem encodeOps_cons (op : Op) (ops : List Op) :
    encodeOps (op :: ops) = op.encode ++ encodeOps ops := List.flatMap_cons

/-- Behind an operation the code is read on. -/
theorem readOps_of_ok {c c' : Cursor} {op : Op} (h : readOp c = .ok op c') (done : List Op) :
    readOps done c = readOps (op :: done) c' := by
  have hmore : c.rest ≠ [] := by
    intro hnil
    have hshorter := length_lt_of_readOp h
    rw [hnil] at hshorter
    exact absurd hshorter (by simp)
  rw [readOps, if_neg hmore]
  split
  · next op' c₁ hread =>
    rw [h] at hread
    cases hread
    rfl
  · next err c₁ hread =>
    rw [h] at hread
    cases hread

/-- Code is read to its end, operation by operation. -/
theorem readOps_encodeOps {ops : List Op} (h : ∀ op ∈ ops, op.InRange) (done : List Op)
    (offset : Nat) :
    readOps done ⟨encodeOps ops, offset⟩ =
      .ok (done.reverse ++ ops) ⟨[], offset + (encodeOps ops).length⟩ := by
  induction ops generalizing done offset with
  | nil =>
    rw [readOps, List.append_nil]
    rfl
  | cons op ops ih =>
    obtain ⟨hop, hops⟩ := List.forall_mem_cons.mp h
    rw [encodeOps_cons, readOps_of_ok (Op.reads_encode hop (encodeOps ops) offset), ih hops,
      List.length_append, List.reverse_cons]
    simp [Nat.add_assoc]

theorem decodeOps_encodeOps {ops : List Op} (h : ∀ op ∈ ops, op.InRange) :
    decodeOps (encodeOps ops) = .ok ops := by
  unfold decodeOps
  rw [readOps_encodeOps h]
  rfl

/-! ## Writing what was read -/

/-- Operations without an operand are written as their opcode alone. -/
theorem encode_of_mem_wholeOps :
    ∀ entry ∈ wholeOps, entry.2.InRange ∧ entry.2.encode.length = 1 := by decide

theorem mem_wholeOps_of_lookup {opcode : UInt8} {op : Op}
    (h : layouts.lookup opcode = some (.whole op)) : (opcode, op) ∈ wholeOps := by
  obtain ⟨_, _, hlayouts, -⟩ := List.lookup_eq_some_iff.mp h
  have hmem : (opcode, Layout.whole op) ∈ layouts := by rw [hlayouts]; simp
  simpa [layouts] using hmem

theorem length_localBytes_le (short long : UInt8) (index : UInt32) :
    (localBytes short long index).length ≤ 1 + (Varint.encode index).length := by
  unfold localBytes
  split <;> simp [Nat.add_comm]

/-- A number is not written with more bytes than it, or any number that is not less, was read
from. -/
theorem length_encode_le {k : Nat} {n m : UInt32} (hread : 0 < k ∧ n.toNat < 128 ^ k)
    (hle : m.toNat ≤ n.toNat) : (Varint.encode m).length ≤ k :=
  Varint.length_bytes_le hread.1 (Nat.lt_of_le_of_lt hle hread.2)

/-- An operand that was read is not written with more bytes. -/
theorem yields_read {opcode : UInt8} {layout : Layout} (h : layouts.lookup opcode = some layout) :
    Yields layout.read fun k op => op.InRange ∧ op.encode.length ≤ 1 + k := by
  cases layout with
  | whole op =>
    obtain ⟨hrange, hlen⟩ := encode_of_mem_wholeOps _ (mem_wholeOps_of_lookup h)
    exact Yields.pure ⟨hrange, Nat.le_of_eq hlen⟩
  | branch kind =>
    -- three bytes hold 24 bits, and their top bit is the sign
    refine Yields.takeTriple.map fun k bytes hbytes => ⟨?_, ?_⟩
    · have hlt := littleEndian_lt bytes
      rw [hbytes.2] at hlt
      refine signExtend_bounds (by decide) (by decide) ?_
      rw [UInt32.toNat_ofNat']
      exact Nat.lt_of_le_of_lt (Nat.mod_le _ _) hlt
    · rw [hbytes.1]
      exact Nat.le_refl 4
  | byte =>
    exact Yields.takeByte.map fun k b hk => ⟨trivial, by rw [hk]; exact Nat.le_refl 2⟩
  | short =>
    refine Varint.yields_read.map fun k n hn => ⟨trivial, ?_⟩
    -- bits that are cut off make the number no greater
    have hcut : n.toUInt16.toInt16.toUInt16.toUInt32.toNat ≤ n.toNat := by
      rw [UInt16.toUInt16_toInt16]
      simp
      omega
    have := length_encode_le hn hcut
    show (_ :: Varint.encode n.toUInt16.toInt16.toUInt16.toUInt32).length ≤ _
    rw [List.length_cons]
    omega
  | pooled kind =>
    refine Varint.yields_read.map fun k n hn => ⟨trivial, ?_⟩
    have := length_encode_le hn (Nat.le_refl _)
    show (_ :: Varint.encode n).length ≤ _
    rw [List.length_cons]
    omega
  | getLocal =>
    refine Varint.yields_read.map fun k n hn => ⟨trivial, ?_⟩
    have := length_encode_le hn (Nat.le_refl _)
    exact Nat.le_trans (length_localBytes_le 0xd0 0x62 n) (by omega)
  | setLocal =>
    refine Varint.yields_read.map fun k n hn => ⟨trivial, ?_⟩
    have := length_encode_le hn (Nat.le_refl _)
    exact Nat.le_trans (length_localBytes_le 0xd4 0x63 n) (by omega)

/-- **Reading.** An operation that was read can be written, with no more bytes. -/
theorem yields_readOp : Yields readOp fun k op => op.InRange ∧ op.encode.length ≤ k := by
  intro c op c' hok
  unfold readOp at hok
  split at hok
  · cases hok
  · next opcode c₁ hopcode =>
    split at hok
    · next layout hlayout =>
      obtain ⟨k, hk, hrange, hlen⟩ := yields_read hlayout _ _ _ hok
      refine ⟨1 + k, ?_, hrange, hlen⟩
      rw [rest_of_takeByte hopcode, List.length_cons]
      omega
    · cases hok

theorem readOps_eq_ok {done ops : List Op} {c c' : Cursor} (h : readOps done c = .ok ops c') :
    ∃ new, ops = done.reverse ++ new ∧ (∀ op ∈ new, op.InRange) ∧
      (encodeOps new).length ≤ c.rest.length := by
  fun_induction readOps done c with
  | case1 done c hend =>
    -- the code is used up
    cases h
    exact ⟨[], by simp, by simp, by simp [encodeOps]⟩
  | case2 done c hmore op c₁ hread ih =>
    obtain ⟨new, hops, hrange, hlen⟩ := ih h
    obtain ⟨k, hk, hop, hlenop⟩ := yields_readOp _ _ _ hread
    refine ⟨op :: new, by simp [hops], List.forall_mem_cons.mpr ⟨hop, hrange⟩, ?_⟩
    rw [encodeOps_cons, List.length_append]
    omega
  | case3 done c hmore err c₁ hread => cases h

/-- **Code and operations.** Operations whose branch offsets have 24 bits are read back from their
code. All operations that are read from any bytes are such ones; so they are read back too, and the
bytes that they are written as are no more than those that they were read from. -/
theorem decodeOps_normalizes :
    (∀ ops : List Op, (∀ op ∈ ops, op.InRange) → decodeOps (encodeOps ops) = .ok ops) ∧
      ∀ (code : List UInt8) (ops : List Op), decodeOps code = .ok ops →
        (∀ op ∈ ops, op.InRange) ∧ decodeOps (encodeOps ops) = .ok ops ∧
          (encodeOps ops).length ≤ code.length := by
  refine ⟨fun ops => decodeOps_encodeOps, fun code ops h => ?_⟩
  unfold decodeOps at h
  split at h
  · next ops' c' hread =>
    cases h
    obtain ⟨new, rfl, hrange, hlen⟩ := readOps_eq_ok hread
    exact ⟨hrange, decodeOps_encodeOps hrange, hlen⟩
  · cases h

/-- A long form, a number with a byte too many, one of more than 16 bits, and a branch back. -/
theorem decodeOps_normalizes_overlong :
    ∃ code ops,
      code = [0x62, 0x82, 0x00, 0x25, 0xff, 0xff, 0xff, 0xff, 0xff, 0x10, 0xfc, 0xff, 0xff] ∧
      ops = [.getLocal 2, .push (.short (-1)), .branch .always (-4)] ∧
      decodeOps code = .ok ops ∧ (∀ op ∈ ops, op.InRange) ∧
      decodeOps (encodeOps ops) = .ok ops ∧ (encodeOps ops).length ≤ code.length := by
  have hread : decodeOps
      [0x62, 0x82, 0x00, 0x25, 0xff, 0xff, 0xff, 0xff, 0xff, 0x10, 0xfc, 0xff, 0xff] =
        .ok [.getLocal 2, .push (.short (-1)), .branch .always (-4)] := by decide +kernel
  obtain ⟨hrange, -, hlen⟩ := decodeOps_normalizes.2 _ _ hread
  exact ⟨_, _, rfl, rfl, hread, hrange, decodeOps_normalizes.1 _ (by decide), hlen⟩

end Abc

end Swf
