import Swf.Proofs.Writer.BitFields

/-!
# How encoders are composed

All that is written goes through a few primitives: bytes are handed to the sink, the pending byte is
filled up, a bit is added to it. A property of encoders that these have and that sequencing keeps
(`Encoder.Closed`) is therefore one of every field whose value has room in it.

Values that have none are refused, and fields look at their values before they write: a field
fails at once, or it is put together from the primitives (`Encoder.LooksFirst`).
-/

namespace Swf.Encoder

/-- The property `P` holds of the primitives and is kept by sequencing. -/
structure Closed (P : Encoder Unit → Prop) : Prop where
  pure : P (Pure.pure ())
  bind : ∀ {m m' : Encoder Unit}, P m → P m' → P (m >>= fun _ => m')
  emit : ∀ data : List UInt8, P (emit data)
  align : P align
  writeBit : ∀ bit : Bool, P (writeBit bit)

namespace Closed

variable {P : Encoder Unit → Prop}

theorem writeBytes (hP : Closed P) (data : List UInt8) : P (writeBytes data) :=
  hP.bind hP.align (hP.emit data)

theorem writeBits (hP : Closed P) (v : UInt32) (n : Nat) : P (writeBits v n) := by
  induction n with
  | zero => exact hP.pure
  | succ n ih => exact hP.bind (hP.writeBit _) ih

/-- A value that has room. -/
theorem writeUnsigned (hP : Closed P) {bits : Nat} {v : UInt32} (h : v.toNat < 2 ^ bits) :
    P (writeUnsigned bits v) := by
  unfold Encoder.writeUnsigned
  rw [if_neg (Nat.not_lt.mpr (bitLength_le_iff.mpr h))]
  exact hP.writeBits v bits

theorem writeSigned (hP : Closed P) {bits : Nat} {v : Int32} (hbits : bits ≤ 32)
    (h : FitsSigned bits v) : P (writeSigned bits v) := by
  unfold Encoder.writeSigned
  rw [if_pos h]
  exact hP.writeUnsigned (twosComplement_lt hbits v.toInt)

end Closed

/-- `m` fails before it does anything, or it is composed of the primitives. -/
def LooksFirst (m : Encoder Unit) : Prop :=
  (∃ err, ∀ w, m w = .error err w) ∨ ∀ P, Closed P → P m

namespace LooksFirst

/-- What is refused at once. -/
theorem throw_bind {α : Type} (err : CodecError) (f : α → Encoder Unit) :
    LooksFirst (throw err >>= f) := .inl ⟨err, fun _ => rfl⟩

theorem writeUnsigned (bits : Nat) (v : UInt32) : LooksFirst (writeUnsigned bits v) := by
  unfold Encoder.writeUnsigned
  split
  · exact throw_bind _ _
  · exact .inr fun _ hP => hP.writeBits v bits

theorem writeSigned {bits : Nat} (hbits : bits ≤ 32) (v : Int32) :
    LooksFirst (writeSigned bits v) := by
  by_cases hfits : FitsSigned bits v
  · exact .inr fun _ hP => hP.writeSigned hbits hfits
  · unfold Encoder.writeSigned
    rw [if_neg hfits]
    exact throw_bind _ _

theorem writeString (text : String) : LooksFirst (writeString text) := by
  rw [writeString_eq]
  split
  · exact .inl ⟨_, fun _ => rfl⟩
  · exact .inr fun _ hP => hP.bind (hP.writeBytes _) (hP.writeBytes [0])

end LooksFirst

end Swf.Encoder
