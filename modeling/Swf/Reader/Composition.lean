import Swf.Reader

/-!
# How decoders are composed

Fields and layouts are put together from a few primitives by sequencing. A property of decoders that
the primitives have and that sequencing keeps is therefore one of every field:
`Decoder.ClosedInFields` lists what has to be shown of the property, once and for all fields. Some
layouts raise errors of their own; a property that any error has is `Closed`. Records do two things
more, they translate errors and read a part on its own; a property that this keeps too is
`ClosedInRecords`.
-/

namespace Swf.Decoder

/-- The property `P` holds of the primitives and is kept by sequencing. -/
structure ClosedInFields (P : ∀ {α : Type}, Decoder α → Prop) : Prop where
  pure : ∀ {α : Type} (a : α), P (Pure.pure a : Decoder α)
  /-- The one error that a field raises of its own. -/
  invalidString : ∀ {α : Type} (offset : Nat),
    P (MonadExcept.throw (.invalidString offset) : Decoder α)
  bind : ∀ {α β : Type} {m : Decoder α} {f : α → Decoder β}, P m → (∀ a, P (f a)) → P (m >>= f)
  /-- The one way in which a field translates errors. -/
  missingMore : ∀ {α : Type} {m : Decoder α} (extra : Nat), P m → P (mapError (missingMore extra) m)
  align : P align
  position : P position
  fill : ∀ n : Nat, P (fill n)
  /-- A string is a loop of its own, which ends where the source does. -/
  takeUntilNul : ∀ taken : List UInt8, P (takeUntilNul taken)
  readBit : P readBit

/-- The property `P` also holds of whatever fails at once. -/
structure Closed (P : ∀ {α : Type}, Decoder α → Prop) : Prop extends ClosedInFields P where
  throw : ∀ {α : Type} (err : CodecError), P (MonadExcept.throw err : Decoder α)
  invalidString := fun offset => throw (.invalidString offset)

/-- The property `P` is also kept by what a record does to the layout in it. -/
structure ClosedInRecords (P : ∀ {α : Type}, Decoder α → Prop) : Prop extends Closed P where
  mapError : ∀ {α : Type} {m : Decoder α} (f : CodecError → CodecError), P m → P (mapError f m)
  within : ∀ {α : Type} {m : Decoder α} (n : Nat), P m → P (within n m)

namespace ClosedInFields

variable {P : ∀ {α : Type}, Decoder α → Prop} {α β : Type}

theorem map (hP : ClosedInFields P) {m : Decoder α} (f : α → β) (hm : P m) : P (f <$> m) :=
  hP.bind hm fun a => hP.pure (f a)

/-! ### Fields of bytes -/

theorem drain (hP : ClosedInFields P) (n : Nat) : P (drain n) := by
  fun_induction Decoder.drain n with
  | case1 => exact hP.pure _
  | case2 n _ _ ih =>
    exact hP.bind (hP.missingMore _ (hP.fill _)) fun _ => hP.bind ih fun _ => hP.pure _

theorem readFully (hP : ClosedInFields P) (n : Nat) : P (readFully n) :=
  hP.bind hP.align fun _ => hP.fill n

theorem readBytes (hP : ClosedInFields P) (n : Nat) : P (readBytes n) :=
  hP.bind hP.align fun _ => hP.drain n

theorem skip (hP : ClosedInFields P) (n : Nat) : P (skip n) :=
  hP.bind (hP.readBytes n) fun _ => hP.pure _

theorem readUInt8 (hP : ClosedInFields P) : P readUInt8 :=
  hP.bind (hP.readFully 1) fun _ => hP.pure _

theorem readUInt16 (hP : ClosedInFields P) : P readUInt16 :=
  hP.bind (hP.readFully 2) fun _ => hP.pure _

theorem readUInt32 (hP : ClosedInFields P) : P readUInt32 :=
  hP.bind (hP.readFully 4) fun _ => hP.pure _

theorem readString (hP : ClosedInFields P) : P readString := by
  refine hP.bind hP.align fun _ => hP.bind hP.position fun start =>
    hP.bind (hP.takeUntilNul []) fun bytes => ?_
  split
  · exact hP.pure _
  · exact hP.invalidString _

/-! ### Bit fields -/

theorem readBits (hP : ClosedInFields P) (value : UInt32) (bits : Nat) :
    P (readBits value bits) := by
  induction bits generalizing value with
  | zero => exact hP.pure value
  | succ bits ih => exact hP.bind hP.readBit fun bit => ih _

theorem readUnsigned (hP : ClosedInFields P) (bits : Nat) : P (readUnsigned bits) :=
  hP.readBits 0 bits

theorem readSigned (hP : ClosedInFields P) (bits : Nat) : P (readSigned bits) := by
  unfold Decoder.readSigned
  split
  · exact hP.pure 0
  · exact hP.map _ (hP.readUnsigned bits)

theorem readFlag (hP : ClosedInFields P) : P readFlag := hP.map _ (hP.readUnsigned 1)

end ClosedInFields

/-- A property that errors have too is one of what was found outside of any source. -/
theorem Closed.ofExcept {P : ∀ {α : Type}, Decoder α → Prop} (hP : Closed P) {α : Type}
    (result : Except CodecError α) : P (ofExcept result) := by
  cases result with
  | error err => exact hP.throw err
  | ok a => exact hP.pure a

end Swf.Decoder
