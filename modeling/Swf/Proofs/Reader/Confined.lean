import Swf.Proofs.Reader.BitFields
import Swf.Proofs.Reader.Ensures
import Swf.Reader.Composition

/-!
# Decoders see only what they take

What a decoder gives is decided by the bytes that it takes. The statement is about success: where a
decoder succeeds, whatever its source did on the way, replacing the source by another one that
gathers the same bytes leads to the same value and to the same reader, but for the source that is
left (`Decoder.Confined`). So nothing behind those bytes is looked at, and how they arrive does not
matter either.

Being confined is closed under composition, so every field and every layout is
(`Confined.closed`).
-/

namespace Swf

namespace Reader

/-- The reader in front of another source. -/
def onto (r : Reader) (t : Source) : Reader := { r with source := t }

/-- What was taken of a part was taken of the whole. -/
theorem Moved.leave {r s : Reader} {n : Nat} {bytes : List UInt8} (h : (r.enter n).Moved bytes s) :
    r.Moved bytes (Decoder.leave r s) where
  remaining := h.remaining
  position := h.position
  limit := by
    have hpos : s.position = r.position + bytes.length := h.position
    simp only [Decoder.leave, hpos, Nat.add_sub_cancel_left]
  le_limit := by
    intro l hl
    have hle := h.le_limit _ rfl
    unfold allowance at hle
    rw [hl, Option.getD_some] at hle
    omega

end Reader

namespace Decoder

variable {α β : Type}

/-- If `m` succeeds from `r`, it has taken certain bytes, and it does the same in front of any
source that can stand in for that of `r` over those bytes. -/
def ConfinedAt (m : Decoder α) (r : Reader) : Prop :=
  ∀ a r', m r = .ok a r' → ∃ bytes, r.Moved bytes r' ∧
    ∀ K, Source.Substitutes K → ∀ t rest, K (bytes ++ rest) r.source t →
      ∃ t', m (r.onto t) = .ok a (r'.onto t') ∧ K rest r'.source t'

/-- Success depends on nothing but the bytes that are taken. -/
def Confined (m : Decoder α) : Prop := ∀ r, ConfinedAt m r

theorem ConfinedAt.bind {m : Decoder α} {f : α → Decoder β} {r : Reader} (hm : ConfinedAt m r)
    (hf : ∀ a r', m r = .ok a r' → ConfinedAt (f a) r') : ConfinedAt (m >>= f) r := by
  intro b r'' h
  obtain ⟨a, r', hma, hfb⟩ := ok_of_bind h
  obtain ⟨front, hfront, hsame⟩ := hm a r' hma
  obtain ⟨back, hback, hsame'⟩ := hf a r' hma b r'' hfb
  refine ⟨front ++ back, hfront.trans hback, fun K hK t rest ht => ?_⟩
  obtain ⟨t', ht', hK'⟩ := hsame K hK t (back ++ rest) (by rwa [← List.append_assoc])
  obtain ⟨t'', ht'', hK''⟩ := hsame' K hK t' rest hK'
  exact ⟨t'', (bind_of_ok ht').trans ht'', hK''⟩

/-- Makes `byte` the open byte and takes its top bit. -/
def openByte (byte : UInt8) : Decoder Bool := fun r =>
  .ok (byte.toNat.testBit 7) { r with bitBuf := byte, bitCount := 7 }

/-- Where no bit is left over, a new byte is opened. -/
theorem readBit_eq_openByte {r : Reader} (h : r.bitCount = 0) :
    readBit r = (fill 1 >>= fun byte => openByte (byte.headD 0)) r := by
  unfold readBit
  rw [get_bind, if_pos h]
  rfl

namespace Confined

/-- A step that looks at the source as little as it changes it. -/
theorem step {g : Reader → α} {f : Reader → Reader} (hg : ∀ r t, g (r.onto t) = g r)
    (hf : ∀ r t, f (r.onto t) = (f r).onto t) (hs : ∀ r, (f r).source = r.source)
    (hp : ∀ r, (f r).position = r.position) (hl : ∀ r, (f r).limit = r.limit) :
    Confined (fun r => .ok (g r) (f r) : Decoder α) := by
  intro r a r' h
  cases h
  refine ⟨[], Reader.moved_nil (hs r) (hp r) (hl r), fun K _ t rest ht => ⟨t, ?_, ?_⟩⟩
  · show EStateM.Result.ok (g (r.onto t)) (f (r.onto t)) = _
    rw [hg, hf]
  · rwa [hs]

theorem pure (a : α) : Confined (pure a) :=
  step (g := fun _ => a) (f := id) (fun _ _ => rfl) (fun _ _ => rfl) (fun _ => rfl) (fun _ => rfl)
    fun _ => rfl

theorem throw (err : CodecError) : Confined (throw err : Decoder α) := by
  intro r a r' h
  cases h

theorem bind {m : Decoder α} {f : α → Decoder β} (hm : Confined m) (hf : ∀ a, Confined (f a)) :
    Confined (m >>= f) := fun r => (hm r).bind fun a r' _ => hf a r'

theorem mapError {m : Decoder α} (f : CodecError → CodecError) (hm : Confined m) :
    Confined (mapError f m) := by
  intro r a r' h
  obtain ⟨bytes, hmoved, hsame⟩ := hm r a r' (mapError_eq_ok h)
  refine ⟨bytes, hmoved, fun K hK t rest ht => ?_⟩
  obtain ⟨t', ht', hK'⟩ := hsame K hK t rest ht
  exact ⟨t', by simp only [Decoder.mapError, ht'], hK'⟩

theorem align : Confined align :=
  step (g := fun _ => ()) (f := fun r => { r with bitCount := 0 }) (fun _ _ => rfl)
    (fun _ _ => rfl) (fun _ => rfl) (fun _ => rfl) fun _ => rfl

theorem position : Confined position :=
  step (g := Reader.position) (f := id) (fun _ _ => rfl) (fun _ _ => rfl) (fun _ => rfl)
    (fun _ => rfl) fun _ => rfl

theorem fill (n : Nat) : Confined (fill n) := by
  intro r got r' h
  obtain ⟨hlen, hallow, s, hg, rfl⟩ := gather_of_fill h
  refine ⟨got, moved_of_gather hlen hallow hg, fun K hK t rest ht => ?_⟩
  obtain ⟨t', ht', hK'⟩ := hK got rest _ s t ht (by rw [hlen]; exact hg)
  rw [hlen] at ht'
  exact ⟨t', fill_of_gather (r := r.onto t) hlen hallow ht', hK'⟩

theorem takeByte : Confined takeByte := (fill 1).bind fun bytes => pure (bytes.headD 0)

theorem takeUntilNul (taken : List UInt8) : Confined (takeUntilNul taken) :=
  takeUntilNul_of_takeByte ConfinedAt pure ConfinedAt.bind takeByte taken

theorem openByte (byte : UInt8) : Confined (openByte byte) :=
  step (g := fun _ => byte.toNat.testBit 7)
    (f := fun s => { s with bitBuf := byte, bitCount := 7 }) (fun _ _ => rfl) (fun _ _ => rfl)
    (fun _ => rfl) (fun _ => rfl) fun _ => rfl

theorem readBit : Confined readBit := by
  intro r
  rcases hk : r.bitCount with _ | k
  · -- a new byte is taken, and its top bit is the one that is read
    have hconfined := (fill 1).bind (fun byte => openByte (byte.headD 0)) r
    intro b r' h
    rw [readBit_eq_openByte hk] at h
    obtain ⟨bytes, hmoved, hsame⟩ := hconfined b r' h
    refine ⟨bytes, hmoved, fun K hK t rest ht => ?_⟩
    rw [readBit_eq_openByte (r := r.onto t) hk]
    exact hsame K hK t rest ht
  · -- a bit of the open byte
    intro b r' h
    rw [readBit_of_pos hk] at h
    cases h
    refine ⟨[], Reader.moved_nil rfl rfl rfl, fun K _ t rest ht => ⟨t, ?_, ht⟩⟩
    exact readBit_of_pos hk

/-- What is read on its own is confined to its part, and so the whole is. -/
theorem within {m : Decoder α} (n : Nat) (hm : Confined m) : Confined (within n m) := by
  intro r a r' h
  obtain ⟨s, hma, rfl⟩ := within_eq_ok h
  obtain ⟨bytes, hmoved, hsame⟩ := hm _ a s hma
  refine ⟨bytes, Reader.Moved.leave hmoved, fun K hK t rest ht => ?_⟩
  obtain ⟨t', ht', hK'⟩ := hsame K hK t rest ht
  refine ⟨t', ?_, hK'⟩
  exact within_of_ok (r := r.onto t) ht'

/-- **Every field and every layout** sees only what it takes. -/
theorem closed : ClosedInRecords @Confined where
  pure := Confined.pure
  throw := Confined.throw
  bind := Confined.bind
  missingMore := fun _ => Confined.mapError _
  mapError := Confined.mapError
  within := Confined.within
  align := Confined.align
  position := Confined.position
  fill := Confined.fill
  takeUntilNul := Confined.takeUntilNul
  readBit := Confined.readBit

end Confined

end Decoder

end Swf
