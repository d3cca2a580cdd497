import Swf.Sequencing
import Swf.Abc.Varint
import Mathlib.Algebra.Order.Ring.Nat

/-!
# What a reader of code takes

Two statements about a reader of code, each closed under sequencing. `CodeReader.Reads m bytes a` is
about bytes that were written: `m` takes exactly these and gives `a`, whatever stands behind them.
`CodeReader.Yields m P` is about any bytes: of a value `a` for which `m` took `k` bytes, `P k a`
holds.

For variable-length integers the first says that a number is read back, and the second that its
bytes are as few as any that read as that number: `k` bytes hold a number below `128 ^ k`, and such
a number is written with `k` bytes at most.
-/

namespace Swf.Abc

namespace CodeReader

variable {α β : Type}

/-- `m` takes exactly `bytes` and gives `a`. -/
def Reads (m : CodeReader α) (bytes : List UInt8) (a : α) : Prop :=
  ∀ rest offset, m ⟨bytes ++ rest, offset⟩ = .ok a ⟨rest, offset + bytes.length⟩

theorem Reads.pure (a : α) : Reads (pure a) [] a := fun _ _ => rfl

theorem Reads.bind {m : CodeReader α} {f : α → CodeReader β} {bytes bytes' : List UInt8} {a : α}
    {b : β} (hm : Reads m bytes a) (hf : Reads (f a) bytes' b) :
    Reads (m >>= f) (bytes ++ bytes') b := by
  intro rest offset
  rw [List.append_assoc, bind_of_ok (hm _ _), hf, List.length_append, Nat.add_assoc]

theorem Reads.map {m : CodeReader α} {bytes : List UInt8} {a : α} (f : α → β)
    (hm : Reads m bytes a) : Reads (f <$> m) bytes (f a) := by
  have := hm.bind (f := fun a => Pure.pure (f a)) (Reads.pure (f a))
  rwa [List.append_nil] at this

theorem Reads.takeByte (b : UInt8) : Reads takeByte [b] b := fun _ _ => rfl

theorem Reads.takeTriple (a b c : UInt8) : Reads takeTriple [a, b, c] [a, b, c] := fun _ _ => rfl

/-- Of a value for which `m` took `k` bytes, `P` holds. -/
def Yields (m : CodeReader α) (P : Nat → α → Prop) : Prop :=
  ∀ c a c', m c = .ok a c' → ∃ k, c.rest.length = k + c'.rest.length ∧ P k a

theorem Yields.pure {P : Nat → α → Prop} {a : α} (h : P 0 a) : Yields (pure a) P := by
  intro c b c' hok
  cases hok
  exact ⟨0, (Nat.zero_add _).symm, h⟩

theorem Yields.bind {m : CodeReader α} {f : α → CodeReader β} {P : Nat → α → Prop}
    {Q : Nat → β → Prop} (hm : Yields m P)
    (hf : ∀ k a, P k a → Yields (f a) fun k' b => Q (k + k') b) : Yields (m >>= f) Q := by
  intro c b c' hok
  obtain ⟨a, c₁, hfirst, hsecond⟩ := ok_of_bind hok
  obtain ⟨k, hk, hP⟩ := hm _ _ _ hfirst
  obtain ⟨k', hk', hQ⟩ := hf k a hP _ _ _ hsecond
  exact ⟨k + k', by omega, hQ⟩

theorem Yields.map {m : CodeReader α} {P : Nat → α → Prop} {Q : Nat → β → Prop} {f : α → β}
    (hm : Yields m P) (h : ∀ k a, P k a → Q k (f a)) : Yields (f <$> m) Q :=
  hm.bind fun k a hP => Yields.pure (h k a hP)

theorem Yields.takeByte : Yields takeByte fun k _ => k = 1 := by
  intro c b c' hok
  exact ⟨1, by rw [rest_of_takeByte hok, List.length_cons, Nat.add_comm], rfl⟩

theorem Yields.takeTriple : Yields takeTriple fun k bytes => k = 3 ∧ bytes.length = 3 := by
  intro c bytes c' hok
  unfold CodeReader.takeTriple at hok
  split at hok
  · next hrest =>
    cases hok
    exact ⟨3, by rw [hrest]; simp; omega, rfl, rfl⟩
  · cases hok

end CodeReader

namespace Varint

open CodeReader

/-- A number that does not fit into a byte leaves something for the bytes behind it. -/
theorem div_lt_pow {k n : Nat} (hlong : ¬ n < 128) (hn : n < 128 ^ (k + 1)) :
    0 < k ∧ n / 128 < 128 ^ k := by
  rw [Nat.pow_succ'] at hn
  refine ⟨Nat.pos_of_ne_zero fun h0 => ?_, Nat.div_lt_of_lt_mul hn⟩
  subst h0
  omega

/-! ## Reading what was written -/

theorem reads_readNat_last {b : UInt8} (bound : Nat) (h : b.toNat < 128) :
    Reads (readNat (bound + 1)) [b] b.toNat :=
  (Reads.takeByte b).bind (by rw [if_pos h]; exact Reads.pure b.toNat)

theorem reads_readNat_more {bound n : Nat} {b : UInt8} {bytes : List UInt8} (h : ¬ b.toNat < 128)
    (hrest : Reads (readNat bound) bytes n) :
    Reads (readNat (bound + 1)) (b :: bytes) (b.toNat - 128 + 128 * n) :=
  (Reads.takeByte b).bind (by rw [if_neg h]; exact hrest.map _)

/-- A number is read from its bytes. -/
theorem reads_readNat {bound n : Nat} (hpos : 0 < bound) (hn : n < 128 ^ bound) :
    Reads (readNat bound) (bytes n) n := by
  induction bound generalizing n with
  | zero => omega
  | succ bound ih =>
    rw [bytes]
    by_cases hlast : n < 128
    · -- the byte says by itself that it is the last one
      have hbyte : (UInt8.ofNat n).toNat = n :=
        UInt8.toNat_ofNat_of_lt' (Nat.lt_trans hlast (by decide))
      have := reads_readNat_last (b := UInt8.ofNat n) bound (by omega)
      rw [hbyte] at this
      rwa [if_pos hlast]
    · have hbyte : (UInt8.ofNat (n % 128 + 128)).toNat = n % 128 + 128 :=
        UInt8.toNat_ofNat_of_lt' (by simp only [UInt8.size]; omega)
      obtain ⟨hmore, hrest⟩ := div_lt_pow hlast hn
      have := reads_readNat_more (b := UInt8.ofNat (n % 128 + 128)) (by omega) (ih hmore hrest)
      have hvalue : n % 128 + 128 - 128 + 128 * (n / 128) = n := by omega
      rw [hbyte, hvalue] at this
      rwa [if_neg hlast]

theorem reads_read (n : UInt32) : Reads read (encode n) n := by
  have hn : n.toNat < 128 ^ 5 := Nat.lt_trans n.toNat_lt (by decide)
  have := (reads_readNat (by decide) hn).map UInt32.ofNat
  rwa [UInt32.ofNat_toNat] at this

/-! ## The bytes are as few as possible -/

/-- A number below `128 ^ k` needs `k` bytes at most. -/
theorem length_bytes_le {k n : Nat} (hpos : 0 < k) (hn : n < 128 ^ k) : (bytes n).length ≤ k := by
  induction k generalizing n with
  | zero => omega
  | succ k ih =>
    rw [bytes]
    split
    · simp
    · next hlong =>
      obtain ⟨hmore, hrest⟩ := div_lt_pow hlong hn
      have := ih hmore hrest
      rw [List.length_cons]
      omega

/-- Of `k` bytes no number is read that needs more. The last of as many bytes as are allowed may
say that more follow; it is the last one all the same. -/
theorem yields_readNat (bound : Nat) :
    Yields (readNat (bound + 1)) fun k n => 0 < k ∧ n < 128 ^ k := by
  induction bound with
  | zero =>
    refine Yields.takeByte.bind fun k b hk => ?_
    have hlt := b.toNat_lt
    split
    · exact Yields.pure ⟨by omega, by subst hk; omega⟩
    · exact Yields.pure ⟨by omega, by subst hk; omega⟩
  | succ bound ih =>
    refine Yields.takeByte.bind fun k b hk => ?_
    have hlt := b.toNat_lt
    split
    · exact Yields.pure ⟨by omega, by subst hk; omega⟩
    · refine ih.map fun k' n h => ⟨by omega, ?_⟩
      subst hk
      rw [Nat.add_comm 1 k', Nat.pow_succ']
      omega

theorem yields_read : Yields read fun k n => 0 < k ∧ n.toNat < 128 ^ k := by
  refine (yields_readNat 4).map fun k n h => ⟨h.1, ?_⟩
  rw [UInt32.toNat_ofNat']
  exact Nat.lt_of_le_of_lt (Nat.mod_le _ _) h.2

end Varint

end Swf.Abc
