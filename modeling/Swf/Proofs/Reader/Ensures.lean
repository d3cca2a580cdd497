import Swf.Proofs.Reader.BitFields
import Swf.Proofs.Reader.Fields

/-!
# What can come out of a reader

`Decoder.Reads` is about bytes that were written. Here nothing is known of the bytes, nor of the
source: it may fail, end early and interrupt. Still a field that *is* read has been read from
somewhere, and that bounds it. `Decoder.Ensures m P` says that every value which `m` gives has the
property `P`, which may speak of the number of bytes that the value cost. The cost is charged to the
limit of the record (`Costs`), so what is read within a record is no larger than the record.
-/

namespace Swf.Decoder

variable {α β : Type}

/-- Going from `r` to `r'` has taken at least `k` bytes off the limit. -/
def Costs (r r' : Reader) (k : Nat) : Prop :=
  ∀ l, r.limit = some l → ∃ l', r'.limit = some l' ∧ l' + k ≤ l

/-- Whatever `m` gives has the property `P`, together with what it cost. -/
def Ensures (m : Decoder α) (P : α → Nat → Prop) : Prop :=
  ∀ r a r', m r = .ok a r' → ∃ k, P a k ∧ Costs r r' k

theorem costs_zero {r r' : Reader} (h : r'.limit = r.limit) : Costs r r' 0 :=
  fun l hl => ⟨l, h.trans hl, Nat.le_refl l⟩

theorem Costs.trans {r s t : Reader} {j k : Nat} (h : Costs r s j) (h' : Costs s t k) :
    Costs r t (j + k) := by
  intro l hl
  obtain ⟨l₁, hl₁, hj⟩ := h l hl
  obtain ⟨l₂, hl₂, hk⟩ := h' l₁ hl₁
  exact ⟨l₂, hl₂, by omega⟩

namespace Ensures

/-- Every value, at whatever cost. -/
theorem pure {P : α → Nat → Prop} {a : α} (h : P a 0) : Ensures (pure a) P := by
  intro r b r' hm
  cases hm
  exact ⟨0, h, costs_zero rfl⟩

theorem throw {P : α → Nat → Prop} (err : CodecError) : Ensures (throw err) P := by
  intro r a r' hm
  cases hm

theorem mono {m : Decoder α} {P Q : α → Nat → Prop} (hm : Ensures m P)
    (h : ∀ a k, P a k → Q a k) : Ensures m Q := by
  intro r a r' hr
  obtain ⟨k, hP, hk⟩ := hm r a r' hr
  exact ⟨k, h a k hP, hk⟩

/-- The costs of two parts add up. -/
theorem bind {m : Decoder α} {f : α → Decoder β} {P : α → Nat → Prop} {Q : β → Nat → Prop}
    (hm : Ensures m P) (hf : ∀ a j, P a j → Ensures (f a) fun b k => Q b (j + k)) :
    Ensures (m >>= f) Q := by
  intro r b r'' hr
  obtain ⟨a, r', hma, hfb⟩ := ok_of_bind hr
  obtain ⟨j, hP, hj⟩ := hm r a r' hma
  obtain ⟨k, hQ, hk⟩ := hf a j hP r' b r'' hfb
  exact ⟨j + k, hQ, hj.trans hk⟩

theorem map {m : Decoder α} {f : α → β} {Q : β → Nat → Prop}
    (hm : Ensures m fun a k => Q (f a) k) : Ensures (f <$> m) Q := by
  intro r b r' hr
  obtain ⟨a, hma, rfl⟩ := map_eq_ok hr
  exact hm r a _ hma

theorem mapError {m : Decoder α} {P : α → Nat → Prop} (f : CodecError → CodecError)
    (hm : Ensures m P) : Ensures (mapError f m) P :=
  fun r a r' hr => hm r a r' (mapError_eq_ok hr)

theorem ofExcept {P : α → Nat → Prop} {value : Except CodecError α}
    (h : ∀ a, value = .ok a → P a 0) : Ensures (ofExcept value) P := by
  cases value with
  | error err => exact throw err
  | ok a => exact pure (h a rfl)

/-- What is read on its own costs no more than it was given. -/
theorem within {m : Decoder α} {P : α → Nat → Prop} {Q : α → Prop} {n : Nat} (hm : Ensures m P)
    (h : ∀ a k, k ≤ n → P a k → Q a) : Ensures (within n m) fun a _ => Q a := by
  intro r a r' hr
  obtain ⟨s, hma, rfl⟩ := within_eq_ok hr
  obtain ⟨k, hP, hk⟩ := hm _ a s hma
  obtain ⟨l', _, hle⟩ := hk (r.allowance n) rfl
  have hn : r.allowance n ≤ n := Nat.min_le_left ..
  refine ⟨0, h a k (by omega) hP, ?_⟩
  intro l hl
  exact ⟨l - (s.position - r.position), by simp only [leave, hl]; rfl, by omega⟩

/-! ## Fields of bytes -/

theorem align : Ensures align fun _ k => k = 0 := by
  intro r a r' hr
  cases hr
  exact ⟨0, rfl, costs_zero rfl⟩

theorem position : Ensures position fun _ k => k = 0 := by
  intro r a r' hr
  cases hr
  exact ⟨0, rfl, costs_zero rfl⟩

theorem fill (n : Nat) : Ensures (fill n) fun bytes k => bytes.length = n ∧ k = n := by
  intro r got r' hr
  obtain ⟨hlen, hallow, s, _, rfl⟩ := gather_of_fill hr
  refine ⟨n, ⟨hlen, rfl⟩, ?_⟩
  intro l hl
  unfold Reader.allowance at hallow
  rw [hl, Option.getD_some] at hallow
  exact ⟨l - n, by simp [Reader.advance, hl], by omega⟩

theorem readFully (n : Nat) : Ensures (readFully n) fun bytes k => bytes.length = n ∧ k = n :=
  align.bind fun _ j hj => (fill n).mono fun bytes k h => ⟨h.1, by omega⟩

theorem drain (n : Nat) : Ensures (drain n) fun bytes k => bytes.length = n ∧ k = n := by
  fun_induction Decoder.drain n with
  | case1 => exact pure ⟨rfl, rfl⟩
  | case2 n h0 left ih =>
    have hchunk : min n chunkSize ≤ n := Nat.min_le_left ..
    refine bind (mapError _ (fill _)) fun chunk j hj => ?_
    refine bind ih fun rest k hk => pure ⟨?_, ?_⟩
    · rw [List.length_append, hj.1, hk.1]
      omega
    · omega

theorem readBytes (n : Nat) : Ensures (readBytes n) fun bytes k => bytes.length = n ∧ k = n :=
  align.bind fun _ j hj => (drain n).mono fun bytes k h => ⟨h.1, by omega⟩

theorem readUInt8 : Ensures readUInt8 fun _ k => k = 1 :=
  (readFully 1).bind fun _ _ h => pure (by omega)

theorem readUInt16 : Ensures readUInt16 fun _ k => k = 2 :=
  (readFully 2).bind fun _ _ h => pure (by omega)

theorem readUInt32 : Ensures readUInt32 fun _ k => k = 4 :=
  (readFully 4).bind fun _ _ h => pure (by omega)

/-! ## Strings -/

theorem takeByte : Ensures takeByte fun _ k => k = 1 :=
  map ((fill 1).mono fun _ _ h => h.2)

/-- A string is what stood in front of a zero byte, so it holds none. -/
theorem takeUntilNul (taken : List UInt8) :
    Ensures (takeUntilNul taken) fun bytes k =>
      ∃ more, bytes = taken.reverse ++ more ∧ 0 ∉ more ∧ k = more.length + 1 := by
  intro r
  fun_induction Decoder.takeUntilNul taken r with
  | case1 taken r err r₁ h =>
    intro a r' hr
    cases hr
  | case2 taken r r₁ h =>
    intro a r' hr
    cases hr
    obtain ⟨k, rfl, hk⟩ := takeByte r 0 _ h
    exact ⟨1, ⟨[], (List.append_nil _).symm, by simp, rfl⟩, hk⟩
  | case3 taken r b r₁ h hb ih =>
    intro a r' hr
    obtain ⟨j, rfl, hj⟩ := takeByte r b _ h
    obtain ⟨k, ⟨more, rfl, hmore, rfl⟩, hk⟩ := ih a r' hr
    refine ⟨1 + (more.length + 1), ⟨b :: more, ?_, ?_, ?_⟩, hj.trans hk⟩
    · simp
    · intro h0
      rcases List.mem_cons.mp h0 with h0 | h0
      · exact hb h0.symm
      · exact hmore h0
    · rw [List.length_cons]
      omega

theorem readString :
    Ensures readString fun text k => 0 ∉ utf8 text ∧ k = (utf8 text).length + 1 := by
  refine align.bind fun _ i hi => position.bind fun start j hj =>
    (takeUntilNul []).bind fun bytes k hbytes => ?_
  obtain ⟨more, rfl, hmore, rfl⟩ := hbytes
  split
  · next text htext =>
    obtain rfl := eq_utf8_of_fromUTF8? htext
    exact pure ⟨hmore, by omega⟩
  · exact throw _

/-! ## Bit fields -/

theorem modifyBits {f : Reader → Reader} (h : ∀ r, (f r).limit = r.limit) :
    Ensures (modify f : Decoder PUnit) fun _ _ => True := by
  intro r a r' hr
  cases hr
  exact ⟨0, trivial, costs_zero (h r)⟩

theorem get : Ensures (get : Decoder Reader) fun _ _ => True := by
  intro r a r' hr
  cases hr
  exact ⟨0, trivial, costs_zero rfl⟩

theorem readBit : Ensures readBit fun _ _ => True := by
  have hrest : Ensures (do
      modify fun r : Reader => { r with bitCount := r.bitCount - 1 }
      let r ← MonadState.get
      return r.bitBuf.toNat.testBit r.bitCount : Decoder Bool) fun _ _ => True := by
    refine (modifyBits ?_).bind fun _ _ _ => get.bind fun _ _ _ => pure trivial
    exact fun _ => rfl
  refine get.bind fun r _ _ => ?_
  split
  · refine (fill 1).bind fun _ _ _ => (modifyBits ?_).bind fun _ _ _ => hrest
    exact fun _ => rfl
  · exact hrest

/-- A field of `n` bits holds a number of `n` bits. -/
theorem readBits (v : UInt32) (n : Nat) {j : Nat} (hv : v.toNat < 2 ^ j) (hn : j + n ≤ 32) :
    Ensures (readBits v n) fun w _ => w.toNat < 2 ^ (j + n) := by
  induction n generalizing v j with
  | zero => exact pure hv
  | succ n ih =>
    refine readBit.bind fun bit _ _ => ?_
    have hdouble : 2 ^ (j + 1) = 2 * 2 ^ j := pow_succ' 2 j
    have hnext : ((v <<< 1) ||| bit.toUInt32).toNat < 2 ^ (j + 1) := by
      have hbit := bit.toNat_le
      rw [shiftIn_eq, UInt32.toNat_ofNat']
      exact Nat.lt_of_le_of_lt (Nat.mod_le _ _) (by omega)
    have := ih ((v <<< 1) ||| bit.toUInt32) hnext (by omega)
    rwa [Nat.add_right_comm, Nat.add_assoc] at this

theorem readUnsigned {n : Nat} (hn : n ≤ 32) :
    Ensures (readUnsigned n) fun w _ => w.toNat < 2 ^ n := by
  have := readBits 0 n (j := 0) (by decide) (by omega)
  rwa [Nat.zero_add] at this

theorem readFlag : Ensures readFlag fun _ _ => True :=
  map ((readUnsigned (by decide)).mono fun _ _ _ => trivial)

/-- A signed field of at most `n` bits holds no more than two's complement of `n` bits. -/
theorem readSigned {n : Nat} (hn : n ≤ 32) :
    Ensures (readSigned n) fun v _ =>
      -(2 ^ (n - 1) : Nat) ≤ v.toInt ∧ v.toInt < (2 ^ (n - 1) : Nat) := by
  unfold Decoder.readSigned
  by_cases h0 : n = 0
  · rw [if_pos h0]
    have hzero : (0 : Int32).toInt = 0 := rfl
    have := Nat.two_pow_pos (n - 1)
    exact pure (by rw [hzero]; omega)
  · rw [if_neg h0]
    exact map ((readUnsigned hn).mono fun raw _ h => signExtend_bounds (by omega) hn h)

end Ensures

end Swf.Decoder
