import Swf.Proofs.Words
import Swf.Proofs.Reader.Window

/-!
# What the byte-level fields read

Integers, blocks of bytes and strings: each reads what it is written as. Two of them are loops in
the reader that nothing above it should see. `drain` takes a long block in pieces, and
`takeUntilNul` takes a string byte by byte up to the zero that ends it; the inductions are on the
bytes that stand there.
-/

namespace Swf

/-! ## The bytes of a string -/

theorem toList_loop (data : ByteArray) (taken : List UInt8) (i : Nat) :
    ByteArray.toList.loop data i taken = taken.reverse ++ data.data.toList.drop i := by
  obtain ⟨k, hk⟩ : ∃ k, data.size - i = k := ⟨_, rfl⟩
  induction k generalizing i taken with
  | zero =>
    rw [ByteArray.toList.loop, if_neg (by omega), List.drop_eq_nil_of_le, List.append_nil]
    show data.data.size ≤ i
    show data.size ≤ i
    omega
  | succ k ih =>
    have hi : i < data.data.toList.length := by show i < data.size; omega
    have hget : data.get! i = data.data.toList[i] := by
      show data.data[i]! = _
      rw [getElem!_pos data.data i hi, Array.getElem_toList]
    rw [ByteArray.toList.loop, if_pos (by omega), ih _ _ (by omega), hget,
      List.drop_eq_getElem_cons hi, List.reverse_cons, List.append_assoc]
    rfl

/-- The bytes of a string as a list. -/
def utf8 (text : String) : List UInt8 := text.toUTF8.toList

theorem utf8_eq (text : String) : utf8 text = text.toUTF8.data.toList := by
  unfold utf8 ByteArray.toList
  rw [toList_loop]
  rfl

@[simp] theorem length_utf8 (text : String) : (utf8 text).length = text.utf8ByteSize := by
  rw [utf8_eq]
  rfl

/-- The bytes of a string decode to it. -/
theorem fromUTF8?_utf8 (text : String) :
    String.fromUTF8? (ByteArray.mk (utf8 text).toArray) = some text := by
  rw [utf8_eq]
  show String.fromUTF8? text.toByteArray = some text
  unfold String.fromUTF8?
  rw [dif_pos text.isValidUTF8]
  rfl

/-- What decodes to a string are its bytes. -/
theorem eq_utf8_of_fromUTF8? {bytes : List UInt8} {text : String}
    (h : String.fromUTF8? (ByteArray.mk bytes.toArray) = some text) : bytes = utf8 text := by
  unfold String.fromUTF8? at h
  split at h
  · obtain rfl : String.fromUTF8 (ByteArray.mk bytes.toArray) _ = text := by simpa using h
    rw [utf8_eq]
    rfl
  · exact absurd h (by simp)

namespace Decoder

variable {p : Nat}

/-! ## Integers -/

theorem Reads.readUInt16 (v : UInt16) : Reads p readUInt16 (bytesOfUInt16 v) v := by
  refine (Reads.readFully (bytesOfUInt16 v)).bind_nil ?_
  rw [littleEndian_bytesOfUInt16, UInt16.ofNat_toNat]
  exact Reads.pure _ v

theorem Reads.readUInt32 (v : UInt32) : Reads p readUInt32 (bytesOfUInt32 v) v := by
  refine (Reads.readFully (bytesOfUInt32 v)).bind_nil ?_
  rw [littleEndian_bytesOfUInt32, UInt32.ofNat_toNat]
  exact Reads.pure _ v

/-! ## Blocks of bytes -/

theorem Reads.drain (bytes : List UInt8) : Reads p (drain bytes.length) bytes bytes := by
  induction hn : bytes.length using Nat.strongRecOn generalizing p bytes with
  | ind n ih =>
    unfold Decoder.drain
    by_cases h0 : n = 0
    · obtain rfl : bytes = [] := List.length_eq_zero_iff.mp (hn.trans h0)
      rw [dif_pos h0]
      exact Reads.pure p []
    · -- a piece of at most `chunkSize` bytes, then the rest
      rw [dif_neg h0]
      have hchunk : 0 < min n chunkSize := by simp [chunkSize]; omega
      have hpiece : min n chunkSize = (bytes.take (min n chunkSize)).length := by
        rw [List.length_take]; omega
      have hfirst : Reads p (Decoder.mapError (missingMore (n - min n chunkSize))
          (Decoder.fill (min n chunkSize))) (bytes.take (min n chunkSize))
          (bytes.take (min n chunkSize)) := by
        have := (Reads.fill (p := p) (bytes.take (min n chunkSize))).mapError
          (missingMore (n - min n chunkSize))
        rwa [← hpiece] at this
      have hrest := ih (n - min n chunkSize) (by omega)
        (p := p + (bytes.take (min n chunkSize)).length) (bytes.drop (min n chunkSize))
        (by rw [List.length_drop, hn])
      have hall := hfirst.bind (f := fun chunk => do
        return chunk ++ (← Decoder.drain (n - min n chunkSize)))
        (hrest.bind_nil (Reads.pure _ _))
      rw [List.take_append_drop] at hall
      exact hall

theorem Reads.readBytes (bytes : List UInt8) : Reads p (readBytes bytes.length) bytes bytes :=
  (Reads.align p).bind (f := fun _ => Decoder.drain bytes.length) (Reads.drain bytes)

theorem Reads.skip (bytes : List UInt8) : Reads p (skip bytes.length) bytes () :=
  (Reads.readBytes bytes).bind_nil (Reads.pure _ ())

/-- As many bytes as the window holds can be passed over. -/
theorem skip_of_le {n : Nat} {r : Reader} (hs : r.source.Steady) (hn : n ≤ r.window.length) :
    ∃ r', skip n r = .ok () r' := by
  have hskip := Reads.skip (p := r.position) (r.window.take n) { r with bitCount := 0 }
    (r.window.drop n) hs rfl rfl (List.take_append_drop n r.window).symm
  rw [List.length_take_of_le hn] at hskip
  obtain ⟨r', hrun, -⟩ := hskip
  exact ⟨r', hrun⟩

/-! ## Strings -/

theorem Reads.takeByte (b : UInt8) : Reads p takeByte [b] b :=
  (Reads.fill [b]).map (·.headD 0)

theorem takeUntilNul_eq (taken : List UInt8) :
    takeUntilNul taken = takeByte >>= fun b =>
      if b = 0 then pure taken.reverse else takeUntilNul (b :: taken) := by
  funext r
  rw [takeUntilNul]
  split
  · next h => rw [bind_of_error h]
  · next b r' h =>
    rw [bind_of_ok h]
    by_cases hb : b = 0
    · rw [if_pos hb, if_pos hb]; rfl
    · rw [if_neg hb, if_neg hb]

/-- A property of runs that sequencing keeps holds of a string if it holds of a byte. -/
theorem takeUntilNul_of_takeByte (P : ∀ {α : Type}, Decoder α → Reader → Prop)
    (hpure : ∀ {α : Type} (a : α) (r : Reader), P (pure a) r)
    (hbind : ∀ {α β : Type} {m : Decoder α} {f : α → Decoder β} {r : Reader}, P m r →
      (∀ a r', m r = .ok a r' → P (f a) r') → P (m >>= f) r)
    (hbyte : ∀ r, P takeByte r) (taken : List UInt8) (r : Reader) : P (takeUntilNul taken) r := by
  fun_induction Decoder.takeUntilNul taken r with
  | case1 taken r err r₁ h =>
    rw [takeUntilNul_eq]
    exact hbind (hbyte r) fun b r' hb => by rw [h] at hb; cases hb
  | case2 taken r r₁ h =>
    rw [takeUntilNul_eq]
    refine hbind (hbyte r) fun b r' hb => ?_
    rw [h] at hb
    cases hb
    exact hpure _ _
  | case3 taken r b r₁ h hne ih =>
    rw [takeUntilNul_eq]
    refine hbind (hbyte r) fun b' r' hb => ?_
    rw [h] at hb
    cases hb
    rw [if_neg hne]
    exact ih

theorem Reads.takeUntilNul {bytes : List UInt8} (taken : List UInt8) (h : 0 ∉ bytes) :
    Reads p (takeUntilNul taken) (bytes ++ [0]) (taken.reverse ++ bytes) := by
  induction bytes generalizing p taken with
  | nil =>
    rw [takeUntilNul_eq, List.append_nil]
    refine (Reads.takeByte 0).bind_nil ?_
    rw [if_pos rfl]
    exact Reads.pure _ _
  | cons b bytes ih =>
    have hb : b ≠ 0 := fun he => h (he ▸ List.mem_cons_self ..)
    have hbytes : 0 ∉ bytes := fun he => h (List.mem_cons_of_mem _ he)
    rw [takeUntilNul_eq]
    refine (Reads.takeByte b).bind ?_
    rw [if_neg hb]
    have := ih (p := p + [b].length) (b :: taken) hbytes
    rwa [List.reverse_cons, List.append_assoc] at this

/-- A string without a zero byte is read up to the one that ends it. -/
theorem Reads.readString {text : String} (h : 0 ∉ utf8 text) :
    Reads p readString (utf8 text ++ [0]) text := by
  have hbytes : Reads p (Decoder.takeUntilNul []) (utf8 text ++ [0]) (utf8 text) :=
    Reads.takeUntilNul [] h
  refine (Reads.align p).bind ((Reads.position p).bind (hbytes.bind_nil ?_))
  rw [fromUTF8?_utf8]
  exact Reads.pure _ text

end Decoder

end Swf
