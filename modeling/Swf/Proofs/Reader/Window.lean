import Swf.Sequencing
import Swf.Proofs.Source
import Swf.Reader.Account

/-!
# The window of a reader

Everything a reader can still see is its **window**: the bytes left in its source, up to the limit
of the record it is in. On a steady source the window and the position decide what comes next, and
a decoder that succeeds has taken some bytes off the front of the window (`Reader.Took`).

`Decoder.Reads p m bytes a` is the statement that all layouts are proved in: from position `p` and
a byte boundary, `m` takes exactly `bytes` off the window, whatever stands behind them, and gives
`a`. It is closed under sequencing, so a layout reads what its fields read, one after the other.
-/

namespace Swf

namespace Reader

/-- The bytes that may still be taken. -/
def window (r : Reader) : List UInt8 :=
  match r.limit with
  | none => r.source.remaining
  | some l => r.source.remaining.take l

/-- `r'` is `r` after `bytes` have been taken, whatever the source. -/
structure Moved (r : Reader) (bytes : List UInt8) (r' : Reader) : Prop where
  /-- The bytes came off the front of the source. -/
  remaining : r.source.remaining = bytes ++ r'.source.remaining
  /-- The position counts them. -/
  position : r'.position = r.position + bytes.length
  /-- So does the limit. -/
  limit : r'.limit = r.limit.map (· - bytes.length)
  /-- They were all within the limit. -/
  le_limit : ∀ l, r.limit = some l → bytes.length ≤ l

theorem moved_nil {r r' : Reader} (hsource : r'.source = r.source)
    (hpos : r'.position = r.position) (hlimit : r'.limit = r.limit) : r.Moved [] r' where
  remaining := by rw [hsource]; rfl
  position := hpos
  limit := by rw [hlimit]; cases r.limit <;> simp
  le_limit := by simp

theorem Moved.trans {r s t : Reader} {bytes bytes' : List UInt8} (h : r.Moved bytes s)
    (h' : s.Moved bytes' t) : r.Moved (bytes ++ bytes') t where
  remaining := by rw [h.remaining, h'.remaining, List.append_assoc]
  position := by rw [h'.position, h.position, List.length_append, Nat.add_assoc]
  limit := by
    rw [h'.limit, h.limit, List.length_append]
    cases r.limit with
    | none => rfl
    | some l => simp [Nat.sub_sub]
  le_limit := by
    intro l hl
    have hfirst := h.le_limit l hl
    have hsecond := h'.le_limit (l - bytes.length) (by rw [h.limit, hl]; rfl)
    rw [List.length_append]
    omega

/-- `r'` is `r` after `bytes` have been taken; what is left of the source is steady. -/
structure Took (r : Reader) (bytes : List UInt8) (r' : Reader) : Prop where
  /-- The source stays steady. -/
  steady : r'.source.Steady
  /-- The bytes came off the front of the source. -/
  remaining : r.source.remaining = bytes ++ r'.source.remaining
  /-- The position counts them. -/
  position : r'.position = r.position + bytes.length
  /-- So does the limit. -/
  limit : r'.limit = r.limit.map (· - bytes.length)
  /-- They were all within the limit. -/
  le_limit : ∀ l, r.limit = some l → bytes.length ≤ l
  /-- Bytes in memory stay so. -/
  ofBytes : (∃ data, r.source = .ofBytes data) → ∃ data, r'.source = .ofBytes data

theorem Took.moved {r r' : Reader} {bytes : List UInt8} (h : r.Took bytes r') : r.Moved bytes r' :=
  ⟨h.remaining, h.position, h.limit, h.le_limit⟩

theorem took_nil {r r' : Reader} (hs : r.source.Steady) (hsource : r'.source = r.source)
    (hpos : r'.position = r.position) (hlimit : r'.limit = r.limit) : r.Took [] r' :=
  { moved_nil hsource hpos hlimit with
    steady := hsource ▸ hs
    ofBytes := by rw [hsource]; exact id }

theorem Took.trans {r s t : Reader} {bytes bytes' : List UInt8} (h : r.Took bytes s)
    (h' : s.Took bytes' t) : r.Took (bytes ++ bytes') t :=
  { h.moved.trans h'.moved with
    steady := h'.steady
    ofBytes := fun hmem => h'.ofBytes (h.ofBytes hmem) }

/-- The window loses exactly what was taken. -/
theorem Took.window {r r' : Reader} {bytes : List UInt8} (h : r.Took bytes r') :
    r.window = bytes ++ r'.window := by
  unfold Reader.window
  rw [h.limit, h.remaining]
  cases hl : r.limit with
  | none => rfl
  | some l =>
    simp only [Option.map_some]
    rw [List.take_append, List.take_of_length_le (h.le_limit l hl)]

/-- As much as the window holds is within the limit. -/
theorem allowance_of_le_window {r : Reader} {n : Nat} (h : n ≤ r.window.length) :
    r.allowance n = n := by
  unfold window at h
  unfold allowance
  cases hl : r.limit with
  | none => simp
  | some l =>
    rw [hl, List.length_take] at h
    simp only [Option.getD_some]
    omega

theorem take_allowance (r : Reader) (n : Nat) :
    r.source.remaining.take (r.allowance n) = r.window.take n := by
  unfold allowance window
  cases r.limit with
  | none => simp
  | some l => simp [List.take_take]

/-- A part holds as much of the window as it asks for. -/
theorem window_enter (r : Reader) (n : Nat) : (r.enter n).window = r.window.take n :=
  r.take_allowance n

end Reader

namespace Decoder

variable {α β : Type}

/-- What is filled in full was gathered in full. -/
theorem gather_of_fill {n : Nat} {r r' : Reader} {got : List UInt8} (h : fill n r = .ok got r') :
    got.length = n ∧ r.allowance n = n ∧
      ∃ s, r.source.gather n = (got, none, s) ∧ r' = r.advance n s := by
  have hle := Source.length_gather_le (r.allowance n) r.source
  have hn : r.allowance n ≤ n := Nat.min_le_left ..
  have henough := (remaining_of_fill h).2
  have hafter := after_fill n r
  have hgot : got = (r.source.gather (r.allowance n)).1 := by
    unfold fill at h
    simp only at h
    split at h
    · cases h
    · split at h
      · cases h
      · cases h
        rfl
  rw [← hgot] at hle
  have hallow : r.allowance n = n := by omega
  have hlen : got.length = n := by omega
  simp only [after, h] at hafter
  rw [← hgot, hallow, hlen] at hafter
  rw [hallow] at hgot
  refine ⟨hlen, hallow, (r.source.gather n).2.2, ?_, hafter⟩
  exact Prod.ext hgot.symm (Prod.ext (Source.gather_short_of_length (by rw [← hgot, hlen])) rfl)

/-- And conversely. -/
theorem fill_of_gather {n : Nat} {r : Reader} {got : List UInt8} {s : Source}
    (hlen : got.length = n) (hallow : r.allowance n = n) (h : r.source.gather n = (got, none, s)) :
    fill n r = .ok got (r.advance n s) := by
  unfold fill
  simp only [hallow, h, hlen, Nat.lt_irrefl, if_false]

/-- A block that was read is the front of the source. -/
theorem readFully_eq_ok {n : Nat} {r r' : Reader} {got : List UInt8}
    (h : readFully n r = .ok got r') :
    got = r.source.remaining.take n ∧ n ≤ r.source.remaining.length ∧
      ∃ s, s.remaining = r.source.remaining.drop n ∧
        r' = ({ r with bitCount := 0 } : Reader).advance n s := by
  have hfill : fill n { r with bitCount := 0 } = .ok got r' := h
  obtain ⟨hlen, _, s, hgather, rfl⟩ := gather_of_fill hfill
  have hrem : got ++ s.remaining = r.source.remaining := by
    have := Source.remaining_gather n r.source
    rwa [hgather] at this
  rw [← hrem, ← hlen]
  exact ⟨List.take_left.symm, by simp, s, List.drop_left.symm, rfl⟩

theorem moved_of_gather {n : Nat} {r : Reader} {got : List UInt8} {s : Source}
    (hlen : got.length = n) (hallow : r.allowance n = n)
    (h : r.source.gather n = (got, none, s)) : r.Moved got (r.advance n s) where
  remaining := by
    have := Source.remaining_gather n r.source
    rw [h] at this
    exact this.symm
  position := by rw [hlen]; rfl
  limit := by rw [hlen]; rfl
  le_limit := by
    intro l hl
    unfold Reader.allowance at hallow
    rw [hl, Option.getD_some] at hallow
    omega

/-- Filling takes what is asked for if the window holds it; the bit state stays. -/
theorem fill_of_le {n : Nat} {r : Reader} (hs : r.source.Steady) (hn : n ≤ r.window.length) :
    ∃ r', fill n r = .ok (r.window.take n) r' ∧ r.Took (r.window.take n) r' ∧
      r'.bitBuf = r.bitBuf ∧ r'.bitCount = r.bitCount := by
  have hallow := Reader.allowance_of_le_window hn
  have hlen : (r.window.take n).length = n := List.length_take_of_le hn
  have hgot : (r.source.gather n).1 = r.window.take n := by
    rw [Source.gather_fst n hs, ← r.take_allowance, hallow]
  have hshort : (r.source.gather n).2.1 = none :=
    Source.gather_short_of_length (by rw [hgot, hlen])
  have hgather : r.source.gather n = (r.window.take n, none, (r.source.gather n).2.2) :=
    Prod.ext hgot (Prod.ext hshort rfl)
  have took : r.Took (r.window.take n) (r.advance n (r.source.gather n).2.2) :=
    { moved_of_gather hlen hallow hgather with
      steady := Source.steady_gather n hs
      ofBytes := Source.gather_ofBytes n }
  exact ⟨_, fill_of_gather hlen hallow hgather, took, rfl, rfl⟩

/-! ## Reading a layout -/

/-- From position `p` and a byte boundary, `m` takes exactly `bytes` and gives `a`. -/
def Reads (p : Nat) (m : Decoder α) (bytes : List UInt8) (a : α) : Prop :=
  ∀ (r : Reader) (rest : List UInt8), r.source.Steady → r.position = p → r.bitCount = 0 →
    r.window = bytes ++ rest →
    ∃ r', m r = .ok a r' ∧ r.Took bytes r' ∧ r'.bitCount = 0

theorem Reads.pure (p : Nat) (a : α) : Reads p (pure a) [] a :=
  fun r _ hs _ hb _ => ⟨r, rfl, Reader.took_nil hs rfl rfl rfl, hb⟩

/-- What two decoders read one after the other. -/
theorem Reads.bind {p : Nat} {m : Decoder α} {f : α → Decoder β} {bytes bytes' : List UInt8} {a : α}
    {b : β} (hm : Reads p m bytes a) (hf : Reads (p + bytes.length) (f a) bytes' b) :
    Reads p (m >>= f) (bytes ++ bytes') b := by
  intro r rest hs hp hb hw
  obtain ⟨r₁, h₁, t₁, b₁⟩ := hm r (bytes' ++ rest) hs hp hb (by rw [hw, List.append_assoc])
  have hw₁ : r₁.window = bytes' ++ rest := by
    have := t₁.window
    rw [hw, List.append_assoc] at this
    exact (List.append_cancel_left this).symm
  obtain ⟨r₂, h₂, t₂, b₂⟩ := hf r₁ rest t₁.steady (by rw [t₁.position, hp]) b₁ hw₁
  exact ⟨r₂, (bind_of_ok h₁).trans h₂, t₁.trans t₂, b₂⟩

theorem Reads.map {p : Nat} {m : Decoder α} {bytes : List UInt8} {a : α} (f : α → β)
    (hm : Reads p m bytes a) : Reads p (f <$> m) bytes (f a) := by
  intro r rest hs hp hb hw
  obtain ⟨r', h, t, b⟩ := hm r rest hs hp hb hw
  exact ⟨r', by simp only [Functor.map, EStateM.map, h], t, b⟩

/-- A last step that takes nothing. -/
theorem Reads.bind_nil {p : Nat} {m : Decoder α} {f : α → Decoder β} {bytes : List UInt8} {a : α}
    {b : β} (hm : Reads p m bytes a) (hf : Reads (p + bytes.length) (f a) [] b) :
    Reads p (m >>= f) bytes b := by
  have := hm.bind hf
  rwa [List.append_nil] at this

/-- A first step that takes nothing. -/
theorem Reads.nil_bind {p : Nat} {m : Decoder α} {f : α → Decoder β} {bytes : List UInt8} {a : α}
    {b : β} (hm : Reads p m [] a) (hf : Reads p (f a) bytes b) : Reads p (m >>= f) bytes b :=
  hm.bind (f := f) hf

theorem Reads.ofExcept (p : Nat) (a : α) : Reads p (ofExcept (.ok a)) [] a := Reads.pure p a

theorem Reads.position (p : Nat) : Reads p position [] p :=
  fun r _ hs hp hb _ =>
    ⟨r, by rw [← hp]; rfl, Reader.took_nil hs rfl rfl rfl, hb⟩

theorem Reads.align (p : Nat) : Reads p align [] () :=
  fun r _ hs _ _ _ => ⟨{ r with bitCount := 0 }, rfl, Reader.took_nil hs rfl rfl rfl, rfl⟩

theorem Reads.mapError {p : Nat} {m : Decoder α} {bytes : List UInt8} {a : α}
    (f : CodecError → CodecError) (hm : Reads p m bytes a) : Reads p (mapError f m) bytes a := by
  intro r rest hs hp hb hw
  obtain ⟨r', h, t, b⟩ := hm r rest hs hp hb hw
  exact ⟨r', by simp only [Decoder.mapError, h], t, b⟩

/-- A part that is read on its own has exactly its bytes before it. -/
theorem Reads.within {p : Nat} {m : Decoder α} {bytes : List UInt8} {a : α}
    (hm : Reads p m bytes a) : Reads p (within bytes.length m) bytes a := by
  intro r rest hs hp hb hw
  have hle : bytes.length ≤ r.window.length := by rw [hw, List.length_append]; omega
  have hwin : ({ r with bitCount := 0, limit := some (r.allowance bytes.length) } : Reader).window
      = bytes ++ [] :=
    (r.window_enter bytes.length).trans (by rw [hw, List.take_left, List.append_nil])
  obtain ⟨r', h, t, b⟩ :=
    hm { r with bitCount := 0, limit := some (r.allowance bytes.length) } [] hs hp rfl hwin
  have hpos := t.position
  refine ⟨leave r r', by simp only [Decoder.within, h], ?_, rfl⟩
  exact {
    steady := t.steady
    remaining := t.remaining
    position := hpos
    limit := by
      simp only [leave, hpos, Nat.add_sub_cancel_left]
    le_limit := by
      intro l hl
      have hr : r.window = r.source.remaining.take l := by unfold Reader.window; rw [hl]
      rw [hr, List.length_take] at hle
      omega
    ofBytes := t.ofBytes }

theorem Reads.fill {p : Nat} (bytes : List UInt8) : Reads p (fill bytes.length) bytes bytes := by
  intro r rest hs hp hb hw
  obtain ⟨r', h, t, _, b⟩ := fill_of_le (n := bytes.length) hs
    (by rw [hw, List.length_append]; omega)
  rw [hw, List.take_left] at h t
  exact ⟨r', h, t, by rw [b, hb]⟩

theorem Reads.readFully {p : Nat} (bytes : List UInt8) :
    Reads p (readFully bytes.length) bytes bytes := by
  have := (Reads.align p).bind (f := fun _ => Decoder.fill bytes.length) (Reads.fill bytes)
  rwa [List.nil_append] at this

theorem Reads.readUInt8 {p : Nat} (v : UInt8) : Reads p readUInt8 [v] v := by
  refine (Reads.readFully [v]).bind_nil ?_
  have hv : UInt8.ofNat (littleEndian [v]) = v := by simp [littleEndian]
  rw [hv]
  exact Reads.pure _ v

end Decoder

end Swf
