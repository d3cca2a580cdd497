import Swf.Reader.Composition
import Swf.Sequencing

/-!
# Readers keep account of their bytes

Whatever a source does and whether or not a decoder succeeds, the bytes it took came off the front
of the source and the position counts exactly those. `Decoder.KeepsAccount` says so. It is closed
under composition (`KeepsAccount.closed`), so it holds of every field and layout; loops over records
end because of it.
-/

namespace Swf

/-- The reader of the next `n` bytes alone. -/
def Reader.enter (r : Reader) (n : Nat) : Reader :=
  { r with bitCount := 0, limit := some (r.allowance n) }

namespace Decoder

variable {α β : Type}

/-- What a decoder gives. -/
def outcome (m : Decoder α) (r : Reader) : Except CodecError α :=
  match m r with
  | .ok a _ => .ok a
  | .error err _ => .error err

theorem outcome_of_ok {m : Decoder α} {r r' : Reader} {a : α} (h : m r = .ok a r') :
    m.outcome r = .ok a := by
  unfold outcome
  rw [h]

theorem outcome_of_error {m : Decoder α} {r r' : Reader} {err : CodecError}
    (h : m r = .error err r') : m.outcome r = .error err := by
  unfold outcome
  rw [h]

theorem outcome_congr {m m' : Decoder α} {r r' : Reader} (h : m r = m' r') :
    m.outcome r = m'.outcome r' := by
  unfold outcome
  rw [h]

theorem outcome_map (f : α → β) (m : Decoder α) (r : Reader) :
    (f <$> m).outcome r = (m.outcome r).map f := by
  unfold outcome
  cases hm : m r with
  | error err r' => rw [map_of_error hm]; rfl
  | ok a r' => rw [map_of_ok hm]; rfl

theorem run_of_outcome {m : Decoder α} {r : Reader} {a : α} (h : m.outcome r = .ok a) :
    ∃ r', m r = .ok a r' := by
  unfold outcome at h
  split at h
  · next b r' hm =>
    obtain rfl : b = a := Except.ok.inj h
    exact ⟨r', hm⟩
  · cases h

/-- The reader that a decoder leaves behind. -/
def after (m : Decoder α) (r : Reader) : Reader :=
  match m r with
  | .ok _ r' => r'
  | .error _ r' => r'

/-- `r'` is `r` after some bytes have come from its source. -/
def Followed (r r' : Reader) : Prop :=
  ∃ taken, r.source.remaining = taken ++ r'.source.remaining ∧
    r'.position = r.position + taken.length

theorem Followed.refl (r : Reader) : Followed r r := ⟨[], by simp⟩

theorem Followed.trans {r s t : Reader} (h : Followed r s) (h' : Followed s t) : Followed r t := by
  obtain ⟨front, hs, hp⟩ := h
  obtain ⟨back, ht, hq⟩ := h'
  exact ⟨front ++ back, by simp [hs, ht], by simp [hq, hp]; omega⟩

theorem Followed.length_le {r r' : Reader} (h : Followed r r') :
    r'.source.remaining.length ≤ r.source.remaining.length := by
  obtain ⟨taken, hr, _⟩ := h
  simp [hr]

/-- Where the rest of a byte string stands in front of `r`, the rest from there on stands in front
of `r'`. -/
theorem Followed.drop {r r' : Reader} (h : Followed r r') {bytes : List UInt8}
    (hr : r.source.remaining = bytes.drop r.position) :
    r'.source.remaining = bytes.drop r'.position := by
  obtain ⟨taken, hrem, hpos⟩ := h
  rw [hpos, ← List.drop_drop, ← hr, hrem, List.drop_left]

/-- The decoder takes its bytes off the front of the source and counts them. -/
def KeepsAccount (m : Decoder α) : Prop := ∀ r, Followed r (m.after r)

/-- Filling takes what gathering gives, whether or not that is enough. -/
theorem after_fill (n : Nat) (r : Reader) :
    (fill n).after r =
      r.advance (r.source.gather (r.allowance n)).1.length
        (r.source.gather (r.allowance n)).2.2 := by
  simp only [after, fill]
  rcases r.source.gather (r.allowance n) with ⟨got, short, source⟩
  by_cases hl : got.length < n <;> rcases short with _ | _ | cause <;> simp [hl]

namespace KeepsAccount

theorem pure (a : α) : KeepsAccount (pure a) := fun r => .refl r

theorem throw (err : CodecError) : KeepsAccount (throw err : Decoder α) := fun r => .refl r

theorem bind {m : Decoder α} {f : α → Decoder β} (hm : KeepsAccount m)
    (hf : ∀ a, KeepsAccount (f a)) : KeepsAccount (m >>= f) := by
  intro r
  have h := hm r
  simp only [after, Bind.bind, EStateM.bind] at h ⊢
  cases hr : m r with
  | error err r' => simpa [hr] using h
  | ok a r' =>
    have h' := hf a r'
    simp only [hr] at h
    simp only [after] at h'
    exact h.trans h'

theorem mapError {m : Decoder α} (f : CodecError → CodecError) (hm : KeepsAccount m) :
    KeepsAccount (mapError f m) := by
  intro r
  have h := hm r
  simp only [after, Decoder.mapError] at h ⊢
  cases hr : m r <;> simpa [hr] using h

theorem within {m : Decoder α} (n : Nat) (hm : KeepsAccount m) : KeepsAccount (within n m) := by
  intro r
  obtain ⟨taken, hr, hp⟩ := hm { r with bitCount := 0, limit := some (r.allowance n) }
  refine ⟨taken, ?_, ?_⟩
  all_goals
    simp only [after, Decoder.within] at hr hp ⊢
    generalize m { r with bitCount := 0, limit := some (r.allowance n) } = result at hr hp
    cases result <;> simp_all [leave]

theorem align : KeepsAccount align := fun _ => ⟨[], rfl, rfl⟩

theorem position : KeepsAccount position := fun r => .refl r

theorem fill (n : Nat) : KeepsAccount (fill n) := by
  intro r
  refine ⟨(r.source.gather (r.allowance n)).1, ?_, ?_⟩
  · rw [after_fill, ← Source.remaining_gather (r.allowance n) r.source]
    rfl
  · rw [after_fill]
    rfl

theorem takeByte : KeepsAccount takeByte := (fill 1).bind fun bytes => pure (bytes.headD 0)

theorem takeUntilNul (taken : List UInt8) : KeepsAccount (takeUntilNul taken) := by
  intro r
  fun_induction Decoder.takeUntilNul taken r with
  | case1 taken r err r' h =>
    have hr := takeByte r
    have hstep : Decoder.takeUntilNul taken r = .error err r' := by
      rw [Decoder.takeUntilNul]; split <;> simp_all
    simpa only [after, hstep, h] using hr
  | case2 taken r r' h =>
    have hr := takeByte r
    have hstep : Decoder.takeUntilNul taken r = .ok taken.reverse r' := by
      rw [Decoder.takeUntilNul]; split <;> simp_all
    simpa only [after, hstep, h] using hr
  | case3 taken r b r' h hb ih =>
    have hr := takeByte r
    have hstep : Decoder.takeUntilNul taken r = Decoder.takeUntilNul (b :: taken) r' := by
      rw [Decoder.takeUntilNul]; split <;> simp_all
    simp only [after, hstep, h] at hr ih ⊢
    exact hr.trans ih

theorem modifyBits {f : Reader → Reader} (hs : ∀ r, (f r).source = r.source)
    (hp : ∀ r, (f r).position = r.position) : KeepsAccount (modify f) :=
  fun r => by
    have hr : Decoder.after (modify f) r = f r := rfl
    exact ⟨[], by rw [hr, hs]; rfl, by rw [hr, hp]; rfl⟩

theorem get : KeepsAccount (get : Decoder Reader) := fun r => .refl r

theorem readBit : KeepsAccount readBit := by
  refine get.bind fun r => ?_
  -- What comes after the byte is the same whether or not a new one was taken.
  have hrest : KeepsAccount (do
      modify fun r : Reader => { r with bitCount := r.bitCount - 1 }
      let r ← MonadState.get
      return r.bitBuf.toNat.testBit r.bitCount : Decoder Bool) :=
    (modifyBits (by simp) (by simp)).bind fun _ => get.bind fun _ => pure _
  split
  · exact (fill 1).bind fun _ => (modifyBits (by simp) (by simp)).bind fun _ => hrest
  · exact hrest

theorem closed : ClosedInRecords @KeepsAccount where
  pure := KeepsAccount.pure
  throw := KeepsAccount.throw
  bind := KeepsAccount.bind
  missingMore := fun _ => KeepsAccount.mapError _
  mapError := KeepsAccount.mapError
  within := KeepsAccount.within
  align := KeepsAccount.align
  position := KeepsAccount.position
  fill := KeepsAccount.fill
  takeUntilNul := KeepsAccount.takeUntilNul
  readBit := KeepsAccount.readBit

end KeepsAccount

/-! ## Success and failure of a part -/

theorem mapError_of_ok {f : CodecError → CodecError} {m : Decoder α} {r r' : Reader} {a : α}
    (h : m r = .ok a r') : mapError f m r = .ok a r' := by
  unfold mapError
  rw [h]

theorem mapError_of_error {f : CodecError → CodecError} {m : Decoder α} {r r' : Reader}
    {err : CodecError} (h : m r = .error err r') : mapError f m r = .error (f err) r' := by
  unfold mapError
  rw [h]

theorem within_of_ok {n : Nat} {m : Decoder α} {r s : Reader} {a : α}
    (h : m (r.enter n) = .ok a s) : within n m r = .ok a (leave r s) := by
  unfold Reader.enter at h
  unfold within
  rw [h]

theorem within_of_error {n : Nat} {m : Decoder α} {r s : Reader} {err : CodecError}
    (h : m (r.enter n) = .error err s) : within n m r = .error err (leave r s) := by
  unfold Reader.enter at h
  unfold within
  rw [h]

/-- A part gives what it gives on its own. -/
theorem outcome_within (n : Nat) (m : Decoder α) (r : Reader) :
    (within n m).outcome r = m.outcome (r.enter n) := by
  cases hm : m (r.enter n) with
  | ok a s => rw [outcome_of_ok hm, outcome_of_ok (within_of_ok hm)]
  | error err s => rw [outcome_of_error hm, outcome_of_error (within_of_error hm)]

theorem mapError_eq_ok {f : CodecError → CodecError} {m : Decoder α} {r r' : Reader} {a : α}
    (h : mapError f m r = .ok a r') : m r = .ok a r' := by
  unfold mapError at h
  cases hm : m r with
  | error err s => rw [hm] at h; cases h
  | ok b s => rwa [hm] at h

theorem map_eq_ok {f : α → β} {m : Decoder α} {r r' : Reader} {b : β}
    (h : (f <$> m) r = .ok b r') : ∃ a, m r = .ok a r' ∧ f a = b := by
  obtain ⟨a, s, hm, hpure⟩ := ok_of_bind (f := fun a => pure (f a)) h
  cases hpure
  exact ⟨a, hm, rfl⟩

/-- What was read on its own was read from a part. -/
theorem within_eq_ok {n : Nat} {m : Decoder α} {r r' : Reader} {a : α}
    (h : within n m r = .ok a r') :
    ∃ s, m { r with bitCount := 0, limit := some (r.allowance n) } = .ok a s ∧ r' = leave r s := by
  unfold within at h
  cases hm : m { r with bitCount := 0, limit := some (r.allowance n) } with
  | error err s => rw [hm] at h; cases h
  | ok b s =>
    rw [hm] at h
    cases h
    exact ⟨s, rfl, rfl⟩

/-- What a decoder that keeps account leaves after success. -/
theorem KeepsAccount.followed {m : Decoder α} (hm : KeepsAccount m) {r r' : Reader} {a : α}
    (h : m r = .ok a r') : Followed r r' := by
  simpa only [after, h] using hm r

end Decoder

end Swf
