import Swf.Proofs.Reader.Shortfall

/-!
# Running out of bytes

On a steady source a field fails in two ways only: its bytes run out, or a string is not one. Where
they run out there is nothing left, neither by bits nor by bytes, in one piece or in many: the error
names the offset behind the window and lacks at least a byte. A decoder that succeeds stays in front
of that offset (`Decoder.RunsDry`).

The kinds that end in a blob have an error of their own, for fields that have taken more than the
record declares. It cannot come up as long as the window is no longer than that, and so the bound on
the window is a part of the property.
-/

namespace Swf

namespace Reader

variable {r r' r'' : Reader}

/-- The offset behind the window. -/
def last (r : Reader) : Nat := r.position + r.window.length

/-- The end of a part: as much of it as the window holds. -/
theorem last_enter (r : Reader) (n : Nat) :
    (r.enter n).last = r.position + min n r.window.length := by
  rw [← List.length_take, ← r.window_enter n]
  rfl

/-- `r'` is a steady reader further on in the window of `r`. -/
structure Onward (r r' : Reader) : Prop where
  steady : r'.source.Steady
  last : r'.last = r.last
  position : r.position ≤ r'.position

theorem Onward.trans (h : r.Onward r') (h' : r'.Onward r'') : r.Onward r'' :=
  ⟨h'.steady, h'.last.trans h.last, Nat.le_trans h.position h'.position⟩

theorem Onward.window_le (h : r.Onward r') : r'.window.length ≤ r.window.length := by
  have hlast := h.last
  have hposition := h.position
  unfold Reader.last at hlast
  omega

/-- What has been taken is within the window. -/
theorem Onward.position_le (h : r.Onward r') : r'.position ≤ r.last := by
  rw [← h.last]
  exact Nat.le_add_right ..

theorem Onward.taken_le (h : r.Onward r') : r'.position - r.position ≤ r.window.length := by
  have hle := h.position_le
  unfold Reader.last at hle
  omega

theorem Took.onward {bytes : List UInt8} (h : r.Took bytes r') : r.Onward r' where
  steady := h.steady
  last := by
    have hlen := congrArg List.length h.window
    rw [List.length_append] at hlen
    unfold Reader.last
    rw [h.position]
    omega
  position := by rw [h.position]; omega

end Reader

namespace Decoder

variable {α β : Type} {r : Reader}

/-- A run from `r` succeeds, or runs out of bytes at the end of the window, or meets a string that
is not one. -/
inductive Dry (r : Reader) : EStateM.Result CodecError Reader α → Prop
  | ok {a : α} {r' : Reader} (onward : r.Onward r') : Dry r (.ok a r')
  | outOfBytes {expected : Nat} {r' : Reader} (h : 1 ≤ expected) :
      Dry r (.error (.unexpectedEof expected r.last) r')
  | invalidString {offset : Nat} {r' : Reader} : Dry r (.error (.invalidString offset) r')

theorem Dry.onward {a : α} {r' : Reader} (h : Dry r (.ok a r')) : r.Onward r' := by
  cases h with
  | ok onward => exact onward

theorem Dry.outcome {m : Decoder α} (h : Dry r (m r)) :
    (∃ a, m.outcome r = .ok a) ∨
      (∃ expected, 1 ≤ expected ∧ m.outcome r = .error (.unexpectedEof expected r.last)) ∨
      ∃ offset, m.outcome r = .error (.invalidString offset) := by
  generalize hrun : m r = x at h
  cases h with
  | ok _ => exact .inl ⟨_, outcome_of_ok hrun⟩
  | outOfBytes h => exact .inr (.inl ⟨_, h, outcome_of_error hrun⟩)
  | invalidString => exact .inr (.inr ⟨_, outcome_of_error hrun⟩)

/-- From `r`, if its source is steady, `m` fails in none but these ways. -/
def RunsDryAt (m : Decoder α) (r : Reader) : Prop := r.source.Steady → Dry r (m r)

/-- On a window of at most `n` bytes, `m` succeeds, runs out of bytes or meets a string that is not
one. -/
def RunsDry (n : Nat) {α : Type} (m : Decoder α) : Prop := ∀ r, r.window.length ≤ n → RunsDryAt m r

theorem RunsDryAt.bind {m : Decoder α} {f : α → Decoder β} (hm : RunsDryAt m r)
    (hf : ∀ a r', m r = .ok a r' → r.Onward r' → RunsDryAt (f a) r') : RunsDryAt (m >>= f) r := by
  intro hs
  have hdry := hm hs
  generalize hrun : m r = x at hdry
  cases hdry with
  | @ok a r' onward =>
    have hdry' := hf a r' hrun onward onward.steady
    rw [bind_of_ok hrun]
    generalize f a r' = y at hdry'
    cases hdry' with
    | ok onward' => exact .ok (onward.trans onward')
    | outOfBytes h => rw [onward.last]; exact .outOfBytes h
    | invalidString => exact .invalidString
  | outOfBytes h => rw [bind_of_error hrun]; exact .outOfBytes h
  | invalidString => rw [bind_of_error hrun]; exact .invalidString

namespace RunsDryAt

theorem step {a : α} {r' : Reader} {m : Decoder α} (h : m r = .ok a r')
    (hsource : r'.source = r.source) (hposition : r'.position = r.position)
    (hlimit : r'.limit = r.limit) : RunsDryAt m r := by
  intro hs
  rw [h]
  exact .ok (Reader.took_nil hs hsource hposition hlimit).onward

theorem pure (a : α) (r : Reader) : RunsDryAt (pure a) r := step rfl rfl rfl rfl

theorem fill (n : Nat) (r : Reader) : RunsDryAt (fill n) r := by
  intro hs
  by_cases hn : n ≤ r.window.length
  · obtain ⟨r', hfill, took, -⟩ := fill_of_le hs hn
    rw [hfill]
    exact .ok took.onward
  · have hshort : r.window.take n = r.window := List.take_of_length_le (by omega)
    rw [fill_of_steady hs, hshort, if_pos (by omega)]
    exact .outOfBytes (by omega)

theorem takeByte (r : Reader) : RunsDryAt takeByte r :=
  (fill 1 r).bind fun bytes r' _ _ => pure (bytes.headD 0) r'

theorem readBit (r : Reader) : RunsDryAt readBit r := by
  rcases hk : r.bitCount with _ | k
  · unfold RunsDryAt
    rw [readBit_eq_openByte hk]
    exact (fill 1 r).bind fun byte r' _ _ => step rfl rfl rfl rfl
  · exact step (readBit_of_pos hk) rfl rfl rfl

end RunsDryAt

namespace RunsDry

variable {n : Nat}

theorem bind {m : Decoder α} {f : α → Decoder β} (hm : RunsDry n m) (hf : ∀ a, RunsDry n (f a)) :
    RunsDry n (m >>= f) := fun r hn =>
  (hm r hn).bind fun a r' _ onward => hf a r' (Nat.le_trans onward.window_le hn)

theorem missingMore {m : Decoder α} (extra : Nat) (hm : RunsDry n m) :
    RunsDry n (mapError (missingMore extra) m) := by
  intro r hn hs
  have hdry := hm r hn hs
  generalize hrun : m r = x at hdry
  cases hdry with
  | ok onward => rw [mapError_of_ok hrun]; exact .ok onward
  | outOfBytes h => rw [mapError_of_error hrun]; exact .outOfBytes (Nat.le_add_right_of_le h)
  | invalidString => rw [mapError_of_error hrun]; exact .invalidString

/-- **Every field** stops at the end of its window at the latest. -/
theorem closed (n : Nat) : ClosedInFields (@RunsDry n) where
  pure := fun a r _ => RunsDryAt.pure a r
  invalidString := fun _ _ _ _ => .invalidString
  bind := RunsDry.bind
  missingMore := RunsDry.missingMore
  align := fun _ _ => RunsDryAt.step rfl rfl rfl rfl
  position := fun _ _ => RunsDryAt.step rfl rfl rfl rfl
  fill := fun n r _ => RunsDryAt.fill n r
  takeUntilNul := fun taken r _ =>
    takeUntilNul_of_takeByte RunsDryAt RunsDryAt.pure
      (fun hm hf => hm.bind fun a r' h _ => hf a r' h) RunsDryAt.takeByte taken r
  readBit := fun r _ => RunsDryAt.readBit r

end RunsDry

end Decoder

end Swf
