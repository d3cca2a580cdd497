import Swf.Proofs.Reader.Shortfall

/-!
# Readers that look alike

What a decoder does in front of a steady source is decided by the window, the position and the bits
left over. Whether a window ends because the source does or because a record does cannot be told
from inside: a layout in a record does what it would do on the bytes of the record alone. The limit
of a reader is a part of its window and of nothing else.
-/

namespace Swf

namespace Reader

/-- Both readers are steady, and in front of the same bytes at the same offset and bit. -/
structure Alike (r s : Reader) : Prop where
  left : r.source.Steady
  right : s.source.Steady
  window : r.window = s.window
  position : r.position = s.position
  bitCount : r.bitCount = s.bitCount
  /-- The open byte matters as long as bits of it are unread. -/
  bitBuf : r.bitCount ≠ 0 → r.bitBuf = s.bitBuf

/-- What a record holds back is what a source that ends there holds back. -/
theorem alike_enter {r : Reader} (hs : r.source.Steady) (n : Nat) :
    (r.enter n).Alike (ofSource (.ofBytes (r.window.take n)) r.position) where
  left := hs
  right := Source.steady_ofBytes _
  window := r.window_enter n
  position := rfl
  bitCount := rfl
  bitBuf := fun h => absurd rfl h

/-- Readers that look alike still do after the same bytes. -/
theorem Alike.took {r s r' s' : Reader} {bytes : List UInt8} (h : r.Alike s)
    (hr : r.Took bytes r') (hs : s.Took bytes s') (hcount : r'.bitCount = s'.bitCount)
    (hbuf : r'.bitCount ≠ 0 → r'.bitBuf = s'.bitBuf) : r'.Alike s' where
  left := hr.steady
  right := hs.steady
  window := List.append_cancel_left (hr.window.symm.trans (h.window.trans hs.window))
  position := by rw [hr.position, hs.position, h.position]
  bitCount := hcount
  bitBuf := hbuf

end Reader

namespace Decoder

variable {α β : Type} {r : Reader}

/-- Two runs give the same, and what they leave looks alike. -/
inductive Agree : EStateM.Result CodecError Reader α → EStateM.Result CodecError Reader α → Prop
  | ok {a : α} {r' s' : Reader} (alike : r'.Alike s') : Agree (.ok a r') (.ok a s')
  | error {err : CodecError} {r' s' : Reader} : Agree (.error err r') (.error err s')

/-- From a reader that looks like `r`, `m` does what it does from `r`. -/
def SeesWindowAt (m : Decoder α) (r : Reader) : Prop := ∀ s, r.Alike s → Agree (m r) (m s)

/-- Readers that look alike are not told apart. -/
def SeesWindow (m : Decoder α) : Prop := ∀ r, SeesWindowAt m r

theorem SeesWindow.outcome_eq {m : Decoder α} (hm : SeesWindow m) {s : Reader} (h : r.Alike s) :
    m.outcome r = m.outcome s := by
  have hagree := hm r s h
  unfold Decoder.outcome
  generalize m r = x at hagree
  generalize m s = y at hagree
  cases hagree <;> rfl

theorem SeesWindowAt.bind {m : Decoder α} {f : α → Decoder β} (hm : SeesWindowAt m r)
    (hf : ∀ a r', m r = .ok a r' → SeesWindowAt (f a) r') : SeesWindowAt (m >>= f) r := by
  intro s halike
  have hagree := hm s halike
  generalize hr : m r = x at hagree
  generalize hs : m s = y at hagree
  cases hagree with
  | ok alike =>
    rw [bind_of_ok hr, bind_of_ok hs]
    exact hf _ _ hr _ alike
  | error =>
    rw [bind_of_error hr, bind_of_error hs]
    exact .error

namespace SeesWindow

theorem pure (a : α) : SeesWindow (pure a) := fun _ _ halike => .ok halike

theorem throw (err : CodecError) : SeesWindow (throw err : Decoder α) := fun _ _ _ => .error

theorem bind {m : Decoder α} {f : α → Decoder β} (hm : SeesWindow m) (hf : ∀ a, SeesWindow (f a)) :
    SeesWindow (m >>= f) := fun r => (hm r).bind fun a r' _ => hf a r'

theorem mapError {m : Decoder α} (f : CodecError → CodecError) (hm : SeesWindow m) :
    SeesWindow (mapError f m) := by
  intro r s halike
  have hagree := hm r s halike
  generalize hr : m r = x at hagree
  generalize hs : m s = y at hagree
  cases hagree with
  | ok alike =>
    rw [mapError_of_ok hr, mapError_of_ok hs]
    exact .ok alike
  | error =>
    rw [mapError_of_error hr, mapError_of_error hs]
    exact .error

theorem align : SeesWindow align := fun _ _ halike =>
  .ok { halike with bitCount := rfl, bitBuf := fun h => absurd rfl h }

theorem position : SeesWindow position := by
  intro r s halike
  show Agree (.ok r.position r) (.ok s.position s)
  rw [halike.position]
  exact .ok halike

theorem fill (n : Nat) : SeesWindow (fill n) := by
  intro r s halike
  by_cases hn : n ≤ r.window.length
  · obtain ⟨r', hr, tookr, hbufr, hcountr⟩ := fill_of_le halike.left hn
    rw [halike.window] at hn hr tookr
    obtain ⟨s', hs, tooks, hbufs, hcounts⟩ := fill_of_le halike.right hn
    rw [hr, hs]
    refine .ok (halike.took tookr tooks ?_ fun hne => ?_)
    · rw [hcountr, hcounts, halike.bitCount]
    · rw [hbufr, hbufs, halike.bitBuf (hcountr ▸ hne)]
  · -- both windows end too early, at the same offset
    have hshort : (s.window.take n).length < n := by
      rw [← halike.window, List.length_take]
      omega
    rw [fill_of_steady halike.left, fill_of_steady halike.right, halike.window, halike.position,
      if_pos hshort, if_pos hshort]
    exact .error

theorem takeByte : SeesWindow takeByte := (fill 1).bind fun bytes => pure (bytes.headD 0)

theorem takeUntilNul (taken : List UInt8) : SeesWindow (takeUntilNul taken) :=
  takeUntilNul_of_takeByte SeesWindowAt pure SeesWindowAt.bind takeByte taken

theorem openByte (byte : UInt8) : SeesWindow (openByte byte) := fun _ _ halike =>
  .ok { halike with bitCount := rfl, bitBuf := fun _ => rfl }

theorem readBit : SeesWindow readBit := by
  intro r s halike
  rcases hk : r.bitCount with _ | k
  · have hbyte := (fill 1).bind (fun byte => openByte (byte.headD 0)) r s halike
    rwa [← readBit_eq_openByte hk, ← readBit_eq_openByte (halike.bitCount ▸ hk)] at hbyte
  · -- a bit of the open byte, which is the same on both sides
    have hbuf := halike.bitBuf (by omega)
    rw [readBit_of_pos hk, readBit_of_pos (halike.bitCount ▸ hk), hbuf]
    exact .ok { halike with bitCount := rfl, bitBuf := fun _ => rfl }

/-- **Every field and every layout** sees nothing but the window. -/
theorem closed : Closed @SeesWindow where
  pure := SeesWindow.pure
  throw := SeesWindow.throw
  bind := SeesWindow.bind
  missingMore := fun _ => SeesWindow.mapError _
  align := SeesWindow.align
  position := SeesWindow.position
  fill := SeesWindow.fill
  takeUntilNul := SeesWindow.takeUntilNul
  readBit := SeesWindow.readBit

end SeesWindow

end Decoder

end Swf
