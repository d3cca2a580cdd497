import Swf.Abc.Error

/-!
# Reading code

Code is read by a cursor that knows how many bytes lie behind it. A reader keeps the cursor it has
reached also when it fails: an error names the byte it was looking for, and what reads on goes on
from there.
-/

namespace Swf.Abc

/-- A place in code. -/
structure Cursor where
  /-- The bytes ahead. -/
  rest : List UInt8
  /-- The number of bytes behind. -/
  offset : Nat := 0
deriving DecidableEq, Repr

/-- A computation that reads code and may fail; the cursor outlives the failure. -/
abbrev CodeReader (α : Type) := EStateM AbcError Cursor α

namespace CodeReader

/-- The next byte. -/
def takeByte : CodeReader UInt8 := fun c =>
  match c.rest with
  | b :: rest => .ok b ⟨rest, c.offset + 1⟩
  | [] => .error (.truncated c.offset) c

/-- The next three bytes. All or none of them are taken. -/
def takeTriple : CodeReader (List UInt8) := fun c =>
  match c.rest with
  | a :: b :: d :: rest => .ok [a, b, d] ⟨rest, c.offset + 3⟩
  | _ => .error (.truncated c.offset) c

/-! ### No byte is given back -/

/-- A reader that succeeds gives no byte back. -/
def Forward {α : Type} (m : CodeReader α) : Prop :=
  ∀ c a c', m c = .ok a c' → c'.rest.length ≤ c.rest.length

theorem Forward.pure {α : Type} (a : α) : Forward (pure a) := by
  intro c b c' h
  obtain ⟨-, rfl⟩ := by simpa [Pure.pure, EStateM.pure] using h
  exact Nat.le_refl _

theorem Forward.bind {α β : Type} {m : CodeReader α} {f : α → CodeReader β} (hm : Forward m)
    (hf : ∀ a, Forward (f a)) : Forward (m >>= f) := by
  intro c b c' h
  simp only [Bind.bind, EStateM.bind] at h
  cases hc : m c with
  | error err c1 => simp [hc] at h
  | ok a c1 =>
    simp only [hc] at h
    exact Nat.le_trans (hf a _ _ _ h) (hm _ _ _ hc)

/-- A byte that was taken came off the front. -/
theorem rest_of_takeByte {c c' : Cursor} {b : UInt8} (h : takeByte c = .ok b c') :
    c.rest = b :: c'.rest := by
  unfold takeByte at h
  split at h
  · next b' rest hr =>
    obtain ⟨rfl, rfl⟩ := by simpa using h
    exact hr
  · simp at h

theorem Forward.takeByte : Forward takeByte := by
  intro c b c' h
  simp [rest_of_takeByte h]

theorem Forward.takeTriple : Forward takeTriple := by
  intro c bs c' h
  unfold CodeReader.takeTriple at h
  split at h
  · next hr =>
    obtain ⟨-, rfl⟩ := by simpa using h
    simp only [hr, List.length_cons]
    omega
  · simp at h

end CodeReader

end Swf.Abc
