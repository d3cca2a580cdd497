/-!
# Computations that fail and keep their state

Readers, writers and emitters are computations on a state that outlives a failure. A sequence of two
is decided by the first one: after a success the second one goes on from where it ended, and after a
failure there is no second one.
-/

namespace Swf

variable {ε σ α β : Type} {m : EStateM ε σ α} {f : α → EStateM ε σ β} {s s' : σ}

/-- After success the second part decides. -/
theorem bind_of_ok {a : α} (h : m s = .ok a s') : (m >>= f) s = f a s' := by
  simp only [Bind.bind, EStateM.bind, h]

/-- After failure there is no second part. -/
theorem bind_of_error {err : ε} (h : m s = .error err s') : (m >>= f) s = .error err s' := by
  simp only [Bind.bind, EStateM.bind, h]

/-- Success of both is success of one and then of the other. -/
theorem ok_of_bind {b : β} {s'' : σ} (h : (m >>= f) s = .ok b s'') :
    ∃ a s', m s = .ok a s' ∧ f a s' = .ok b s'' := by
  cases hm : m s with
  | error err s' => rw [bind_of_error hm] at h; cases h
  | ok a s' => exact ⟨a, s', rfl, (bind_of_ok hm).symm.trans h⟩

theorem map_of_ok {g : α → β} {a : α} (h : m s = .ok a s') : (g <$> m) s = .ok (g a) s' := by
  simp only [Functor.map, EStateM.map, h]

theorem map_of_error {g : α → β} {err : ε} (h : m s = .error err s') :
    (g <$> m) s = .error err s' := by
  simp only [Functor.map, EStateM.map, h]

/-- Two second parts need only agree on what the first one gives. -/
theorem bind_congr_of_ok {g : α → EStateM ε σ β} (h : ∀ a s', m s = .ok a s' → f a s' = g a s') :
    (m >>= f) s = (m >>= g) s := by
  cases hm : m s with
  | error err s' => rw [bind_of_error hm, bind_of_error hm]
  | ok a s' => rw [bind_of_ok hm, bind_of_ok hm, h a s' hm]

/-- If a first part gives what another one gives, under `g`, then so do the results made of them. -/
theorem bind_pure_of_map {α' β' : Type} {m' : EStateM ε σ α'} {f : α → β} {f' : α' → β'}
    {g : α' → α} {g' : β' → β} (hm : m s = (g <$> m') s) (hf : ∀ a, f (g a) = g' (f' a)) :
    (m >>= fun a => pure (f a)) s = (g' <$> (m' >>= fun a => pure (f' a))) s := by
  cases hm' : m' s with
  | error err s' =>
    rw [map_of_error hm'] at hm
    rw [bind_of_error hm, map_of_error (bind_of_error hm')]
  | ok a s' =>
    have hpure : (m' >>= fun a => pure (f' a)) s = .ok (f' a) s' := bind_of_ok hm'
    rw [map_of_ok hm'] at hm
    rw [bind_of_ok hm, map_of_ok hpure, hf]
    rfl

/-! ## Looking at the state -/

theorem get_bind (f : σ → EStateM ε σ β) (s : σ) :
    ((get : EStateM ε σ σ) >>= f) s = f s s := rfl

theorem set_bind (s' : σ) (f : PUnit → EStateM ε σ β) (s : σ) :
    ((set s' : EStateM ε σ PUnit) >>= f) s = f ⟨⟩ s' := rfl

theorem modify_bind (g : σ → σ) (f : PUnit → EStateM ε σ β) (s : σ) :
    ((modify g : EStateM ε σ PUnit) >>= f) s = f ⟨⟩ (g s) := rfl

end Swf
