import Swf.Source

/-!
# Steady sources

A source may hand out its bytes in any pieces and may ask to be called again, and none of that is
visible above it: `gather` calls until it has what was asked for. What *is* visible is a failure,
and an end that comes before the bytes do. A **steady** source has neither, and of a steady source
`gather` says no more than its content does (`gather_of_steady`).

Bytes in memory are steady, and so is the content of a compressed stream that is complete.
-/

namespace Swf

/-- A coming call that delays bytes at most: it neither fails nor looks like the end. -/
def Turn.Harmless : Turn → Prop
  | .upTo most => 0 < most
  | .interrupted => True
  | .failed => False

/-- The whole content comes before the end, and no call fails. -/
def Source.Steady : Source → Prop
  | .feed f => ∀ turn ∈ f.schedule, turn.Harmless
  | .inflating z => z.supplies = [] ∧ z.ending = none

namespace Source

theorem steady_ofBytes (data : List UInt8) : (ofBytes data).Steady := by simp [ofBytes, Steady]

/-! ## One call -/

theorem read_feed_of_steady {f : Feed} {n : Nat} (hn : 0 < n) (h : (feed f).Steady) :
    ((feed f).read n).2.Steady ∧
      (((feed f).read n).1 = .interrupted ∨
        ∃ k, 0 < k ∧ k ≤ n ∧ ((feed f).read n).1 = .bytes (f.data.take k)) := by
  obtain ⟨data, schedule⟩ := f
  cases schedule with
  | nil => exact ⟨h, .inr ⟨n, hn, Nat.le_refl n, rfl⟩⟩
  | cons turn rest =>
    have hrest : ∀ turn' ∈ rest, turn'.Harmless :=
      fun turn' ht => h turn' (List.mem_cons_of_mem _ ht)
    have hturn : turn.Harmless := h turn (List.mem_cons_self ..)
    cases turn with
    | failed => exact hturn.elim
    | interrupted => exact ⟨hrest, .inl rfl⟩
    | upTo most =>
      have hmost : 0 < most := hturn
      exact ⟨hrest, .inr ⟨min n most, by omega, Nat.min_le_left .., rfl⟩⟩

theorem read_inflating_of_steady {z : Inflating} {n : Nat} (hn : 0 < n)
    (h : (inflating z).Steady) :
    ((inflating z).read n).2.Steady ∧
      ∃ data, ((inflating z).read n).1 = .bytes data ∧ data.length ≤ n ∧
        (data = [] → z.remaining = []) := by
  obtain ⟨hsupplies, hending⟩ := h
  have hlast : z.remaining = z.ready ++ z.last := by
    simp [Inflating.remaining, hsupplies, Inflating.supplied]
  have hread : (inflating z).read n =
      ((z.readLast n).1, .inflating (z.readLast n).2) := by
    simp only [Source.read, Inflating.read, hsupplies, Inflating.readSupplies]
    rw [← hsupplies]
  have htake : ∀ l : List UInt8, l.take n = [] → l = [] := by
    intro l hl
    rcases List.take_eq_nil_iff.mp hl with h0 | h0
    · omega
    · exact h0
  rw [hread, hlast]
  unfold Inflating.readLast
  split
  · next hr =>
    refine ⟨⟨hsupplies, hending⟩, _, rfl, List.length_take_le .., fun he => ?_⟩
    rw [htake _ he] at hr
    exact absurd hr (by simp)
  · next hr =>
    have hr' : z.ready = [] := by simpa using hr
    split
    · next hl =>
      refine ⟨⟨hsupplies, hending⟩, _, rfl, List.length_take_le .., fun he => ?_⟩
      rw [htake _ he] at hl
      exact absurd hl (by simp)
    · next hl =>
      have hl' : z.last = [] := by simpa using hl
      exact ⟨⟨hsupplies, hending⟩, [], by rw [hending]; rfl, by simp, fun _ => by simp [hr', hl']⟩

/-- A call of a steady source asks for another one or delivers, and what it delivers is empty only
at the end. -/
theorem read_of_steady {s : Source} {n : Nat} (hn : 0 < n) (h : s.Steady) :
    (s.read n).2.Steady ∧
      ((s.read n).1 = .interrupted ∨
        ∃ data, (s.read n).1 = .bytes data ∧ data.length ≤ n ∧
          (data = [] → s.remaining = [])) := by
  cases s with
  | feed f =>
    obtain ⟨hs, hi | ⟨k, hk, hkn, hd⟩⟩ := read_feed_of_steady hn h
    · exact ⟨hs, .inl hi⟩
    · refine ⟨hs, .inr ⟨_, hd, by rw [List.length_take]; omega, fun he => ?_⟩⟩
      rcases List.take_eq_nil_iff.mp he with h0 | h0
      · omega
      · exact h0
  | inflating z =>
    obtain ⟨hs, hd⟩ := read_inflating_of_steady hn h
    exact ⟨hs, .inr hd⟩

/-! ## Gathering -/

/-- Gathering from a steady source gives the front of its content, and falls short only where the
content does. -/
theorem gather_of_steady {s : Source} (n : Nat) (h : s.Steady) :
    (s.gather n).1 = s.remaining.take n ∧
      (s.gather n).2.1 = (if n ≤ s.remaining.length then none else some .ended) ∧
      (s.gather n).2.2.Steady := by
  fun_induction gather n s with
  | case1 s => simp [h]
  | case2 n s hn s' hread =>
    -- nothing came, so nothing was left
    obtain ⟨hs, hi | ⟨data, hd, _, hend⟩⟩ := read_of_steady (Nat.pos_of_ne_zero hn) h
    · rw [hread] at hi; exact absurd hi (by simp)
    · rw [hread] at hd hs
      obtain rfl : [] = data := by simpa using hd
      rw [hend rfl]
      exact ⟨by simp, by simp [hn], hs⟩
  | case3 n s hn b bs s' hread more short s'' hg ih =>
    have hrem := remaining_read n s
    obtain ⟨hs, hi | ⟨data, hd, hle, _⟩⟩ := read_of_steady (Nat.pos_of_ne_zero hn) h
    · rw [hread] at hi; exact absurd hi (by simp)
    · rw [hread] at hd hs hrem
      obtain rfl : b :: bs = data := by simpa using hd
      obtain ⟨h1, h2, h3⟩ := ih hs
      rw [hg] at h1 h2 h3
      simp only [Delivery.data] at hrem
      simp only [List.length_cons] at hle
      simp only at h1 h2
      rw [← hrem, List.take_append, List.take_of_length_le (by simpa using hle)]
      refine ⟨?_, ?_, h3⟩
      · simp only [h1, List.length_cons]
      · have hiff : n - (bs.length + 1) ≤ s'.remaining.length ↔
            n ≤ (b :: bs ++ s'.remaining).length := by
          rw [List.length_append, List.length_cons]; omega
        simp only [h2, hiff]
  | case4 n s hn s' hread ih =>
    have hrem := remaining_read n s
    have hs := (read_of_steady (Nat.pos_of_ne_zero hn) h).1
    rw [hread] at hs hrem
    simp only [Delivery.data, List.nil_append] at hrem
    rw [← hrem]
    exact ih hs
  | case5 n s hn cause s' hread =>
    obtain ⟨_, hi | ⟨data, hd, _, _⟩⟩ := read_of_steady (Nat.pos_of_ne_zero hn) h
    · rw [hread] at hi; exact absurd hi (by simp)
    · rw [hread] at hd; exact absurd hd (by simp)

theorem gather_fst {s : Source} (n : Nat) (h : s.Steady) :
    (s.gather n).1 = s.remaining.take n := (gather_of_steady n h).1

theorem steady_gather {s : Source} (n : Nat) (h : s.Steady) : (s.gather n).2.2.Steady :=
  (gather_of_steady n h).2.2

/-- Bytes in memory stay bytes in memory. -/
theorem gather_ofBytes {s : Source} (n : Nat) (h : ∃ data, s = ofBytes data) :
    ∃ data', (s.gather n).2.2 = ofBytes data' := by
  have hread : ∀ {s s' : Source} {n : Nat} {d : Delivery}, (∃ data, s = ofBytes data) →
      s.read n = (d, s') → ∃ data', s' = ofBytes data' := by
    intro s s' n d hs h
    obtain ⟨data, rfl⟩ := hs
    exact ⟨data.drop n, (congrArg Prod.snd h).symm⟩
  fun_induction gather n s with
  | case1 s => exact h
  | case2 n s hn s' hr => exact hread h hr
  | case3 n s hn b bs s' hr more short s'' hg ih =>
    have := ih (hread h hr)
    rwa [hg] at this
  | case4 n s hn s' hr ih => exact ih (hread h hr)
  | case5 n s hn cause s' hr => exact hread h hr

/-! ## No more than was asked for -/

/-- Decoding a piece gives no more than was asked for. -/
theorem length_decode_le {outcome : Outcome} {n : Nat} {runs : List (List UInt8)}
    {data ready : List UInt8} {p : Piece}
    (h : Piece.decode outcome n runs = some (data, ready, p)) : data.length ≤ n := by
  induction runs generalizing n data ready p with
  | nil =>
    simp only [Piece.decode] at h
    split at h
    · exact absurd h (by simp)
    · obtain ⟨rfl, _⟩ : [] = data ∧ _ := by simpa using h
      exact Nat.zero_le n
  | cons run runs ih =>
    simp only [Piece.decode] at h
    split at h
    · obtain ⟨rfl, _⟩ : run.take n = data ∧ _ := by simpa using h
      exact List.length_take_le ..
    · next hlong =>
      obtain ⟨⟨more, ready', p'⟩, hmore, heq⟩ := Option.map_eq_some_iff.mp h
      obtain ⟨rfl, _⟩ : run ++ more = data ∧ _ := by simpa using heq
      have := ih hmore
      rw [List.length_append]
      omega

theorem length_readLast_le (n : Nat) (z : Inflating) : (z.readLast n).1.data.length ≤ n := by
  unfold Inflating.readLast
  split
  · exact List.length_take_le ..
  · split
    · exact List.length_take_le ..
    · cases z.ending <;> simp [Delivery.data]

theorem length_readSupplies_le (n : Nat) (z : Inflating) (supplies : List Supply) :
    (z.readSupplies n supplies).1.data.length ≤ n := by
  induction supplies with
  | nil => exact length_readLast_le ..
  | cons s rest ih =>
    cases s with
    | interrupted => exact Nat.zero_le n
    | failed => exact Nat.zero_le n
    | nothing => exact length_readLast_le ..
    | piece p =>
      simp only [Inflating.readSupplies]
      split
      · exact Nat.zero_le n
      · split
        · exact List.length_take_le ..
        · split
          · exact ih
          · split
            · exact Nat.zero_le n
            · next hd => exact length_decode_le hd

/-- A call delivers no more than was asked for, whatever the source. -/
theorem length_read_le (n : Nat) (s : Source) : (s.read n).1.data.length ≤ n := by
  cases s with
  | feed f =>
    simp only [read, Feed.read]
    split
    · exact List.length_take_le ..
    · simp only [Delivery.data, List.length_take]; omega
    · exact Nat.zero_le n
    · exact Nat.zero_le n
  | inflating z => exact length_readSupplies_le ..

/-- Gathering never takes more than was asked for, whatever the source. -/
theorem length_gather_le (n : Nat) (s : Source) : (s.gather n).1.length ≤ n := by
  fun_induction gather n s with
  | case1 => exact Nat.le_refl 0
  | case2 => exact Nat.zero_le _
  | case3 n s _ b bs s' hread more short s'' hg ih =>
    have hle := length_read_le n s
    rw [hread] at hle
    rw [hg] at ih
    simp only [Delivery.data, List.length_cons] at hle ih
    simp only [List.length_append, List.length_cons]
    omega
  | case4 n s _ s' hread ih => exact ih
  | case5 => exact Nat.zero_le _

/-- What was gathered in full was not stopped. -/
theorem gather_short_of_length {n : Nat} {s : Source} (h : (s.gather n).1.length = n) :
    (s.gather n).2.1 = none := by
  fun_induction gather n s with
  | case1 => rfl
  | case2 n s hn => exact absurd h.symm hn
  | case3 n s _ b bs s' hread more short s'' hg ih =>
    rw [hg] at ih
    simp only [List.length_append, List.length_cons] at h
    exact ih (show more.length = _ by omega)
  | case4 n s _ s' hread ih => exact ih h
  | case5 n s hn => exact absurd h.symm hn

/-! ## Other sources in its place -/

/-- `K bytes s t` says that `t` may stand in for `s` as long as no more than `bytes` is taken. For
that, what `s` gathers in full `t` has to gather too. -/
def Substitutes (K : List UInt8 → Source → Source → Prop) : Prop :=
  ∀ (got rest : List UInt8) (s s' t : Source), K (got ++ rest) s t →
    s.gather got.length = (got, none, s') →
      ∃ t', t.gather got.length = (got, none, t') ∧ K rest s' t'

theorem gather_of_bytes {n : Nat} {s s' : Source} {b : UInt8} {bs : List UInt8} (hn : n ≠ 0)
    (h : s.read n = (.bytes (b :: bs), s')) :
    s.gather n = (b :: bs ++ (s'.gather (n - (bs.length + 1))).1,
      (s'.gather (n - (bs.length + 1))).2) := by
  rw [gather, if_neg hn]
  split <;> simp_all

theorem gather_of_interrupted {n : Nat} {s s' : Source} (hn : n ≠ 0)
    (h : s.read n = (.interrupted, s')) : s.gather n = s'.gather n := by
  rw [gather, if_neg hn]
  split <;> simp_all

/-- `t` is steady and holds `bytes` in front of `tail`, and nothing is known of the other one. -/
def SteadyFor (tail bytes : List UInt8) (_s t : Source) : Prop :=
  t.Steady ∧ t.remaining = bytes ++ tail

theorem substitutes_steadyFor (tail : List UInt8) : Substitutes (SteadyFor tail) := by
  intro got rest s s' t ⟨hs, hrem⟩ _
  obtain ⟨hgot, hshort, hsteady⟩ := gather_of_steady got.length hs
  have hleft := remaining_gather got.length t
  rw [hrem, List.append_assoc, List.take_left] at hgot
  rw [hrem, List.length_append, List.length_append, if_pos (by omega)] at hshort
  rw [hgot, hrem, List.append_assoc] at hleft
  refine ⟨(t.gather got.length).2.2, ?_, hsteady, List.append_cancel_left hleft⟩
  exact Prod.ext hgot (Prod.ext hshort rfl)

/-- Both are feeds with one schedule, and they differ in what stands behind `bytes`. -/
def SameBut (tail tail' bytes : List UInt8) (s t : Source) : Prop :=
  ∃ schedule, s = feed ⟨bytes ++ tail, schedule⟩ ∧ t = feed ⟨bytes ++ tail', schedule⟩

/-- One call that reaches no further than `bytes` sees no difference. -/
theorem read_sameBut {tail tail' bytes : List UInt8} {s t : Source}
    (h : SameBut tail tail' bytes s t) {n : Nat} (hn : n ≤ bytes.length) :
    (t.read n).1 = (s.read n).1 ∧
      SameBut tail tail' (bytes.drop (s.read n).1.data.length) (s.read n).2 (t.read n).2 := by
  obtain ⟨schedule, rfl, rfl⟩ := h
  -- `k` bytes are delivered, all of them from the front
  have hdeliver (k : Nat) (hk : k ≤ n) (rest : List Turn) :
      (bytes ++ tail').take k = (bytes ++ tail).take k ∧
        SameBut tail tail' (bytes.drop ((bytes ++ tail).take k).length)
          (feed ⟨(bytes ++ tail).drop k, rest⟩) (feed ⟨(bytes ++ tail').drop k, rest⟩) := by
    have hlen : ((bytes ++ tail).take k).length = k := by
      rw [List.length_take, List.length_append]
      omega
    rw [hlen, List.take_append_of_le_length (by omega), List.take_append_of_le_length (by omega)]
    exact ⟨rfl, rest, by rw [List.drop_append_of_le_length (by omega)],
      by rw [List.drop_append_of_le_length (by omega)]⟩
  cases schedule with
  | nil =>
    obtain ⟨hdata, hrest⟩ := hdeliver n (Nat.le_refl n) []
    exact ⟨congrArg Delivery.bytes hdata, hrest⟩
  | cons turn rest =>
    cases turn with
    | upTo most =>
      obtain ⟨hdata, hrest⟩ := hdeliver (min n most) (Nat.min_le_left ..) rest
      exact ⟨congrArg Delivery.bytes hdata, hrest⟩
    | interrupted => exact ⟨rfl, rest, rfl, rfl⟩
    | failed => exact ⟨rfl, rest, rfl, rfl⟩

theorem substitutes_sameBut (tail tail' : List UInt8) : Substitutes (SameBut tail tail') := by
  intro got rest s s' t h hg
  obtain ⟨n, hn⟩ : ∃ n, got.length = n := ⟨_, rfl⟩
  rw [hn] at hg ⊢
  fun_induction gather n s generalizing got t with
  | case1 s =>
    obtain ⟨rfl, rfl⟩ : got = [] ∧ s = s' := by simpa using hg
    exact ⟨t, by rw [gather, if_pos rfl], h⟩
  | case2 n s _ s₁ hread => simp at hg
  | case3 n s hne b bs s₁ hread more short s₂ hg₁ ih =>
    obtain ⟨rfl, rfl, rfl⟩ : b :: bs ++ more = got ∧ short = none ∧ s₂ = s' := by simpa using hg
    obtain ⟨hsame, hnext⟩ := read_sameBut h (n := n) (by rw [List.length_append]; omega)
    rw [hread] at hsame hnext
    simp only [Delivery.data, List.append_assoc, List.drop_left] at hnext
    simp only [List.length_append, List.length_cons] at hn
    have hread' : t.read n = (.bytes (b :: bs), (t.read n).2) := Prod.ext hsame rfl
    obtain ⟨t', ht, hk⟩ := ih more _ hnext hg₁ (by omega)
    exact ⟨t', by rw [gather_of_bytes hne hread', ht], hk⟩
  | case4 n s hne s₁ hread ih =>
    obtain ⟨hsame, hnext⟩ := read_sameBut h (n := n) (by rw [List.length_append]; omega)
    rw [hread] at hsame hnext
    have hread' : t.read n = (.interrupted, (t.read n).2) := Prod.ext hsame rfl
    obtain ⟨t', ht, hk⟩ := ih got _ hnext hg hn
    exact ⟨t', by rw [gather_of_interrupted hne hread', ht], hk⟩
  | case5 n s _ cause s₁ hread => simp at hg

end Source

end Swf
