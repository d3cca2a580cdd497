import Swf.Proofs.Reader.Confined

/-!
# Where the end of a source shows

`Decoder.Confined` is about what a decoder takes when it succeeds. This module is about both
outcomes, and for that the source has to be steady: a decoder then sees its bytes and where they
end, and nothing else.

The statement compares two runs. The sources hold the same bytes, perhaps in different pieces, and
one of them may lack some at the end (`Source.Lacks`). Then a decoder either does the same on both,
or it runs out of bytes on the shorter one and fails there, and its error names the offset where
they end (`Decoder.Tracks`). If nothing is lacking only the first is left, so how a source hands
out its bytes is never seen. If something is, the second is how a file that was cut off is told.

A limit makes a difference. A layout that wants more than its record has meets the limit on both
sources and fails alike on both. So the end of the source shows only in front of the limit
(`Reader.bound`), and that is what keeps the two errors of a record apart.
-/

namespace Swf

/-- The error says that the stream ends at `stop`. -/
def CodecError.EndsAt (stop : Nat) : CodecError → Prop
  | .unexpectedEof _ offset => offset = stop
  | .truncatedRecord _ _ offset => offset = stop
  | _ => False

theorem CodecError.EndsAt.insideRecord {stop : Nat} {err : CodecError} (code : UInt16)
    (h : err.EndsAt stop) : (err.insideRecord code).EndsAt stop := by
  cases err <;> exact h

/-- Both sources are steady, and `t` holds what `s` holds, but for `missing` at the end. -/
structure Source.Lacks (missing : List UInt8) (s t : Source) : Prop where
  /-- The one that holds everything is steady. -/
  whole : s.Steady
  /-- So is the other one. -/
  short : t.Steady
  /-- What is missing is missing at the end. -/
  remaining : s.remaining = t.remaining ++ missing

/-- As long as both hold what is asked for, both hand it out, and what is missing stays missing. -/
theorem Source.Lacks.gather {missing : List UInt8} {s t : Source} {k : Nat} (h : s.Lacks missing t)
    (hsame : s.remaining.take k = t.remaining.take k) :
    (t.gather k).1 = (s.gather k).1 ∧ (s.gather k).2.2.Lacks missing (t.gather k).2.2 := by
  have hgot : (t.gather k).1 = (s.gather k).1 := by
    rw [gather_fst k h.whole, gather_fst k h.short, hsame]
  refine ⟨hgot, steady_gather k h.whole, steady_gather k h.short, ?_⟩
  have hleft := remaining_gather k s
  rw [h.remaining, ← remaining_gather k t, hgot, List.append_assoc] at hleft
  exact List.append_cancel_left hleft

namespace Reader

variable {r r' : Reader} {bytes : List UInt8}

/-- The offset at which the source ends. -/
def stop (r : Reader) : Nat := r.position + r.source.remaining.length

/-- The offset at which the limit ends. -/
def bound (r : Reader) : Option Nat := r.limit.map (r.position + ·)

theorem Moved.bound (h : r.Moved bytes r') : r'.bound = r.bound := by
  unfold Reader.bound
  rw [h.limit, h.position]
  cases hl : r.limit with
  | none => rfl
  | some l =>
    have := h.le_limit l hl
    simp only [Option.map_some, Option.some.injEq]
    omega

/-- Reading on does not change where the shorter source ends. -/
theorem Moved.stop_onto {missing : List UInt8} {t t' : Source} (h : r.Moved bytes r')
    (ht : r.source.Lacks missing t) (ht' : r'.source.Lacks missing t') :
    (r'.onto t').stop = (r.onto t).stop := by
  have hlen := congrArg List.length h.remaining
  rw [ht.remaining, ht'.remaining] at hlen
  simp only [List.length_append] at hlen
  show r'.position + t'.remaining.length = r.position + t.remaining.length
  rw [h.position]
  omega

end Reader

namespace Decoder

variable {α β : Type} {missing : List UInt8} {r : Reader} {t : Source}

/-! ## Two runs -/

/-- Both runs give the same, and the readers that they leave differ in their sources only, of which
one still lacks `missing`. -/
inductive Same (missing : List UInt8) (r : Reader) :
    EStateM.Result CodecError Reader α → EStateM.Result CodecError Reader α → Prop
  | ok {a : α} {bytes : List UInt8} {r' : Reader} {t' : Source} (moved : r.Moved bytes r')
      (lacks : r'.source.Lacks missing t') : Same missing r (.ok a r') (.ok a (r'.onto t'))
  | error {err : CodecError} {r' : Reader} {t' : Source} (lacks : r'.source.Lacks missing t') :
      Same missing r (.error err r') (.error err (r'.onto t'))

/-- The run has failed because the source of `r`, where it began, ends in front of the limit. -/
def Starves (r : Reader) (result : EStateM.Result CodecError Reader α) : Prop :=
  (∀ b, r.bound = some b → r.stop < b) ∧
    ∃ err r', result = .error err r' ∧ err.EndsAt r.stop

/-- On a source that lacks some bytes, `m` does the same as on the whole one or runs out of them. -/
def TracksAt (m : Decoder α) (r : Reader) : Prop :=
  ∀ missing t, r.source.Lacks missing t →
    Same missing r (m r) (m (r.onto t)) ∨
      (missing ≠ [] ∧ Starves (r.onto t) (m (r.onto t)))

/-- Nothing but the bytes of a steady source and their end is seen. -/
def Tracks (m : Decoder α) : Prop := ∀ r, TracksAt m r

theorem Same.outcome {m : Decoder α} (h : Same missing r (m r) (m (r.onto t))) :
    m.outcome (r.onto t) = m.outcome r := by
  unfold Decoder.outcome
  generalize m r = x at h ⊢
  generalize m (r.onto t) = y at h ⊢
  cases h <;> rfl

theorem Same.after {m : Decoder α} (h : Same missing r (m r) (m (r.onto t))) :
    ∃ t', m.after (r.onto t) = (m.after r).onto t' ∧ (m.after r).source.Lacks missing t' := by
  unfold Decoder.after
  generalize m r = x at h ⊢
  generalize m (r.onto t) = y at h ⊢
  cases h with
  | ok _ lacks => exact ⟨_, rfl, lacks⟩
  | error lacks => exact ⟨_, rfl, lacks⟩

/-- Where nothing is missing, there is nothing to run out of. -/
theorem TracksAt.same {m : Decoder α} (h : TracksAt m r) (ht : r.source.Lacks [] t) :
    Same [] r (m r) (m (r.onto t)) :=
  (h [] t ht).resolve_right fun hstarves => hstarves.1 rfl

/-! ## Sequences -/

theorem TracksAt.bind {m : Decoder α} {f : α → Decoder β} (hm : TracksAt m r)
    (hf : ∀ a r', m r = .ok a r' → TracksAt (f a) r') : TracksAt (m >>= f) r := by
  intro missing t ht
  rcases hm missing t ht with hsame | ⟨hne, hbound, err, s, hfail, hstop⟩
  · generalize hwhole : m r = x at hsame
    generalize hshort : m (r.onto t) = y at hsame
    cases hsame with
    | error lacks =>
      rw [bind_of_error hwhole, bind_of_error hshort]
      exact .inl (.error lacks)
    | @ok a bytes r' t' moved lacks =>
      rw [bind_of_ok hwhole, bind_of_ok hshort]
      rcases hf a r' hwhole missing t' lacks with hsame' | ⟨hne, hbound, err, s, hfail, hstop⟩
      · -- what the second part takes comes on top
        generalize f a r' = x' at hsame'
        generalize f a (r'.onto t') = y' at hsame'
        cases hsame' with
        | error lacks' => exact .inl (.error lacks')
        | ok moved' lacks' => exact .inl (.ok (moved.trans moved') lacks')
      · -- the second part began further on, but the end and the limit are where they were
        rw [moved.stop_onto ht lacks] at hbound hstop
        exact .inr ⟨hne, fun b hb => hbound b (moved.bound.trans hb), err, s, hfail, hstop⟩
  · exact .inr ⟨hne, hbound, err, s, bind_of_error hfail, hstop⟩

/-- A translation of errors that lets an end of the stream be seen. -/
theorem TracksAt.mapError {m : Decoder α} {f : CodecError → CodecError} (hm : TracksAt m r)
    (hf : ∀ err stop, r.position ≤ stop → (∀ b, r.bound = some b → stop < b) →
      err.EndsAt stop → (f err).EndsAt stop) : TracksAt (mapError f m) r := by
  intro missing t ht
  rcases hm missing t ht with hsame | ⟨hne, hbound, err, s, hfail, hstop⟩
  · generalize hwhole : m r = x at hsame
    generalize hshort : m (r.onto t) = y at hsame
    cases hsame with
    | ok moved lacks =>
      rw [mapError_of_ok hwhole, mapError_of_ok hshort]
      exact .inl (.ok moved lacks)
    | error lacks =>
      rw [mapError_of_error hwhole, mapError_of_error hshort]
      exact .inl (.error lacks)
  · exact .inr ⟨hne, hbound, f err, s, mapError_of_error hfail,
      hf err _ (Nat.le_add_right ..) hbound hstop⟩

/-- What is read on its own runs out of bytes only if its part is not there. -/
theorem TracksAt.within {m : Decoder α} {n : Nat} (hm : TracksAt m (r.enter n)) :
    TracksAt (within n m) r := by
  intro missing t ht
  rcases hm missing t ht with hsame | ⟨hne, hbound, err, s, hfail, hstop⟩
  · generalize hwhole : m (r.enter n) = x at hsame
    generalize hshort : m ((r.enter n).onto t) = y at hsame
    cases hsame with
    | ok moved lacks =>
      rw [within_of_ok hwhole, within_of_ok (r := r.onto t) hshort]
      exact .inl (.ok moved.leave lacks)
    | error lacks =>
      rw [within_of_error hwhole, within_of_error (r := r.onto t) hshort]
      exact .inl (.error lacks)
  · refine .inr ⟨hne, fun b hb => ?_, err, _, within_of_error (r := r.onto t) hfail, hstop⟩
    -- the limit of the part is no further than that of the whole
    have hpart := hbound _ rfl
    obtain ⟨l, hl, rfl⟩ := Option.map_eq_some_iff.mp hb
    have hlimit : r.limit = some l := hl
    have hallow : r.allowance n ≤ l := by
      unfold Reader.allowance
      rw [hlimit, Option.getD_some]
      omega
    exact Nat.lt_of_lt_of_le hpart (Nat.add_le_add_left hallow _)

/-! ## Primitives -/

/-- Filling from a steady source gives what the window holds, if that is enough. -/
theorem fill_of_steady {n : Nat} (hs : r.source.Steady) :
    fill n r =
      if (r.window.take n).length < n then
        .error (.unexpectedEof (n - (r.window.take n).length)
          (r.position + (r.window.take n).length)) ((fill n).after r)
      else .ok (r.window.take n) ((fill n).after r) := by
  obtain ⟨hgot, hshort, _⟩ := Source.gather_of_steady (r.allowance n) hs
  rw [Reader.take_allowance] at hgot
  rw [after_fill]
  unfold fill
  simp only [hgot, hshort]
  split
  · next heq => split at heq <;> simp at heq
  · rfl

/-- Both hold the bytes that may be taken, or both end at the same place. -/
theorem same_fill {n : Nat} (ht : r.source.Lacks missing t)
    (hsame : r.window.take n = (r.onto t).window.take n) :
    Same missing r (fill n r) (fill n (r.onto t)) := by
  have hallow : (r.onto t).allowance n = r.allowance n := rfl
  have hsource : (r.onto t).source = t := rfl
  have htake := hsame
  rw [← Reader.take_allowance, ← Reader.take_allowance, hallow, hsource] at htake
  obtain ⟨hgot, hlacks⟩ := ht.gather htake
  have hafter : (fill n).after (r.onto t) =
      ((fill n).after r).onto (t.gather (r.allowance n)).2.2 := by
    rw [after_fill, after_fill, hallow, hsource, hgot]
    rfl
  have hlacks' : ((fill n).after r).source.Lacks missing (t.gather (r.allowance n)).2.2 := by
    rw [after_fill]
    exact hlacks
  have hwhole := fill_of_steady (n := n) ht.whole
  rw [fill_of_steady (r := r.onto t) ht.short, ← hsame, hafter]
  by_cases hlen : (r.window.take n).length < n
  · rw [if_pos hlen] at hwhole ⊢
    rw [hwhole]
    exact .error hlacks'
  · rw [if_neg hlen] at hwhole ⊢
    obtain ⟨bytes, hmoved, _⟩ := Confined.fill n r _ _ hwhole
    rw [hwhole]
    exact .ok hmoved hlacks'

/-- The shorter one ends within the bytes that may be taken. -/
theorem starves_fill {n : Nat} (ht : r.source.Lacks missing t)
    (hdiffer : r.window.take n ≠ (r.onto t).window.take n) :
    Starves (r.onto t) (fill n (r.onto t)) := by
  have hsource : (r.onto t).source = t := rfl
  have hallow : (r.onto t).allowance n = r.allowance n := rfl
  have hn : r.allowance n ≤ n := Nat.min_le_left ..
  have htake := (r.onto t).take_allowance n
  rw [hallow, hsource] at htake
  have hlt : t.remaining.length < r.allowance n := by
    rw [← Reader.take_allowance, ← htake, ht.remaining] at hdiffer
    exact Nat.lt_of_not_le fun hle => hdiffer (List.take_append_of_le_length hle)
  rw [List.take_of_length_le (Nat.le_of_lt hlt)] at htake
  refine ⟨fun b hb => ?_, ?_⟩
  · obtain ⟨l, hl, rfl⟩ := Option.map_eq_some_iff.mp hb
    have hlimit : r.limit = some l := hl
    unfold Reader.allowance at hlt
    rw [hlimit, Option.getD_some] at hlt
    show r.position + t.remaining.length < r.position + l
    omega
  · have hfail := fill_of_steady (r := r.onto t) (n := n) ht.short
    rw [← htake, if_pos (by omega)] at hfail
    exact ⟨_, _, hfail, rfl⟩

namespace Tracks

/-- A step that looks at the source as little as it changes it. -/
theorem step {g : Reader → α} {f : Reader → Reader} (hg : ∀ r t, g (r.onto t) = g r)
    (hf : ∀ r t, f (r.onto t) = (f r).onto t) (hs : ∀ r, (f r).source = r.source)
    (hp : ∀ r, (f r).position = r.position) (hl : ∀ r, (f r).limit = r.limit) :
    Tracks (fun r => .ok (g r) (f r) : Decoder α) := by
  intro r missing t ht
  left
  show Same missing r (.ok (g r) (f r)) (.ok (g (r.onto t)) (f (r.onto t)))
  rw [hg, hf]
  exact .ok (Reader.moved_nil (hs r) (hp r) (hl r)) (by rw [hs]; exact ht)

theorem pure (a : α) : Tracks (pure a) :=
  step (g := fun _ => a) (f := id) (fun _ _ => rfl) (fun _ _ => rfl) (fun _ => rfl) (fun _ => rfl)
    fun _ => rfl

theorem throw (err : CodecError) : Tracks (throw err : Decoder α) :=
  fun _ _ _ ht => .inl (.error ht)

theorem bind {m : Decoder α} {f : α → Decoder β} (hm : Tracks m) (hf : ∀ a, Tracks (f a)) :
    Tracks (m >>= f) := fun r => (hm r).bind fun a r' _ => hf a r'

theorem missingMore {m : Decoder α} (extra : Nat) (hm : Tracks m) :
    Tracks (mapError (missingMore extra) m) := by
  refine fun r => (hm r).mapError fun err stop _ _ h => ?_
  cases err <;> exact h

theorem align : Tracks align :=
  step (g := fun _ => ()) (f := fun r => { r with bitCount := 0 }) (fun _ _ => rfl)
    (fun _ _ => rfl) (fun _ => rfl) (fun _ => rfl) fun _ => rfl

theorem position : Tracks position :=
  step (g := Reader.position) (f := id) (fun _ _ => rfl) (fun _ _ => rfl) (fun _ => rfl)
    (fun _ => rfl) fun _ => rfl

/-- The one place where the end of a source shows. -/
theorem fill (n : Nat) : Tracks (fill n) := by
  intro r missing t ht
  by_cases hsame : r.window.take n = (r.onto t).window.take n
  · exact .inl (same_fill ht hsame)
  · refine .inr ⟨fun hnil => hsame ?_, starves_fill ht hsame⟩
    have hrem : r.source.remaining = t.remaining := by
      rw [ht.remaining, hnil, List.append_nil]
    unfold Reader.window
    rw [hrem]
    rfl

theorem takeByte : Tracks takeByte := (fill 1).bind fun bytes => pure (bytes.headD 0)

theorem takeUntilNul (taken : List UInt8) : Tracks (takeUntilNul taken) :=
  takeUntilNul_of_takeByte TracksAt pure TracksAt.bind takeByte taken

theorem openByte (byte : UInt8) : Tracks (openByte byte) :=
  step (g := fun _ => byte.toNat.testBit 7)
    (f := fun s => { s with bitBuf := byte, bitCount := 7 }) (fun _ _ => rfl) (fun _ _ => rfl)
    (fun _ => rfl) (fun _ => rfl) fun _ => rfl

theorem readBit : Tracks readBit := by
  intro r missing t ht
  rcases hk : r.bitCount with _ | k
  · have hbyte := (fill 1).bind (fun byte => openByte (byte.headD 0)) r missing t ht
    rwa [← readBit_eq_openByte hk, ← readBit_eq_openByte (r := r.onto t) hk] at hbyte
  · -- a bit of the open byte
    left
    rw [readBit_of_pos hk, readBit_of_pos (r := r.onto t) hk]
    have hmoved : r.Moved [] { r with bitCount := k } := Reader.moved_nil rfl rfl rfl
    exact .ok hmoved ht

/-- **Every field and every layout** tracks its bytes. -/
theorem closed : Closed @Tracks where
  pure := Tracks.pure
  throw := Tracks.throw
  bind := Tracks.bind
  missingMore := Tracks.missingMore
  align := Tracks.align
  position := Tracks.position
  fill := Tracks.fill
  takeUntilNul := Tracks.takeUntilNul
  readBit := Tracks.readBit

end Tracks

end Decoder

end Swf
