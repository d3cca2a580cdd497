import Swf.Proofs.Reader.Shortfall
import Swf.Proofs.Record.Framing

/-!
# Blocks

A payload is read as a part of its own: the reader is not let past the declared length, what runs
out of bytes is told apart by where it ran out, and what is left over is passed over. A payload that
is taken as it stands has no use for any of this. Reading a block of bytes on its own is reading it
(`within_readBytes`), and a stream that ends in the block ends in front of its length, so the length
mismatch of a layout that wants too much never comes up (`readPayload_of_unknown`).
-/

namespace Swf

open Decoder

namespace Decoder

variable {α : Type} {r t : Reader} {n k : Nat}

/-! ## Blocks that are read on their own -/

/-- A part has room for what is asked for within its length. -/
theorem allowance_enter (hk : k ≤ n) : (r.enter n).allowance k = r.allowance k := by
  show min k ((some (r.allowance n)).getD k) = min k (r.limit.getD k)
  unfold Reader.allowance
  cases r.limit with
  | none => simp only [Option.getD_none, Option.getD_some]; omega
  | some l => simp only [Option.getD_some]; omega

/-- Behind a front of `k` bytes the rest of a part is a part of its own. -/
theorem advance_enter {s : Source} (hk : r.allowance k = k) (hn : k ≤ n) :
    (r.enter n).advance k s = (r.advance k s).enter (n - k) := by
  have hlimit : r.allowance n - k = (r.advance k s).allowance (n - k) := by
    show _ = min (n - k) ((r.limit.map (· - k)).getD (n - k))
    unfold Reader.allowance at hk ⊢
    cases hl : r.limit with
    | none => simp only [Option.getD_none, Option.map_none]; omega
    | some l =>
      rw [hl, Option.getD_some] at hk
      simp only [Option.getD_some, Option.map_some]
      omega
  unfold Reader.enter
  rw [← hlimit]
  rfl

/-- It makes no difference whether a part is left from its start or from further on. -/
theorem leave_advance {s : Source} (h : r.position + k ≤ t.position) :
    leave (r.advance k s) t = leave r t := by
  have hlimit : (r.advance k s).limit.map (· - (t.position - (r.position + k))) =
      r.limit.map (· - (t.position - r.position)) := by
    show (r.limit.map (· - k)).map _ = _
    cases r.limit with
    | none => rfl
    | some l =>
      simp only [Option.map_some, Option.some.injEq]
      omega
  show ({ t with bitCount := 0, limit := _ } : Reader) = { t with bitCount := 0, limit := _ }
  rw [← hlimit]
  rfl

theorem leave_advance_enter {s : Source} (hb : r.bitCount = 0) :
    leave r ((r.enter n).advance k s) = r.advance k s := by
  show ({ source := s, position := r.position + k, bitBuf := r.bitBuf, bitCount := 0
          limit := r.limit.map (· - (r.position + k - r.position)) } : Reader) = _
  rw [Nat.add_sub_cancel_left, ← hb]
  rfl

theorem within_fill (hb : r.bitCount = 0) (hk : k ≤ n) : within n (fill k) r = fill k r := by
  have hallow := allowance_enter (r := r) hk
  unfold Reader.enter at hallow
  unfold within fill
  simp only [hallow]
  rcases r.source.gather (r.allowance k) with ⟨got, short, s⟩
  have hleave := leave_advance_enter (n := n) (k := got.length) (s := s) hb
  unfold Reader.enter at hleave
  by_cases hl : got.length < k <;> rcases short with _ | _ | cause <;>
    simp only [hl, if_true, if_false, hleave] <;> rfl

theorem within_map {β : Type} {m : Decoder α} (g : α → β) (h : within n m r = m r) :
    within n (g <$> m) r = (g <$> m) r := by
  cases hm : m (r.enter n) with
  | error err s =>
    rw [within_of_error hm] at h
    rw [within_of_error (map_of_error hm), map_of_error h.symm]
  | ok a s =>
    rw [within_of_ok hm] at h
    rw [within_of_ok (map_of_ok hm), map_of_ok h.symm]

/-- Two parts one after the other may be read on their own one after the other. -/
theorem within_bind {β : Type} {m : Decoder α} {f : α → Decoder β} {a : α} {source : Source}
    (hpart : m (r.enter n) = .ok a ((r.enter n).advance k source))
    (hwhole : m r = .ok a (r.advance k source)) (hallow : r.allowance k = k) (hk : k ≤ n)
    (hf : KeepsAccount (f a))
    (hrest : within (n - k) (f a) (r.advance k source) = f a (r.advance k source)) :
    within n (m >>= f) r = (m >>= f) r := by
  rw [advance_enter hallow hk] at hpart
  rw [bind_of_ok hwhole, ← hrest]
  -- the second part does not go back behind the first one
  obtain ⟨taken, -, hpos⟩ := hf ((r.advance k source).enter (n - k))
  have hle : r.position + k ≤ ((f a).after ((r.advance k source).enter (n - k))).position := by
    rw [hpos]
    exact Nat.le_add_right ..
  unfold after at hle
  cases hrun : f a ((r.advance k source).enter (n - k)) with
  | error err t =>
    rw [hrun] at hle
    rw [within_of_error ((bind_of_ok hpart).trans hrun), within_of_error hrun, leave_advance hle]
  | ok b t =>
    rw [hrun] at hle
    rw [within_of_ok ((bind_of_ok hpart).trans hrun), within_of_ok hrun, leave_advance hle]

/-- **A block** is the same on its own and as part of the stream. The induction is on its pieces. -/
theorem within_drain (n : Nat) (hb : r.bitCount = 0) : within n (drain n) r = drain n r := by
  induction n using Nat.strongRecOn generalizing r with
  | ind n ih =>
    rw [drain]
    by_cases h0 : n = 0
    · have hstay : leave r (r.enter n) = r := by
        have hleave := leave_advance_enter (n := n) (k := 0) (s := r.source) hb
        simpa [Reader.advance, Reader.enter] using hleave
      rw [dif_pos h0]
      exact (within_of_ok (a := []) (s := r.enter n) rfl).trans (congrArg _ hstay)
    · rw [dif_neg h0]
      have hchunk : min n chunkSize ≤ n := Nat.min_le_left ..
      have hlt : n - min n chunkSize < n := by
        simp [chunkSize]
        omega
      have hfirst := within_fill hb hchunk
      cases hfill : fill (min n chunkSize) (r.enter n) with
      | error err t =>
        rw [within_of_error hfill] at hfirst
        rw [within_of_error (bind_of_error (mapError_of_error hfill)),
          bind_of_error (mapError_of_error hfirst.symm)]
      | ok chunk t =>
        obtain ⟨-, hallow, source, -, rfl⟩ := gather_of_fill hfill
        rw [allowance_enter hchunk] at hallow
        rw [within_of_ok hfill, leave_advance_enter hb] at hfirst
        exact within_bind (mapError_of_ok hfill) (mapError_of_ok hfirst.symm) hallow hchunk
          (KeepsAccount.closed.map _ (KeepsAccount.closed.drain _))
          (within_map _ (ih _ hlt hb))

theorem within_readBytes (n : Nat) : within n (readBytes n) = readBytes n := by
  funext r
  show within n (drain n) { r with bitCount := 0 } = _
  exact within_drain n rfl

/-! ## Where a stream ends within a block -/

/-- When `m` runs out of bytes, it does so within the next `n` bytes. -/
def StopsWithin (n : Nat) (m : Decoder α) : Prop :=
  ∀ r err r', m r = .error err r' → ∀ stop, err.EndsAt stop →
    r.position ≤ stop ∧ stop < r.position + n

namespace StopsWithin

theorem pure (a : α) : StopsWithin 0 (pure a) := by
  intro r err r' h
  cases h

theorem bind {β : Type} {j k : Nat} {m : Decoder α} {f : α → Decoder β} (hm : StopsWithin j m)
    (htakes : Takes j m) (hf : ∀ a, StopsWithin k (f a)) : StopsWithin (j + k) (m >>= f) := by
  intro r err r' h stop hend
  cases hma : m r with
  | error err' s =>
    rw [bind_of_error hma] at h
    cases h
    have := hm r err r' hma stop hend
    omega
  | ok a s =>
    rw [bind_of_ok hma] at h
    have := htakes r a s hma
    have := hf a s err r' h stop hend
    omega

theorem missingMore {m : Decoder α} (extra : Nat) (hm : StopsWithin n m) :
    StopsWithin n (mapError (missingMore extra) m) := by
  intro r err r' h stop hend
  cases hma : m r with
  | ok a s => rw [mapError_of_ok hma] at h; cases h
  | error err' s =>
    rw [mapError_of_error hma] at h
    cases h
    exact hm r err' r' hma stop (by cases err' <;> exact hend)

theorem align : StopsWithin 0 align := by
  intro r err r' h
  cases h

theorem fill (n : Nat) : StopsWithin n (fill n) := by
  intro r err r' h stop hend
  unfold Decoder.fill at h
  dsimp only at h
  split at h
  · cases h
    exact hend.elim
  · split at h
    · next hshort =>
      cases h
      obtain rfl : _ = stop := hend
      exact ⟨Nat.le_add_right .., Nat.add_lt_add_left hshort _⟩
    · cases h

theorem drain (n : Nat) : StopsWithin n (drain n) := by
  fun_induction Decoder.drain n with
  | case1 => exact pure _
  | case2 n _ left ih =>
    have hall : min n chunkSize + (left + 0) = n := by
      show min n chunkSize + (n - min n chunkSize) = n
      omega
    have := ((fill (min n chunkSize)).missingMore left).bind ((Takes.fill _).mapError _)
      fun chunk => ih.bind (Takes.drain left) fun rest => pure (chunk ++ rest)
    rwa [hall] at this

theorem readBytes (n : Nat) : StopsWithin n (readBytes n) := by
  have := align.bind Takes.align fun _ => drain n
  rwa [Nat.zero_add] at this

end StopsWithin

end Decoder

namespace Record

/-- Within the declared length, an end of the stream is never taken for a length mismatch. -/
theorem payloadError_of_lt {header : RecordHeader} {start : Nat} {err : CodecError}
    (h : ∀ stop, err.EndsAt stop → start ≤ stop ∧ stop < start + header.length.toNat) :
    payloadError header start err = err.insideRecord header.code := by
  cases err with
  | unexpectedEof expected offset =>
    have hbounds := h offset rfl
    have hne : ¬ offset - start = header.length.toNat := by omega
    simp only [payloadError, if_neg hne, CodecError.insideRecord]
  | _ => rfl

/-- **The payload of a record of no kind** is its bytes, and what goes wrong with it goes wrong with
them. -/
theorem readPayload_of_unknown {header : RecordHeader}
    (h : TagKind.ofCode? header.code = none) :
    readPayload header = (fun data => Tag.unknown ⟨header.code, data⟩) <$>
      mapError (.insideRecord header.code) (readBytes header.length.toNat) := by
  funext r
  have hblock := congrFun (within_readBytes header.length.toNat) r
  have hread : Tag.read header = (fun data => Tag.unknown ⟨header.code, data⟩) <$>
      readBytes header.length.toNat := by
    unfold Tag.read
    rw [h]
    rfl
  have hpos (s : Reader) : position s = .ok s.position s := rfl
  unfold readPayload
  rw [bind_of_ok (hpos r), hread]
  cases hrun : readBytes header.length.toNat (r.enter header.length.toNat) with
  | error err t =>
    have herr := payloadError_of_lt fun stop =>
      StopsWithin.readBytes header.length.toNat _ err t hrun stop
    rw [within_of_error hrun] at hblock
    rw [within_of_error (bind_of_error (mapError_of_error (map_of_error hrun)))]
    refine (congrArg (EStateM.Result.error · _) herr).trans ?_
    exact (map_of_error (mapError_of_error hblock.symm)).symm
  | ok data t =>
    -- a block leaves nothing to pass over
    have htook := Takes.readBytes header.length.toNat _ data t hrun
    have hnothing : ¬ t.position - r.position < header.length.toNat := by
      have hstart : (r.enter header.length.toNat).position = r.position := rfl
      omega
    rw [within_of_ok hrun] at hblock
    refine (within_of_ok ?_).trans (map_of_ok (mapError_of_ok hblock.symm)).symm
    rw [bind_of_ok (mapError_of_ok (map_of_ok hrun)), bind_of_ok (hpos t), if_neg hnothing]
    rfl

end Record

end Swf
