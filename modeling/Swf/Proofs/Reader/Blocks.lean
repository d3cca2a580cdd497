import Swf.Proofs.Reader.Shortfall

/-!
# Blocks of bytes

A block is taken in pieces, and a piece that falls short knows of its own bytes only: the pieces
behind it, which have not been tried, are added to what it lacks. So the error counts every missing
byte, however the end of the bytes falls into the pieces (`Decoder.drain_of_lt`).

Reading a block and passing over it differ in what they give and in nothing else
(`Decoder.skip_like_readBytes`).
-/

namespace Swf.Decoder

variable {r : Reader} {n : Nat}

/-! ## One piece -/

/-- Filling more than the window holds takes all of it. -/
theorem fill_of_lt (hs : r.source.Steady) (hn : r.window.length < n) :
    ∃ r', fill n r = .error (.unexpectedEof (n - r.window.length)
        (r.position + r.window.length)) r' ∧
      r.Took r.window r' ∧ r'.bitCount = r.bitCount := by
  have hwhole : r.window.take n = r.window := List.take_of_length_le (Nat.le_of_lt hn)
  have hgot : (r.source.gather (r.allowance n)).1 = r.window := by
    rw [Source.gather_fst _ hs, r.take_allowance, hwhole]
  have hrun := fill_of_steady (n := n) hs
  rw [hwhole, if_pos hn, after_fill, hgot] at hrun
  refine ⟨_, hrun, ?_, rfl⟩
  exact {
    steady := Source.steady_gather _ hs
    remaining := by
      rw [← Source.remaining_gather (r.allowance n) r.source, hgot]
      rfl
    position := rfl
    limit := rfl
    le_limit := by
      intro l hl
      unfold Reader.window
      rw [hl]
      exact List.length_take_le ..
    ofBytes := Source.gather_ofBytes _ }

/-! ## All pieces -/

theorem drain_of_pos (hn : n ≠ 0) :
    drain n = mapError (missingMore (n - min n chunkSize)) (fill (min n chunkSize)) >>= fun chunk =>
      (chunk ++ ·) <$> drain (n - min n chunkSize) := by
  rw [drain, dif_neg hn]
  rfl

/-- A block that the window holds is taken in full. -/
theorem drain_of_le (hs : r.source.Steady) (hn : n ≤ r.window.length) :
    ∃ r', drain n r = .ok (r.window.take n) r' ∧ r.Took (r.window.take n) r' ∧
      r'.bitCount = r.bitCount := by
  induction n using Nat.strongRecOn generalizing r with
  | ind n ih =>
    by_cases hzero : n = 0
    · subst hzero
      refine ⟨r, ?_, Reader.took_nil hs rfl rfl rfl, rfl⟩
      rw [drain]
      rfl
    · have hpos : 0 < min n chunkSize := by unfold chunkSize; omega
      obtain ⟨s, hfill, htook, -, hbits⟩ :=
        fill_of_le (n := min n chunkSize) hs (by omega)
      have hwindow := htook.window
      have hlen : (r.window.take (min n chunkSize)).length = min n chunkSize :=
        List.length_take_of_le (by omega)
      have hrest : s.window = r.window.drop (min n chunkSize) := by
        have hsplit := List.take_append_drop (min n chunkSize) r.window
        exact (List.append_cancel_left (hsplit.trans hwindow)).symm
      obtain ⟨t, hdrain, htook', hbits'⟩ := ih (n - min n chunkSize) (by omega) htook.steady
        (by rw [hrest, List.length_drop]; omega)
      -- the two parts of the block are the block
      have hblock : r.window.take (min n chunkSize) ++ s.window.take (n - min n chunkSize) =
          r.window.take n := by
        rw [hrest, ← List.take_add]
        congr 1
        omega
      rw [← hblock]
      refine ⟨t, ?_, htook.trans htook', hbits'.trans hbits⟩
      rw [drain_of_pos hzero, bind_of_ok (mapError_of_ok hfill), map_of_ok hdrain]

/-- A block that the window does not hold leaves nothing of it, and the error counts all that is
missing. -/
theorem drain_of_lt (hs : r.source.Steady) (hn : r.window.length < n) :
    ∃ r', drain n r = .error (.unexpectedEof (n - r.window.length)
        (r.position + r.window.length)) r' ∧
      r.Took r.window r' ∧ r'.bitCount = r.bitCount := by
  induction n using Nat.strongRecOn generalizing r with
  | ind n ih =>
    have hzero : n ≠ 0 := by omega
    have hpos : 0 < min n chunkSize := by unfold chunkSize; omega
    rw [drain_of_pos hzero]
    by_cases hpiece : min n chunkSize ≤ r.window.length
    · -- the first piece is there, so the bytes end in a later one
      obtain ⟨s, hfill, htook, -, hbits⟩ := fill_of_le hs hpiece
      have hwindow := htook.window
      have hlen := congrArg List.length hwindow
      rw [List.length_append, List.length_take_of_le hpiece] at hlen
      have hposition := htook.position
      rw [List.length_take_of_le hpiece] at hposition
      obtain ⟨t, hdrain, htook', hbits'⟩ :=
        ih (n - min n chunkSize) (by omega) htook.steady (by omega)
      have hmissing : n - min n chunkSize - s.window.length = n - r.window.length := by omega
      have hoffset : s.position + s.window.length = r.position + r.window.length := by omega
      rw [hmissing, hoffset] at hdrain
      refine ⟨t, ?_, ?_, hbits'.trans hbits⟩
      · rw [bind_of_ok (mapError_of_ok hfill), map_of_error hdrain]
      · rw [hwindow]
        exact htook.trans htook'
    · -- the bytes end in the first piece, and none of the later ones is tried
      obtain ⟨s, hfill, htook, hbits⟩ := fill_of_lt hs (Nat.lt_of_not_le hpiece)
      have hmissing : min n chunkSize - r.window.length + (n - min n chunkSize) =
          n - r.window.length := by omega
      refine ⟨s, ?_, htook, hbits⟩
      rw [bind_of_error (mapError_of_error hfill), missingMore, hmissing]

/-! ## Blocks that are read or passed over -/

theorem skip_of_ok {bytes : List UInt8} {r' : Reader} (h : readBytes n r = .ok bytes r') :
    skip n r = .ok () r' := by
  unfold skip
  rw [bind_of_ok h]
  rfl

theorem skip_of_error {err : CodecError} {r' : Reader} (h : readBytes n r = .error err r') :
    skip n r = .error err r' := by
  unfold skip
  rw [bind_of_error h]

/-- **Blocks.** From a source that neither fails nor ends early, such as one of bytes in memory, a
block of `n` bytes is read or passed over if that many are left; both leave the reader behind it. If
fewer are left, then both take all of them, and the error counts those that are missing and names
the offset where they would have been. Unread bits are dropped in any case. -/
theorem skip_like_readBytes (r : Reader) (n : Nat) (hs : r.source.Steady) :
    (n ≤ r.window.length → ∃ r', readBytes n r = .ok (r.window.take n) r' ∧ skip n r = .ok () r' ∧
      r'.position = r.position + n ∧ r'.source.remaining = r.source.remaining.drop n ∧
      r'.window = r.window.drop n ∧ r'.bitCount = 0) ∧
    (r.window.length < n → ∃ r',
      readBytes n r = .error (.unexpectedEof (n - r.window.length)
        (r.position + r.window.length)) r' ∧
      skip n r = .error (.unexpectedEof (n - r.window.length)
        (r.position + r.window.length)) r' ∧
      r'.position = r.position + r.window.length ∧
      r'.source.remaining = r.source.remaining.drop r.window.length ∧
      r'.window = [] ∧ r'.bitCount = 0) := by
  -- the reader that is at a byte
  let aligned : Reader := { r with bitCount := 0 }
  constructor
  · intro hn
    obtain ⟨r', hrun, htook, hbits⟩ := drain_of_le (r := aligned) (n := n) hs hn
    have hread : readBytes n r = .ok (r.window.take n) r' := hrun
    have hlen : (r.window.take n).length = n := List.length_take_of_le hn
    have hremaining : r.source.remaining = r.window.take n ++ r'.source.remaining :=
      htook.remaining
    have hwindow : r.window = r.window.take n ++ r'.window := htook.window
    refine ⟨r', hread, skip_of_ok hread, ?_, ?_, ?_, hbits⟩
    · rw [htook.position]
      exact congrArg (r.position + ·) hlen
    · rw [hremaining]
      exact (List.drop_left' hlen).symm
    · exact List.append_cancel_left (hwindow.symm.trans (List.take_append_drop n r.window).symm)
  · intro hn
    obtain ⟨r', hrun, htook, hbits⟩ := drain_of_lt (r := aligned) (n := n) hs hn
    have hread : readBytes n r = .error (.unexpectedEof (n - r.window.length)
        (r.position + r.window.length)) r' := hrun
    have hremaining : r.source.remaining = r.window ++ r'.source.remaining := htook.remaining
    have hwindow : r.window = r.window ++ r'.window := htook.window
    refine ⟨r', hread, skip_of_error hread, htook.position, ?_, ?_, hbits⟩
    · rw [hremaining, List.drop_left]
    · exact List.self_eq_append_right.mp hwindow

/-- Of 5000 bytes there are 4100, so that the end comes in the second piece. -/
theorem skip_like_readBytes_short :
    (Source.ofBytes (List.replicate 4100 7)).Steady ∧
      ∃ r', readBytes 5000
          { source := .ofBytes (List.replicate 4100 7), position := 10, bitCount := 5 } =
          .error (.unexpectedEof 900 4110) r' ∧
        skip 5000
          { source := .ofBytes (List.replicate 4100 7), position := 10, bitCount := 5 } =
          .error (.unexpectedEof 900 4110) r' ∧
        r'.position = 4110 ∧ r'.window = [] ∧ r'.bitCount = 0 := by
  have hs := Source.steady_ofBytes (List.replicate 4100 7)
  have hlen : (Reader.window
      { source := .ofBytes (List.replicate 4100 7), position := 10, bitCount := 5 }).length =
        4100 := List.length_replicate
  have hblock := (skip_like_readBytes
    { source := .ofBytes (List.replicate 4100 7), position := 10, bitCount := 5 } 5000 hs).2
  rw [hlen] at hblock
  obtain ⟨r', hread, hskip, hposition, -, hwindow, hbits⟩ := hblock (by decide)
  exact ⟨hs, r', hread, hskip, hposition, hwindow, hbits⟩

end Swf.Decoder
