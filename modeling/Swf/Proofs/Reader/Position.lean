import Swf.Proofs.Reader.Calls
import Swf.Proofs.Reader.Shortfall

/-!
# What a reader says of its position

A reader may be left in the middle of anything: a call may deliver a part of a field and the next
one fail, and whoever reads on begins there. So what a reader says of itself has to be right after
failures too. Its position counts what its source has handed out, and less than a byte is pending
(`Reader.Counts`). An error that says where the bytes have ended names the very position at which
the reader was left (`Decoder.InOrder`), not the one of the field or of the record.

The loop that takes bytes decides all of this. Fields only put such loops one after the other, and
of what they do to errors nothing changes an offset (`Decoder.KeepsBooks`).
-/

namespace Swf

/-- `r'` is further on than `r`, and what it says of itself is right. -/
structure Reader.Counts (r r' : Reader) : Prop where
  /-- The position counts what the source has handed out. -/
  called : r.Called r'
  /-- A byte whose bits have all been read is not kept. -/
  bitCount_lt : r.bitCount < 8 → r'.bitCount < 8

theorem Reader.Counts.refl (r : Reader) : r.Counts r := ⟨.of_eq rfl rfl, id⟩

theorem Reader.Counts.trans {r s t : Reader} (h : r.Counts s) (h' : s.Counts t) : r.Counts t :=
  ⟨h.called.trans h'.called, fun hlt => h'.bitCount_lt (h.bitCount_lt hlt)⟩

namespace Decoder

variable {α β : Type} {r : Reader}

/-- Whether it has succeeded or failed, a run from `r` has left its reader in order, and if it says
where the bytes have ended, the reader is there. -/
inductive InOrder (r : Reader) : EStateM.Result CodecError Reader α → Prop
  | ok {a : α} {r' : Reader} (counts : r.Counts r') : InOrder r (.ok a r')
  | error {err : CodecError} {r' : Reader} (counts : r.Counts r')
      (ends : ∀ stop, err.EndsAt stop → stop = r'.position) : InOrder r (.error err r')

/-- A run of `m` from `r` leaves all in order. -/
def KeepsBooksAt (m : Decoder α) (r : Reader) : Prop := InOrder r (m r)

/-- Every run of `m` leaves all in order. -/
def KeepsBooks (m : Decoder α) : Prop := ∀ r, KeepsBooksAt m r

theorem KeepsBooks.counts {m : Decoder α} (h : KeepsBooks m) (r : Reader) :
    r.Counts (m.after r) := by
  have horder : InOrder r (m r) := h r
  unfold after
  generalize m r = result at horder
  cases horder with
  | ok counts => exact counts
  | error counts _ => exact counts

theorem KeepsBooks.ends {m : Decoder α} (h : KeepsBooks m) {err : CodecError} {stop : Nat}
    (herr : m.outcome r = .error err) (hend : err.EndsAt stop) :
    stop = (m.after r).position := by
  have horder : InOrder r (m r) := h r
  unfold outcome at herr
  unfold after
  generalize m r = result at horder herr
  cases horder with
  | ok _ => cases herr
  | error _ ends =>
    cases herr
    exact ends stop hend

/-! ## Sequences -/

theorem KeepsBooksAt.bind {m : Decoder α} {f : α → Decoder β} (hm : KeepsBooksAt m r)
    (hf : ∀ a r', m r = .ok a r' → KeepsBooksAt (f a) r') : KeepsBooksAt (m >>= f) r := by
  unfold KeepsBooksAt at hm ⊢
  generalize hrun : m r = result at hm
  cases hm with
  | error counts ends =>
    rw [bind_of_error hrun]
    exact .error counts ends
  | @ok a r' counts =>
    have hnext : InOrder r' (f a r') := hf a r' hrun
    rw [bind_of_ok hrun]
    generalize f a r' = result' at hnext
    cases hnext with
    | ok counts' => exact .ok (counts.trans counts')
    | error counts' ends => exact .error (counts.trans counts') ends

namespace KeepsBooks

/-- A step that leaves the source alone. -/
theorem step {g : Reader → α} {f : Reader → Reader} (hs : ∀ r, (f r).source = r.source)
    (hp : ∀ r, (f r).position = r.position) (hb : ∀ r, r.bitCount < 8 → (f r).bitCount < 8) :
    KeepsBooks (fun r => .ok (g r) (f r) : Decoder α) :=
  fun r => .ok ⟨.of_eq (hs r) (hp r), hb r⟩

theorem pure (a : α) : KeepsBooks (pure a) := fun r => .ok (.refl r)

/-- An error that says nothing of where the bytes have ended. -/
theorem throw {err : CodecError} (h : ∀ stop, ¬ err.EndsAt stop) :
    KeepsBooks (throw err : Decoder α) :=
  fun r => .error (.refl r) fun stop hend => absurd hend (h stop)

theorem bind {m : Decoder α} {f : α → Decoder β} (hm : KeepsBooks m) (hf : ∀ a, KeepsBooks (f a)) :
    KeepsBooks (m >>= f) := fun r => (hm r).bind fun a r' _ => hf a r'

/-- A translation of errors that moves no offset. -/
theorem mapError {m : Decoder α} {f : CodecError → CodecError} (hm : KeepsBooks m)
    (hf : ∀ err stop, (f err).EndsAt stop → err.EndsAt stop) : KeepsBooks (mapError f m) := by
  intro r
  have horder : InOrder r (m r) := hm r
  unfold KeepsBooksAt
  generalize hrun : m r = result at horder
  cases horder with
  | ok counts =>
    rw [mapError_of_ok hrun]
    exact .ok counts
  | @error err r' counts ends =>
    rw [mapError_of_error hrun]
    exact .error counts fun stop hend => ends stop (hf err stop hend)

/-- What a part has counted the whole has counted: offsets go on through it. -/
theorem within {m : Decoder α} (n : Nat) (hm : KeepsBooks m) : KeepsBooks (within n m) := by
  intro r
  have hleave {s : Reader} (counts : (r.enter n).Counts s) : r.Counts (leave r s) :=
    ⟨counts.called, fun _ => Nat.succ_pos 7⟩
  have horder : InOrder (r.enter n) (m (r.enter n)) := hm _
  unfold KeepsBooksAt
  generalize hrun : m (r.enter n) = result at horder
  cases horder with
  | ok counts =>
    rw [within_of_ok hrun]
    exact .ok (hleave counts)
  | error counts ends =>
    rw [within_of_error hrun]
    exact .error (hleave counts) ends

/-! ## Primitives -/

theorem align : KeepsBooks align :=
  step (g := fun _ => ()) (f := fun r => { r with bitCount := 0 }) (fun _ => rfl) (fun _ => rfl)
    fun _ _ => Nat.succ_pos 7

/-- **Taking bytes.** Those that came before a failure have been counted, and if the bytes have
ended, the error names the offset behind them. -/
theorem fill (n : Nat) : KeepsBooks (fill n) := by
  intro r
  have hcalled := r.called_gather (r.allowance n)
  unfold KeepsBooksAt Decoder.fill
  generalize r.source.gather (r.allowance n) = gathered at hcalled ⊢
  obtain ⟨got, short, source⟩ := gathered
  have hcounts : r.Counts (r.advance got.length source) := ⟨hcalled, id⟩
  dsimp only
  split
  · exact .error hcounts fun _ hend => hend.elim
  · split
    · exact .error hcounts fun _ hend => hend.symm
    · exact .ok hcounts

theorem takeByte : KeepsBooks takeByte := (fill 1).bind fun bytes => pure (bytes.headD 0)

theorem takeUntilNul (taken : List UInt8) : KeepsBooks (takeUntilNul taken) :=
  takeUntilNul_of_takeByte KeepsBooksAt pure KeepsBooksAt.bind takeByte taken

theorem openByte (byte : UInt8) : KeepsBooks (openByte byte) :=
  step (g := fun _ => byte.toNat.testBit 7)
    (f := fun s => { s with bitBuf := byte, bitCount := 7 }) (fun _ => rfl) (fun _ => rfl)
    fun _ _ => Nat.lt_succ_self 7

theorem readBit : KeepsBooks readBit := by
  intro r
  rcases hk : r.bitCount with _ | k
  · -- a new byte is taken, and seven bits of it are left
    have hbyte := (fill 1).bind (fun byte => openByte (byte.headD 0)) r
    unfold KeepsBooksAt at hbyte ⊢
    rwa [readBit_eq_openByte hk]
  · -- a bit of the open byte
    unfold KeepsBooksAt
    rw [readBit_of_pos hk]
    refine .ok ⟨.of_eq rfl rfl, fun hlt => ?_⟩
    show k < 8
    omega

/-- One call of the source, with nothing above it that would make it again. -/
theorem readSome (n : Nat) : KeepsBooks (readSome n) := by
  intro r
  have hcounts : r.Counts (r.behindCall n) := ⟨r.called_behindCall n, fun _ => Nat.succ_pos 7⟩
  unfold KeepsBooksAt
  rw [Reader.readSome_eq]
  split
  · exact .ok ⟨.of_eq rfl rfl, fun _ => Nat.succ_pos 7⟩
  · split
    · exact .ok hcounts
    · exact .error hcounts fun _ hend => hend.elim
    · exact .error hcounts fun _ hend => hend.elim

/-- **Every field** keeps the books. -/
theorem closed : ClosedInFields @KeepsBooks where
  pure := KeepsBooks.pure
  invalidString := fun _ => KeepsBooks.throw fun _ => id
  bind := KeepsBooks.bind
  missingMore := fun _ hm => hm.mapError fun err _ hend => by cases err <;> exact hend
  align := KeepsBooks.align
  position := step (f := id) (fun _ => rfl) (fun _ => rfl) fun _ => id
  fill := KeepsBooks.fill
  takeUntilNul := KeepsBooks.takeUntilNul
  readBit := KeepsBooks.readBit

end KeepsBooks

end Decoder

end Swf
