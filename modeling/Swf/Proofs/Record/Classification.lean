import Swf.Proofs.Reader.Alike
import Swf.Proofs.Reader.RunningOut
import Swf.Proofs.Record.Unknown

/-!
# Short payloads

A payload can be short for two reasons: the stream ends in front of the declared length, or the
declared length is less than the layout needs. To the layout both look the same, it runs out of
bytes at the end of its window. The window ends at the declared length in one case and in front of
it in the other, so the offset of the error tells which it was; and if the layout has all it needs,
passing over the rest of the record finds the end of the stream.
-/

namespace Swf

open Decoder

/-! ### Layouts -/

/-- Behind fields that have not taken more than the record declares, the rest is a blob. -/
theorem RecordHeader.runsDryAt_rest {header : RecordHeader} {consumed : Nat} {r : Reader}
    {α : Type} (f : List UInt8 → α) (hn : r.window.length ≤ header.length.toNat)
    (h : consumed ≤ header.length.toNat) :
    RunsDryAt (do
      let size ← Decoder.ofExcept (header.remaining consumed)
      return f (← readBytes size)) r := by
  have hsize : Decoder.ofExcept (header.remaining consumed) =
      pure (header.length.toNat - consumed) := by
    unfold RecordHeader.remaining
    rw [if_neg (by omega)]
    rfl
  have closed := RunsDry.closed header.length.toNat
  rw [hsize]
  exact closed.bind (closed.pure _) (fun _ => closed.map f (closed.readBytes _)) r hn

namespace Tag

variable (header : RecordHeader)

theorem runsDry_defineBitsJpeg2 : RunsDry header.length.toNat (DefineBitsJpeg2.read header) := by
  intro r hn
  have closed := RunsDry.closed header.length.toNat
  refine (closed.readUInt16 r hn).bind fun id r' hid onward => ?_
  have htaken := Takes.readUInt16 r id r' hid
  have hle := onward.taken_le
  exact RecordHeader.runsDryAt_rest _ (Nat.le_trans onward.window_le hn) (by omega)

theorem runsDry_doAbc : RunsDry header.length.toNat (DoAbc.read header) := by
  intro r hn
  have closed := RunsDry.closed header.length.toNat
  refine (closed.position r hn).bind fun start s hstart _ => ?_
  cases hstart
  refine (closed.readUInt32 r hn).bind fun flags r₁ _ onward₁ => ?_
  have hn₁ := Nat.le_trans onward₁.window_le hn
  refine (closed.readString r₁ hn₁).bind fun name r₂ _ onward₂ => ?_
  have hn₂ := Nat.le_trans onward₂.window_le hn₁
  refine (closed.position r₂ hn₂).bind fun here s hhere _ => ?_
  cases hhere
  exact RecordHeader.runsDryAt_rest _ hn₂ (Nat.le_trans (onward₁.trans onward₂).taken_le hn)

theorem runsDry_defineBinaryData :
    RunsDry header.length.toNat (DefineBinaryData.read header) := by
  intro r hn
  have closed := RunsDry.closed header.length.toNat
  refine (closed.readUInt16 r hn).bind fun id r₁ hid onward₁ => ?_
  have hn₁ := Nat.le_trans onward₁.window_le hn
  refine (closed.readUInt32 r₁ hn₁).bind fun reserved r₂ hreserved onward₂ => ?_
  have htaken₁ := Takes.readUInt16 r id r₁ hid
  have htaken₂ := Takes.readUInt32 r₁ reserved r₂ hreserved
  have hle := (onward₁.trans onward₂).taken_le
  exact RecordHeader.runsDryAt_rest _ (Nat.le_trans onward₂.window_le hn₁) (by omega)

/-- **A layout** on its declared bytes, or fewer, fails only for want of bytes or for a string. -/
theorem runsDry_read : RunsDry header.length.toNat (Tag.read header) :=
  (RunsDry.closed _).tagOf (runsDry_defineBitsJpeg2 header) (runsDry_doAbc header)
    (runsDry_defineBinaryData header)

end Tag

namespace Record

variable {header : RecordHeader} {start : Reader}

/-! ### Payloads -/

theorem dry_layout (header : RecordHeader) (hs : start.source.Steady) :
    Dry (start.enter header.length.toNat) (Tag.read header (start.enter header.length.toNat)) := by
  refine Tag.runsDry_read header _ ?_ hs
  rw [Reader.window_enter]
  exact List.length_take_le ..

/-- A payload gives what its layout makes of the part, once the rest is passed over. -/
theorem outcome_readPayload (header : RecordHeader) (start : Reader) :
    (readPayload header).outcome start = (do
      let tag ← mapError (payloadError header start.position) (Tag.read header)
      let consumed := (← position) - start.position
      if consumed < header.length.toNat then
        mapError (.insideRecord header.code) (skip (header.length.toNat - consumed))
      return tag : Decoder Tag).outcome (start.enter header.length.toNat) :=
  (outcome_congr (bind_of_ok (show position start = .ok start.position start from rfl))).trans
    (outcome_within ..)

/-- A layout that fails, fails its payload. -/
theorem outcome_readPayload_of_error {err : CodecError} {s : Reader}
    (h : Tag.read header (start.enter header.length.toNat) = .error err s) :
    (readPayload header).outcome start = .error (payloadError header start.position err) := by
  rw [outcome_readPayload, outcome_of_error (bind_of_error (mapError_of_error h))]

/-- A layout that succeeds leaves the rest to be passed over. -/
theorem outcome_readPayload_of_ok {tag : Tag} {s : Reader}
    (h : Tag.read header (start.enter header.length.toNat) = .ok tag s) :
    (readPayload header).outcome start = (do
      if s.position - start.position < header.length.toNat then
        mapError (.insideRecord header.code)
          (skip (header.length.toNat - (s.position - start.position)))
      return tag : Decoder Tag).outcome s := by
  rw [outcome_readPayload]
  exact outcome_congr ((bind_of_ok (mapError_of_ok h)).trans
    (bind_of_ok (show position s = .ok s.position s from rfl)))

/-- More than the window holds cannot be passed over: the record is truncated where that ends. -/
theorem outcome_skip_of_lt {α : Type} {n : Nat} {r : Reader} (code : UInt16) (a : α)
    (hs : r.source.Steady) (hn : r.window.length < n) :
    (∃ offset, (do mapError (.insideRecord code) (skip n); return a : Decoder α).outcome r =
        .error (.invalidString offset)) ∨
      ∃ expected, 1 ≤ expected ∧
        (do mapError (.insideRecord code) (skip n); return a : Decoder α).outcome r =
          .error (.truncatedRecord code expected r.last) := by
  have hdry := (RunsDry.closed _).skip n r (Nat.le_refl _) hs
  cases hskip : skip n r with
  | ok _ r' =>
    have htaken := Takes.skip n r _ r' hskip
    rw [hskip] at hdry
    have hle := hdry.onward.taken_le
    omega
  | error err r' =>
    rw [hskip] at hdry
    have hfail : (do mapError (.insideRecord code) (skip n); return a : Decoder α).outcome r =
        .error (err.insideRecord code) := outcome_of_error (bind_of_error (mapError_of_error hskip))
    cases hdry with
    | outOfBytes hexpected => exact .inr ⟨_, hexpected, hfail⟩
    | invalidString => exact .inl ⟨_, hfail⟩

/-- **The stream ends within the declared length.** Then the payload is truncated where the stream
ends, whether its layout or what passes over the rest comes upon it. -/
theorem outcome_readPayload_of_lt (hs : start.source.Steady)
    (h : start.window.length < header.length.toNat) :
    (∃ offset, (readPayload header).outcome start = .error (.invalidString offset)) ∨
      ∃ expected, 1 ≤ expected ∧ (readPayload header).outcome start =
        .error (.truncatedRecord header.code expected start.last) := by
  have hlast : (start.enter header.length.toNat).last = start.last := by
    rw [Reader.last_enter, Nat.min_eq_right (Nat.le_of_lt h)]
    rfl
  have hdry := dry_layout header hs
  generalize hrun : Tag.read header (start.enter header.length.toNat) = x at hdry
  cases hdry with
  | invalidString => exact .inl ⟨_, outcome_readPayload_of_error hrun⟩
  | @outOfBytes expected s hexpected =>
    refine .inr ⟨expected, hexpected, ?_⟩
    rw [outcome_readPayload_of_error hrun, hlast]
    have hne : ¬ start.last - start.position = header.length.toNat := by
      unfold Reader.last
      omega
    simp only [payloadError, if_neg hne]
  | @ok tag s onward =>
    -- more is declared than the layout can have taken, but it is not there
    have hfrom : start.position ≤ s.position := onward.position
    have hupto := onward.position_le
    have hleft := onward.last.trans hlast
    rw [hlast] at hupto
    rw [outcome_readPayload_of_ok hrun, ← hleft]
    unfold Reader.last at hupto hleft
    rw [if_pos (by omega)]
    exact outcome_skip_of_lt header.code tag onward.steady (by omega)

/-- **The stream holds the declared length.** Then the framing adds nothing to what the layout makes
of its bytes alone: they are read in the stream as they would be read on their own. -/
theorem outcome_readPayload_of_le (hs : start.source.Steady)
    (h : header.length.toNat ≤ start.window.length) :
    (readPayload header).outcome start =
      ((Tag.read header).outcome (.ofSource (.ofBytes (start.window.take header.length.toNat))
        start.position)).mapError (payloadError header start.position) := by
  rw [← (SeesWindow.closed.tag header).outcome_eq (Reader.alike_enter hs header.length.toNat)]
  have hdry := dry_layout header hs
  cases hrun : Tag.read header (start.enter header.length.toNat) with
  | error err s =>
    rw [outcome_readPayload_of_error hrun, outcome_of_error hrun]
    rfl
  | ok tag s =>
    rw [outcome_readPayload_of_ok hrun, outcome_of_ok hrun]
    rw [hrun] at hdry
    cases hdry with
    | ok onward =>
      have hfrom : start.position ≤ s.position := onward.position
      have hlast := onward.last
      rw [Reader.last_enter, Nat.min_eq_left h] at hlast
      unfold Reader.last at hlast
      split
      · -- whatever the layout leaves of its bytes is there
        obtain ⟨s', hskip⟩ := skip_of_le (n := header.length.toNat - (s.position - start.position))
          onward.steady (by omega)
        exact outcome_of_ok (bind_of_ok (mapError_of_ok hskip))
      · rfl

/-! ### Records -/

theorem outcome_read_of_known {policy : UnknownTagPolicy} {r : Reader}
    (hheader : RecordHeader.read r = .ok header start)
    (hknown : policy = .preserve ∨ (TagKind.ofCode? header.code).isSome) :
    (Record.read policy).outcome r = ((readPayload header).outcome start).map some := by
  rw [← outcome_map]
  refine (outcome_congr ((bind_of_ok (show position r = .ok r.position r from rfl)).trans
    (bind_of_ok hheader))).trans ?_
  rcases hknown with rfl | hkind
  · cases TagKind.ofCode? header.code <;> rfl
  · obtain ⟨kind, hkind⟩ := Option.isSome_iff_exists.mp hkind
    rw [hkind]

/-- A record that is not refused for its code fails as its payload does. -/
theorem outcome_read {policy : UnknownTagPolicy} {r : Reader}
    (hheader : RecordHeader.read r = .ok header start)
    (hpolicy : policy = .error → (TagKind.ofCode? header.code).isSome) :
    ∃ f : Tag → Option Tag,
      (Record.read policy).outcome r = ((readPayload header).outcome start).map f := by
  cases policy with
  | preserve => exact ⟨some, outcome_read_of_known hheader (.inl rfl)⟩
  | error => exact ⟨some, outcome_read_of_known hheader (.inr (hpolicy rfl))⟩
  | skip =>
    refine ⟨fun tag => dropUnknown (some tag), ?_⟩
    rw [read_skip, outcome_map, outcome_read_of_known hheader (.inl rfl)]
    cases (readPayload header).outcome start <;> rfl

/-- A record of which the stream holds too little fails where the stream ends, or for a string. -/
theorem outcome_read_of_lt {policy : UnknownTagPolicy} {r : Reader}
    (hheader : RecordHeader.read r = .ok header start)
    (hpolicy : policy = .error → (TagKind.ofCode? header.code).isSome)
    (hs : start.source.Steady) (h : start.window.length < header.length.toNat) :
    (∃ offset, (Record.read policy).outcome r = .error (.invalidString offset)) ∨
      ∃ expected, 1 ≤ expected ∧ (Record.read policy).outcome r =
        .error (.truncatedRecord header.code expected start.last) := by
  obtain ⟨f, hf⟩ := outcome_read hheader hpolicy
  rcases outcome_readPayload_of_lt hs h with ⟨offset, hpayload⟩ | ⟨expected, hexpected, hpayload⟩
  · exact .inl ⟨offset, by rw [hf, hpayload]; rfl⟩
  · exact .inr ⟨expected, hexpected, by rw [hf, hpayload]; rfl⟩

/-- A record that the stream holds goes as its layout goes on the declared bytes alone: both
succeed, both meet the same string, or the layout runs out of bytes and the lengths disagree. -/
theorem outcome_read_of_le {policy : UnknownTagPolicy} {r alone : Reader}
    (hheader : RecordHeader.read r = .ok header start)
    (hpolicy : policy = .error → (TagKind.ofCode? header.code).isSome)
    (hs : start.source.Steady) (h : header.length.toNat ≤ start.window.length)
    (halone : alone = .ofSource (.ofBytes (start.window.take header.length.toNat)) start.position) :
    (∃ tag result, (Tag.read header).outcome alone = .ok tag ∧
        (Record.read policy).outcome r = .ok result) ∨
      (∃ offset, (Tag.read header).outcome alone = .error (.invalidString offset) ∧
        (Record.read policy).outcome r = .error (.invalidString offset)) ∨
      ∃ expected, 1 ≤ expected ∧
        (Tag.read header).outcome alone = .error (.unexpectedEof expected alone.last) ∧
        (Record.read policy).outcome r = .error (.lengthMismatch header.code header.length.toNat
          (header.length.toNat + expected)) := by
  obtain ⟨f, hf⟩ := outcome_read hheader hpolicy
  have hlen : alone.window.length = header.length.toNat := by
    rw [halone]
    exact List.length_take_of_le h
  have hposition : alone.position = start.position := by rw [halone]; rfl
  have hsteady : alone.source.Steady := by rw [halone]; exact Source.steady_ofBytes _
  rw [outcome_readPayload_of_le hs h, ← halone] at hf
  rcases (Tag.runsDry_read header alone (Nat.le_of_eq hlen) hsteady).outcome with
    ⟨tag, hlayout⟩ | ⟨expected, hexpected, hlayout⟩ | ⟨offset, hlayout⟩
  · exact .inl ⟨tag, f tag, hlayout, by rw [hf, hlayout]; rfl⟩
  · -- the layout runs out of bytes right behind the declared ones
    have hlast : alone.last - start.position = header.length.toNat := by
      unfold Reader.last
      omega
    refine .inr (.inr ⟨expected, hexpected, hlayout, ?_⟩)
    rw [hf, hlayout]
    simp only [Except.mapError, payloadError, if_pos hlast]
    rfl
  · exact .inr (.inl ⟨offset, hlayout, by rw [hf, hlayout]; rfl⟩)

/-- **A short payload is told by its reason.** Behind a header that is there, in front of a steady
source, a record never just runs out of bytes. If the stream ends in front of the declared length,
the record is truncated, and the error names the offset where the stream ends, or a string in it is
not one. If the stream holds the declared length, the record is never truncated; it is a mismatch of
lengths exactly if the layout runs out of bytes on the declared ones alone. -/
theorem read_short_payload {policy : UnknownTagPolicy} {r : Reader} (hs : r.source.Steady)
    (hheader : RecordHeader.read r = .ok header start)
    (hpolicy : policy = .error → (TagKind.ofCode? header.code).isSome) :
    (∀ expected offset,
      (Record.read policy).outcome r ≠ .error (.unexpectedEof expected offset)) ∧
    (start.window.length < header.length.toNat →
      (∃ offset, (Record.read policy).outcome r = .error (.invalidString offset)) ∨
        ∃ expected, 1 ≤ expected ∧ (Record.read policy).outcome r =
          .error (.truncatedRecord header.code expected
            (start.position + start.window.length))) ∧
    (header.length.toNat ≤ start.window.length →
      (∀ code expected offset,
        (Record.read policy).outcome r ≠ .error (.truncatedRecord code expected offset)) ∧
      ((∃ code declared actual,
          (Record.read policy).outcome r = .error (.lengthMismatch code declared actual)) ↔
        ∃ expected offset,
          (Tag.read header).outcome (.ofSource (.ofBytes (start.window.take header.length.toNat))
            start.position) = .error (.unexpectedEof expected offset)) ∧
      ∀ code declared actual,
        (Record.read policy).outcome r = .error (.lengthMismatch code declared actual) →
          code = header.code ∧ declared = header.length.toNat ∧ header.length.toNat < actual) := by
  have hstart : start.source.Steady := by
    have hdry := (RunsDry.closed _).recordHeader r (Nat.le_refl _) hs
    rw [hheader] at hdry
    exact hdry.onward.steady
  rcases Nat.lt_or_ge start.window.length header.length.toNat with hlt | hle
  · -- the stream ends within the declared length
    have hshort := outcome_read_of_lt hheader hpolicy hstart hlt
    refine ⟨?_, fun _ => hshort, fun hle => absurd hle (by omega)⟩
    rcases hshort with ⟨offset, hresult⟩ | ⟨expected, -, hresult⟩ <;> simp [hresult]
  · -- the stream holds the declared length, and the layout alone decides
    have hnot : ¬ start.window.length < header.length.toNat := by omega
    rcases outcome_read_of_le hheader hpolicy hstart hle rfl with
      ⟨tag, result, hlayout, hresult⟩ | ⟨offset, hlayout, hresult⟩ |
      ⟨expected, hexpected, hlayout, hresult⟩
    all_goals refine ⟨?_, fun hlt => absurd hlt hnot, fun _ => ⟨?_, ?_, ?_⟩⟩
    all_goals simp [hresult, hlayout]
    -- the actual length of a mismatch
    omega

/-- A colour of three bytes in a record of two, with more behind it: whatever the stream holds
there, the lengths disagree. And one in a record of three of which the stream has one: the record is
truncated where the stream ends. -/
theorem read_short_payload_colour :
    (∃ actual, 2 < actual ∧ (Record.read .error).outcome (.ofBytes [0x42, 2, 10, 20, 30, 40]) =
      .error (.lengthMismatch 9 2 actual)) ∧
    ∃ expected, 1 ≤ expected ∧ (Record.read .error).outcome (.ofBytes [0x43, 2, 10]) =
      .error (.truncatedRecord 9 expected 3) := by
  have hheader (length : UInt32) (low : UInt8) (payload : List UInt8)
      (hbytes : RecordHeader.bytes ⟨9, length⟩ false = [low, 2]) :
      ∃ start, RecordHeader.read (.ofBytes ([low, 2] ++ payload)) = .ok ⟨9, length⟩ start ∧
        start.position = 2 ∧ start.window = payload := by
    have hcode : (9 : UInt16).toNat < 1024 := by decide
    have hreads : Reads 0 RecordHeader.read (RecordHeader.bytes ⟨9, length⟩ false) ⟨9, length⟩ :=
      RecordHeader.reads_read hcode
    rw [hbytes] at hreads
    obtain ⟨start, hread, took, -⟩ := hreads (.ofBytes ([low, 2] ++ payload)) payload
      (Source.steady_ofBytes _) rfl rfl rfl
    have hwindow : [low, 2] ++ payload = [low, 2] ++ start.window := took.window
    exact ⟨start, hread, took.position, (List.append_cancel_left hwindow).symm⟩
  constructor
  · obtain ⟨start, hread, hposition, hwindow⟩ :=
      hheader 2 0x42 [10, 20, 30, 40] (by decide)
    have hknown : UnknownTagPolicy.error = .error → (TagKind.ofCode? 9).isSome := by decide
    obtain ⟨-, -, hheld⟩ := read_short_payload (Source.steady_ofBytes _) hread hknown
    obtain ⟨-, hiff, hdata⟩ := hheld (by rw [hwindow]; decide)
    have halone : (Tag.read ⟨9, 2⟩).outcome (.ofSource (.ofBytes [10, 20]) 2) =
        .error (.unexpectedEof 1 4) := by decide +kernel
    rw [hposition, hwindow] at hiff
    obtain ⟨code, declared, actual, hrun⟩ := hiff.mpr ⟨_, _, halone⟩
    obtain ⟨rfl, rfl, hactual⟩ := hdata code declared actual hrun
    exact ⟨actual, hactual, hrun⟩
  · obtain ⟨start, hread, hposition, hwindow⟩ :=
      hheader 3 0x43 [10] (by decide)
    have hknown : UnknownTagPolicy.error = .error → (TagKind.ofCode? 9).isSome := by decide
    obtain ⟨-, hshort, -⟩ := read_short_payload (Source.steady_ofBytes _) hread hknown
    have hrun : (Record.read .error).outcome (.ofBytes [0x43, 2, 10]) =
        .error (.truncatedRecord 9 1 3) := by decide +kernel
    rcases hshort (by rw [hwindow]; decide) with ⟨offset, h⟩ | ⟨expected, hexpected, h⟩
    · cases hrun.symm.trans h
    · rw [hposition, hwindow] at h
      exact ⟨expected, hexpected, h⟩

end Record

end Swf
