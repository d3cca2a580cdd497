import Swf.Proofs.Reader.Confined
import Swf.Record.Composition

/-!
# Records keep the stream in step

A record that is read has taken its header and as many bytes as the header declares, no matter how
many of them its kind has a use for: the layout is held back from going further, and what it leaves
is passed over. And it has seen nothing else: every layout is confined to what it takes
(`Decoder.Confined.closed`), so the bytes behind the record may be any.
-/

namespace Swf

namespace Decoder

variable {α β : Type}

/-- On success `m` takes exactly `n` bytes. -/
def Takes (n : Nat) (m : Decoder α) : Prop :=
  ∀ r a r', m r = .ok a r' → r'.position = r.position + n

namespace Takes

theorem pure (a : α) : Takes 0 (pure a) := by
  intro r b r' h
  cases h
  rfl

theorem bind {j k : Nat} {m : Decoder α} {f : α → Decoder β} (hm : Takes j m)
    (hf : ∀ a, Takes k (f a)) : Takes (j + k) (m >>= f) := by
  intro r b r'' h
  obtain ⟨a, r', hma, hfb⟩ := ok_of_bind h
  rw [hf a r' b r'' hfb, hm r a r' hma, Nat.add_assoc]

theorem throw (n : Nat) (err : CodecError) : Takes n (throw err : Decoder α) := by
  intro r a r' h
  cases h

theorem map {n : Nat} {m : Decoder α} (f : α → β) (hm : Takes n m) : Takes n (f <$> m) := by
  intro r b r' h
  obtain ⟨a, hma, _⟩ := map_eq_ok h
  exact hm r a r' hma

theorem mapError {n : Nat} {m : Decoder α} (f : CodecError → CodecError) (hm : Takes n m) :
    Takes n (mapError f m) := fun r a r' h => hm r a r' (mapError_eq_ok h)

theorem align : Takes 0 align := by
  intro r a r' h
  cases h
  rfl

theorem fill (n : Nat) : Takes n (fill n) := by
  intro r got r' h
  obtain ⟨_, _, s, _, rfl⟩ := gather_of_fill h
  rfl

theorem drain (n : Nat) : Takes n (drain n) := by
  fun_induction Decoder.drain n with
  | case1 => exact pure _
  | case2 n _ left ih =>
    have hall : min n chunkSize + (left + 0) = n := by
      show min n chunkSize + (n - min n chunkSize) = n
      omega
    have := (mapError (missingMore left) (fill (min n chunkSize))).bind fun chunk =>
      ih.bind fun rest => pure (chunk ++ rest)
    rwa [hall] at this

theorem readFully (n : Nat) : Takes n (readFully n) := by
  have := align.bind fun _ => fill n
  rwa [Nat.zero_add] at this

theorem readBytes (n : Nat) : Takes n (readBytes n) := by
  have := align.bind fun _ => drain n
  rwa [Nat.zero_add] at this

theorem skip (n : Nat) : Takes n (skip n) := (readBytes n).bind fun _ => pure ()

theorem readUInt16 : Takes 2 readUInt16 := (readFully 2).bind fun _ => pure _

theorem readUInt32 : Takes 4 readUInt32 := (readFully 4).bind fun _ => pure _

end Takes

end Decoder

namespace RecordHeader

open Decoder

/-- A header is two bytes long, or six. -/
theorem position_of_read {r r' : Reader} {header : RecordHeader}
    (h : RecordHeader.read r = .ok header r') :
    r'.position = r.position + 2 ∨ r'.position = r.position + 6 := by
  obtain ⟨word, r₁, hword, hrest⟩ := ok_of_bind h
  have hfirst := Takes.readUInt16 r word r₁ hword
  simp only at hrest
  split at hrest
  · obtain ⟨length, r₂, hlength, hpure⟩ := ok_of_bind hrest
    cases hpure
    have := Takes.readUInt32 r₁ length _ hlength
    exact .inr (by omega)
  · cases hrest
    exact .inl hfirst

end RecordHeader

namespace Record

open Decoder

/-- **A payload** is as long as its header says, whatever its layout makes of it. -/
theorem takes_readPayload (header : RecordHeader) :
    Takes header.length.toNat (readPayload header) := by
  intro r tag r' h
  obtain ⟨start, r₀, hstart, hwithin⟩ := ok_of_bind h
  cases hstart
  obtain ⟨s, hpart, rfl⟩ := within_eq_ok hwithin
  obtain ⟨tag', s₁, htag, hrest⟩ := ok_of_bind hpart
  obtain ⟨here, s₂, hhere, hleft⟩ := ok_of_bind hrest
  cases hhere
  -- the layout has not gone beyond the declared length
  obtain ⟨taken, hmoved, _⟩ := Confined.closed.tag header _ _ _ (mapError_eq_ok htag)
  have hpos : s₁.position = r.position + taken.length := hmoved.position
  have hbound : taken.length ≤ header.length.toNat :=
    Nat.le_trans (hmoved.le_limit _ rfl) (Nat.min_le_left ..)
  show s.position = _
  simp only at hleft
  split at hleft
  · -- what it has left is passed over
    have hskip := ((Takes.skip _).mapError _).bind (fun _ => Takes.pure tag') _ _ _ hleft
    omega
  · cases hleft
    omega

/-- What a record takes: a header, and the bytes that it declares. -/
theorem header_of_read {policy : UnknownTagPolicy} {r r' : Reader} {tag : Option Tag}
    (h : Record.read policy r = .ok tag r') :
    ∃ header start, RecordHeader.read r = .ok header start ∧
      r'.position = start.position + header.length.toNat := by
  obtain ⟨offset, r₀, hoffset, hrest⟩ := ok_of_bind h
  cases hoffset
  obtain ⟨header, start, hheader, hbody⟩ := ok_of_bind hrest
  refine ⟨header, start, hheader, (?_ : Takes header.length.toNat _) start tag r' hbody⟩
  split
  · exact ((Takes.skip _).mapError _).bind fun _ => Takes.pure none
  · exact Takes.throw _ _
  · exact (takes_readPayload header).map some

/-- **Framing.** A record that was read, whatever its source and wherever it starts, has taken the
two or six bytes of its header and the bytes that the header declares, and nothing else was looked
at: in front of the same bytes any steady source gives the same, whatever it holds behind them, and
so does the same feed with anything else behind them. -/
theorem read_confined {policy : UnknownTagPolicy} {r r' : Reader} {tag : Option Tag}
    (h : Record.read policy r = .ok tag r') :
    ∃ (header : RecordHeader) (start : Reader) (size : Nat) (record : List UInt8),
      RecordHeader.read r = .ok header start ∧ start.position = r.position + size ∧
      (size = 2 ∨ size = 6) ∧
      record.length = size + header.length.toNat ∧
      r'.position = r.position + record.length ∧
      r.source.remaining = record ++ r'.source.remaining ∧
      (∀ (t : Source) (rest : List UInt8), t.Steady → t.remaining = record ++ rest →
        ∃ t', Record.read policy (r.onto t) = .ok tag (r'.onto t') ∧ t'.Steady ∧
          t'.remaining = rest) ∧
      (∀ (rest rest' : List UInt8) (schedule : List Turn),
        r.source = .feed ⟨record ++ rest, schedule⟩ →
        ∃ schedule', r'.source = .feed ⟨rest, schedule'⟩ ∧
          Record.read policy (r.onto (.feed ⟨record ++ rest', schedule⟩)) =
            .ok tag (r'.onto (.feed ⟨rest', schedule'⟩))) := by
  obtain ⟨header, start, hheader, hend⟩ := header_of_read h
  obtain ⟨record, hmoved, hsame⟩ := Confined.closed.record policy r tag r' h
  have hlen := hmoved.position
  obtain ⟨size, hsize, hstart⟩ : ∃ size, (size = 2 ∨ size = 6) ∧
      start.position = r.position + size := by
    rcases RecordHeader.position_of_read hheader with hpos | hpos
    · exact ⟨2, .inl rfl, hpos⟩
    · exact ⟨6, .inr rfl, hpos⟩
  refine ⟨header, start, size, record, hheader, hstart, hsize, by omega, hlen, hmoved.remaining,
    ?_, ?_⟩
  · intro t rest hs hrem
    obtain ⟨t', hread, hs', hrem'⟩ := hsame _ (Source.substitutes_steadyFor []) t rest
      ⟨hs, by rw [hrem, List.append_nil]⟩
    exact ⟨t', hread, hs', by rw [hrem', List.append_nil]⟩
  · intro rest rest' schedule hfeed
    obtain ⟨t', hread, schedule', hs', rfl⟩ :=
      hsame _ (Source.substitutes_sameBut rest rest') (.feed ⟨record ++ rest', schedule⟩) []
        ⟨schedule, by rw [hfeed, List.append_nil], by rw [List.append_nil]⟩
    exact ⟨schedule', hs', hread⟩

/-- A colour of three bytes in a record of five, behind bits that nobody has read, from a source
that hands out one byte and then asks to be called again. The bytes behind it may be any. -/
theorem read_confined_excess :
    ∃ r r' : Reader,
      r = { source := .feed ⟨[0x45, 2, 10, 20, 30, 5, 5, 7], [.upTo 1, .interrupted]⟩
            position := 100, bitCount := 3 } ∧
      Record.read .error r = .ok (some (.setBackgroundColor ⟨10, 20, 30⟩)) r' ∧
      r'.position = 107 ∧
      ∀ rest, ∃ schedule,
        Record.read .error
            (r.onto (.feed ⟨[0x45, 2, 10, 20, 30, 5, 5] ++ rest, [.upTo 1, .interrupted]⟩)) =
          .ok (some (.setBackgroundColor ⟨10, 20, 30⟩)) (r'.onto (.feed ⟨rest, schedule⟩)) := by
  obtain ⟨r, hr⟩ : ∃ r : Reader,
      r = { source := .feed ⟨[0x45, 2, 10, 20, 30, 5, 5, 7], [.upTo 1, .interrupted]⟩
            position := 100, bitCount := 3 } := ⟨_, rfl⟩
  have hrun : (match Record.read .error r with
      | .ok tag r' => decide (tag = some (.setBackgroundColor ⟨10, 20, 30⟩) ∧
          r' = { source := .feed ⟨[7], []⟩, position := 107 })
      | .error _ _ => false) = true := by
    rw [hr]
    decide +kernel
  cases hread : Record.read .error r with
  | error err r' => rw [hread] at hrun; cases hrun
  | ok tag r' =>
    rw [hread] at hrun
    obtain ⟨rfl, rfl⟩ := of_decide_eq_true hrun
    refine ⟨r, _, hr, hread, rfl, fun rest => ?_⟩
    obtain ⟨_, _, _, record, _, _, _, _, _, hrem, _, hfeed⟩ := read_confined hread
    have hrem : [0x45, 2, 10, 20, 30, 5, 5] ++ [7] = record ++ [7] := by rw [hr] at hrem; exact hrem
    obtain rfl := List.append_cancel_right hrem
    obtain ⟨schedule, _, hsame⟩ := hfeed [7] rest [.upTo 1, .interrupted] (by rw [hr]; rfl)
    exact ⟨schedule, hsame⟩

end Record

end Swf
