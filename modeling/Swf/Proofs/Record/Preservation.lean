import Swf.Proofs.Record.Layout

/-!
# Records of no kind are written back

A record that is kept byte for byte keeps its code and its payload. The form of its header is not
kept: the writer chooses it again, and it chooses the shortest one that the length fits, but for the
codes of image and sound data, which it frames with a long header at any length. Some of those codes
have no kind. So a record in shortest form comes back as it was, unless its code is one of them and
its length would have fitted the short form (`write_of_read_shortest_iff`).
-/

namespace Swf

open Decoder Encoder

namespace RecordHeader

/-- The shortest form of a header: its word alone, or the long form where the length has no room in
the word. -/
def shortest (h : RecordHeader) : List UInt8 :=
  if h.length.toNat < 63 then bytesOfUInt16 ((h.code <<< 6) ||| h.length.toUInt16)
  else bytesOfUInt16 ((h.code <<< 6) ||| lengthEscape) ++ bytesOfUInt32 h.length

theorem needsLongForm_iff {h : RecordHeader} {forceLong : Bool} :
    h.needsLongForm forceLong = true ↔ forceLong = true ∨ 63 ≤ h.length.toNat := by
  unfold needsLongForm
  rw [Bool.or_eq_true, decide_eq_true_eq, ge_iff_le, UInt32.le_iff_toNat_le]
  rfl

/-- A header that is not forced to be long is in its shortest form. -/
theorem bytes_false (h : RecordHeader) : h.bytes false = h.shortest := by
  unfold bytes shortest
  by_cases hshort : h.length.toNat < 63
  · have hword : ¬ h.needsLongForm false = true := by
      rw [needsLongForm_iff]
      simpa using hshort
    rw [if_pos hshort, if_neg hword]
  · rw [if_neg hshort, if_pos (needsLongForm_iff.mpr (.inr (Nat.not_lt.mp hshort)))]

/-- The forms differ in their length, so the bytes tell which one it is. -/
theorem bytes_eq_shortest_iff {h : RecordHeader} {forceLong : Bool} :
    h.bytes forceLong = h.shortest ↔ 63 ≤ h.length.toNat ∨ forceLong = false := by
  rw [← bytes_false]
  constructor
  · intro hsame
    by_contra hdiffer
    obtain ⟨hshort, rfl⟩ : ¬ 63 ≤ h.length.toNat ∧ forceLong = true := by simpa using hdiffer
    have hlong : h.needsLongForm true = true := needsLongForm_iff.mpr (.inl rfl)
    have hword : ¬ h.needsLongForm false = true := by rw [needsLongForm_iff]; simpa using hshort
    have hlen := congrArg List.length hsame
    simp only [length_bytes, encodedLength, if_pos hlong, if_neg hword] at hlen
    exact absurd hlen (by decide)
  · rintro (hlong | rfl)
    · unfold bytes
      rw [if_pos (needsLongForm_iff.mpr (.inr hlong)), if_pos (needsLongForm_iff.mpr (.inr hlong))]
    · rfl

end RecordHeader

namespace Record

/-- A record of no kind is written behind a header in the form that its code asks for. -/
theorem collect_write_unknown {h : RecordHeader} {payload : List UInt8}
    (hcode : h.code.toNat < 1024) (hlen : payload.length = h.length.toNat) :
    Writer.collect (Record.write (.unknown ⟨h.code, payload⟩)) =
      .ok (h.bytes (requiresLongHeader h.code) ++ payload) := by
  have hlayout : Tag.layout (.unknown ⟨h.code, payload⟩) = .ok payload := rfl
  have hheader : (Tag.unknown ⟨h.code, payload⟩).header (UInt32.ofNat payload.length) = h := by
    rw [hlen, UInt32.ofNat_toNat]
    rfl
  have hall := layout_of_payload hlayout hcode (hlen ▸ h.length.toNat_lt)
  rw [hheader] at hall
  exact (encodes_write _).collect.trans hall

/-- **A record of no kind in shortest form** is read as its code and payload, wherever the reader
stands and whatever follows, and nothing but the record is taken. What it is written as is the same
payload behind a header with the same code and length. That is the record, byte for byte, if and
only if the length has no room in the word of a header or the code is none of those that are always
framed with a long one. -/
theorem write_of_read_shortest_iff {h : RecordHeader} {payload rest : List UInt8} {r : Reader}
    (hcode : h.code.toNat < 1024) (hkind : TagKind.ofCode? h.code = none)
    (hlen : payload.length = h.length.toNat) (hsteady : r.source.Steady)
    (hwindow : r.window = h.shortest ++ payload ++ rest) :
    ∃ (r' : Reader) (written : List UInt8),
      Record.read .preserve r = .ok (some (.unknown ⟨h.code, payload⟩)) r' ∧
      r.Took (h.shortest ++ payload) r' ∧
      Writer.collect (Record.write (.unknown ⟨h.code, payload⟩)) = .ok written ∧
      written = h.bytes (requiresLongHeader h.code) ++ payload ∧
      (written = h.shortest ++ payload ↔
        63 ≤ h.length.toNat ∨ requiresLongHeader h.code = false) := by
  have hcanon : (Tag.unknown ⟨h.code, payload⟩).Canonical := hkind
  -- bits that are pending are dropped in front of a header
  have haligned : Record.read .preserve { r with bitCount := 0 } = Record.read .preserve r := rfl
  obtain ⟨r', hread, htook, -⟩ := reads_framed false hcanon rfl hlen.symm hcode
    { r with bitCount := 0 } rest hsteady rfl rfl (by
      show r.window = h.bytes false ++ payload ++ rest
      rw [RecordHeader.bytes_false, hwindow])
  have htook : r.Took (h.bytes false ++ payload) r' :=
    ⟨htook.steady, htook.remaining, htook.position, htook.limit, htook.le_limit, htook.ofBytes⟩
  rw [RecordHeader.bytes_false] at htook
  refine ⟨r', _, haligned.symm.trans hread, htook, collect_write_unknown hcode hlen, rfl, ?_⟩
  rw [List.append_left_inj, RecordHeader.bytes_eq_shortest_iff]

/-- A block of sound data with the first length that has no room in the word, behind a byte that is
half read. -/
theorem write_of_read_shortest_iff_soundBlock :
    ∃ (payload : List UInt8) (r r' : Reader),
      payload.length = 63 ∧
      r = { source := .ofBytes ([0xFF, 0x04, 63, 0, 0, 0] ++ payload ++ [0x40, 0])
            position := 11, bitCount := 4 } ∧
      Record.read .preserve r = .ok (some (.unknown ⟨19, payload⟩)) r' ∧
      r'.source.remaining = [0x40, 0] ∧
      Writer.collect (Record.write (.unknown ⟨19, payload⟩)) =
        .ok ([0xFF, 0x04, 63, 0, 0, 0] ++ payload) := by
  obtain ⟨payload, hlen⟩ : ∃ payload : List UInt8, payload.length = 63 :=
    ⟨List.replicate 63 7, rfl⟩
  have hshortest : (⟨19, 63⟩ : RecordHeader).shortest = [0xFF, 0x04, 63, 0, 0, 0] := rfl
  obtain ⟨r, hr⟩ : ∃ r : Reader,
      r = { source := .ofBytes ([0xFF, 0x04, 63, 0, 0, 0] ++ payload ++ [0x40, 0])
            position := 11, bitCount := 4 } := ⟨_, rfl⟩
  have hlength : payload.length = (⟨19, 63⟩ : RecordHeader).length.toNat := hlen
  have hsteady : r.source.Steady := by rw [hr]; exact Source.steady_ofBytes _
  have hwindow : r.window = (⟨19, 63⟩ : RecordHeader).shortest ++ payload ++ [0x40, 0] := by
    rw [hr, hshortest]
    rfl
  obtain ⟨r', written, hread, htook, hwrite, -, hsame⟩ :=
    write_of_read_shortest_iff (by decide) (by decide) hlength hsteady hwindow
  rw [hsame.mpr (.inl (by decide)), hshortest] at hwrite
  have hrem := htook.remaining
  rw [hr, hshortest] at hrem
  exact ⟨payload, r, r', hlen, hr, hread, (List.append_cancel_left hrem).symm, hwrite⟩

/-- An image of three bytes in shortest form does not come back as it was: its code has no kind and
is always framed with a long header. -/
theorem not_written_back_in_shortest_form :
    ¬ ∀ (h : RecordHeader) (payload rest : List UInt8),
      h.code.toNat < 1024 → TagKind.ofCode? h.code = none → payload.length = h.length.toNat →
      ∃ tag r', Record.read .preserve (.ofBytes (h.shortest ++ payload ++ rest)) =
          .ok (some tag) r' ∧
        Writer.collect (Record.write tag) = .ok (h.shortest ++ payload) := by
  intro hall
  obtain ⟨tag, r', hread, hwrite⟩ := hall ⟨6, 3⟩ [1, 2, 3] [0x40, 0] (by decide) (by decide) rfl
  have hrun : (match Record.read .preserve
        (.ofBytes ([0x83, 0x01] ++ [1, 2, 3] ++ [0x40, 0])) with
      | .ok tag _ => decide (tag = some (.unknown ⟨6, [1, 2, 3]⟩))
      | .error _ _ => false) = true := by decide +kernel
  have hshortest : (⟨6, 3⟩ : RecordHeader).shortest = [0x83, 0x01] := rfl
  rw [hshortest] at hread hwrite
  rw [hread] at hrun
  obtain rfl : tag = .unknown ⟨6, [1, 2, 3]⟩ := by simpa using hrun
  have hlong : Writer.collect (Record.write (.unknown ⟨6, [1, 2, 3]⟩)) =
      .ok [0xBF, 0x01, 3, 0, 0, 0, 1, 2, 3] := by decide +kernel
  rw [hlong] at hwrite
  exact absurd hwrite (by decide)

end Record

end Swf
