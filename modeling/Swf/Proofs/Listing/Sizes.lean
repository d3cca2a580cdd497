import Swf.Listing.Summary
import Swf.Proofs.Movie.RoundTrip

/-!
# The listing accounts for every byte

A listing gives a size for each record, and nothing in it was counted while the file was written.
Most sizes follow from the parts of a tag, some are measured in a sink apart, the size of the stage
bounds comes from a formula of its own, and which header a record has is told by its code and
length. Still they add up to the length of the file, and to the length in its header
(`Movie.length_eq_of_summarize`).

The induction is on the records; a record is as long as its row says (`Record.length_of_layout`),
because the row holds the length that the writer puts into the header.
-/

namespace Swf

/-- The bytes that the record of a row takes in its file: a header in the form that its code and
length ask for, and the payload. -/
def TagSummary.recordSize (row : TagSummary) : Nat :=
  ({ code := row.code, length := row.length } : RecordHeader).encodedLength
    (requiresLongHeader row.code) + row.length.toNat

/-- A record that can be written has a row, and is as long as the row says. -/
theorem Record.length_of_layout {tag : Tag} {bytes : List UInt8} (h : layout tag = .ok bytes) :
    ∃ row, TagSummary.ofTag tag = .ok row ∧ bytes.length = row.recordSize := by
  obtain ⟨declared, payload, hpayload, hlen, -, rfl⟩ := layout_eq_ok h
  refine ⟨{ code := tag.code, name := tag.name, length := declared, detail := tag.detail }, ?_, ?_⟩
  · unfold TagSummary.ofTag
    rw [Tag.length_of_payload hpayload hlen]
    rfl
  · rw [List.length_append, RecordHeader.length_bytes, ← hlen]
    rfl

namespace Movie

/-- So have all records of a file. -/
theorem length_of_recordsLayout {tags : List Tag} {bytes : List UInt8}
    (h : recordsLayout tags = .ok bytes) :
    ∃ rows, tags.mapM TagSummary.ofTag = .ok rows ∧
      bytes.length = (rows.map TagSummary.recordSize).sum := by
  induction tags generalizing bytes with
  | nil =>
    cases h
    exact ⟨[], rfl, rfl⟩
  | cons tag tags ih =>
    obtain ⟨front, back, hfront, hback, rfl⟩ := Layout.followedBy_eq_ok h
    obtain ⟨row, hrow, hfirst⟩ := Record.length_of_layout hfront
    obtain ⟨rows, hrows, hrest⟩ := ih hback
    refine ⟨row :: rows, ?_, ?_⟩
    · rw [List.mapM_cons, hrow, hrows]
      rfl
    · rw [List.length_append, hfirst, hrest, List.map_cons, List.sum_cons]

theorem records_of_not_mem {m : Movie} (h : Tag.end ∉ m.tags) : m.records = m.visited := by
  unfold records visited
  rw [filter_end_of_not_mem h]

/-- The four bytes behind the version are the length of the file. -/
theorem littleEndian_fileHeader (m : Movie) (fileLength : UInt32) (stored : List UInt8) :
    littleEndian (((m.fileHeader fileLength ++ stored).drop 4).take 4) = fileLength.toNat := by
  have hfront : (m.signature ++ [m.header.version]).length = 4 := by
    rw [List.length_append, length_signature]
    rfl
  unfold fileHeader
  rw [← List.append_assoc m.signature, List.append_assoc, List.drop_left' hfront,
    List.take_left' (length_bytesOfUInt32 _), littleEndian_bytesOfUInt32]

/-- **Every byte is accounted for.** A plain movie that can be written can be listed, and its file
is as long as its header says: eight bytes, the stage bounds, four bytes for rate and count, and for
each row of the listing, that of the record at the end included, a header and a payload. -/
theorem length_eq_of_summarize {compress : List UInt8 → List UInt8} {m : Movie} {b : List UInt8}
    (hplain : m.compressed = false) (hend : Tag.end ∉ m.tags) (h : m.toBytesWith compress = .ok b) :
    ∃ s, m.summarize = .ok s ∧
      b.length = littleEndian ((b.drop 4).take 4) ∧
      b.length = 8 + m.header.frameSize.encodedLength + 4 +
        (s.tags.map TagSummary.recordSize).sum := by
  obtain ⟨body, fileLength, hbody, hlen, rfl⟩ := toBytesWith_eq_ok h
  have hstored : m.stored compress body = body := by
    unfold stored
    rw [hplain]
    rfl
  have htotal : (m.fileHeader fileLength ++ body).length = 8 + body.length := by
    unfold fileHeader
    simp only [List.length_append, length_signature, length_bytesOfUInt32, List.length_singleton]
  obtain ⟨bounds, rest, hbounds, hrest, rfl⟩ := Layout.followedBy_eq_ok hbody
  obtain ⟨rate, rest', hrate, hrest', rfl⟩ := Layout.followedBy_eq_ok hrest
  obtain ⟨count, records, hcount, hrecords, rfl⟩ := Layout.followedBy_eq_ok hrest'
  cases hrate
  cases hcount
  rw [records_of_not_mem hend] at hrecords
  obtain ⟨rows, hrows, hsum⟩ := length_of_recordsLayout hrecords
  refine ⟨{ compressed := m.compressed, header := m.header, tags := rows }, ?_, ?_, ?_⟩
  · unfold summarize
    rw [hrows]
    rfl
  · rw [hstored, littleEndian_fileHeader, htotal, hlen]
    rfl
  · rw [hstored, htotal]
    simp only [List.length_append, Rect.length_of_layout hbounds, length_bytesOfUInt16, hsum]
    omega

/-- A grid that is measured, an image whose short record has a long header, and a name of two bytes
for one letter. Behind the first 21 bytes their records are 11, 10 and 9 bytes long, and the one at
the end 2. -/
theorem length_eq_of_summarize_measured :
    ∃ (m : Movie) (b : List UInt8) (s : MovieSummary),
      m.tags = [.defineScalingGrid ⟨5, ⟨-7, 1000, 0, 40⟩⟩, .defineBitsJpeg2 ⟨1, [255, 216]⟩,
        .symbolClass ⟨[(5, "é")]⟩] ∧
      m.toBytesWith Zlib.compress = .ok b ∧ m.summarize = .ok s ∧
      s.tags.map TagSummary.recordSize = [11, 10, 9, 2] ∧
      b.length = 8 + 9 + 4 + (11 + 10 + 9 + 2) ∧ littleEndian ((b.drop 4).take 4) = 53 := by
  obtain ⟨m, hm⟩ : ∃ m : Movie, m = { tags := [.defineScalingGrid ⟨5, ⟨-7, 1000, 0, 40⟩⟩,
      .defineBitsJpeg2 ⟨1, [255, 216]⟩, .symbolClass ⟨[(5, "é")]⟩] } := ⟨_, rfl⟩
  have hfile : m.toBytesWith Zlib.compress =
      .ok [70, 87, 83, 10, 53, 0, 0, 0, 120, 0, 5, 95, 0, 0, 15, 160, 0, 0, 24, 1, 0, 137, 19, 5, 0,
        95, 249, 125, 0, 0, 20, 0, 127, 5, 4, 0, 0, 0, 1, 0, 255, 216, 7, 19, 1, 0, 5, 0, 195, 169,
        0, 0, 0] := by
    rw [hm]
    decide +kernel
  obtain ⟨s, hs, hlength, hsum⟩ :=
    length_eq_of_summarize (by rw [hm]) (by rw [hm]; decide) hfile
  have hrows : s.tags.map TagSummary.recordSize = [11, 10, 9, 2] := by
    have hall : m.summarize.map (·.tags.map TagSummary.recordSize) = .ok [11, 10, 9, 2] := by
      rw [hm]
      decide +kernel
    rw [hs] at hall
    exact Except.ok.inj hall
  have hbounds : m.header.frameSize.encodedLength = 9 := by rw [hm]; rfl
  rw [hrows, hbounds] at hsum
  exact ⟨m, _, s, by rw [hm], hfile, hs, hrows, hsum, hlength.symm⟩

end Movie

end Swf
