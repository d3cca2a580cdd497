import Swf.Proofs.Movie.Readable

/-!
# Files that were read can be written

Reading accepts more than writing produces: long headers on short records, fields wider than their
values, bytes behind a payload, a missing end. All of that is gone from the movie, and what is left
the writer can write, with one exception: a rectangle with a bound of `-2^30`, which the widest
field holds and the width rule has no room for. Written once, a file is in normal form: it is read
as the same movie, and that movie is written as the same file.

Which layouts fail is followed from the rectangles up. `Layout.OverflowsIff layout P` says that the
layout fails just when `P` holds, and then with the one error there is; putting layouts behind each
other joins their conditions.
-/

namespace Swf

/-- The error of a rectangle whose widest bound counts 32 bits. -/
def Rect.overflow : CodecError := .rangeOverflow .rectBound 32 31

/-- The layout fails just when `P` holds, and then because a rectangle is too wide. -/
def Layout.OverflowsIff (layout : Layout) (P : Prop) : Prop :=
  (P ∧ layout = .error Rect.overflow) ∨ (¬ P ∧ ∃ bytes, layout = .ok bytes)

namespace Layout

theorem overflowsIff_ok (bytes : List UInt8) : OverflowsIff (.ok bytes) False :=
  .inr ⟨id, bytes, rfl⟩

theorem OverflowsIff.followedBy {first second : Layout} {P Q : Prop} (h : first.OverflowsIff P)
    (h' : second.OverflowsIff Q) : (first.followedBy second).OverflowsIff (P ∨ Q) := by
  rcases h with ⟨hP, rfl⟩ | ⟨hP, bytes, rfl⟩
  · exact .inl ⟨.inl hP, rfl⟩
  · rcases h' with ⟨hQ, rfl⟩ | ⟨hQ, bytes', rfl⟩
    · exact .inl ⟨.inr hQ, rfl⟩
    · exact .inr ⟨fun h => h.elim hP hQ, _, rfl⟩

theorem OverflowsIff.congr {layout : Layout} {P Q : Prop} (h : layout.OverflowsIff P)
    (hPQ : P ↔ Q) : layout.OverflowsIff Q := by
  rcases h with ⟨hP, hl⟩ | ⟨hP, hl⟩
  · exact .inl ⟨hPQ.mp hP, hl⟩
  · exact .inr ⟨fun hQ => hP (hPQ.mpr hQ), hl⟩

end Layout

/-! ## Tags -/

/-- A rectangle whose bounds fit the widest field. -/
theorem Rect.overflowsIff_layout {r : Rect} (h : r.Readable) :
    r.layout.OverflowsIff (lowest ∈ r.bounds) := by
  rcases layout_of_bounded h with ⟨hlow, hl⟩ | ⟨hlow, hl⟩
  · exact .inl ⟨hlow, hl⟩
  · exact .inr ⟨hlow, _, hl⟩

/-- Whether a rectangle of the tag has the lowest bound. -/
def Tag.HasLowest (tag : Tag) : Prop := ∃ rect ∈ tag.rects, Rect.lowest ∈ rect.bounds

namespace Record

/-- A tag that was read is written unless a rectangle of it has the lowest bound. -/
theorem overflowsIff_layout {tag : Tag} (h : tag.Readable maxRecordLength) :
    (layout tag).OverflowsIff tag.HasLowest := by
  by_cases hlow : tag.HasLowest
  · -- the length of such a tag is measured, so it fails in the same way as its payload
    refine .inl ⟨hlow, ?_⟩
    obtain ⟨rect, hrect, hmem⟩ := hlow
    cases tag with
    | defineScalingGrid grid =>
      obtain rfl : rect = grid.splitter := by simpa [Tag.rects] using hrect
      have hfail : grid.splitter.layout = .error Rect.overflow := by
        rcases Rect.overflowsIff_layout (h.sized.rects _ hrect) with ⟨_, hl⟩ | ⟨hno, _⟩
        · exact hl
        · exact absurd hmem hno
      have hlength : (Tag.defineScalingGrid grid).length = .error Rect.overflow := by
        show Tag.measure _ = _
        rw [Tag.measure_eq, Tag.layout, hfail]
        rfl
      unfold layout
      rw [hlength]
      rfl
    | _ => exact absurd hrect (by simp [Tag.rects])
  · obtain ⟨payload, hpayload, hlen⟩ :=
      h.sized.layout fun rect hrect hmem => hlow ⟨rect, hrect, hmem⟩
    have hmax : maxRecordLength = 0xFFFFFFFF := rfl
    exact .inr ⟨hlow, _, layout_of_payload hpayload h.code (by omega)⟩

end Record

/-! ## Movies -/

namespace Movie

theorem overflowsIff_recordsLayout {tags : List Tag}
    (h : ∀ tag ∈ tags, tag.Readable maxRecordLength) :
    (recordsLayout tags).OverflowsIff (∃ tag ∈ tags, tag.HasLowest) := by
  induction tags with
  | nil => exact (Layout.overflowsIff_ok []).congr (by simp)
  | cons tag tags ih =>
    have hfirst := Record.overflowsIff_layout (h tag (List.mem_cons_self ..))
    have hrest := ih fun t ht => h t (List.mem_cons_of_mem _ ht)
    exact (hfirst.followedBy hrest).congr (by simp)

/-- The rectangles of a movie: the stage bounds and those of its tags. -/
def rects (m : Movie) : List Rect := m.header.frameSize :: m.tags.flatMap Tag.rects

theorem readable_end : Tag.end.Readable maxRecordLength :=
  ⟨rfl, by decide, Tag.Sized.of_layout rfl rfl (by simp)⟩

theorem records_of_readable {m : Movie} (h : m.Readable) : m.tags.filter (· ≠ .end) = m.tags :=
  filter_end_of_not_mem h.tags.1

theorem overflowsIff_bodyLayout {m : Movie} (h : m.Readable) :
    m.bodyLayout.OverflowsIff (∃ rect ∈ m.rects, Rect.lowest ∈ rect.bounds) := by
  have hrecords : (recordsLayout m.records).OverflowsIff (∃ tag ∈ m.tags, tag.HasLowest) := by
    have hall : ∀ tag ∈ m.tags ++ [.end], tag.Readable maxRecordLength := by
      intro tag ht
      rcases List.mem_append.mp ht with ht | ht
      · exact h.tags.2 tag ht
      · rw [List.mem_singleton.mp ht]
        exact readable_end
    unfold records
    rw [records_of_readable h]
    exact (overflowsIff_recordsLayout hall).congr (by simp [Tag.HasLowest, Tag.rects])
  refine ((Rect.overflowsIff_layout h.frameSize).followedBy ((Layout.overflowsIff_ok _).followedBy
    ((Layout.overflowsIff_ok _).followedBy hrecords))).congr ?_
  have htags : (∃ tag ∈ m.tags, tag.HasLowest) ↔
      ∃ rect ∈ m.tags.flatMap Tag.rects, Rect.lowest ∈ rect.bounds := by
    constructor
    · rintro ⟨tag, htag, rect, hrect, hlow⟩
      exact ⟨rect, List.mem_flatMap.mpr ⟨tag, htag, hrect⟩, hlow⟩
    · rintro ⟨rect, hrect, hlow⟩
      obtain ⟨tag, htag, hmem⟩ := List.mem_flatMap.mp hrect
      exact ⟨tag, htag, rect, hmem, hlow⟩
  rw [htags]
  simp [rects]

theorem lowest_mem_iff {r : Rect} :
    Rect.lowest ∈ r.bounds ↔ ∃ v ∈ r.bounds, v.toInt = -2 ^ 30 := by
  refine ⟨fun h => ⟨_, h, rfl⟩, fun ⟨v, hv, hval⟩ => ?_⟩
  have hlow : v = Rect.lowest := Int32.toInt_inj.mp hval
  exact hlow ▸ hv

/-- The file of a movie that was read, which is short enough to have one. -/
theorem overflowsIff_toBytesWith {m : Movie} (compress : List UInt8 → List UInt8) (h : m.Readable)
    (hlen : ∀ body, m.bodyLayout = .ok body → fileHeaderLength + body.length < 0x100000000) :
    Layout.OverflowsIff (m.toBytesWith compress)
      (∃ rect ∈ m.rects, Rect.lowest ∈ rect.bounds) := by
  rw [toBytesWith_eq]
  unfold fileLayout
  rw [encodeBody_eq]
  rcases overflowsIff_bodyLayout h with ⟨hlow, hbody⟩ | ⟨hlow, body, hbody⟩
  · rw [hbody]
    exact .inl ⟨hlow, rfl⟩
  · have hshort := hlen body hbody
    rw [hbody]
    simp only
    rw [if_neg (by omega)]
    exact .inr ⟨hlow, _, rfl⟩

/-- What a movie that was read is written as is read as that movie. -/
theorem ofBytes_of_readable {compress : List UInt8 → List UInt8} {m : Movie} {b : List UInt8}
    (h : m.Readable) (hz : m.compressed = true → Zlib.Inverts compress)
    (hb : m.toBytesWith compress = .ok b) : ofBytes .preserve b = .ok m := by
  obtain ⟨body, fileLength, hbody, hcount, rfl⟩ := toBytesWith_eq_ok hb
  have hback := ofBytes_of_layout hz (fun tag ht => (h.tags.2 tag ht).canonical) hbody hcount
  rw [records_of_readable h] at hback
  exact hback

/-- **A movie that was read is written, or one of its rectangles has a bound of `-2^30`.** What it
is written as is read as the movie again, and so rewriting changes nothing the second time. -/
theorem toBytesWith_of_ofBytes {compress : List UInt8 → List UInt8} {policy : UnknownTagPolicy}
    {b : List UInt8} {m : Movie} (h : ofBytes policy b = .ok m)
    (hlen : ∀ body, Writer.collect m.writeBody = .ok body →
      fileHeaderLength + body.length < 0x100000000)
    (hz : m.compressed = true → Zlib.Inverts compress) :
    ((∃ err, m.toBytesWith compress = .error err) ↔
        ∃ rect ∈ m.rects, ∃ v ∈ rect.bounds, v.toInt = -2 ^ 30) ∧
      (∀ err, m.toBytesWith compress = .error err → err = .rangeOverflow .rectBound 32 31) ∧
      ∀ b', m.toBytesWith compress = .ok b' →
        ofBytes .preserve b' = .ok m ∧
          (do (← ofBytes .preserve b').toBytesWith compress) = .ok b' := by
  have hm := readable_of_ofBytes h
  rw [collect_writeBody] at hlen
  have hcases := overflowsIff_toBytesWith compress hm hlen
  simp only [lowest_mem_iff] at hcases
  refine ⟨?_, ?_, ?_⟩
  · rcases hcases with ⟨hlow, hfail⟩ | ⟨hlow, b', hok⟩
    · exact ⟨fun _ => hlow, fun _ => ⟨_, hfail⟩⟩
    · refine ⟨fun ⟨err, herr⟩ => ?_, fun h => absurd h hlow⟩
      rw [hok] at herr
      exact absurd herr (by simp)
  · intro err herr
    rcases hcases with ⟨_, hfail⟩ | ⟨_, b', hok⟩
    · rw [hfail] at herr
      exact (Except.error.inj herr).symm
    · rw [hok] at herr
      exact absurd herr (by simp)
  · intro b' hb'
    have hback := ofBytes_of_readable hm hz hb'
    refine ⟨hback, ?_⟩
    rw [hback]
    exact hb'

/-- A file with a long header on a short record, two bytes that its kind has no use for, and no end.
It is rewritten to a shorter one. -/
theorem toBytesWith_of_ofBytes_longHeader :
    ofBytes .error
        [70, 87, 83, 10, 21, 0, 0, 0, 0, 0, 24, 1, 0, 0x7F, 0, 2, 0, 0, 0, 5, 5] =
        .ok { header := { frameSize := {} }, tags := [.showFrame] } ∧
      toBytesWith Zlib.compress { header := { frameSize := {} }, tags := [.showFrame] } =
        .ok [70, 87, 83, 10, 17, 0, 0, 0, 0, 0, 24, 1, 0, 0x40, 0, 0, 0] ∧
      ofBytes .preserve [70, 87, 83, 10, 17, 0, 0, 0, 0, 0, 24, 1, 0, 0x40, 0, 0, 0] =
        .ok { header := { frameSize := {} }, tags := [.showFrame] } := by
  have hread : ofBytes .error
      [70, 87, 83, 10, 21, 0, 0, 0, 0, 0, 24, 1, 0, 0x7F, 0, 2, 0, 0, 0, 5, 5] =
      .ok { header := { frameSize := {} }, tags := [.showFrame] } := by decide +kernel
  have hwrite : toBytesWith Zlib.compress { header := { frameSize := {} }, tags := [.showFrame] } =
      .ok [70, 87, 83, 10, 17, 0, 0, 0, 0, 0, 24, 1, 0, 0x40, 0, 0, 0] := by decide +kernel
  have hbody : Writer.collect
      (writeBody { header := { frameSize := {} }, tags := [.showFrame] }) =
      .ok [0, 0, 24, 1, 0, 0x40, 0, 0, 0] := by decide +kernel
  have hall := toBytesWith_of_ofBytes hread (fun body h => by
    rw [hbody] at h
    obtain rfl := Except.ok.inj h
    decide) (fun _ => Zlib.inverts_compress)
  exact ⟨hread, hwrite, (hall.2.2 _ hwrite).1⟩

end Movie

end Swf
