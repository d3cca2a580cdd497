import Swf.Proofs.Movie.Compression
import Swf.Proofs.Record.Unknown

/-!
# The policies for unknown records agree

What a file is read as under one policy decides what it is read as under the others. The loop over
records is the same for all three, so what is known of one record (`Record.read_skip`,
`Record.strict_read`) carries over to all of them by induction on the bytes that are left, and from
there to the file, since nothing else in it looks at the policy.

To say which record is refused, the loop is run so that it keeps the offset of each header
(`placeTags`); without the offsets it is the loop of the file (`readTags_eq_placeTags`).
-/

namespace Swf.Movie

open Decoder

/-! ## Records with their offsets -/

/-- Reads records as `readTags` does, each with the offset of its header. -/
def placeTags (policy : UnknownTagPolicy) (fileLength : Nat) :
    Decoder (List (Nat × Tag)) := fun r =>
  if r.position ≥ fileLength then .ok [] r
  else
    match _h : Record.read policy r with
    | .error err r' => .error err r'
    | .ok (some .end) r' => .ok [] r'
    | .ok tag r' =>
      match placeTags policy fileLength r' with
      | .ok placed r'' => .ok (tag.toList.map (r.position, ·) ++ placed) r''
      | .error err r'' => .error err r''
termination_by r => r.source.remaining.length
decreasing_by exact Record.remaining_lt_of_read _h

/-- One round of the loop. -/
theorem placeTags_eq (policy : UnknownTagPolicy) (fileLength : Nat) :
    placeTags policy fileLength = position >>= fun p =>
      if p ≥ fileLength then pure []
      else Record.read policy >>= fun tag =>
        if tag = some .end then pure []
        else placeTags policy fileLength >>= fun placed =>
          pure (tag.toList.map (p, ·) ++ placed) := by
  funext r
  have hpos : position r = .ok r.position r := rfl
  rw [placeTags, bind_of_ok hpos]
  by_cases hend : r.position ≥ fileLength
  · rw [if_pos hend, if_pos hend]
    rfl
  · rw [if_neg hend, if_neg hend]
    split
    · next h => rw [bind_of_error h]
    · next h => rw [bind_of_ok h, if_pos rfl]; rfl
    · next tag r' hne h =>
      rw [bind_of_ok h, if_neg fun he => hne he]
      split
      · next h' => rw [bind_of_ok h']; rfl
      · next h' => rw [bind_of_error h']

/-- Without the offsets, this is the loop of the file. -/
theorem readTags_eq_placeTags (policy : UnknownTagPolicy) (fileLength : Nat) :
    readTags policy fileLength = List.map Prod.snd <$> placeTags policy fileLength := by
  funext r
  refine Record.induction_on_records (P := fun r => readTags policy fileLength r =
    (List.map Prod.snd <$> placeTags policy fileLength) r) (fun r ih => ?_) r
  rw [readTags_eq, placeTags_eq, map_bind]
  refine bind_congr_of_ok fun p s hp => ?_
  cases hp
  split
  · rfl
  · rw [map_bind]
    refine bind_congr_of_ok fun tag s hread => ?_
    split
    · rfl
    · exact bind_pure_of_map (ih policy tag s hread) fun placed => by
        simp only [List.map_append, List.map_map, Function.comp_def, List.map_id']

/-! ## The loop under each policy -/

/-- **Skipping** is keeping all records and dropping those of no kind afterwards. -/
theorem placeTags_skip (fileLength : Nat) :
    placeTags .skip fileLength =
      List.filter (·.2.kind?.isSome) <$> placeTags .preserve fileLength := by
  funext r
  refine Record.induction_on_records (P := fun r => placeTags .skip fileLength r =
    (List.filter (·.2.kind?.isSome) <$> placeTags .preserve fileLength) r) (fun r ih => ?_) r
  rw [placeTags_eq .skip, placeTags_eq .preserve, map_bind]
  refine bind_congr_of_ok fun p s hp => ?_
  cases hp
  split
  · rfl
  · rw [map_bind, Record.read_skip, bind_map_left]
    refine bind_congr_of_ok fun tag s hread => ?_
    have hskip : Record.read .skip r = .ok (Record.dropUnknown tag) s := by
      rw [Record.read_skip, map_of_ok hread]
    rw [if_congr Record.dropUnknown_eq_end rfl rfl]
    split
    · rfl
    · refine bind_pure_of_map (ih .skip _ s hskip) fun placed => ?_
      rw [Record.toList_dropUnknown, List.filter_append, List.filter_map]
      rfl

/-- What refusing the records of a file reports. -/
def refusedAmong (placed : List (Nat × Tag)) : Option (UInt16 × Nat) :=
  placed.findSome? fun entry => entry.2.refused entry.1

theorem refusedAmong_append (tag : Option Tag) (p : Nat) (placed : List (Nat × Tag)) :
    refusedAmong (tag.toList.map (p, ·) ++ placed) =
      (tag.bind (Tag.refused p)).or (refusedAmong placed) := by
  unfold refusedAmong
  rw [List.findSome?_append]
  cases tag <;> simp

/-- **Refusing** goes as far as the first record of no kind. -/
theorem strict_placeTags (fileLength : Nat) (r : Reader) :
    Strict refusedAmong (placeTags .preserve fileLength r) (placeTags .error fileLength r) := by
  refine Record.induction_on_records (P := fun r => Strict refusedAmong
    (placeTags .preserve fileLength r) (placeTags .error fileLength r)) (fun r ih => ?_) r
  rw [placeTags_eq .preserve, placeTags_eq .error]
  refine Strict.bind_same fun p s hp => ?_
  cases hp
  split
  · exact .ok rfl
  · refine (Record.strict_read r).bind (fun tag s hread hnone => ?_) ?_
    · split
      · exact .ok rfl
      · -- nothing is refused here, so the rest of the loop decides
        refine (ih .preserve tag s hread).bind (fun placed t _ hrest => .ok ?_) ?_
        · rw [refusedAmong_append, hnone, hrest]
          rfl
        · intro placed t all t' x hx h
          cases h
          rw [refusedAmong_append, hnone, hx]
          rfl
    · intro tag s all t x hx h
      split at h
      · next hend =>
        rw [hend] at hx
        cases hx
      · obtain ⟨placed, t', -, hpure⟩ := ok_of_bind h
        cases hpure
        rw [refusedAmong_append, hx]
        rfl

/-! ## Files -/

/-- Reads what stands in front of the records: the declared length of the file, and the movie
without its tags. -/
def readOpening : Decoder (Nat × Movie) := do
  let (compressed, version, fileLength) ← openBody
  let frameSize ← Rect.read
  let frameRate ← Decoder.readUInt16
  let frameCount ← Decoder.readUInt16
  return (fileLength.toNat,
    { compressed, header := { version, frameSize, frameRate, frameCount }, tags := [] })

/-- Fails behind the declared length of the file. -/
def checkLength (fileLength : Nat) : Decoder Unit := do
  let actual ← Decoder.position
  if actual > fileLength then throw (.fileLengthMismatch fileLength actual)

/-- Reads a file as `decode` does, the tags apart and with the offsets of their headers. -/
def decodePlaced (policy : UnknownTagPolicy) : Decoder (Movie × List (Nat × Tag)) := do
  let (fileLength, m) ← readOpening
  let placed ← placeTags policy fileLength
  checkLength fileLength
  return (m, placed)

/-- The movie, once the offsets are of no use any more. -/
def assemble (read : Movie × List (Nat × Tag)) : Movie :=
  { read.1 with tags := read.2.map Prod.snd }

theorem decode_eq_placed (policy : UnknownTagPolicy) :
    decode policy = assemble <$> decodePlaced policy := by
  rw [decode_eq]
  unfold decodePlaced readOpening readBody checkLength
  simp only [readTags_eq_placeTags, map_bind, bind_assoc, bind_map_left, map_pure, pure_bind]
  -- both have the same fields up to the check of the length
  iterate 6 refine bind_congr fun _ => ?_
  split <;> rfl

/-- A file without the records of no kind. -/
def withoutUnknown (m : Movie) : Movie := { m with tags := m.tags.filter (·.kind?.isSome) }

theorem decode_skip : decode .skip = withoutUnknown <$> decode .preserve := by
  rw [decode_eq_placed, decode_eq_placed]
  unfold decodePlaced
  simp only [placeTags_skip, map_bind, bind_map_left, map_pure]
  iterate 3 refine bind_congr fun _ => ?_
  simp only [withoutUnknown, assemble, List.filter_map]
  rfl

theorem strict_decodePlaced (r : Reader) :
    Strict (refusedAmong ·.2) (decodePlaced .preserve r) (decodePlaced .error r) := by
  refine Strict.bind_same fun opening s _ => ?_
  refine (strict_placeTags opening.1 s).bind (fun placed t _ hnone => ?_) ?_
  · exact Strict.bind_same fun _ t' _ => .ok hnone
  · intro placed t all t' x hx h
    obtain ⟨_, t'', -, hpure⟩ := ok_of_bind h
    cases hpure
    exact hx

/-! ## Where the headers stand -/

/-- What is placed at an offset was read from a reader that had come there. -/
theorem read_of_placed {policy : UnknownTagPolicy} {fileLength : Nat} {r r' : Reader}
    {placed : List (Nat × Tag)} (h : placeTags policy fileLength r = .ok placed r')
    {offset : Nat} {tag : Tag} (hmem : (offset, tag) ∈ placed) :
    ∃ s s', Followed r s ∧ s.position = offset ∧ Record.read policy s = .ok (some tag) s' := by
  fun_induction placeTags policy fileLength r generalizing placed r' with
  | case1 r hend => cases h; cases hmem
  | case2 r hend err r₁ hread => cases h
  | case3 r hend r₁ hread => cases h; cases hmem
  | case4 r hend tag? r₁ hne hread rest r₂ hrest ih =>
    cases h
    rcases List.mem_append.mp hmem with hhere | hlater
    · obtain ⟨tag', htag', heq⟩ := List.mem_map.mp hhere
      cases heq
      exact ⟨r, r₁, .refl r, rfl, by rw [hread, Option.mem_toList.mp htag']⟩
    · obtain ⟨s, s', hfollowed, hpos, hs⟩ := ih hrest hlater
      have hstep := (KeepsAccount.closed.record policy).followed hread
      exact ⟨s, s', hstep.trans hfollowed, hpos, hs⟩
  | case5 r hend tag? r₁ hne hread err r₂ hrest ih => cases h

theorem followed_readOpening {s : Source} {r r' : Reader} {opening : Nat × Movie}
    {header : Bool × UInt8 × UInt32}
    (hopen : openBody r = .ok header (.ofSource s fileHeaderLength))
    (h : readOpening r = .ok opening r') : Followed (.ofSource s fileHeaderLength) r' := by
  have hbody := (bind_of_ok hopen).symm.trans h
  refine KeepsAccount.followed ?_ hbody
  exact KeepsAccount.closed.rect.bind fun _ => KeepsAccount.closed.readUInt16.bind fun _ =>
    KeepsAccount.closed.readUInt16.bind fun _ => .pure _

/-- In front of the records, the reader is in the plain form of the file where its position says. -/
theorem remaining_of_readOpening {b image : List UInt8} (himage : uncompressedImage b = .ok image)
    {opening : Nat × Movie} {r : Reader} (h : readOpening (.ofBytes b) = .ok opening r) :
    r.source.remaining = image.drop r.position := by
  obtain ⟨m, fileLength, stored, rfl⟩ := exists_of_uncompressedImage himage
  obtain ⟨content, hholds, rfl⟩ := uncompressedImage_eq_ok_iff.mp himage
  obtain ⟨s, -, hcontent, hopen⟩ := openBody_fileHeader fileLength hholds
  refine (followed_readOpening hopen h).drop ?_
  show s.remaining = (m.plain.fileHeader fileLength ++ content).drop fileHeaderLength
  rw [← length_fileHeader m.plain fileLength, List.drop_left, hcontent]

/-! ## All policies -/

/-- The tags of a file in memory, each with the offset of its header. -/
def placedTags (b : List UInt8) : Except CodecError (List (Nat × Tag)) :=
  ((decodePlaced .preserve).outcome (.ofBytes b)).map Prod.snd

theorem ofBytes_eq_placed (policy : UnknownTagPolicy) (b : List UInt8) :
    ofBytes policy b = ((decodePlaced policy).outcome (.ofBytes b)).map assemble := by
  rw [ofBytes_eq, decode_eq_placed, outcome_map]

theorem refusedAmong_eq_none_iff {placed : List (Nat × Tag)} :
    refusedAmong placed = none ↔ ∀ tag ∈ placed.map Prod.snd, tag.kind? ≠ none := by
  unfold refusedAmong Tag.refused
  rw [List.findSome?_eq_none_iff, List.forall_mem_map]
  simp

theorem refusedAmong_of_first {before after : List (Nat × Tag)} {offset : Nat}
    {record : UnknownTag} (h : ∀ tag ∈ before.map Prod.snd, tag.kind? ≠ none) :
    refusedAmong (before ++ (offset, .unknown record) :: after) = some (record.code, offset) := by
  have hnone := refusedAmong_eq_none_iff.mpr h
  unfold refusedAmong at hnone ⊢
  rw [List.findSome?_append, hnone]
  rfl

theorem ofBytes_error_eq_ok_iff {b : List UInt8} {m : Movie} :
    ofBytes .error b = .ok m ↔
      ofBytes .preserve b = .ok m ∧ ∀ tag ∈ m.tags, tag.kind? ≠ none := by
  rw [ofBytes_eq_placed, ofBytes_eq_placed]
  rcases (strict_decodePlaced (.ofBytes b)).outcome with ⟨read, hkept, hnone, hrefused⟩ |
    ⟨read, code, offset, hkept, hsome, hrefused⟩ | ⟨err, hkept, hrefused⟩
  · -- nothing is refused
    rw [hkept, hrefused]
    refine ⟨fun h => ⟨h, ?_⟩, fun h => h.1⟩
    cases h
    exact refusedAmong_eq_none_iff.mp hnone
  · rw [hkept, hrefused]
    refine ⟨fun h => (by cases h), fun ⟨h, hall⟩ => ?_⟩
    cases h
    rw [refusedAmong_eq_none_iff.mpr hall] at hsome
    cases hsome
  · rw [hkept]
    rcases hrefused with hrefused | ⟨code, offset, hrefused⟩ <;> rw [hrefused]
    · exact ⟨fun h => (by cases h), fun h => (by cases h.1)⟩
    · exact ⟨fun h => (by cases h), fun h => (by cases h.1)⟩

/-- The tags of a movie that is kept are placed, and the first one of no kind is refused where it is
placed. -/
theorem exists_placedTags {b : List UInt8} {m : Movie} (h : ofBytes .preserve b = .ok m) :
    ∃ placed, placedTags b = .ok placed ∧ placed.map Prod.snd = m.tags ∧
      ∀ before offset record after, placed = before ++ (offset, .unknown record) :: after →
        (∀ tag ∈ before.map Prod.snd, tag.kind? ≠ none) →
        ofBytes .error b = .error (.unsupportedTag record.code offset) := by
  rw [ofBytes_eq_placed] at h
  unfold placedTags
  rw [ofBytes_eq_placed]
  rcases (strict_decodePlaced (.ofBytes b)).outcome with ⟨read, hkept, hnone, -⟩ |
    ⟨read, code, offset, hkept, hsome, hrefused⟩ | ⟨err, hkept, -⟩ <;> rw [hkept] at h ⊢ <;> cases h
  · refine ⟨read.2, rfl, rfl, fun before offset record after hsplit hbefore => ?_⟩
    rw [hsplit, refusedAmong_of_first hbefore] at hnone
    cases hnone
  · refine ⟨read.2, rfl, rfl, fun before offset record after hsplit hbefore => ?_⟩
    rw [hsplit, refusedAmong_of_first hbefore] at hsome
    cases hsome
    rw [hrefused]
    rfl

theorem ofBytes_error_of_error {b : List UInt8} {err : CodecError}
    (h : ofBytes .preserve b = .error err) :
    ofBytes .error b = .error err ∨
      ∃ code offset, ofBytes .error b = .error (.unsupportedTag code offset) := by
  rw [ofBytes_eq_placed] at h ⊢
  rcases (strict_decodePlaced (.ofBytes b)).outcome with ⟨read, hkept, -⟩ |
    ⟨read, code, offset, hkept, -⟩ | ⟨err, hkept, hrefused⟩ <;> rw [hkept] at h <;> cases h
  rcases hrefused with hrefused | ⟨code, offset, hrefused⟩ <;> rw [hrefused]
  · exact .inl rfl
  · exact .inr ⟨code, offset, rfl⟩

/-- A record of no kind is placed where the plain form of the file has its code. -/
theorem code_of_placed {b image : List UInt8} {placed : List (Nat × Tag)} {offset : Nat}
    {record : UnknownTag} (h : placedTags b = .ok placed)
    (himage : uncompressedImage b = .ok image) (hmem : (offset, .unknown record) ∈ placed) :
    record.code = UInt16.ofNat (littleEndian ((image.drop offset).take 2)) >>> 6 := by
  unfold placedTags outcome at h
  cases hread : decodePlaced .preserve (.ofBytes b) with
  | error err r => rw [hread] at h; cases h
  | ok read r =>
    rw [hread] at h
    cases h
    obtain ⟨opening, r₁, hopening, hrest⟩ := ok_of_bind hread
    obtain ⟨placed, r₂, hplaced, hrest⟩ := ok_of_bind hrest
    obtain ⟨_, r₃, -, hpure⟩ := ok_of_bind hrest
    cases hpure
    obtain ⟨s, s', hfollowed, rfl, hrecord⟩ := read_of_placed hplaced hmem
    rw [Record.code_of_read hrecord, hfollowed.drop (remaining_of_readOpening himage hopening)]

/-- **The policies agree.** Skipping is keeping all records and dropping those of no kind, and it
fails as keeping them does. Refusing succeeds just where nothing is refused, with the same movie. If
a movie with records of no kind is kept, then refusing reports the first of them: its code, and the
offset of its header, which is where the plain form of the file has that code. If keeping fails,
then refusing fails in the same way or has something to refuse before. -/
theorem ofBytes_policies (b : List UInt8) :
    ofBytes .skip b = (ofBytes .preserve b).map withoutUnknown ∧
    (∀ m, ofBytes .error b = .ok m ↔
      ofBytes .preserve b = .ok m ∧ ∀ tag ∈ m.tags, tag.kind? ≠ none) ∧
    (∀ m, ofBytes .preserve b = .ok m → ∃ placed,
      placedTags b = .ok placed ∧ placed.map Prod.snd = m.tags ∧
      ∀ before offset record after, placed = before ++ (offset, .unknown record) :: after →
        (∀ tag ∈ before.map Prod.snd, tag.kind? ≠ none) →
        ofBytes .error b = .error (.unsupportedTag record.code offset) ∧
          ∀ image, uncompressedImage b = .ok image →
            record.code = UInt16.ofNat (littleEndian ((image.drop offset).take 2)) >>> 6) ∧
    (∀ err, ofBytes .preserve b = .error err → ofBytes .error b = .error err ∨
      ∃ code offset, ofBytes .error b = .error (.unsupportedTag code offset)) := by
  refine ⟨?_, fun m => ofBytes_error_eq_ok_iff, fun m h => ?_, fun err h =>
    ofBytes_error_of_error h⟩
  · rw [ofBytes_eq, ofBytes_eq, decode_skip, outcome_map]
  · obtain ⟨placed, hplaced, htags, hfirst⟩ := exists_placedTags h
    refine ⟨placed, hplaced, htags, fun before offset record after hsplit hbefore =>
      ⟨hfirst before offset record after hsplit hbefore, fun image himage => ?_⟩⟩
    exact code_of_placed hplaced himage (by rw [hsplit]; simp)

/-- A frame and two records of no kind, the first of which has its header at offset 15. -/
theorem ofBytes_policies_twoUnknown :
    ∃ (b : List UInt8) (m : Movie),
      b = [70, 87, 83, 10, 22, 0, 0, 0, 0, 0, 24, 1, 0, 64, 0, 193, 63, 7, 128, 0, 0, 0] ∧
      m = { header := { frameSize := {} } } ∧
      ofBytes .preserve b =
        .ok { m with tags := [.showFrame, .unknown ⟨255, [7]⟩, .unknown ⟨2, []⟩] } ∧
      ofBytes .skip b = .ok { m with tags := [.showFrame] } ∧
      ofBytes .error b = .error (.unsupportedTag 255 15) := by
  obtain ⟨b, hb⟩ : ∃ b : List UInt8,
      b = [70, 87, 83, 10, 22, 0, 0, 0, 0, 0, 24, 1, 0, 64, 0, 193, 63, 7, 128, 0, 0, 0] := ⟨_, rfl⟩
  have hkept : ofBytes .preserve b = .ok { header := { frameSize := {} }, tags :=
      [.showFrame, .unknown ⟨255, [7]⟩, .unknown ⟨2, []⟩] } := by
    rw [hb]
    decide +kernel
  have hplaces : placedTags b = .ok ([(13, .showFrame)] ++
      (15, .unknown ⟨255, [7]⟩) :: [(18, .unknown ⟨2, []⟩)]) := by
    rw [hb]
    decide +kernel
  obtain ⟨hskip, -, hfirst, -⟩ := ofBytes_policies b
  obtain ⟨placed, hplaced, -, hrefused⟩ := hfirst _ hkept
  rw [hplaces] at hplaced
  cases hplaced
  refine ⟨b, _, hb, rfl, hkept, ?_, (hrefused _ _ _ _ rfl (by decide)).1⟩
  rw [hskip, hkept]
  rfl

end Swf.Movie
