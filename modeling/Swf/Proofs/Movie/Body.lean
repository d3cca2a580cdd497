import Swf.Proofs.Record.Layout
import Swf.Movie.File

/-!
# The body of a file is read back

The body is the stage bounds, two words and the records, of which the last one ends the movie. The
loop over the records goes on to that one or to the declared length of the file, and on a file that
was written the two come together: as long as there is a record, the length is not reached.
-/

namespace Swf.Movie

open Decoder Encoder

/-- The records one after the other. -/
def recordsLayout : List Tag → Layout
  | [] => .ok []
  | tag :: tags => (Record.layout tag).followedBy (recordsLayout tags)

/-- Where no tag ends the movie before its time, all are written. -/
theorem filter_end_of_not_mem {tags : List Tag} (h : Tag.end ∉ tags) :
    tags.filter (· ≠ .end) = tags :=
  List.filter_eq_self.mpr fun tag ht => by
    have hne : tag ≠ .end := fun he => h (he ▸ ht)
    simpa using hne

/-- The body of a file. -/
def bodyLayout (m : Movie) : Layout :=
  m.header.frameSize.layout.followedBy
    (Layout.followedBy (.ok (bytesOfUInt16 m.header.frameRate))
      (Layout.followedBy (.ok (bytesOfUInt16 m.header.frameCount)) (recordsLayout m.records)))

/-! ## Writing -/

theorem encodes_records (tags : List Tag) :
    Encodes (tags.forM Record.write) (recordsLayout tags) := by
  induction tags with
  | nil => exact Encodes.pure
  | cons tag tags ih =>
    exact (Record.encodes_write tag).bind ih

theorem encodes_writeBody (m : Movie) : Encodes m.writeBody m.bodyLayout :=
  (Rect.encodes_write _).bind ((Encodes.writeUInt16 _).bind
    ((Encodes.writeUInt16 _).bind (encodes_records _)))

theorem collect_writeBody (m : Movie) : Writer.collect m.writeBody = m.bodyLayout :=
  m.encodes_writeBody.collect

/-! ## Reading -/

/-- One round of the loop over records. -/
theorem readTags_eq (policy : UnknownTagPolicy) (fileLength : Nat) :
    readTags policy fileLength = position >>= fun p =>
      if p ≥ fileLength then pure []
      else Record.read policy >>= fun tag =>
        if tag = some .end then pure []
        else readTags policy fileLength >>= fun tags => pure (tag.toList ++ tags) := by
  funext r
  have hpos : position r = .ok r.position r := rfl
  rw [readTags, bind_of_ok hpos]
  by_cases hend : r.position ≥ fileLength
  · rw [if_pos hend, if_pos hend]
    rfl
  · rw [if_neg hend, if_neg hend]
    split
    · next h => rw [bind_of_error h]
    · next h => rw [bind_of_ok h, if_pos rfl]; rfl
    · next tag r' hne h =>
      rw [bind_of_ok h, if_neg fun he => hne he]
      split
      · next h' => rw [bind_of_ok h']; rfl
      · next h' => rw [bind_of_error h']

theorem reads_readTags {p fileLength : Nat} {tags : List Tag} {bytes : List UInt8}
    (hend : Tag.end ∉ tags) (hcanon : ∀ tag ∈ tags, tag.Canonical)
    (h : recordsLayout (tags ++ [.end]) = .ok bytes) (hlen : p + bytes.length = fileLength) :
    Reads p (readTags .preserve fileLength) bytes tags := by
  induction tags generalizing p bytes with
  | nil =>
    obtain ⟨front, back, hfront, hback, rfl⟩ := Layout.followedBy_eq_ok h
    obtain rfl : [] = back := by simpa [recordsLayout] using hback
    rw [List.append_nil] at hlen ⊢
    have hpos := Record.length_pos_of_layout hfront
    rw [readTags_eq]
    refine (Reads.position p).nil_bind ?_
    rw [if_neg (by omega)]
    refine (Record.reads_read (Tag.canonical_of_kind? rfl) hfront).bind_nil ?_
    rw [if_pos rfl]
    exact Reads.pure _ []
  | cons tag tags ih =>
    obtain ⟨front, back, hfront, hback, rfl⟩ := Layout.followedBy_eq_ok h
    have htag : tag ≠ .end := fun he => hend (he ▸ List.mem_cons_self ..)
    have hpos := Record.length_pos_of_layout hfront
    rw [List.length_append] at hlen
    rw [readTags_eq]
    refine (Reads.position p).nil_bind ?_
    rw [if_neg (by omega)]
    refine (Record.reads_read (hcanon tag (List.mem_cons_self ..)) hfront).bind ?_
    rw [if_neg (by simpa using htag)]
    refine (ih (fun hm => hend (List.mem_cons_of_mem _ hm))
      (fun t ht => hcanon t (List.mem_cons_of_mem _ ht)) hback (by omega)).bind_nil ?_
    exact Reads.pure _ _

/-- The body of a written file is read as its movie, without any tag that ends it. -/
theorem reads_readBody {m : Movie} {body : List UInt8} (hcanon : ∀ tag ∈ m.tags, tag.Canonical)
    (h : m.bodyLayout = .ok body) :
    Reads fileHeaderLength
      (readBody .preserve m.compressed m.header.version (fileHeaderLength + body.length)) body
      { m with tags := m.tags.filter (· ≠ .end) } := by
  obtain ⟨bounds, rest, hbounds, hrest, rfl⟩ := Layout.followedBy_eq_ok h
  obtain ⟨rate, rest', hrate, hrest', rfl⟩ := Layout.followedBy_eq_ok hrest
  obtain ⟨count, records, hcount, hrecords, rfl⟩ := Layout.followedBy_eq_ok hrest'
  cases hrate
  cases hcount
  have hend : Tag.end ∉ m.tags.filter (· ≠ .end) := by simp
  have htags : ∀ tag ∈ m.tags.filter (· ≠ .end), tag.Canonical :=
    fun tag ht => hcanon tag ((List.mem_filter.mp ht).1)
  refine (Rect.reads_read hbounds).bind ((Reads.readUInt16 _).bind ((Reads.readUInt16 _).bind ?_))
  refine (reads_readTags hend htags hrecords ?_).bind_nil ?_
  · simp only [List.length_append]
    omega
  · refine (Reads.position _).nil_bind ?_
    -- the records end where the declared length says
    rw [if_neg (by simp only [List.length_append]; omega)]
    exact Reads.pure _ _

end Swf.Movie
