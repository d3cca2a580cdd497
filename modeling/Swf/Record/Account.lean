import Swf.Reader.Account
import Swf.Record.Composition

/-!
# Records keep account of their bytes

Every layout is built from primitive fields, so reading a record takes its bytes off the front of
the source and counts them, whatever the record holds. A record that is read has taken at least its
header, so a loop over the records of a source ends.
-/

namespace Swf.Record

open Decoder

/-- A header that was read is gone from the source. -/
theorem remaining_lt_of_header {r r' : Reader} {header : RecordHeader}
    (h : RecordHeader.read r = .ok header r') :
    r'.source.remaining.length < r.source.remaining.length := by
  -- Whatever follows the first word gives nothing back.
  obtain ⟨word, r₁, hword, hrest⟩ := ok_of_bind h
  have hle : Followed r₁ r' := by
    refine KeepsAccount.followed ?_ hrest
    simp only
    split
    · exact KeepsAccount.closed.readUInt32.bind fun _ => .pure _
    · exact (KeepsAccount.pure _).bind fun _ => .pure _
  -- The first word has come off the front of the source.
  obtain ⟨bytes, r₂, hbytes, hpure⟩ := ok_of_bind hword
  obtain ⟨⟨⟩, r₃, halign, hfill⟩ := ok_of_bind hbytes
  obtain ⟨hrem, hlen⟩ := remaining_of_fill hfill
  have hsame : r₃.source = r.source := by
    injection halign with _ hr
    rw [← hr]
  have hdone : r₂ = r₁ := by injection hpure
  have := hle.length_le
  rw [hsame] at hrem
  subst hdone
  simp only [hrem, List.length_append]
  omega

/-- A record that was read is gone from the source. -/
theorem remaining_lt_of_read {policy : UnknownTagPolicy} {r r' : Reader} {tag : Option Tag}
    (h : Record.read policy r = .ok tag r') :
    r'.source.remaining.length < r.source.remaining.length := by
  obtain ⟨offset, r₁, hpos, hrest⟩ := ok_of_bind h
  obtain ⟨header, r₂, hhead, hbody⟩ := ok_of_bind hrest
  have hlt := remaining_lt_of_header hhead
  have hsame : r₁ = r := by injection hpos with _ hr; exact hr.symm
  have hle : Followed r₂ r' := by
    refine KeepsAccount.followed ?_ hbody
    split
    · exact (KeepsAccount.mapError _ (KeepsAccount.closed.skip _)).bind fun _ => .pure _
    · exact .throw _
    · exact KeepsAccount.closed.map _ (KeepsAccount.closed.payload header)
  have := hle.length_le
  rw [hsame] at hlt
  omega

/-- What holds of a reader whenever it holds behind each record that may be read, holds of every
reader. -/
theorem induction_on_records {P : Reader → Prop}
    (h : ∀ r, (∀ policy tag r', Record.read policy r = .ok tag r' → P r') → P r) (r : Reader) :
    P r := by
  induction hn : r.source.remaining.length using Nat.strongRecOn generalizing r with
  | ind n ih =>
    refine h r fun policy tag r' hread => ih _ ?_ r' rfl
    exact hn ▸ remaining_lt_of_read hread

end Swf.Record
