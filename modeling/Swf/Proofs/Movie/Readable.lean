import Swf.Proofs.Movie.RoundTrip
import Swf.Proofs.Tag.Readable

/-!
# What can come out of a file

The properties of a tag that was read (`Tag.Readable`) hold of every tag of a movie that was read,
whatever the file: a payload is read from no more than the bytes that its header declares, and a
record of no kind is kept under a code that leads to none. No tag that ends a movie is among them,
since the loop stops there.
-/

namespace Swf

open Decoder

/-- The largest length that a header declares. -/
def maxRecordLength : Nat := 0xFFFFFFFF

namespace Record

theorem ensures_readPayload {header : RecordHeader} (hcode : header.code.toNat < 1024) :
    Ensures (readPayload header) fun tag _ => tag.Readable maxRecordLength := by
  have hdeclared : header.length.toNat ≤ maxRecordLength := Nat.le_of_lt_succ header.length.toNat_lt
  have hskip : ∀ n, Ensures (Decoder.mapError (.insideRecord header.code) (Decoder.skip n))
      fun _ _ => True := fun n => Ensures.mapError _ <|
    (Ensures.readBytes n).bind fun _ _ _ => Ensures.pure trivial
  refine Ensures.position.bind fun start _ _ => ?_
  refine Ensures.within (P := fun tag k => tag.Readable k) ?_ fun tag k hk h =>
    ⟨h.canonical, h.code, h.sized.mono (by omega)⟩
  refine ((Tag.ensures_read hcode).mapError _).bind fun tag j h =>
    Ensures.position.bind fun _ _ _ => ?_
  -- passing over what is left only adds to the cost
  have hadd : ∀ k, tag.Readable (j + k) :=
    fun k => ⟨h.canonical, h.code, h.sized.mono (Nat.le_add_right j k)⟩
  dsimp only
  split
  · exact (hskip _).bind fun _ _ _ => Ensures.pure (hadd _)
  · exact Ensures.pure (hadd _)

theorem ensures_read (policy : UnknownTagPolicy) :
    Ensures (Record.read policy) fun tag? _ => ∀ tag, tag? = some tag →
      tag.Readable maxRecordLength := by
  have hsome : ∀ header : RecordHeader, header.code.toNat < 1024 →
      Ensures (some <$> readPayload header) fun tag? _ => ∀ tag, tag? = some tag →
        tag.Readable maxRecordLength := by
    intro header hcode
    refine Ensures.map ((ensures_readPayload hcode).mono fun tag _ h tag' he => ?_)
    exact Option.some.inj he ▸ h
  refine Ensures.position.bind fun _ _ _ => RecordHeader.ensures_read.bind fun header _ hcode => ?_
  split
  · refine (Ensures.mapError _ ((Ensures.readBytes _).bind (Q := fun _ _ => True)
      fun _ _ _ => Ensures.pure trivial)).bind fun _ _ _ => Ensures.pure ?_
    exact fun tag he => absurd he (by simp)
  · exact Ensures.throw _
  · exact hsome header hcode

end Record

namespace Movie

/-- Tags that can have been read. -/
def ReadableTags (tags : List Tag) : Prop :=
  Tag.end ∉ tags ∧ ∀ tag ∈ tags, tag.Readable maxRecordLength

theorem ensures_readTags (policy : UnknownTagPolicy) (fileLength : Nat) :
    Ensures (readTags policy fileLength) fun tags _ => ReadableTags tags := by
  have hnone : ReadableTags [] := ⟨by simp, by simp⟩
  intro r
  fun_induction readTags policy fileLength r with
  | case1 r hend =>
    intro tags r' h
    cases h
    exact ⟨0, hnone, costs_zero rfl⟩
  | case2 r hend err r₁ hread =>
    intro tags r' h
    cases h
  | case3 r hend r₁ hread =>
    intro tags r' h
    cases h
    obtain ⟨k, _, hk⟩ := Record.ensures_read policy r _ _ hread
    exact ⟨k, hnone, hk⟩
  | case4 r hend tag r₁ hne hread tags' r₂ hrest ih =>
    intro tags r' h
    cases h
    obtain ⟨j, htag, hj⟩ := Record.ensures_read policy r tag r₁ hread
    obtain ⟨k, ⟨hend', htags'⟩, hk⟩ := ih _ _ hrest
    refine ⟨j + k, ⟨fun hmem => ?_, fun t ht => ?_⟩, hj.trans hk⟩
    · rcases List.mem_append.mp hmem with hm | hm
      · exact hne (by simpa using hm)
      · exact hend' hm
    · rcases List.mem_append.mp ht with hm | hm
      · exact htag t (by simpa using hm)
      · exact htags' t hm
  | case5 r hend tag r₁ hne hread err r₂ hrest ih =>
    intro tags r' h
    cases h

/-- A movie that can have been read. -/
structure Readable (m : Movie) : Prop where
  frameSize : m.header.frameSize.Readable
  tags : ReadableTags m.tags

theorem ensures_readBody (policy : UnknownTagPolicy) (compressed : Bool) (version : UInt8)
    (fileLength : Nat) :
    Ensures (readBody policy compressed version fileLength) fun m _ => m.Readable := by
  refine Rect.ensures_read.bind fun frameSize _ hframeSize => Ensures.readUInt16.bind fun _ _ _ =>
    Ensures.readUInt16.bind fun _ _ _ => (ensures_readTags policy fileLength).bind
      fun tags _ htags => Ensures.position.bind fun _ _ _ => ?_
  split
  · exact Ensures.bind (P := fun _ _ => True) (Ensures.throw _)
      fun _ _ _ => Ensures.pure ⟨hframeSize, htags⟩
  · exact Ensures.pure ⟨hframeSize, htags⟩

theorem readable_of_ofBytes {policy : UnknownTagPolicy} {b : List UInt8} {m : Movie}
    (h : ofBytes policy b = .ok m) : m.Readable := by
  rw [ofBytes_eq, decode_eq] at h
  obtain ⟨_, hdecode⟩ := run_of_outcome h
  -- the body is read on its own, so what stands in front of it does not matter
  obtain ⟨_, _, -, hbody⟩ := ok_of_bind hdecode
  obtain ⟨_, hm, -⟩ := ensures_readBody _ _ _ _ _ _ _ hbody
  exact hm

end Movie

end Swf
