import Swf.Proofs.Movie.RoundTrip
import Swf.Proofs.Record.Shortfall

/-!
# Plain files on any steady source

The body of a file is a sequence of fields and records, so what is known of those holds of the
body: nothing but its bytes and their end is seen. A plain file is the eight bytes of its header and
the body from one and the same source, so it holds of the file (`tracks_readPlain`). A compressed
file has a source of its own for the body, and only the body is compared.
-/

namespace Swf.Movie

open Decoder

theorem tracks_readTags (policy : UnknownTagPolicy) (fileLength : Nat) :
    Tracks (readTags policy fileLength) := by
  refine Record.induction_on_records fun r ih => ?_
  rw [readTags_eq]
  refine (Tracks.position r).bind fun p r' h => ?_
  cases h
  split
  · exact Tracks.pure [] r
  · refine (Record.tracks_read policy r).bind fun tag r₁ hread => ?_
    split
    · exact Tracks.pure [] r₁
    · exact (ih policy tag r₁ hread).bind fun tags r₂ _ => Tracks.pure _ r₂

theorem tracks_readBody (policy : UnknownTagPolicy) (compressed : Bool) (version : UInt8)
    (fileLength : Nat) : Tracks (readBody policy compressed version fileLength) := by
  refine Tracks.closed.rect.bind fun frameSize => Tracks.closed.readUInt16.bind fun frameRate =>
    Tracks.closed.readUInt16.bind fun frameCount => (tracks_readTags policy fileLength).bind
      fun tags => Tracks.position.bind fun actual => ?_
  dsimp only
  split
  · exact (Tracks.throw _).bind fun _ => Tracks.pure _
  · exact Tracks.pure _

/-! ## Files whose body is plain -/

/-- Reads a file that is not compressed. -/
def readPlain (policy : UnknownTagPolicy) : Decoder Movie :=
  readHeader >>= fun h => readBody policy h.1 h.2.1 h.2.2.toNat

/-- Behind the header the reader is where the body begins. -/
theorem readHeader_eq_ok {s : Source} {h : Bool × UInt8 × UInt32} {r : Reader}
    (hread : readHeader (.ofSource s 0) = .ok h r) :
    compressedOf (s.remaining.take 3) = .ok h.1 ∧ r = .ofSource r.source fileHeaderLength := by
  obtain ⟨signature, r₁, hsignature, h₁⟩ := ok_of_bind hread
  obtain ⟨compressed, r₂, hcompressed, h₂⟩ := ok_of_bind h₁
  obtain ⟨version, r₃, hversion, h₃⟩ := ok_of_bind h₂
  obtain ⟨fileLength, r₄, hfileLength, h₄⟩ := ok_of_bind h₃
  cases h₄
  obtain ⟨rfl, -, s₁, -, rfl⟩ := readFully_eq_ok hsignature
  obtain ⟨_, _, hone, hversion'⟩ := ok_of_bind hversion
  obtain ⟨_, _, hfour, hfileLength'⟩ := ok_of_bind hfileLength
  obtain ⟨-, -, s₃, -, rfl⟩ := readFully_eq_ok hone
  obtain ⟨-, -, s₄, -, rfl⟩ := readFully_eq_ok hfour
  cases hversion'
  cases hfileLength'
  have hsource : (Reader.ofSource s 0).source = s := rfl
  rw [hsource] at hcompressed
  cases hkind : compressedOf (s.remaining.take 3) with
  | error err => rw [hkind] at hcompressed; cases hcompressed
  | ok c =>
    rw [hkind] at hcompressed
    cases hcompressed
    exact ⟨rfl, rfl⟩

/-- The body of a file that is not compressed is read from the source of the file. -/
theorem decode_of_plain {s : Source} (hplain : s.remaining.take 3 ≠ compressedSignature)
    (policy : UnknownTagPolicy) :
    decode policy (.ofSource s 0) = readPlain policy (.ofSource s 0) := by
  rw [decode_eq]
  unfold readPlain openBody
  cases hread : readHeader (.ofSource s 0) with
  | error err r => rw [bind_of_error (bind_of_error hread), bind_of_error hread]
  | ok h r =>
    obtain ⟨hkind, hr⟩ := readHeader_eq_ok hread
    obtain ⟨compressed, version, fileLength⟩ := h
    cases compressed with
    | true => exact absurd (compressedOf_eq_ok hkind) hplain
    | false =>
      have henter : enterBody false r = .ok () r := by rw [hr]; rfl
      rw [bind_of_ok ((bind_of_ok hread).trans (bind_of_ok henter)), bind_of_ok hread]

theorem tracks_readHeader : Tracks readHeader :=
  (Tracks.closed.readFully 3).bind fun _ => (Tracks.closed.ofExcept _).bind fun _ =>
    Tracks.closed.readUInt8.bind fun _ => Tracks.closed.readUInt32.bind fun _ => Tracks.pure _

theorem tracks_readPlain (policy : UnknownTagPolicy) : Tracks (readPlain policy) :=
  tracks_readHeader.bind fun h => tracks_readBody policy h.1 h.2.1 h.2.2.toNat

/-- Of a plain file nothing but its bytes is seen. -/
theorem read_of_lacks_nil {s t : Source} (h : s.Lacks [] t)
    (hplain : s.remaining.take 3 ≠ compressedSignature) (policy : UnknownTagPolicy) :
    read policy t = read policy s := by
  have hrem := h.remaining
  rw [List.append_nil] at hrem
  have hplain' : t.remaining.take 3 ≠ compressedSignature := by rwa [← hrem]
  rw [read_eq, read_eq, outcome_congr (decode_of_plain hplain' policy),
    outcome_congr (decode_of_plain hplain policy)]
  exact ((tracks_readPlain policy (.ofSource s 0)).same h).outcome

end Swf.Movie
