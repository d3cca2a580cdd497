import Swf.Proofs.Movie.Policies
import Swf.Proofs.Movie.Shortfall

/-!
# A file that is cut off is never read

The reader forgives a missing end record and bytes behind the end, so it is not obvious that a file
that lacks its last bytes is refused wherever it is cut. It is, and the error says where: the whole
file is used up when it is read (`decode_of_layout`), so a run on its front cannot go like the run
on all of it, and a run that goes otherwise has run out of bytes (`tracks_readPlain`).
-/

namespace Swf.Movie

open Decoder

/-- A run that uses up all bytes of a plain file fails on any front of it, at its end. -/
theorem read_front {policy : UnknownTagPolicy} {front missing : List UInt8} {m : Movie} {r : Reader}
    (hplain : (front ++ missing).take 3 ≠ compressedSignature)
    (h : decode policy (.ofBytes (front ++ missing)) = .ok m r) (hempty : r.source.remaining = [])
    (hmissing : missing ≠ []) :
    ∃ err, ofBytes policy front = .error err ∧ err.EndsAt front.length := by
  have hfront : front.take 3 ≠ compressedSignature := by
    intro hsig
    have hlen := congrArg List.length hsig
    rw [List.length_take] at hlen
    have hthree : compressedSignature.length = 3 := rfl
    exact hplain (by rw [List.take_append_of_le_length (by omega), hsig])
  have hlacks : (Source.ofBytes (front ++ missing)).Lacks missing (.ofBytes front) :=
    ⟨Source.steady_ofBytes _, Source.steady_ofBytes _, rfl⟩
  have hwhole : readPlain policy (.ofBytes (front ++ missing)) = .ok m r :=
    (decode_of_plain (s := .ofBytes (front ++ missing)) hplain policy).symm.trans h
  have hshort : decode policy (.ofBytes front) = readPlain policy (.ofBytes front) :=
    decode_of_plain (s := .ofBytes front) hfront policy
  rcases tracks_readPlain policy (.ofBytes (front ++ missing)) missing _ hlacks with
    hsame | ⟨-, -, err, s, hfail, hstop⟩
  · -- what is missing would have to be missing behind the end of the run as well
    rw [hwhole] at hsame
    generalize readPlain policy _ = y at hsame
    cases hsame with
    | ok moved lacks =>
      have hrem := lacks.remaining
      rw [hempty] at hrem
      exact absurd (List.append_eq_nil_iff.mp hrem.symm).2 hmissing
  · refine ⟨err, ?_, ?_⟩
    · rw [ofBytes_eq]
      unfold outcome
      rw [hshort]
      have hrun : readPlain policy (.ofBytes front) = .error err s := hfail
      rw [hrun]
    · have hend : (Reader.ofBytes front).stop = front.length := Nat.zero_add _
      rw [← hend]
      exact hstop

/-- **Truncation is always detected.** Of a plain file as it is written, no proper front is read,
whether records of no kind are kept or skipped. The error is an end of the stream, or one within a
record, at the length of the front. A record that is kept byte for byte must not carry the code of
a kind. -/
theorem ofBytes_of_truncated {compress : List UInt8 → List UInt8} {m : Movie}
    {b front : List UInt8} {policy : UnknownTagPolicy} (hplain : m.compressed = false)
    (hunknown : ∀ record, Tag.unknown record ∈ m.tags → TagKind.ofCode? record.code = none)
    (h : m.toBytesWith compress = .ok b) (hfront : front <+: b) (hne : front ≠ b)
    (hpolicy : policy = .preserve ∨ policy = .skip) :
    ∃ expected, ofBytes policy front = .error (.unexpectedEof expected front.length) ∨
      ∃ code, ofBytes policy front = .error (.truncatedRecord code expected front.length) := by
  obtain ⟨body, fileLength, hbody, hlen, hb⟩ := toBytesWith_eq_ok h
  obtain ⟨missing, rfl⟩ := hfront
  have hsignature : (front ++ missing).take 3 ≠ compressedSignature := by
    rw [hb, take_signature]
    unfold signature
    rw [hplain]
    decide
  have hmissing : missing ≠ [] := fun hnil => hne (by rw [hnil, List.append_nil])
  have hcanon : ∀ tag ∈ m.tags, tag.Canonical := fun tag htag =>
    Tag.canonical_of_unknown fun record he => hunknown record (he ▸ htag)
  have hz : m.compressed = true → Zlib.Inverts compress := fun hc => by
    rw [hplain] at hc
    cases hc
  obtain ⟨r, hkept, hempty⟩ := decode_of_layout hz hcanon hbody hlen
  rw [← hb] at hkept
  obtain ⟨m', hread⟩ : ∃ m', decode policy (.ofBytes (front ++ missing)) = .ok m' r := by
    rcases hpolicy with rfl | rfl
    · exact ⟨_, hkept⟩
    · exact ⟨_, by rw [decode_skip, map_of_ok hkept]⟩
  obtain ⟨err, herr, hend⟩ := read_front hsignature hread hempty hmissing
  cases err with
  | unexpectedEof expected offset =>
    obtain rfl : offset = front.length := hend
    exact ⟨expected, .inl herr⟩
  | truncatedRecord code expected offset =>
    obtain rfl : offset = front.length := hend
    exact ⟨expected, .inr ⟨code, herr⟩⟩
  | _ => exact hend.elim

/-- Cut off in the payload of a record that is skipped, and cut off in front of the end record,
which a reader would not miss at the declared length. -/
theorem ofBytes_of_truncated_skipped :
    ∃ b, toBytesWith Zlib.compress
        { header := { frameSize := {} }, tags := [.showFrame, .unknown ⟨255, [7, 8]⟩] } = .ok b ∧
      ∀ n ∈ [18, 19], ∃ expected,
        ofBytes .skip (b.take n) = .error (.unexpectedEof expected n) ∨
          ∃ code, ofBytes .skip (b.take n) = .error (.truncatedRecord code expected n) := by
  obtain ⟨b, hb⟩ : ∃ b : List UInt8,
      b = [70, 87, 83, 10, 21, 0, 0, 0, 0, 0, 24, 1, 0, 64, 0, 194, 63, 7, 8, 0, 0] := ⟨_, rfl⟩
  have hfile : toBytesWith Zlib.compress
      { header := { frameSize := {} }, tags := [.showFrame, .unknown ⟨255, [7, 8]⟩] } = .ok b := by
    rw [hb]
    decide +kernel
  refine ⟨b, hfile, fun n hn => ?_⟩
  have hcut : (b.take n).length = n ∧ b.take n ≠ b := by
    rw [hb]
    rcases List.mem_pair.mp hn with rfl | rfl <;> decide
  have hskip : UnknownTagPolicy.skip = .preserve ∨ UnknownTagPolicy.skip = .skip := .inr rfl
  have herr := ofBytes_of_truncated rfl
    (fun record hrecord => by
      obtain rfl : record = ⟨255, [7, 8]⟩ := by simpa using hrecord
      rfl)
    hfile (List.take_prefix n b) hcut.2 hskip
  rwa [hcut.1] at herr

end Swf.Movie
