import Swf.Proofs.Movie.Shortfall

/-!
# Both forms of a file

A compressed file and its plain form hold the same movie. Reading the one goes through two sources,
one for the eight bytes in front and one for the content of the rest, and reading the other through
one, but the body is read from a steady source of the same bytes at the same offset, so it is read
alike: the same tags, and the same errors with the same offsets (`tracks_readBody`).

What a file and its plain form have in common is told by their parts
(`uncompressedImage_eq_ok_iff`): behind the same header, the content is stored in the one and
compressed in the other.
-/

namespace Swf.Movie

open Decoder Encoder

/-- The movie, kept in a plain file. -/
def plain (m : Movie) : Movie := { m with compressed := false }

/-- The movie, kept in a compressed file. -/
def packed (m : Movie) : Movie := { m with compressed := true }

/-! ## The plain form -/

theorem length_fileHeader (m : Movie) (fileLength : UInt32) :
    (m.fileHeader fileLength).length = fileHeaderLength := by
  unfold fileHeader
  rw [List.length_append, length_signature]
  rfl

/-- Any five bytes behind a signature make a file header. -/
theorem exists_fileHeader {rest : List UInt8} (compressed : Bool) (h : rest.length = 5) :
    ∃ (m : Movie) (fileLength : UInt32),
      m.fileHeader fileLength = ({ compressed } : Movie).signature ++ rest := by
  obtain ⟨version, word, rfl⟩ : ∃ version word, rest = version :: word :=
    List.exists_cons_of_length_pos (by omega)
  have hword : word.length = 4 := by simpa using h
  refine ⟨{ compressed, header := { version } }, UInt32.ofNat (littleEndian word), ?_⟩
  unfold fileHeader
  rw [bytesOfUInt32_littleEndian hword]
  rfl

/-- The file header is read as a block of its own. -/
theorem readFully_fileHeader (m : Movie) (fileLength : UInt32) (stored : List UInt8) :
    ∃ r, readFully fileHeaderLength (.ofBytes (m.fileHeader fileLength ++ stored)) =
        .ok (m.fileHeader fileLength) r ∧ r.source.remaining = stored := by
  obtain ⟨r, hread, took, -⟩ := Reads.readFully (p := 0) (m.fileHeader fileLength)
    (.ofBytes (m.fileHeader fileLength ++ stored)) stored (Source.steady_ofBytes _) rfl rfl rfl
  rw [length_fileHeader] at hread
  exact ⟨r, hread, (List.append_cancel_left took.remaining).symm⟩

/-- Only what begins with a file header has a plain form. -/
theorem exists_of_uncompressedImage {b image : List UInt8} (h : uncompressedImage b = .ok image) :
    ∃ (m : Movie) (fileLength : UInt32) (stored : List UInt8),
      b = m.fileHeader fileLength ++ stored := by
  unfold uncompressedImage at h
  cases hread : readFully fileHeaderLength (.ofBytes b) with
  | error err r => rw [hread] at h; cases h
  | ok header r =>
    rw [hread] at h
    obtain ⟨hheader, hle, -⟩ := readFully_eq_ok hread
    have hsource : (Reader.ofBytes b).source.remaining = b := rfl
    rw [hsource] at hheader hle
    have hrest : (header.drop 3).length = 5 := by
      rw [hheader, List.length_drop, List.length_take_of_le hle]
      rfl
    cases hkind : compressedOf (header.take 3) with
    | error err => simp only [hkind] at h; cases h
    | ok compressed =>
      obtain ⟨m, fileLength, hm⟩ := exists_fileHeader compressed hrest
      rw [← compressedOf_eq_ok hkind, List.take_append_drop, hheader] at hm
      exact ⟨m, fileLength, b.drop fileHeaderLength, by rw [hm, List.take_append_drop]⟩

/-- The plain form has the same header, but for the signature, in front of the content. -/
theorem uncompressedImage_fileHeader (m : Movie) (fileLength : UInt32) (stored : List UInt8) :
    uncompressedImage (m.fileHeader fileLength ++ stored) =
      if m.compressed then
        match (Zlib.inflate stored).fault with
        | some fault => .error (.io fault)
        | none => .ok (m.plain.fileHeader fileLength ++ (Zlib.inflate stored).content)
      else .ok (m.fileHeader fileLength ++ stored) := by
  obtain ⟨r, hread, rfl⟩ := readFully_fileHeader m fileLength stored
  have hsignature : (m.fileHeader fileLength).take 3 = m.signature := by
    rw [← take_signature m fileLength [], List.append_nil]
  have hrest : (m.fileHeader fileLength).drop 3 =
      [m.header.version] ++ bytesOfUInt32 fileLength := by
    rw [← length_signature m]
    exact List.drop_left
  unfold uncompressedImage
  simp only [hread, hsignature, hrest, compressedOf_signature]
  rfl

theorem delivered_of_fault_eq_none {z : Zlib.Inflated} (h : z.fault = none) :
    z.delivered = z.content := by
  unfold Zlib.Inflated.fault at h
  unfold Zlib.Inflated.delivered
  split at h
  · next hending => rw [hending]
  · cases h
  · cases h

/-- **A file and its plain form** differ in the signature and in how they hold their content. -/
theorem uncompressedImage_eq_ok_iff {m : Movie} {fileLength : UInt32}
    {stored image : List UInt8} :
    uncompressedImage (m.fileHeader fileLength ++ stored) = .ok image ↔
      ∃ content, Holds m.compressed stored content ∧
        image = m.plain.fileHeader fileLength ++ content := by
  rw [uncompressedImage_fileHeader]
  unfold Holds
  cases hc : m.compressed with
  | false =>
    have hplain : m.plain = m := by unfold plain; rw [← hc]
    rw [hplain]
    simp [eq_comm]
  | true =>
    simp only [if_true]
    cases hfault : (Zlib.inflate stored).fault with
    | some fault => simp [Zlib.Delivers, hfault]
    | none => simp [Zlib.Delivers, hfault, delivered_of_fault_eq_none hfault, eq_comm]

/-! ## Reading -/

theorem readBody_plain (policy : UnknownTagPolicy) (compressed : Bool) (version : UInt8)
    (fileLength : Nat) :
    readBody policy false version fileLength =
      plain <$> readBody policy compressed version fileLength := by
  unfold readBody
  simp only [map_bind]
  iterate 5 refine bind_congr fun _ => ?_
  split
  · simp only [map_bind, map_pure]
    rfl
  · rfl

/-- What holds the same content behind the same header is read alike. -/
theorem ofBytes_of_holds {m : Movie} {fileLength : UInt32} {stored content : List UInt8}
    (h : Holds m.compressed stored content) (policy : UnknownTagPolicy) :
    ofBytes policy (m.plain.fileHeader fileLength ++ content) =
      (ofBytes policy (m.fileHeader fileLength ++ stored)).map plain := by
  obtain ⟨s, hs, hrem, hdecode⟩ := decode_fileHeader fileLength h policy
  have hplain : Holds m.plain.compressed content content := rfl
  obtain ⟨t, ht, hrem', hdecode'⟩ := decode_fileHeader fileLength hplain policy
  have hlacks : s.Lacks [] t := ⟨hs, ht, by rw [hrem, hrem', List.append_nil]⟩
  have hbody := ((tracks_readBody policy m.compressed m.header.version fileLength.toNat
    (.ofSource s fileHeaderLength)).same hlacks).outcome
  rw [ofBytes_eq, ofBytes_eq, outcome_congr hdecode, outcome_congr hdecode']
  show (readBody policy false _ _).outcome _ = _
  rw [readBody_plain policy m.compressed, outcome_map]
  exact congrArg _ hbody

/-- The form of a movie is what the signature in front of its body says. -/
theorem compressed_of_readBody {policy : UnknownTagPolicy} {compressed : Bool} {version : UInt8}
    {fileLength : Nat} {m : Movie} {r r' : Reader}
    (h : readBody policy compressed version fileLength r = .ok m r') :
    m.compressed = compressed := by
  obtain ⟨_, _, _, h₁⟩ := ok_of_bind h
  obtain ⟨_, _, _, h₂⟩ := ok_of_bind h₁
  obtain ⟨_, _, _, h₃⟩ := ok_of_bind h₂
  obtain ⟨_, _, _, h₄⟩ := ok_of_bind h₃
  obtain ⟨_, _, _, h₅⟩ := ok_of_bind h₄
  split at h₅
  · obtain ⟨_, _, hthrow, _⟩ := ok_of_bind h₅
    cases hthrow
  · cases h₅
    rfl

theorem take_of_ofBytes {policy : UnknownTagPolicy} {b : List UInt8} {m : Movie}
    (h : ofBytes policy b = .ok m) : b.take 3 = m.signature := by
  rw [ofBytes_eq, decode_eq] at h
  obtain ⟨r, hdecode⟩ := run_of_outcome h
  obtain ⟨header, r₁, hopen, hbody⟩ := ok_of_bind hdecode
  obtain ⟨header', r₂, hheader, henter⟩ := ok_of_bind hopen
  obtain ⟨_, r₃, _, hpure⟩ := ok_of_bind henter
  cases hpure
  have hkind := compressedOf_eq_ok (readHeader_eq_ok (s := .ofBytes b) hheader).1
  rw [← compressed_of_readBody hbody] at hkind
  exact hkind

/-! ## Writing -/

/-- **Both forms agree.** A file and its plain form are read alike under every policy: the movies
are equal but for the form, and so are the errors with all their fields. And a movie is written in
both forms or in none, for the same reason, and then either file has the other form's plain file as
its plain form. -/
theorem forms_agree {compress : List UInt8 → List UInt8} (hz : Zlib.Inverts compress) :
    (∀ (policy : UnknownTagPolicy) (b image : List UInt8), uncompressedImage b = .ok image →
      ofBytes policy image = (ofBytes policy b).map plain) ∧
    ∀ m : Movie,
      (∃ err, m.packed.toBytesWith compress = .error err ∧
        m.plain.toBytesWith compress = .error err) ∨
      ∃ packedFile plainFile, m.packed.toBytesWith compress = .ok packedFile ∧
        m.plain.toBytesWith compress = .ok plainFile ∧
        uncompressedImage packedFile = .ok plainFile ∧
        uncompressedImage plainFile = .ok plainFile := by
  refine ⟨fun policy b image h => ?_, fun m => ?_⟩
  · obtain ⟨m, fileLength, stored, rfl⟩ := exists_of_uncompressedImage h
    obtain ⟨content, hholds, rfl⟩ := uncompressedImage_eq_ok_iff.mp h
    exact ofBytes_of_holds hholds policy
  · have hpacked : m.packed.encodeBody = m.encodeBody := rfl
    have hplain : m.plain.encodeBody = m.encodeBody := rfl
    rw [toBytesWith_eq_map, toBytesWith_eq_map, hpacked, hplain]
    cases m.encodeBody with
    | error err => exact .inl ⟨err, rfl, rfl⟩
    | ok file =>
      refine .inr ⟨_, _, rfl, rfl, ?_, ?_⟩
      · exact uncompressedImage_eq_ok_iff.mpr ⟨file.1, hz file.1, rfl⟩
      · exact uncompressedImage_eq_ok_iff.mpr ⟨file.1, rfl, rfl⟩

/-- A file whose only record wants three bytes and has one: compressed, it fails as it does plain,
with an offset in the plain form. -/
theorem forms_agree_truncated :
    ∃ packedFile,
      uncompressedImage packedFile =
        .ok [70, 87, 83, 10, 99, 0, 0, 0, 0, 0, 24, 1, 0, 0x43, 2, 10] ∧
      ofBytes .skip packedFile = .error (.truncatedRecord 9 1 16) := by
  have himage : uncompressedImage
      ((packed {}).fileHeader 99 ++ Zlib.compress [0, 0, 24, 1, 0, 0x43, 2, 10]) =
      .ok ((plain {}).fileHeader 99 ++ [0, 0, 24, 1, 0, 0x43, 2, 10]) :=
    uncompressedImage_eq_ok_iff.mpr ⟨_, Zlib.inverts_compress _, rfl⟩
  have hsame := (forms_agree Zlib.inverts_compress).1 .skip _ _ himage
  have hplain : ofBytes .skip ((plain {}).fileHeader 99 ++ [0, 0, 24, 1, 0, 0x43, 2, 10]) =
      .error (.truncatedRecord 9 1 16) := by decide +kernel
  rw [hplain] at hsame
  refine ⟨_, himage, ?_⟩
  cases hread : ofBytes .skip
      ((packed {}).fileHeader 99 ++ Zlib.compress [0, 0, 24, 1, 0, 0x43, 2, 10]) with
  | error err =>
    rw [hread] at hsame
    cases hsame
    rfl
  | ok m =>
    rw [hread] at hsame
    cases hsame

end Swf.Movie
