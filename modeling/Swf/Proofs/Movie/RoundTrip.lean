import Swf.Proofs.Movie.Body
import Swf.Proofs.Zlib.Stored

/-!
# Written files are read back

What a movie is written as is read as that movie, but for the tags that end one: the list of a
movie that was read never holds any, and the writer puts one behind whatever list it is given.

The proof is the composition of its parts. A file is eight bytes in front of a body, the body has
been dealt with (`reads_readBody`), and a compressed body is steady as soon as the decoder delivers
what the encoder was given. Nothing else is asked of the compression: `toBytesWith` takes the
encoder as an argument.
-/

namespace Swf.Movie

open Decoder Encoder

/-- The letters that start the file of a movie. -/
def signature (m : Movie) : List UInt8 :=
  if m.compressed then compressedSignature else plainSignature

/-- The body as it stands in the file. -/
def stored (compress : List UInt8 → List UInt8) (m : Movie) (body : List UInt8) : List UInt8 :=
  if m.compressed then compress body else body

/-- The eight bytes in front of the body. -/
def fileHeader (m : Movie) (fileLength : UInt32) : List UInt8 :=
  m.signature ++ ([m.header.version] ++ bytesOfUInt32 fileLength)

/-! ## Writing -/

theorem encodeBody_eq (m : Movie) :
    m.encodeBody =
      match m.bodyLayout with
      | .error err => .error err
      | .ok body =>
        if fileHeaderLength + body.length ≥ 0x100000000 then
          .error (.rangeOverflow .fileLength (bitLength (fileHeaderLength + body.length)) 32)
        else .ok (body, UInt32.ofNat (fileHeaderLength + body.length)) := by
  unfold encodeBody
  rw [m.collect_writeBody]
  cases m.bodyLayout with
  | error err => rfl
  | ok body =>
    by_cases hlong : fileHeaderLength + body.length ≥ 0x100000000
    · simp only [hlong, if_true]
      exact if_pos hlong
    · simp only [hlong, if_false]
      exact if_neg hlong

/-- A body that there is and that the length field can count. -/
theorem encodeBody_eq_ok {m : Movie} {body : List UInt8} {fileLength : UInt32}
    (h : m.encodeBody = .ok (body, fileLength)) :
    m.bodyLayout = .ok body ∧ fileLength.toNat = fileHeaderLength + body.length := by
  rw [encodeBody_eq] at h
  split at h
  · exact absurd h (by simp)
  · next body' hbody =>
    split at h
    · exact absurd h (by simp)
    · next hshort =>
      obtain ⟨rfl, rfl⟩ :
          body' = body ∧ UInt32.ofNat (fileHeaderLength + body'.length) = fileLength := by
        simpa using h
      exact ⟨hbody, UInt32.toNat_ofNat_of_lt' (Nat.not_le.mp hshort)⟩

/-- The file of a movie, or why it has none. -/
def fileLayout (compress : List UInt8 → List UInt8) (m : Movie) : Layout := do
  let (body, fileLength) ← m.encodeBody
  return m.fileHeader fileLength ++ m.stored compress body

theorem encodes_writeWith (compress : List UInt8 → List UInt8) (m : Movie) :
    Encodes (m.writeWith compress) (m.fileLayout compress) := by
  refine Encodes.bind_ofExcept fun file _ => ?_
  have hall := (Encodes.writeBytes m.signature).bind_ok
    ((Encodes.writeUInt8 m.header.version).bind_ok
      ((Encodes.writeUInt32 file.2).bind_ok (Encodes.emit (m.stored compress file.1))))
  have hbytes : m.signature ++ ([m.header.version] ++ (bytesOfUInt32 file.2 ++
      m.stored compress file.1)) = m.fileHeader file.2 ++ m.stored compress file.1 := by
    simp [fileHeader]
  rw [hbytes] at hall
  exact hall

theorem toBytesWith_eq (compress : List UInt8 → List UInt8) (m : Movie) :
    m.toBytesWith compress = m.fileLayout compress := (m.encodes_writeWith compress).collect

/-- The file of a movie is made of a body that does not depend on its form. -/
theorem toBytesWith_eq_map (compress : List UInt8 → List UInt8) (m : Movie) :
    m.toBytesWith compress = m.encodeBody.map fun file =>
      m.fileHeader file.2 ++ m.stored compress file.1 := by
  rw [toBytesWith_eq]
  unfold fileLayout
  cases m.encodeBody <;> rfl

/-- A file that there is consists of the header for its body and of the body. -/
theorem toBytesWith_eq_ok {compress : List UInt8 → List UInt8} {m : Movie} {b : List UInt8}
    (h : m.toBytesWith compress = .ok b) :
    ∃ body fileLength, m.bodyLayout = .ok body ∧
      fileLength.toNat = fileHeaderLength + body.length ∧
      b = m.fileHeader fileLength ++ m.stored compress body := by
  rw [toBytesWith_eq_map] at h
  cases hbody : m.encodeBody with
  | error err => rw [hbody] at h; cases h
  | ok file =>
    obtain ⟨body, fileLength⟩ := file
    rw [hbody] at h
    obtain ⟨hlayout, hlen⟩ := encodeBody_eq_ok hbody
    exact ⟨body, fileLength, hlayout, hlen, (Except.ok.inj h).symm⟩

/-! ## Reading -/

/-- Reads the eight bytes in front of the body. -/
def readHeader : Decoder (Bool × UInt8 × UInt32) := do
  let compressed ← Decoder.ofExcept (compressedOf (← readFully 3))
  let version ← readUInt8
  let fileLength ← readUInt32
  return (compressed, version, fileLength)

/-- Reads what is never compressed, and makes the body the source of what follows. -/
def openBody : Decoder (Bool × UInt8 × UInt32) := do
  let header ← readHeader
  enterBody header.1
  return header

theorem decode_eq (policy : UnknownTagPolicy) :
    decode policy = openBody >>= fun h => readBody policy h.1 h.2.1 h.2.2.toNat := by
  unfold decode openBody readHeader
  simp only [bind_assoc, pure_bind]

theorem read_eq (policy : UnknownTagPolicy) (source : Source) :
    read policy source = (decode policy).outcome (.ofSource source 0) := by
  unfold Movie.read outcome
  cases decode policy (.ofSource source 0) <;> rfl

theorem ofBytes_eq (policy : UnknownTagPolicy) (b : List UInt8) :
    ofBytes policy b = (decode policy).outcome (.ofBytes b) := read_eq policy (.ofBytes b)

theorem compressedOf_signature (m : Movie) : compressedOf m.signature = .ok m.compressed := by
  unfold signature
  cases m.compressed <;> rfl

theorem compressedOf_eq_ok {signature : List UInt8} {compressed : Bool}
    (h : compressedOf signature = .ok compressed) :
    signature = ({ compressed } : Movie).signature := by
  unfold compressedOf at h
  split at h
  · next hplain => cases h; exact hplain
  · split at h
    · next hpacked => cases h; exact hpacked
    · cases h

theorem length_signature (m : Movie) : m.signature.length = 3 := by
  unfold signature
  cases m.compressed <;> rfl

theorem take_signature (m : Movie) (fileLength : UInt32) (stored : List UInt8) :
    (m.fileHeader fileLength ++ stored).take 3 = m.signature := by
  unfold fileHeader
  rw [← length_signature m, List.append_assoc]
  exact List.take_left

theorem reads_readHeader (m : Movie) (fileLength : UInt32) :
    Reads 0 readHeader (m.fileHeader fileLength) (m.compressed, m.header.version, fileLength) := by
  have hthree := Reads.readFully (p := 0) m.signature
  rw [length_signature] at hthree
  refine hthree.bind ?_
  rw [compressedOf_signature]
  refine (Reads.ofExcept _ _).nil_bind ((Reads.readUInt8 _).bind ((Reads.readUInt32 _).bind_nil ?_))
  exact Reads.pure _ _

/-- What is stored behind a file header holds `content`, as it is or compressed. -/
def Holds (compressed : Bool) (stored content : List UInt8) : Prop :=
  if compressed then Zlib.Delivers stored content else stored = content

theorem holds_stored {compress : List UInt8 → List UInt8} {m : Movie}
    (hz : m.compressed = true → Zlib.Inverts compress) (body : List UInt8) :
    Holds m.compressed (m.stored compress body) body := by
  unfold Holds stored
  cases hc : m.compressed with
  | false => rfl
  | true => exact hz hc body

/-- Behind the file header, the body is read from a steady source of its plain form. -/
theorem enterBody_of_holds {compressed : Bool} {stored content : List UInt8} {r : Reader}
    (h : Holds compressed stored content) (hr : r.source = .ofBytes stored) :
    ∃ s, enterBody compressed r = .ok () (.ofSource s fileHeaderLength) ∧ s.Steady ∧
      s.remaining = content := by
  have henter : enterBody compressed r = .ok () (.ofSource
      (if compressed then (Source.ofBytes stored).inflate else .ofBytes stored)
      fileHeaderLength) := by
    rw [← hr]
    rfl
  unfold Holds at h
  refine ⟨_, henter, ?_⟩
  cases compressed with
  | false =>
    obtain rfl : stored = content := h
    exact ⟨Source.steady_ofBytes stored, rfl⟩
  | true => exact ⟨Source.steady_inflate h, Source.remaining_inflate h⟩

/-- Behind the file header of a file in memory stands such a source. -/
theorem openBody_fileHeader {m : Movie} {stored content : List UInt8} (fileLength : UInt32)
    (h : Holds m.compressed stored content) :
    ∃ s, s.Steady ∧ s.remaining = content ∧
      openBody (.ofBytes (m.fileHeader fileLength ++ stored)) =
        .ok (m.compressed, m.header.version, fileLength) (.ofSource s fileHeaderLength) := by
  obtain ⟨r₁, h₁, t₁, _⟩ := reads_readHeader m fileLength
    (.ofBytes (m.fileHeader fileLength ++ stored)) stored (Source.steady_ofBytes _) rfl rfl rfl
  -- what stands behind the file header is still bytes in memory
  have hsource : r₁.source = .ofBytes stored := by
    obtain ⟨data, hdata⟩ := t₁.ofBytes ⟨_, rfl⟩
    have hrem := t₁.remaining
    rw [hdata] at hrem ⊢
    exact congrArg _ (List.append_cancel_left hrem).symm
  obtain ⟨s, henter, hsteady, hcontent⟩ := enterBody_of_holds h hsource
  exact ⟨s, hsteady, hcontent, (bind_of_ok h₁).trans (bind_of_ok henter)⟩

/-- So the file is decoded as its body is read. -/
theorem decode_fileHeader {m : Movie} {stored content : List UInt8} (fileLength : UInt32)
    (h : Holds m.compressed stored content) (policy : UnknownTagPolicy) :
    ∃ s, s.Steady ∧ s.remaining = content ∧
      decode policy (.ofBytes (m.fileHeader fileLength ++ stored)) =
        readBody policy m.compressed m.header.version fileLength.toNat
          (.ofSource s fileHeaderLength) := by
  obtain ⟨s, hsteady, hcontent, hopen⟩ := openBody_fileHeader fileLength h
  exact ⟨s, hsteady, hcontent, by rw [decode_eq, bind_of_ok hopen]⟩

/-! ## Both ways -/

/-- A file in memory is decoded to the movie that it was written from, and nothing is left of it. -/
theorem decode_of_layout {compress : List UInt8 → List UInt8} {m : Movie} {body : List UInt8}
    {fileLength : UInt32} (hz : m.compressed = true → Zlib.Inverts compress)
    (hcanon : ∀ tag ∈ m.tags, tag.Canonical) (hbody : m.bodyLayout = .ok body)
    (hlen : fileLength.toNat = fileHeaderLength + body.length) :
    ∃ r, decode .preserve (.ofBytes (m.fileHeader fileLength ++ m.stored compress body)) =
      .ok { m with tags := m.tags.filter (· ≠ .end) } r ∧ r.source.remaining = [] := by
  obtain ⟨s, hsteady, hcontent, hdecode⟩ :=
    decode_fileHeader fileLength (holds_stored hz body) .preserve
  obtain ⟨r, hread, took, _⟩ := reads_readBody hcanon hbody (.ofSource s fileHeaderLength) []
    hsteady rfl rfl (by rw [List.append_nil]; exact hcontent)
  have hrem : s.remaining = body ++ r.source.remaining := took.remaining
  rw [hcontent] at hrem
  exact ⟨r, by rw [hdecode, hlen, hread], List.self_eq_append_right.mp hrem⟩

theorem ofBytes_of_layout {compress : List UInt8 → List UInt8} {m : Movie} {body : List UInt8}
    {fileLength : UInt32} (hz : m.compressed = true → Zlib.Inverts compress)
    (hcanon : ∀ tag ∈ m.tags, tag.Canonical) (hbody : m.bodyLayout = .ok body)
    (hlen : fileLength.toNat = fileHeaderLength + body.length) :
    ofBytes .preserve (m.fileHeader fileLength ++ m.stored compress body) =
      .ok { m with tags := m.tags.filter (· ≠ .end) } := by
  obtain ⟨r, hdecode, _⟩ := decode_of_layout hz hcanon hbody hlen
  rw [ofBytes_eq]
  unfold outcome
  rw [hdecode]

/-- **What a movie is written as is read as the movie**, without the tags that end one. A record
that is kept byte for byte must not carry the code of a kind. -/
theorem ofBytes_of_toBytesWith {compress : List UInt8 → List UInt8} {m : Movie} {b : List UInt8}
    (hz : m.compressed = true → Zlib.Inverts compress)
    (hunknown : ∀ record, Tag.unknown record ∈ m.tags → TagKind.ofCode? record.code = none)
    (h : m.toBytesWith compress = .ok b) :
    ofBytes .preserve b = .ok { m with tags := m.tags.filter (· ≠ .end) } := by
  obtain ⟨body, fileLength, hbody, hlen, rfl⟩ := toBytesWith_eq_ok h
  refine ofBytes_of_layout hz (fun tag htag => ?_) hbody hlen
  cases hkind : tag.kind? with
  | some kind => exact Tag.canonical_of_kind? hkind
  | none =>
    cases tag with
    | unknown record => exact hunknown record htag
    | _ => exact absurd hkind (by simp [Tag.kind?])

/-- A compressed movie with a tag in the middle that would end it and a record of an unknown
code. -/
theorem ofBytes_of_toBytesWith_compressed :
    ∃ b, toBytesWith Zlib.compress
        { compressed := true, tags := [.showFrame, .end, .unknown ⟨255, [7]⟩, .showFrame] } =
          .ok b ∧
      ofBytes .preserve b =
        .ok { compressed := true, tags := [.showFrame, .unknown ⟨255, [7]⟩, .showFrame] } := by
  have hbody : encodeBody
      { compressed := true, tags := [.showFrame, .end, .unknown ⟨255, [7]⟩, .showFrame] } =
      .ok ([120, 0, 5, 95, 0, 0, 15, 160, 0, 0, 24, 1, 0, 64, 0, 193, 63, 7, 64, 0, 0, 0], 30) := by
    decide +kernel
  have hb := toBytesWith_eq_map Zlib.compress
    { compressed := true, tags := [.showFrame, .end, .unknown ⟨255, [7]⟩, .showFrame] }
  rw [hbody] at hb
  refine ⟨_, hb, ofBytes_of_toBytesWith (fun _ => Zlib.inverts_compress) (fun record h => ?_) hb⟩
  obtain rfl : record = ⟨255, [7]⟩ := by simpa using h
  rfl

end Swf.Movie
