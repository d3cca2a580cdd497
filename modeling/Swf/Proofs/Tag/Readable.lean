import Swf.Proofs.Reader.Ensures
import Swf.Proofs.RecordHeader
import Swf.Proofs.Tag.Layout

/-!
# What can come out of a record

Whatever bytes a tag was read from, canonical or not, it satisfies what its writer asks for: its
strings hold no zero byte, its links can be counted in 16 bits, and its payload is no longer than
the record that it came from. There is one exception, and it is not in a tag's own fields: the
bounds of a rectangle are only known to fit the widest field, and the lowest of those values has no
layout. `Tag.Sized` says just that much of a tag.
-/

namespace Swf

open Decoder Encoder

/-! ## Rectangles and headers -/

namespace Rect

/-- Every bound fits the widest field. -/
def Readable (r : Rect) : Prop := ∀ v ∈ r.bounds, Bounded v

theorem ensures_read : Ensures Rect.read fun r _ => r.Readable := by
  refine (Ensures.readUnsigned (by decide)).bind fun width _ hwidth => ?_
  have hle : width.toNat ≤ 31 := Nat.le_of_lt_succ hwidth
  have hbound : Ensures (readSigned width.toNat) fun v _ => Bounded v := by
    refine (Ensures.readSigned (by omega)).mono fun v _ hv => ?_
    have hpow : 2 ^ (width.toNat - 1) ≤ 2 ^ 30 := Nat.pow_le_pow_right (by decide) (by omega)
    unfold Bounded
    omega
  refine hbound.bind fun minX _ hminX => hbound.bind fun maxX _ hmaxX =>
    hbound.bind fun minY _ hminY => hbound.bind fun maxY _ hmaxY =>
      Ensures.align.bind fun _ _ _ => Ensures.pure ?_
  intro v hv
  simp only [bounds, List.mem_cons, List.not_mem_nil, or_false] at hv
  rcases hv with rfl | rfl | rfl | rfl <;> assumption

/-- A rectangle without the lowest bound takes no more than 17 bytes. -/
theorem layout_of_readable {r : Rect} (h : r.Readable) (hlow : lowest ∉ r.bounds) :
    ∃ bytes, r.layout = .ok bytes ∧ bytes.length ≤ 17 := by
  rcases layout_of_bounded h with ⟨hmem, _⟩ | ⟨_, hlayout⟩
  · exact absurd hmem hlow
  · have hle : r.numberOfBits ≤ 31 := numberOfBits_le_iff.mpr fun v hv => by
      rcases countBits_of_bounded (h v hv) with ⟨_, he⟩ | h
      · exact absurd (he ▸ hv) hlow
      · exact h.1
    refine ⟨_, hlayout, ?_⟩
    rw [length_packBits, length_fields]
    omega

end Rect

namespace RecordHeader

theorem ensures_read : Ensures RecordHeader.read fun h _ => h.code.toNat < 1024 := by
  have hcode : ∀ word : UInt16, (word >>> 6).toNat < 1024 := by
    intro word
    have := word.toNat_lt
    rw [toNat_shiftRight]
    omega
  refine Ensures.readUInt16.bind fun word _ _ => ?_
  simp only
  split
  · exact Ensures.readUInt32.bind fun _ _ _ => Ensures.pure (hcode word)
  · exact (Ensures.pure (P := fun _ _ => True) trivial).bind fun _ _ _ => Ensures.pure (hcode word)

end RecordHeader

/-! ## Parts of payloads -/

theorem FileAttributes.ensures_read : Ensures FileAttributes.read fun _ _ => True := by
  have hreserved : ∀ n, n ≤ 32 → Ensures (readUnsigned n) fun _ _ => True :=
    fun n hn => (Ensures.readUnsigned hn).mono fun _ _ _ => trivial
  exact (hreserved 1 (by decide)).bind fun _ _ _ => Ensures.readFlag.bind fun _ _ _ =>
    Ensures.readFlag.bind fun _ _ _ => Ensures.readFlag.bind fun _ _ _ =>
      Ensures.readFlag.bind fun _ _ _ => (hreserved 2 (by decide)).bind fun _ _ _ =>
        Ensures.readFlag.bind fun _ _ _ => (hreserved 24 (by decide)).bind fun _ _ _ =>
          Ensures.pure trivial

namespace SymbolClass

theorem ensures_readLinks (count : Nat) :
    Ensures (readLinks count) fun links k =>
      links.length = count ∧ ∃ bytes, linksLayout links = .ok bytes ∧ bytes.length = k := by
  induction count with
  | zero => exact Ensures.pure ⟨rfl, [], rfl, rfl⟩
  | succ count ih =>
    refine Ensures.readUInt16.bind fun id i hi => Ensures.readString.bind fun name j hname =>
      ih.bind fun rest k hrest => Ensures.pure ?_
    obtain ⟨hcount, bytes, hbytes, hk⟩ := hrest
    refine ⟨by rw [List.length_cons, hcount],
      bytesOfUInt16 id ++ (utf8 name ++ [0] ++ bytes), ?_, ?_⟩
    · rw [linksLayout, stringLayout_of_not_mem hname.1, hbytes, Layout.followedBy_ok,
        Layout.followedBy_ok]
    · simp only [List.length_append, length_bytesOfUInt16, List.length_singleton]
      omega

theorem ensures_read :
    Ensures SymbolClass.read fun links k =>
      ∃ bytes, links.layout = .ok bytes ∧ bytes.length = k := by
  refine Ensures.readUInt16.bind fun count i hi => (ensures_readLinks count.toNat).bind
    fun links k hlinks => Ensures.pure ?_
  obtain ⟨hcount, bytes, hbytes, hk⟩ := hlinks
  have hlt := count.toNat_lt
  refine ⟨bytesOfUInt16 (UInt16.ofNat links.length) ++ bytes, ?_, ?_⟩
  · unfold layout
    simp only
    rw [if_neg (by omega), hbytes, Layout.followedBy_ok]
  · rw [List.length_append, length_bytesOfUInt16]
    omega

end SymbolClass

/-! ## Whole payloads -/

namespace Tag

/-- The rectangles of a tag. -/
def rects : Tag → List Rect
  | .defineScalingGrid grid => [grid.splitter]
  | _ => []

/-- A tag whose rectangles can be read and that, unless one of them has the lowest bound, has a
payload of no more than `k` bytes. Bit fields are not charged to `k`; no kind with bit fields takes
more than 32 bytes. -/
structure Sized (tag : Tag) (k : Nat) : Prop where
  /-- Its rectangles can be read. -/
  rects : ∀ rect ∈ tag.rects, rect.Readable
  /-- But for the lowest bound, it can be written. -/
  layout : (∀ rect ∈ tag.rects, Rect.lowest ∉ rect.bounds) →
    ∃ payload, tag.layout = .ok payload ∧ payload.length ≤ max k 32

theorem Sized.of_layout {tag : Tag} {payload : List UInt8} {k : Nat} (hrects : tag.rects = [])
    (h : tag.layout = .ok payload) (hk : payload.length ≤ max k 32) : tag.Sized k where
  rects := by rw [hrects]; simp
  layout := fun _ => ⟨payload, h, hk⟩

theorem Sized.mono {tag : Tag} {j k : Nat} (h : tag.Sized j) (hjk : j ≤ k) : tag.Sized k where
  rects := h.rects
  layout := by
    intro hlow
    obtain ⟨payload, hpayload, hlen⟩ := h.layout hlow
    exact ⟨payload, hpayload, by omega⟩

theorem ensures_readKind (header : RecordHeader) (kind : TagKind) :
    Ensures (readKind header kind) fun tag k => tag.kind? = some kind ∧ tag.Sized k := by
  cases kind with
  | «end» => exact Ensures.pure ⟨rfl, Sized.of_layout rfl rfl (by simp)⟩
  | showFrame => exact Ensures.pure ⟨rfl, Sized.of_layout rfl rfl (by simp)⟩
  | setBackgroundColor =>
    exact Ensures.readUInt8.bind fun _ _ _ => Ensures.readUInt8.bind fun _ _ _ =>
      Ensures.readUInt8.bind fun _ _ _ =>
        Ensures.pure ⟨rfl, Sized.of_layout rfl rfl (by simp)⟩
  | defineBitsJpeg2 =>
    refine Ensures.map (Ensures.readUInt16.bind fun id i hi =>
      (Ensures.ofExcept (P := fun _ _ => True) fun _ _ => trivial).bind fun size j _ =>
        (Ensures.readBytes size).bind fun data k hdata =>
          Ensures.pure ⟨rfl, Sized.of_layout rfl rfl ?_⟩)
    simp only [List.length_append, length_bytesOfUInt16]
    omega
  | scriptLimits =>
    exact Ensures.readUInt16.bind fun _ _ _ => Ensures.readUInt16.bind fun _ _ _ =>
      Ensures.pure ⟨rfl, Sized.of_layout rfl rfl (by simp)⟩
  | fileAttributes =>
    refine Ensures.map (FileAttributes.ensures_read.mono fun attributes k _ =>
      ⟨rfl, Sized.of_layout rfl rfl ?_⟩)
    rw [length_packBits, FileAttributes.length_bits]
    omega
  | symbolClass =>
    refine Ensures.map (SymbolClass.ensures_read.mono fun links k h => ?_)
    obtain ⟨bytes, hbytes, hk⟩ := h
    exact ⟨rfl, Sized.of_layout rfl hbytes (by omega)⟩
  | metadata =>
    refine Ensures.map (Ensures.readString.mono fun xml k h => ?_)
    refine ⟨rfl, Sized.of_layout rfl (stringLayout_of_not_mem h.1) ?_⟩
    rw [List.length_append, List.length_singleton]
    omega
  | defineScalingGrid =>
    refine Ensures.map (Ensures.readUInt16.bind fun id i _ => Rect.ensures_read.bind
      fun splitter j hsplitter => Ensures.pure ⟨rfl, ?_, fun hlow => ?_⟩)
    · intro rect hrect
      obtain rfl : rect = splitter := by simpa [Tag.rects] using hrect
      exact hsplitter
    · obtain ⟨bytes, hbytes, hlen⟩ :=
        Rect.layout_of_readable hsplitter (hlow splitter (by simp [Tag.rects]))
      refine ⟨bytesOfUInt16 id ++ bytes, ?_, ?_⟩
      · rw [Tag.layout, hbytes, Layout.followedBy_ok]
      · rw [List.length_append, length_bytesOfUInt16]
        omega
  | doAbc =>
    refine Ensures.map (Ensures.position.bind fun start h _ => Ensures.readUInt32.bind
      fun flags i hi => Ensures.readString.bind fun name j hname => Ensures.position.bind
        fun _ _ _ => (Ensures.ofExcept (P := fun _ _ => True) fun _ _ => trivial).bind
          fun size _ _ => (Ensures.readBytes size).bind fun data k hdata => Ensures.pure ?_)
    have hlayout : (Tag.doAbc { flags, name, abcData := data }).layout =
        .ok (bytesOfUInt32 flags ++ (utf8 name ++ [0] ++ data)) := by
      rw [Tag.layout, stringLayout_of_not_mem hname.1, Layout.followedBy_ok, Layout.followedBy_ok]
    refine ⟨rfl, Sized.of_layout rfl hlayout ?_⟩
    simp only [List.length_append, length_bytesOfUInt32, List.length_singleton]
    omega
  | defineBinaryData =>
    refine Ensures.map (Ensures.readUInt16.bind fun id h hh => Ensures.readUInt32.bind
      fun reserved i hi => (Ensures.ofExcept (P := fun _ _ => True) fun _ _ => trivial).bind
        fun size _ _ => (Ensures.readBytes size).bind fun data k hdata =>
          Ensures.pure ⟨rfl, Sized.of_layout rfl rfl ?_⟩)
    simp only [List.length_append, length_bytesOfUInt16, length_bytesOfUInt32]
    omega

theorem toNat_code_lt (kind : TagKind) : kind.code.toNat < 1024 := by cases kind <;> decide

theorem code_of_kind? {tag : Tag} {kind : TagKind} (h : tag.kind? = some kind) :
    tag.code = kind.code := by
  cases tag <;> first | (cases h; rfl) | exact absurd h (by simp [kind?])

/-- A tag that can have been read: it leads back to its kind, its code fits a header, and it has the
size of a payload. -/
structure Readable (tag : Tag) (k : Nat) : Prop where
  canonical : tag.Canonical
  code : tag.code.toNat < 1024
  sized : tag.Sized k

theorem ensures_read {header : RecordHeader} (hcode : header.code.toNat < 1024) :
    Ensures (Tag.read header) fun tag k => tag.Readable k := by
  unfold Tag.read
  cases hkind : TagKind.ofCode? header.code with
  | some kind =>
    refine (ensures_readKind header kind).mono fun tag k h => ?_
    exact ⟨canonical_of_kind? h.1, by rw [code_of_kind? h.1]; exact toNat_code_lt kind, h.2⟩
  | none =>
    refine (Ensures.readBytes _).bind fun data k hdata => Ensures.pure ?_
    refine ⟨hkind, hcode, Sized.of_layout rfl rfl ?_⟩
    show data.length ≤ _
    omega

end Tag

end Swf
