import Swf.Proofs.Rect
import Swf.Tag.Codec

/-!
# Payloads of tags

Each kind of tag has a layout: the bytes of its payload, or the one reason why it has none. The
writer produces it (`Tag.encodes_write`), the declared length is its length (`Tag.length_eq`), and
the reader takes exactly these bytes and gives the tag back (`Tag.reads_read`). Everything about
records follows from these three without looking at a kind again.
-/

namespace Swf

open Decoder Encoder

/-! ## Parts of payloads -/

namespace FileAttributes

/-- The four bytes of flags as bits; reserved bits are zero. -/
def bits (attributes : FileAttributes) : List Bool :=
  [false, attributes.useDirectBlit, attributes.useGpu, attributes.hasMetadata,
    attributes.actionScript3, false, false, attributes.useNetwork] ++ List.replicate 24 false

theorem length_bits (attributes : FileAttributes) : attributes.bits.length = 32 := rfl

theorem bitsOfBytes_bits (attributes : FileAttributes) :
    bitsOfBytes (packBits attributes.bits) = attributes.bits := by
  have hpad : padding 32 = 0 := by decide
  rw [bitsOfBytes_packBits, length_bits, hpad, List.replicate_zero, List.append_nil]

theorem encodes_write (attributes : FileAttributes) :
    Encodes attributes.write (.ok (packBits attributes.bits)) := by
  refine Encodes.of_bits ?_
  rw [bitsOfBytes_bits]
  have hreserved : ∀ n, WritesBits (writeUnsigned n 0) (List.replicate n false) := by
    intro n
    have := WritesBits.writeUnsigned (n := n) (v := 0) (Nat.two_pow_pos n)
    rwa [show (0 : UInt32).toNat = 0 from rfl, bitsOf_zero] at this
  exact (hreserved 1).bind ((WritesBits.writeFlag _).bind ((WritesBits.writeFlag _).bind
    ((WritesBits.writeFlag _).bind ((WritesBits.writeFlag _).bind ((hreserved 2).bind
      ((WritesBits.writeFlag _).bind (hreserved 24)))))))

theorem reads_read {p : Nat} (attributes : FileAttributes) :
    Reads p FileAttributes.read (packBits attributes.bits) attributes := by
  refine Reads.of_bits ?_
  rw [bitsOfBytes_bits]
  have hreserved : ∀ n, ReadsBits (readUnsigned n) (List.replicate n false) 0 := by
    intro n
    have := ReadsBits.readUnsigned_bitsOf (n := n) (v := 0) (Nat.two_pow_pos n)
    rwa [show (0 : UInt32).toNat = 0 from rfl, bitsOf_zero] at this
  refine (hreserved 1).bind ((ReadsBits.readFlag _).bind ((ReadsBits.readFlag _).bind
    ((ReadsBits.readFlag _).bind ((ReadsBits.readFlag _).bind ((hreserved 2).bind
      ((ReadsBits.readFlag _).bind ((hreserved 24).bind_nil ?_)))))))
  exact ReadsBits.pure attributes

end FileAttributes

namespace SymbolClass

/-- The links one after the other. -/
def linksLayout : List (UInt16 × String) → Layout
  | [] => .ok []
  | (id, name) :: rest =>
    Layout.followedBy (.ok (bytesOfUInt16 id)) ((stringLayout name).followedBy (linksLayout rest))

/-- The number of links, then the links. -/
def layout (links : SymbolClass) : Layout :=
  if links.symbols.length ≥ 0x10000 then
    .error (.rangeOverflow .symbolCount (bitLength links.symbols.length) 16)
  else
    Layout.followedBy (.ok (bytesOfUInt16 (UInt16.ofNat links.symbols.length)))
      (linksLayout links.symbols)

theorem encodes_writeLinks (links : List (UInt16 × String)) :
    Encodes (writeLinks links) (linksLayout links) := by
  induction links with
  | nil => exact Encodes.pure
  | cons link rest ih => exact (Encodes.writeUInt16 _).bind ((Encodes.writeString _).bind ih)

theorem encodes_write (links : SymbolClass) : Encodes links.write links.layout := by
  unfold SymbolClass.write layout
  by_cases hmany : links.symbols.length ≥ 0x10000
  · rw [if_pos hmany]
    simp only [hmany, if_true]
    exact Encodes.throw _
  · rw [if_neg hmany]
    simp only [hmany, if_false]
    exact (Encodes.writeUInt16 _).bind (encodes_writeLinks _)

theorem length_of_linksLayout {links : List (UInt16 × String)} {bytes : List UInt8}
    (h : linksLayout links = .ok bytes) :
    bytes.length =
      links.foldr (fun (_, name) rest => 2 + name.utf8ByteSize + 1 + rest) 0 := by
  induction links generalizing bytes with
  | nil =>
    obtain rfl : [] = bytes := by simpa [linksLayout] using h
    rfl
  | cons link rest ih =>
    obtain ⟨id, name⟩ := link
    obtain ⟨front, back, hid, hback, rfl⟩ := Layout.followedBy_eq_ok h
    obtain ⟨text, more, htext, hmore, rfl⟩ := Layout.followedBy_eq_ok hback
    obtain rfl : bytesOfUInt16 id = front := by simpa using hid
    rw [(stringLayout_eq_ok htext).1, List.foldr_cons, ← ih hmore]
    simp only [List.length_append, length_bytesOfUInt16, length_utf8, List.length_singleton]
    omega

theorem length_of_layout {links : SymbolClass} {bytes : List UInt8} (h : links.layout = .ok bytes) :
    bytes.length = links.size := by
  unfold layout at h
  split at h
  · exact absurd h (by simp)
  · obtain ⟨front, back, hcount, hback, rfl⟩ := Layout.followedBy_eq_ok h
    obtain rfl : bytesOfUInt16 (UInt16.ofNat links.symbols.length) = front := by simpa using hcount
    rw [List.length_append, length_of_linksLayout hback]
    rfl

theorem reads_readLinks {p : Nat} {links : List (UInt16 × String)} {bytes : List UInt8}
    (h : linksLayout links = .ok bytes) : Reads p (readLinks links.length) bytes links := by
  induction links generalizing p bytes with
  | nil =>
    obtain rfl : [] = bytes := by simpa [linksLayout] using h
    exact Reads.pure p []
  | cons link rest ih =>
    obtain ⟨id, name⟩ := link
    obtain ⟨front, back, hid, hback, rfl⟩ := Layout.followedBy_eq_ok h
    obtain ⟨text, more, htext, hmore, rfl⟩ := Layout.followedBy_eq_ok hback
    obtain rfl : bytesOfUInt16 id = front := by simpa using hid
    obtain ⟨rfl, hnul⟩ := stringLayout_eq_ok htext
    refine (Reads.readUInt16 id).bind ((Reads.readString hnul).bind ((ih hmore).bind_nil ?_))
    exact Reads.pure _ _

theorem reads_read {p : Nat} {links : SymbolClass} {bytes : List UInt8}
    (h : links.layout = .ok bytes) : Reads p SymbolClass.read bytes links := by
  unfold layout at h
  split at h
  · exact absurd h (by simp)
  · next hmany =>
    obtain ⟨front, back, hcount, hback, rfl⟩ := Layout.followedBy_eq_ok h
    obtain rfl : bytesOfUInt16 (UInt16.ofNat links.symbols.length) = front := by simpa using hcount
    have hn : (UInt16.ofNat links.symbols.length).toNat = links.symbols.length :=
      UInt16.toNat_ofNat_of_lt' (by simp only [UInt16.size]; omega)
    refine (Reads.readUInt16 _).bind ?_
    rw [hn]
    exact (reads_readLinks hback).bind_nil (Reads.pure _ links)

end SymbolClass

/-! ## Whole payloads -/

namespace RecordHeader

theorem remaining_eq {h : RecordHeader} {consumed left : Nat}
    (hlen : h.length.toNat = consumed + left) :
    h.remaining consumed = .ok left := by
  unfold remaining
  rw [if_neg (by omega), hlen, Nat.add_sub_cancel_left]

end RecordHeader

namespace Tag

/-- The bytes of a payload, or why there are none. -/
def layout : Tag → Layout
  | .end | .showFrame => .ok []
  | .setBackgroundColor color => .ok [color.red, color.green, color.blue]
  | .defineBitsJpeg2 image => .ok (bytesOfUInt16 image.characterId ++ image.imageData)
  | .scriptLimits limits =>
    .ok (bytesOfUInt16 limits.maxRecursionDepth ++ bytesOfUInt16 limits.scriptTimeoutSeconds)
  | .fileAttributes attributes => .ok (packBits attributes.bits)
  | .symbolClass links => links.layout
  | .metadata xml => stringLayout xml
  | .defineScalingGrid grid =>
    Layout.followedBy (.ok (bytesOfUInt16 grid.characterId)) grid.splitter.layout
  | .doAbc block =>
    Layout.followedBy (.ok (bytesOfUInt32 block.flags))
      ((stringLayout block.name).followedBy (.ok block.abcData))
  | .defineBinaryData blob =>
    .ok (bytesOfUInt16 blob.characterId ++ (bytesOfUInt32 blob.reserved ++ blob.data))
  | .unknown record => .ok record.data

theorem encodes_write (tag : Tag) : Encodes tag.write tag.layout := by
  cases tag with
  | «end» => exact Encodes.pure
  | showFrame => exact Encodes.pure
  | setBackgroundColor color => exact Encodes.writeBytes _
  | defineBitsJpeg2 image => exact (Encodes.writeUInt16 _).bind_ok (Encodes.writeBytes _)
  | scriptLimits limits => exact (Encodes.writeUInt16 _).bind_ok (Encodes.writeUInt16 _)
  | fileAttributes attributes => exact attributes.encodes_write
  | symbolClass links => exact links.encodes_write
  | metadata xml => exact Encodes.writeString xml
  | defineScalingGrid grid => exact (Encodes.writeUInt16 _).bind grid.splitter.encodes_write
  | doAbc block =>
    exact (Encodes.writeUInt32 _).bind ((Encodes.writeString _).bind (Encodes.writeBytes _))
  | defineBinaryData blob =>
    exact (Encodes.writeUInt16 _).bind_ok ((Encodes.writeUInt32 _).bind_ok (Encodes.writeBytes _))
  | unknown record => exact Encodes.writeBytes _

/-- The payload that the writer of records collects. -/
theorem collect_write (tag : Tag) : Writer.collect tag.write = tag.layout :=
  tag.encodes_write.collect

/-! ## Lengths -/

theorem measure_eq (tag : Tag) :
    tag.measure = (do recordLength (← tag.layout).length) := by
  have h := tag.encodes_write
  unfold measure
  cases hl : tag.layout with
  | error err =>
    rw [hl] at h
    obtain ⟨w', hw⟩ := h.error Writer.atByte_empty
    rw [bind_of_error hw]
    rfl
  | ok bytes =>
    rw [hl] at h
    rw [bind_align_of_encodes h Writer.atByte_empty]
    show recordLength (0 + bytes.length) = recordLength bytes.length
    rw [Nat.zero_add]

/-- The number of bytes in the payload of a tag, whether or not the length of a record can count
them. -/
def size : Tag → Nat
  | .end | .showFrame => 0
  | .setBackgroundColor _ => 3
  | .defineBitsJpeg2 image => 2 + image.imageData.length
  | .scriptLimits _ | .fileAttributes _ => 4
  | .symbolClass links => links.size
  | .metadata xml => xml.utf8ByteSize + 1
  | .defineScalingGrid grid => 2 + grid.splitter.encodedLength
  | .doAbc block => 4 + block.name.utf8ByteSize + 1 + block.abcData.length
  | .defineBinaryData blob => 6 + blob.data.length
  | .unknown record => record.data.length

theorem length_of_layout {tag : Tag} {payload : List UInt8} (h : tag.layout = .ok payload) :
    payload.length = tag.size := by
  cases tag with
  | «end» => cases h; rfl
  | showFrame => cases h; rfl
  | setBackgroundColor color => cases h; rfl
  | defineBitsJpeg2 image =>
    cases h
    rw [List.length_append]
    rfl
  | scriptLimits limits => cases h; rfl
  | fileAttributes attributes =>
    cases h
    rw [length_packBits, FileAttributes.length_bits]
    rfl
  | symbolClass links => exact SymbolClass.length_of_layout h
  | metadata xml =>
    rw [(stringLayout_eq_ok h).1, List.length_append, length_utf8]
    rfl
  | defineScalingGrid grid =>
    obtain ⟨front, back, hid, hback, rfl⟩ := Layout.followedBy_eq_ok h
    cases hid
    rw [List.length_append, Rect.length_of_layout hback]
    rfl
  | doAbc block =>
    obtain ⟨front, back, hflags, hback, rfl⟩ := Layout.followedBy_eq_ok h
    obtain ⟨text, data, htext, hdata, rfl⟩ := Layout.followedBy_eq_ok hback
    cases hflags
    cases hdata
    rw [(stringLayout_eq_ok htext).1]
    simp only [List.length_append, length_utf8, length_bytesOfUInt32, List.length_singleton, size]
    omega
  | defineBinaryData blob =>
    cases h
    simp only [List.length_append, length_bytesOfUInt16, length_bytesOfUInt32, size]
    omega
  | unknown record => cases h; rfl

/-- A payload that there is has the length that the tag declares. -/
theorem length_eq {tag : Tag} {payload : List UInt8} (h : tag.layout = .ok payload) :
    tag.length = recordLength payload.length := by
  cases tag with
  | defineScalingGrid grid =>
    -- this one is measured, and so it is the length of the payload by definition
    show measure _ = _
    rw [measure_eq, h]
    rfl
  | _ => rw [length_of_layout h]; rfl

theorem recordLength_eq_ok {n : Nat} {length : UInt32} (h : recordLength n = .ok length) :
    length.toNat = n := by
  unfold recordLength at h
  split at h
  · next hlt =>
    obtain rfl : UInt32.ofNat n = length := by simpa using h
    exact UInt32.toNat_ofNat_of_lt' hlt
  · exact absurd h (by simp)

theorem length_of_payload {tag : Tag} {payload : List UInt8} {declared : UInt32}
    (h : tag.layout = .ok payload) (hlen : declared.toNat = payload.length) :
    tag.length = .ok declared := by
  rw [length_eq h, ← hlen]
  unfold recordLength
  rw [if_pos declared.toNat_lt, UInt32.ofNat_toNat]

/-! ## Reading -/

/-- The layout of a kind is what its reader reads. -/
theorem reads_readKind {p : Nat} {tag : Tag} {kind : TagKind} {payload : List UInt8}
    {header : RecordHeader} (hkind : tag.kind? = some kind) (h : tag.layout = .ok payload)
    (hlen : header.length.toNat = payload.length) :
    Reads p (readKind header kind) payload tag := by
  cases tag with
  | unknown record => exact absurd hkind (by simp [kind?])
  | «end» => cases hkind; cases h; exact Reads.pure _ _
  | showFrame => cases hkind; cases h; exact Reads.pure _ _
  | setBackgroundColor color =>
    cases hkind; cases h
    refine (Reads.readUInt8 color.red).bind ((Reads.readUInt8 color.green).bind
      ((Reads.readUInt8 color.blue).bind_nil ?_))
    exact Reads.pure _ _
  | defineBitsJpeg2 image =>
    cases hkind; cases h
    have hleft : header.remaining 2 = .ok image.imageData.length := by
      refine RecordHeader.remaining_eq ?_
      rw [hlen, List.length_append, length_bytesOfUInt16]
    refine Reads.map _ ((Reads.readUInt16 _).bind ?_)
    rw [hleft]
    exact (Reads.ofExcept _ _).nil_bind ((Reads.readBytes _).bind_nil (Reads.pure _ image))
  | scriptLimits limits =>
    cases hkind; cases h
    exact (Reads.readUInt16 _).bind ((Reads.readUInt16 _).bind_nil (Reads.pure _ _))
  | fileAttributes attributes =>
    cases hkind; cases h
    exact (attributes.reads_read).map _
  | symbolClass links =>
    cases hkind
    exact (SymbolClass.reads_read h).map _
  | metadata xml =>
    cases hkind
    obtain ⟨rfl, hnul⟩ := stringLayout_eq_ok h
    exact (Reads.readString hnul).map _
  | defineScalingGrid grid =>
    cases hkind
    obtain ⟨front, back, hid, hback, rfl⟩ := Layout.followedBy_eq_ok h
    cases hid
    refine Reads.map _ ((Reads.readUInt16 _).bind ((Rect.reads_read hback).bind_nil ?_))
    exact Reads.pure _ grid
  | doAbc block =>
    cases hkind
    obtain ⟨front, back, hflags, hback, rfl⟩ := Layout.followedBy_eq_ok h
    obtain ⟨text, data, htext, hdata, rfl⟩ := Layout.followedBy_eq_ok hback
    cases hflags; cases hdata
    obtain ⟨rfl, hnul⟩ := stringLayout_eq_ok htext
    -- what is left for the bytecode is counted from the start of the payload
    have hleft : header.remaining
        (p + (bytesOfUInt32 block.flags).length + (utf8 block.name ++ [0]).length - p) =
        .ok block.abcData.length := by
      refine RecordHeader.remaining_eq ?_
      rw [hlen]
      simp only [List.length_append]
      omega
    refine Reads.map _ ((Reads.position p).nil_bind ((Reads.readUInt32 _).bind
      ((Reads.readString hnul).bind ((Reads.position _).nil_bind ?_))))
    rw [hleft]
    exact (Reads.ofExcept _ _).nil_bind ((Reads.readBytes _).bind_nil (Reads.pure _ block))
  | defineBinaryData blob =>
    cases hkind; cases h
    have hleft : header.remaining 6 = .ok blob.data.length := by
      refine RecordHeader.remaining_eq ?_
      rw [hlen]
      simp only [List.length_append, length_bytesOfUInt16, length_bytesOfUInt32]
      omega
    refine Reads.map _ ((Reads.readUInt16 _).bind ((Reads.readUInt32 _).bind ?_))
    rw [hleft]
    exact (Reads.ofExcept _ _).nil_bind ((Reads.readBytes _).bind_nil (Reads.pure _ blob))

/-- A tag whose code leads back to its kind. A record that is kept byte for byte must not carry the
code of a kind: a reader would take it for that kind. -/
def Canonical (tag : Tag) : Prop := TagKind.ofCode? tag.code = tag.kind?

theorem canonical_of_kind? {tag : Tag} {kind : TagKind} (h : tag.kind? = some kind) :
    tag.Canonical := by
  unfold Canonical
  have hcode : tag.code = kind.code := by
    cases tag <;> first | (cases h; rfl) | exact absurd h (by simp [kind?])
  rw [hcode, TagKind.ofCode?_code, h]

/-- Nothing is asked of other tags. -/
theorem canonical_of_unknown {tag : Tag}
    (h : ∀ record, tag = .unknown record → TagKind.ofCode? record.code = none) :
    tag.Canonical := by
  cases hkind : tag.kind? with
  | some kind => exact canonical_of_kind? hkind
  | none =>
    cases tag with
    | unknown record => exact h record rfl
    | _ => exact absurd hkind (by simp [kind?])

/-- A payload is read as the tag that it is the payload of. -/
theorem reads_read {p : Nat} {tag : Tag} {payload : List UInt8} {header : RecordHeader}
    (hcanon : tag.Canonical) (h : tag.layout = .ok payload) (hcode : header.code = tag.code)
    (hlen : header.length.toNat = payload.length) : Reads p (Tag.read header) payload tag := by
  unfold Tag.read
  rw [hcode, hcanon]
  cases hkind : tag.kind? with
  | some kind => exact reads_readKind hkind h hlen
  | none =>
    cases tag with
    | unknown record =>
      cases h
      simp only [hlen]
      exact (Reads.readBytes _).bind_nil (Reads.pure _ (Tag.unknown record))
    | _ => exact absurd hkind (by simp [kind?])

end Tag

end Swf
