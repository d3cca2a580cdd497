import Swf.Reader.Composition
import Swf.Record

/-!
# How layouts are composed

Every layout is a sequence of fields, and a record reads a layout on its own. So a property of
decoders that is closed under composition holds of the readers of rectangles, headers and tags, and
if it is closed in records, of those of records, without a look at any of them.
-/

namespace Swf.Decoder

variable {P : ∀ {α : Type}, Decoder α → Prop}

namespace ClosedInFields

theorem rect (hP : ClosedInFields P) : P Rect.read :=
  hP.bind (hP.readUnsigned _) fun _ => hP.bind (hP.readSigned _) fun _ =>
    hP.bind (hP.readSigned _) fun _ => hP.bind (hP.readSigned _) fun _ =>
      hP.bind (hP.readSigned _) fun _ => hP.bind hP.align fun _ => hP.pure _

theorem recordHeader (hP : ClosedInFields P) : P RecordHeader.read := by
  refine hP.bind hP.readUInt16 fun _ => ?_
  dsimp only
  split
  · exact hP.bind hP.readUInt32 fun _ => hP.pure _
  · exact hP.bind (hP.pure _) fun _ => hP.pure _

/-! ### Payloads -/

theorem fileAttributes (hP : ClosedInFields P) : P FileAttributes.read :=
  hP.bind (hP.readUnsigned _) fun _ => hP.bind hP.readFlag fun _ => hP.bind hP.readFlag fun _ =>
    hP.bind hP.readFlag fun _ => hP.bind hP.readFlag fun _ => hP.bind (hP.readUnsigned _) fun _ =>
      hP.bind hP.readFlag fun _ => hP.bind (hP.readUnsigned _) fun _ => hP.pure _

theorem readLinks (hP : ClosedInFields P) (count : Nat) : P (SymbolClass.readLinks count) := by
  induction count with
  | zero => exact hP.pure _
  | succ count ih =>
    exact hP.bind hP.readUInt16 fun _ => hP.bind hP.readString fun _ =>
      hP.bind ih fun _ => hP.pure _

theorem symbolClass (hP : ClosedInFields P) : P SymbolClass.read :=
  hP.bind hP.readUInt16 fun _ => hP.bind (hP.readLinks _) fun _ => hP.pure _

theorem defineScalingGrid (hP : ClosedInFields P) : P DefineScalingGrid.read :=
  hP.bind hP.readUInt16 fun _ => hP.bind hP.rect fun _ => hP.pure _

/-- All layouts but those of the kinds that end in a blob are sequences of fields. -/
theorem tagOfKind (hP : ClosedInFields P) {header : RecordHeader}
    (defineBitsJpeg2 : P (DefineBitsJpeg2.read header)) (doAbc : P (DoAbc.read header))
    (defineBinaryData : P (DefineBinaryData.read header)) (kind : TagKind) :
    P (Tag.readKind header kind) := by
  cases kind with
  | «end» => exact hP.pure _
  | showFrame => exact hP.pure _
  | setBackgroundColor =>
    exact hP.bind hP.readUInt8 fun _ => hP.bind hP.readUInt8 fun _ =>
      hP.bind hP.readUInt8 fun _ => hP.pure _
  | defineBitsJpeg2 => exact hP.map _ defineBitsJpeg2
  | scriptLimits =>
    exact hP.bind hP.readUInt16 fun _ => hP.bind hP.readUInt16 fun _ => hP.pure _
  | fileAttributes => exact hP.map _ hP.fileAttributes
  | symbolClass => exact hP.map _ hP.symbolClass
  | metadata => exact hP.map _ hP.readString
  | defineScalingGrid => exact hP.map _ hP.defineScalingGrid
  | doAbc => exact hP.map _ doAbc
  | defineBinaryData => exact hP.map _ defineBinaryData

theorem tagOf (hP : ClosedInFields P) {header : RecordHeader}
    (defineBitsJpeg2 : P (DefineBitsJpeg2.read header)) (doAbc : P (DoAbc.read header))
    (defineBinaryData : P (DefineBinaryData.read header)) : P (Tag.read header) := by
  unfold Tag.read
  split
  · exact hP.tagOfKind defineBitsJpeg2 doAbc defineBinaryData _
  · exact hP.bind (hP.readBytes _) fun _ => hP.pure _

end ClosedInFields

namespace Closed

theorem defineBitsJpeg2 (hP : Closed P) (header : RecordHeader) :
    P (DefineBitsJpeg2.read header) :=
  hP.bind hP.readUInt16 fun _ => hP.bind (hP.ofExcept _) fun _ =>
    hP.bind (hP.readBytes _) fun _ => hP.pure _

theorem doAbc (hP : Closed P) (header : RecordHeader) : P (DoAbc.read header) :=
  hP.bind hP.position fun _ => hP.bind hP.readUInt32 fun _ => hP.bind hP.readString fun _ =>
    hP.bind hP.position fun _ => hP.bind (hP.ofExcept _) fun _ =>
      hP.bind (hP.readBytes _) fun _ => hP.pure _

theorem defineBinaryData (hP : Closed P) (header : RecordHeader) :
    P (DefineBinaryData.read header) :=
  hP.bind hP.readUInt16 fun _ => hP.bind hP.readUInt32 fun _ => hP.bind (hP.ofExcept _) fun _ =>
    hP.bind (hP.readBytes _) fun _ => hP.pure _

theorem tag (hP : Closed P) (header : RecordHeader) : P (Tag.read header) :=
  hP.tagOf (hP.defineBitsJpeg2 header) (hP.doAbc header) (hP.defineBinaryData header)

end Closed

end Swf.Decoder

/-! ### Records -/

namespace Swf.Decoder.ClosedInRecords

variable {P : ∀ {α : Type}, Decoder α → Prop}

theorem payload (hP : ClosedInRecords P) (header : RecordHeader) :
    P (Record.readPayload header) := by
  refine hP.bind hP.position fun start =>
    hP.within _ (hP.bind (hP.mapError _ (hP.tag header)) fun _ => ?_)
  refine hP.bind hP.position fun consumed => ?_
  dsimp only
  split
  · exact hP.bind (hP.mapError _ (hP.skip _)) fun _ => hP.pure _
  · exact hP.pure _

theorem record (hP : ClosedInRecords P) (policy : UnknownTagPolicy) : P (Record.read policy) := by
  refine hP.bind hP.position fun offset => hP.bind hP.recordHeader fun header => ?_
  split
  · exact hP.bind (hP.mapError _ (hP.skip _)) fun _ => hP.pure _
  · exact hP.throw _
  · exact hP.map _ (hP.payload header)

end Swf.Decoder.ClosedInRecords
