import Swf.Proofs.Reader.Fields

/-!
# What an encoder writes

On an unbounded sink an encoder of whole bytes has one of two outcomes, and the writer it starts
from decides neither: it appends certain bytes, or it fails with a certain error. That outcome is a
`Layout`, and `Encoder.Encodes m layout` says that it is the one of `m`. So what is written field by
field becomes one value that is put together from the layouts of the fields, and `Writer.collect`
gives that value (`Encodes.collect`).
-/

namespace Swf

/-- The bytes that something is written as, or why it cannot be written. -/
abbrev Layout := Except CodecError (List UInt8)

/-- One layout behind the other; the first error is the error of both. -/
def Layout.followedBy (first second : Layout) : Layout := do return (← first) ++ (← second)

@[simp] theorem Layout.followedBy_ok (bytes bytes' : List UInt8) :
    followedBy (.ok bytes) (.ok bytes') = .ok (bytes ++ bytes') := rfl

@[simp] theorem Layout.followedBy_error (err : CodecError) (second : Layout) :
    followedBy (.error err) second = .error err := rfl

theorem Layout.followedBy_eq_ok {first second : Layout} {bytes : List UInt8}
    (h : first.followedBy second = .ok bytes) :
    ∃ front back, first = .ok front ∧ second = .ok back ∧ bytes = front ++ back := by
  cases first with
  | error err => exact absurd h (by simp)
  | ok front =>
    cases second with
    | error err => exact absurd h (by simp [followedBy, Bind.bind, Except.bind])
    | ok back => exact ⟨front, back, rfl, rfl, by simpa using h.symm⟩

theorem Layout.followedBy_eq_error_iff {first second : Layout} :
    (∃ err, first.followedBy second = .error err) ↔
      (∃ err, first = .error err) ∨ ∃ err, second = .error err := by
  cases first with
  | error err => simp
  | ok bytes => cases second <;> simp [followedBy, Bind.bind, Except.bind, Pure.pure, Except.pure]

namespace Writer

/-- Between two bytes, in front of a sink that takes everything. -/
structure AtByte (w : Writer) : Prop where
  /-- There is always room. -/
  capacity : w.sink.capacity = none
  /-- No write is refused. -/
  outages : w.sink.outages = []
  /-- No bit is pending. -/
  bitCount : w.bitCount = 0
  /-- Nor is one left over from before. -/
  bitBuf : w.bitBuf = 0

/-- The writer after `bytes` have been written. -/
def append (w : Writer) (bytes : List UInt8) : Writer :=
  { w with
    sink := { w.sink with bytes := w.sink.bytes.appendList bytes }
    position := w.position + bytes.length }

theorem atByte_empty : AtByte {} := ⟨rfl, rfl, rfl, rfl⟩

theorem AtByte.append {w : Writer} (h : w.AtByte) (bytes : List UInt8) : (w.append bytes).AtByte :=
  ⟨h.capacity, h.outages, h.bitCount, h.bitBuf⟩

@[simp] theorem append_nil (w : Writer) : w.append [] = w := by
  unfold append
  simp

theorem append_append (w : Writer) (bytes bytes' : List UInt8) :
    (w.append bytes).append bytes' = w.append (bytes ++ bytes') := by
  have hbytes : (w.sink.bytes ++ bytes) ++ bytes' = w.sink.bytes ++ (bytes ++ bytes') := by
    apply Array.toList_inj.mp
    simp
  unfold append
  simp [Nat.add_assoc, hbytes]

end Writer

namespace Encoder

/-- From a byte boundary and with room for everything, `m` appends certain bytes or fails with a
certain error. -/
def Encodes (m : Encoder Unit) (layout : Layout) : Prop :=
  ∀ w : Writer, w.AtByte →
    match layout with
    | .ok bytes => m w = .ok () (w.append bytes)
    | .error err => ∃ w', m w = .error err w'

theorem Encodes.ok {m : Encoder Unit} {bytes : List UInt8} (h : Encodes m (.ok bytes)) {w : Writer}
    (hw : w.AtByte) : m w = .ok () (w.append bytes) := h w hw

theorem Encodes.error {m : Encoder Unit} {err : CodecError} (h : Encodes m (.error err))
    {w : Writer} (hw : w.AtByte) : ∃ w', m w = .error err w' := h w hw

theorem Encodes.pure : Encodes (pure ()) (.ok []) := by
  intro w _
  show EStateM.Result.ok () w = .ok () (w.append [])
  rw [Writer.append_nil]

theorem Encodes.throw (err : CodecError) : Encodes (throw err) (.error err) := fun w _ => ⟨w, rfl⟩

/-- What two encoders write one after the other. -/
theorem Encodes.bind {m m' : Encoder Unit} {layout layout' : Layout} (h : Encodes m layout)
    (h' : Encodes m' layout') : Encodes (m >>= fun _ => m') (layout.followedBy layout') := by
  intro w hw
  cases layout with
  | error err =>
    obtain ⟨w', hm⟩ := h.error hw
    exact ⟨w', bind_of_error hm⟩
  | ok bytes =>
    have hm := h.ok hw
    cases layout' with
    | error err =>
      obtain ⟨w', hm'⟩ := h'.error (hw.append bytes)
      exact ⟨w', (bind_of_ok hm).trans hm'⟩
    | ok bytes' =>
      have hm' := h'.ok (hw.append bytes)
      show (m >>= fun _ => m') w = .ok () (w.append (bytes ++ bytes'))
      rw [bind_of_ok hm, hm', Writer.append_append]

/-- Two encoders of which neither fails. -/
theorem Encodes.bind_ok {m m' : Encoder Unit} {bytes bytes' : List UInt8}
    (h : Encodes m (.ok bytes)) (h' : Encodes m' (.ok bytes')) :
    Encodes (m >>= fun _ => m') (.ok (bytes ++ bytes')) := h.bind h'

/-- A value that was worked out before anything is written. -/
theorem Encodes.bind_ofExcept {α : Type} {value : Except CodecError α} {f : α → Encoder Unit}
    {layout : α → Layout} (h : ∀ a, value = .ok a → Encodes (f a) (layout a)) :
    Encodes (ofExcept value >>= f) (do layout (← value)) := by
  cases value with
  | error err => exact Encodes.throw err
  | ok a => exact h a rfl

/-! ## Collecting -/

theorem align_of_atByte {w : Writer} (h : w.AtByte) : align w = .ok () w := by
  have hb : ¬ w.bitCount > 0 := by rw [h.bitCount]; omega
  unfold align
  rw [get_bind, if_neg hb]
  rfl

theorem bind_align_of_encodes {m : Encoder Unit} {bytes : List UInt8} (h : Encodes m (.ok bytes))
    {w : Writer} (hw : w.AtByte) :
    (do m; align : Encoder Unit) w = .ok () (w.append bytes) := by
  rw [bind_of_ok (h.ok hw), align_of_atByte (hw.append bytes)]

/-- What an encoder leaves in an empty sink. -/
theorem Encodes.collect {m : Encoder Unit} {layout : Layout} (h : Encodes m layout) :
    Writer.collect m = layout := by
  unfold Writer.collect
  cases layout with
  | error err =>
    obtain ⟨w', hm⟩ := h.error Writer.atByte_empty
    rw [bind_of_error hm]
  | ok bytes =>
    rw [bind_align_of_encodes h Writer.atByte_empty]
    simp [Writer.append, Sink.toList]

/-! ## Fields -/

theorem emit_of_atByte {w : Writer} (h : w.AtByte) (data : List UInt8) :
    emit data w = .ok () (w.append data) := by
  unfold emit Sink.write
  by_cases hd : data.isEmpty
  · obtain rfl : data = [] := by simpa using hd
    rw [Writer.append_nil]
    simp
  · simp [hd, h.outages, h.capacity, Writer.append]

theorem Encodes.emit (data : List UInt8) : Encodes (emit data) (.ok data) :=
  fun _ hw => emit_of_atByte hw data

theorem Encodes.align : Encodes align (.ok []) := by
  intro w hw
  show Encoder.align w = .ok () (w.append [])
  rw [align_of_atByte hw, Writer.append_nil]

theorem Encodes.writeBytes (data : List UInt8) : Encodes (writeBytes data) (.ok data) :=
  Encodes.align.bind_ok (Encodes.emit data)

theorem Encodes.writeUInt8 (v : UInt8) : Encodes (writeUInt8 v) (.ok [v]) := Encodes.writeBytes _

theorem Encodes.writeUInt16 (v : UInt16) : Encodes (writeUInt16 v) (.ok (bytesOfUInt16 v)) :=
  Encodes.writeBytes _

theorem Encodes.writeUInt32 (v : UInt32) : Encodes (writeUInt32 v) (.ok (bytesOfUInt32 v)) :=
  Encodes.writeBytes _

/-- A string with the zero byte that ends it, unless it holds one itself. -/
def stringLayout (text : String) : Layout :=
  match (utf8 text).findIdx? (· == 0) with
  | some index => .error (.interiorNul index)
  | none => .ok (utf8 text ++ [0])

/-- The search for a zero byte finds none if there is none. -/
theorem findIdx?_nul_eq_none_iff {text : String} :
    (utf8 text).findIdx? (· == 0) = none ↔ 0 ∉ utf8 text := by
  rw [List.findIdx?_eq_none_iff]
  refine ⟨fun h hmem => absurd (h 0 hmem) (by simp), fun h b hb => ?_⟩
  have : b ≠ 0 := fun he => h (he ▸ hb)
  simpa using this

theorem stringLayout_of_not_mem {text : String} (h : 0 ∉ utf8 text) :
    stringLayout text = .ok (utf8 text ++ [0]) := by
  unfold stringLayout
  rw [findIdx?_nul_eq_none_iff.mpr h]

theorem stringLayout_eq_ok {text : String} {bytes : List UInt8}
    (h : stringLayout text = .ok bytes) :
    bytes = utf8 text ++ [0] ∧ 0 ∉ utf8 text := by
  unfold stringLayout at h
  split at h
  · exact absurd h (by simp)
  · next hnone => exact ⟨by simpa using h.symm, findIdx?_nul_eq_none_iff.mp hnone⟩

theorem stringLayout_eq_error_iff {text : String} :
    (∃ err, stringLayout text = .error err) ↔ 0 ∈ utf8 text := by
  by_cases hnul : 0 ∈ utf8 text
  · refine iff_of_true ?_ hnul
    cases hlayout : stringLayout text with
    | error err => exact ⟨err, rfl⟩
    | ok bytes => exact absurd hnul (stringLayout_eq_ok hlayout).2
  · rw [stringLayout_of_not_mem hnul]
    simp [hnul]

theorem writeString_eq (text : String) :
    writeString text =
      match (utf8 text).findIdx? (· == 0) with
      | some index => throw (.interiorNul index)
      | none => writeBytes (utf8 text) >>= fun _ => writeUInt8 0 := rfl

theorem writeString_of_not_mem {text : String} (h : 0 ∉ utf8 text) :
    writeString text = writeBytes (utf8 text) >>= fun _ => writeUInt8 0 := by
  rw [writeString_eq, findIdx?_nul_eq_none_iff.mpr h]

theorem Encodes.writeString (text : String) : Encodes (writeString text) (stringLayout text) := by
  rw [writeString_eq]
  unfold stringLayout
  cases (utf8 text).findIdx? (· == 0) with
  | some index => exact Encodes.throw _
  | none => exact (Encodes.writeBytes _).bind_ok (Encodes.writeUInt8 0)

end Encoder

end Swf
