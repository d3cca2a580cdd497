import Swf.Proofs.RecordHeader
import Swf.Proofs.Tag.Layout
import Swf.Proofs.Tag.Readable

/-!
# Tags that cannot be written

A payload has no layout if one of its parts has none: a string holds the byte that would end it,
there are more links than can be counted, or a bound of a rectangle is too large for the widest
field. A record adds two reasons of its own, the code and the size (`Tag.Unwritable`). Every one of
them can be told from the tag, and is reported as a value that has no room or a string that would
end too early (`CodecError.IsRefusal`).
-/

namespace Swf

open Encoder

namespace Tag

/-- The strings of a tag. -/
def strings : Tag → List String
  | .symbolClass links => links.symbols.map (·.2)
  | .metadata xml => [xml]
  | .doAbc block => [block.name]
  | _ => []

/-- What keeps a tag from being written as a record. -/
inductive Unwritable (tag : Tag) : Prop
  /-- Its code has more than ten bits. -/
  | code (h : 1023 < tag.code.toNat)
  /-- A string holds the byte that would end it. -/
  | nul {text : String} (hmem : text ∈ tag.strings) (h : 0 ∈ utf8 text)
  /-- There are more links than 16 bits can count. -/
  | links {table : SymbolClass} (htable : tag = .symbolClass table)
      (h : 65535 < table.symbols.length)
  /-- A bound of a rectangle is too large for the widest field. -/
  | bound {rect : Rect} {v : Int32} (hrect : rect ∈ tag.rects) (hv : v ∈ rect.bounds)
      (h : 2 ^ 30 ≤ v.toInt.natAbs)
  /-- The payload has more bytes than 32 bits can count. -/
  | size (h : 2 ^ 32 ≤ tag.size)

end Tag

theorem SymbolClass.linksLayout_eq_error_iff {links : List (UInt16 × String)} :
    (∃ err, linksLayout links = .error err) ↔ ∃ text ∈ links.map (·.2), 0 ∈ utf8 text := by
  induction links with
  | nil => simp [linksLayout]
  | cons link rest ih =>
    have hid : ¬ ∃ err, (.ok (bytesOfUInt16 link.1) : Layout) = .error err := by simp
    unfold linksLayout
    rw [Layout.followedBy_eq_error_iff, or_iff_right hid, Layout.followedBy_eq_error_iff,
      stringLayout_eq_error_iff, ih, List.map_cons]
    simp only [List.mem_cons, exists_eq_or_imp]

namespace Tag

/-- A payload has no layout if and only if one of its parts has none. -/
theorem layout_eq_error_iff {tag : Tag} :
    (∃ err, tag.layout = .error err) ↔
      (∃ text ∈ tag.strings, 0 ∈ utf8 text) ∨
      (∃ table, tag = .symbolClass table ∧ 65535 < table.symbols.length) ∨
      ∃ rect ∈ tag.rects, ∃ v ∈ rect.bounds, 2 ^ 30 ≤ v.toInt.natAbs := by
  have hbytes (bytes : List UInt8) : ¬ ∃ err, (.ok bytes : Layout) = .error err := by simp
  cases tag with
  | symbolClass table =>
    have hcount : (∃ err, table.layout = .error err) ↔
        65535 < table.symbols.length ∨ ∃ text ∈ table.symbols.map (·.2), 0 ∈ utf8 text := by
      unfold SymbolClass.layout
      by_cases hmany : table.symbols.length ≥ 0x10000
      · rw [if_pos hmany]
        simp [show 65535 < table.symbols.length by omega]
      · rw [if_neg hmany, Layout.followedBy_eq_error_iff, or_iff_right (hbytes _),
          SymbolClass.linksLayout_eq_error_iff, or_iff_right (by omega)]
    show (∃ err, table.layout = .error err) ↔ _
    rw [hcount]
    simp [strings, rects, or_comm]
  | metadata xml =>
    show (∃ err, stringLayout xml = .error err) ↔ _
    simp [stringLayout_eq_error_iff, strings, rects]
  | defineScalingGrid grid =>
    show (∃ err, Layout.followedBy _ grid.splitter.layout = .error err) ↔ _
    rw [Layout.followedBy_eq_error_iff, or_iff_right (hbytes _), Rect.layout_eq_error_iff]
    simp [strings, rects]
  | doAbc block =>
    show (∃ err, Layout.followedBy _ (Layout.followedBy _ _) = .error err) ↔ _
    rw [Layout.followedBy_eq_error_iff, or_iff_right (hbytes _), Layout.followedBy_eq_error_iff,
      or_iff_left (hbytes _), stringLayout_eq_error_iff]
    simp [strings, rects]
  | _ => simp [layout, strings, rects]

end Tag

/-! ## What it is reported as -/

/-- A value has no room in its field, or a string would end too early. -/
def CodecError.IsRefusal : CodecError → Prop
  | .rangeOverflow .. | .interiorNul _ => True
  | _ => False

/-- What has no layout is refused for a value in it. -/
def Layout.Refuses (layout : Layout) : Prop := ∀ err, layout = .error err → err.IsRefusal

namespace Layout

theorem refuses_ok (bytes : List UInt8) : Refuses (.ok bytes) := by
  intro err h
  cases h

theorem Refuses.followedBy {first second : Layout} (h : first.Refuses) (h' : second.Refuses) :
    (first.followedBy second).Refuses := by
  intro err herr
  cases first with
  | error err' =>
    cases herr
    exact h _ rfl
  | ok bytes =>
    cases second with
    | error err' =>
      cases herr
      exact h' _ rfl
    | ok bytes' => cases herr

theorem refuses_string (text : String) : (stringLayout text).Refuses := by
  intro err h
  unfold stringLayout at h
  split at h <;> cases h
  trivial

end Layout

open Layout

theorem Rect.refuses_layout (r : Rect) : r.layout.Refuses := by
  intro err h
  unfold layout at h
  split at h <;> cases h
  trivial

theorem RecordHeader.refuses_layout (h : RecordHeader) (forceLong : Bool) :
    (h.layout forceLong).Refuses := by
  intro err herr
  unfold layout at herr
  split at herr <;> cases herr
  trivial

namespace SymbolClass

theorem refuses_linksLayout (links : List (UInt16 × String)) : (linksLayout links).Refuses := by
  induction links with
  | nil => exact refuses_ok []
  | cons link rest ih => exact (refuses_ok _).followedBy ((refuses_string _).followedBy ih)

theorem refuses_layout (table : SymbolClass) : table.layout.Refuses := by
  unfold layout
  split
  · intro err h
    cases h
    trivial
  · exact (refuses_ok _).followedBy (refuses_linksLayout _)

end SymbolClass

namespace Tag

theorem refuses_layout (tag : Tag) : tag.layout.Refuses := by
  cases tag with
  | symbolClass table => exact table.refuses_layout
  | metadata xml => exact refuses_string xml
  | defineScalingGrid grid => exact (refuses_ok _).followedBy grid.splitter.refuses_layout
  | doAbc block => exact (refuses_ok _).followedBy ((refuses_string _).followedBy (refuses_ok _))
  | _ => exact refuses_ok _

theorem isRefusal_of_recordLength {n : Nat} {err : CodecError} (h : recordLength n = .error err) :
    err.IsRefusal := by
  unfold recordLength at h
  split at h <;> cases h
  trivial

theorem isRefusal_of_length {tag : Tag} {err : CodecError} (h : tag.length = .error err) :
    err.IsRefusal := by
  cases tag with
  | «end» => cases h
  | showFrame => cases h
  | setBackgroundColor color => cases h
  | scriptLimits limits => cases h
  | fileAttributes attributes => cases h
  | defineScalingGrid grid =>
    have hmeasure : measure (.defineScalingGrid grid) = .error err := h
    rw [measure_eq] at hmeasure
    cases hlayout : layout (.defineScalingGrid grid) with
    | error err' =>
      rw [hlayout] at hmeasure
      cases hmeasure
      exact refuses_layout _ _ hlayout
    | ok payload =>
      rw [hlayout] at hmeasure
      exact isRefusal_of_recordLength hmeasure
  | _ => exact isRefusal_of_recordLength h

end Tag

end Swf
