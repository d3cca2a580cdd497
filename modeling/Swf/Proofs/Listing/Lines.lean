import Mathlib.Data.List.Forall2
import Swf.Listing.Render
import Swf.Proofs.Text.SingleLine

/-!
# The lines of a listing

A listing is meant to have one line per record. What it says of a record is on one line for every
kind but the table of classes: the names in there are listed as they are, and a line break in one of
them ends the row early, unless it is cut off with the white space at the end of the row
(`SymbolClass.OneLine`). So a listing has one line per record if and only if its tables of classes
allow it (`Movie.listedByLine_iff`).
-/

namespace Swf

open Text

/-! ## Counting lines -/

/-- As many line breaks as lines are enough only if the lines have none of their own. -/
theorem count_lines (lines : List String) :
    let breaks := (String.join (lines.map (· ++ "\n"))).toList.count '\n'
    lines.length ≤ breaks ∧ (breaks = lines.length ↔ ∀ line ∈ lines, SingleLine line) := by
  induction lines with
  | nil => simp
  | cons line lines ih =>
    obtain ⟨hle, hiff⟩ := ih
    have hcount : (String.join ((line :: lines).map (· ++ "\n"))).toList.count '\n' =
        line.toList.count '\n' + 1 + (String.join (lines.map (· ++ "\n"))).toList.count '\n' := by
      simp only [String.toList_join, List.map_cons, List.flatMap_cons, List.count_append,
        String.toList_append]
      rfl
    have hline : line.toList.count '\n' = 0 ↔ SingleLine line := List.count_eq_zero
    rw [hcount, List.length_cons, List.forall_mem_cons, ← hiff, ← hline]
    constructor <;> omega

/-! ## What is said of a record -/

namespace TagSummary

/-- The columns in front of the detail of a row. -/
def front (nameWidth : Nat) (code : UInt16) (name : String) (length : UInt32) : String :=
  s!"{padLeft 4 (toString code.toNat)} {padRight nameWidth name} " ++
    padLeft 8 (toString length.toNat)

theorem columns_eq (nameWidth : Nat) (row : TagSummary) :
    row.columns nameWidth =
      front nameWidth row.code row.name row.length ++ ("  " ++ row.detail) := by
  simp only [columns, front, String.append_assoc]
  rfl

/-- The columns end with a digit. -/
theorem trimEnd_front (nameWidth : Nat) (code : UInt16) (name : String) (length : UInt32) :
    trimEnd (front nameWidth code name length).toList =
      (front nameWidth code name length).toList := by
  obtain ⟨before, hfront⟩ : ∃ before : String,
      front nameWidth code name length = before ++ length.toNat.repr := by
    refine ⟨s!"{padLeft 4 (toString code.toNat)} {padRight nameWidth name} " ++
      String.ofList (List.replicate (8 - length.toNat.repr.length) ' '), ?_⟩
    rw [String.append_assoc]
    rfl
  have hdigits : trimEnd length.toNat.repr.toList = length.toNat.repr.toList :=
    trimEnd_eq_self fun _ => isBlank_of_mem_repr
  rw [hfront, String.toList_append, trimEnd_append, hdigits, if_neg]
  rw [Nat.toList_repr]
  exact Nat.toDigits_ne_nil

/-- Only the detail of a row is cut. -/
theorem line_eq (nameWidth : Nat) (row : TagSummary) :
    row.line nameWidth = front nameWidth row.code row.name row.length ++
      String.ofList (trimEnd ("  " ++ row.detail).toList) := by
  unfold line
  rw [columns_eq, String.toList_append, trimEnd_append_of_visible (trimEnd_front ..),
    String.ofList_append, String.ofList_toList]

theorem singleLine_front (nameWidth : Nat) (code : UInt16) {name : String} (length : UInt32)
    (h : SingleLine name) : SingleLine (front nameWidth code name length) := by
  simp +decide [front, padLeft, padRight, h]

theorem singleLine_line_iff (nameWidth : Nat) {row : TagSummary} (h : SingleLine row.name) :
    SingleLine (row.line nameWidth) ↔ '\n' ∉ trimEnd row.detail.toList := by
  have hgap : '\n' ∉ "  ".toList := by decide
  rw [line_eq, singleLine_append, singleLine_ofList, String.toList_append,
    mem_trimEnd_append_iff hgap]
  exact and_iff_right (singleLine_front nameWidth row.code row.length h)

end TagSummary

namespace Tag

theorem singleLine_name (tag : Tag) : SingleLine tag.name := by
  unfold name
  cases tag.kind? with
  | none => decide
  | some kind => cases kind <;> decide

theorem singleLine_flagNames (a : FileAttributes) : ∀ name ∈ flagNames a, SingleLine name := by
  intro name hname
  simp only [flagNames, List.mem_filterMap] at hname
  obtain ⟨⟨set, flag⟩, hmem, hset⟩ := hname
  obtain rfl : flag = name := by
    revert hset
    cases set <;> simp
  have hflags : flag ∈ ["direct-blit", "gpu", "metadata", "as3", "network"] := by
    simpa using List.mem_map_of_mem hmem (f := Prod.snd)
  have hall : ∀ flag ∈ ["direct-blit", "gpu", "metadata", "as3", "network"], SingleLine flag := by
    decide
  exact hall flag hflags

/-- Whatever a record holds besides names of classes is said on one line. -/
theorem singleLine_detail {tag : Tag} (h : ∀ links, tag ≠ .symbolClass links) :
    SingleLine tag.detail := by
  cases tag with
  | symbolClass links => exact absurd rfl (h links)
  | fileAttributes a => exact singleLine_intercalate (by decide) (singleLine_flagNames a)
  | doAbc block =>
    cases hlazy : block.isLazy <;> simp +decide [detail, hlazy]
  | _ => simp +decide [detail, colorCode, Rect.display]

end Tag

/-! ## Tables of classes -/

namespace SymbolClass

/-- The entry of a table in a listing. -/
def entry (symbol : UInt16 × String) : String := s!"{symbol.1.toNat}={symbol.2}"

theorem detail_eq (links : SymbolClass) :
    (Tag.symbolClass links).detail = " ".intercalate (links.symbols.map entry) := rfl

/-- No name of a table breaks its row: there is no line break in any but the last, and none in that
with something visible behind it. -/
def OneLine (links : SymbolClass) : Prop :=
  (∀ symbol ∈ links.symbols.dropLast, SingleLine symbol.2) ∧
    ∀ symbol ∈ links.symbols.getLast?, '\n' ∉ trimEnd symbol.2.toList

theorem toList_entry (symbol : UInt16 × String) :
    (entry symbol).toList = (symbol.1.toNat.repr ++ "=").toList ++ symbol.2.toList := by
  rw [← String.toList_append]
  rfl

theorem singleLine_id (symbol : UInt16 × String) : SingleLine (symbol.1.toNat.repr ++ "=") := by
  rw [singleLine_append]
  exact ⟨singleLine_repr _, by decide⟩

theorem singleLine_entry_iff (symbol : UInt16 × String) :
    SingleLine (entry symbol) ↔ SingleLine symbol.2 := by
  show SingleLine (symbol.1.toNat.repr ++ "=" ++ symbol.2) ↔ _
  rw [singleLine_append]
  exact and_iff_right (singleLine_id symbol)

theorem equals_mem_entries (symbol : UInt16 × String) (symbols : List (UInt16 × String)) :
    '=' ∈ (" ".intercalate ((symbol :: symbols).map entry)).toList := by
  have hfirst : '=' ∈ (entry symbol).toList := by
    rw [toList_entry]
    simp
  cases symbols with
  | nil => rwa [List.map_singleton, String.intercalate_singleton]
  | cons second rest =>
    rw [List.map_cons, List.map_cons, String.intercalate_cons_cons, String.toList_append,
      String.toList_append]
    exact List.mem_append_left _ (List.mem_append_left _ hfirst)

theorem oneLine_iff (links : SymbolClass) :
    links.OneLine ↔ '\n' ∉ trimEnd (Tag.symbolClass links).detail.toList := by
  rw [detail_eq]
  unfold OneLine
  induction links.symbols with
  | nil => simp [trimEnd]
  | cons symbol symbols ih =>
    cases symbols with
    | nil =>
      rw [List.map_singleton, String.intercalate_singleton, toList_entry,
        mem_trimEnd_append_iff (singleLine_id symbol)]
      simp
    | cons second rest =>
      -- behind the first entry there is the equals sign of another
      have hvisible := trimEnd_ne_nil (equals_mem_entries second rest) (by decide)
      have hsplit : trimEnd (" ".intercalate ((symbol :: second :: rest).map entry)).toList =
          (entry symbol ++ " ").toList ++
            trimEnd (" ".intercalate ((second :: rest).map entry)).toList := by
        rw [List.map_cons, List.map_cons, String.intercalate_cons_cons, String.toList_append,
          trimEnd_append, ← List.map_cons, if_neg hvisible]
      have hfirst : '\n' ∉ (entry symbol ++ " ").toList ↔ SingleLine symbol.2 := by
        rw [← singleLine_entry_iff]
        exact singleLine_append.trans (and_iff_left (by decide))
      rw [List.dropLast_cons_cons, List.forall_mem_cons, List.getLast?_cons_cons, and_assoc,
        hsplit, List.mem_append, not_or, hfirst]
      exact and_congr_right fun _ => ih

end SymbolClass

/-! ## Rows -/

namespace TagSummary

theorem ofTag_eq_ok {tag : Tag} {row : TagSummary} (h : ofTag tag = .ok row) :
    row.code = tag.code ∧ row.name = tag.name ∧ tag.length = .ok row.length ∧
      row.detail = tag.detail := by
  unfold ofTag at h
  cases hlength : tag.length with
  | error err => rw [hlength] at h; cases h
  | ok length =>
    rw [hlength] at h
    cases h
    exact ⟨rfl, rfl, rfl, rfl⟩

/-- The row of a tag is on one line unless the tag is a table of classes that breaks it. -/
theorem singleLine_line_of_ofTag (nameWidth : Nat) {tag : Tag} {row : TagSummary}
    (h : ofTag tag = .ok row) :
    SingleLine (row.line nameWidth) ↔ ∀ links, tag = .symbolClass links → links.OneLine := by
  obtain ⟨-, hname, -, hdetail⟩ := ofTag_eq_ok h
  rw [singleLine_line_iff nameWidth (hname ▸ tag.singleLine_name), hdetail]
  by_cases hclass : ∃ links, tag = .symbolClass links
  · obtain ⟨links, rfl⟩ := hclass
    rw [← links.oneLine_iff]
    refine ⟨fun hline links' heq => ?_, fun hall => hall links rfl⟩
    cases heq
    exact hline
  · refine ⟨fun _ links heq => absurd ⟨links, heq⟩ hclass, fun _ hmem => ?_⟩
    exact Tag.singleLine_detail (fun links heq => hclass ⟨links, heq⟩) (mem_of_mem_trimEnd hmem)

theorem forall₂_of_mapM {tags : List Tag} {rows : List TagSummary}
    (h : tags.mapM ofTag = .ok rows) :
    List.Forall₂ (fun tag row => ofTag tag = .ok row) tags rows := by
  induction tags generalizing rows with
  | nil =>
    cases h
    exact .nil
  | cons tag tags ih =>
    rw [List.mapM_cons] at h
    cases hrow : ofTag tag with
    | error err => rw [hrow] at h; cases h
    | ok row =>
      cases hrest : tags.mapM ofTag with
      | error err => rw [hrow, hrest] at h; cases h
      | ok rest =>
        rw [hrow, hrest] at h
        cases h
        exact .cons hrow (ih hrest)

theorem singleLine_lines_iff (nameWidth : Nat) {tags : List Tag} {rows : List TagSummary}
    (h : List.Forall₂ (fun tag row => ofTag tag = .ok row) tags rows) :
    (∀ row ∈ rows, SingleLine (row.line nameWidth)) ↔
      ∀ links, .symbolClass links ∈ tags → links.OneLine := by
  induction h with
  | nil => simp
  | cons hrow _ ih =>
    rw [List.forall_mem_cons, singleLine_line_of_ofTag nameWidth hrow, ih, ← forall_and]
    refine forall_congr' fun links => ?_
    rw [List.mem_cons, or_imp, eq_comm]

end TagSummary

namespace MovieSummary

theorem singleLine_headerLine (s : MovieSummary) : SingleLine s.headerLine := by
  cases hcompressed : s.compressed <;>
    simp +decide [headerLine, fixedPoint, withPoint, Rect.display, hcompressed]

end MovieSummary

/-! ## Listings -/

namespace Movie

/-- The listing has a line for the header of the movie and one for each of its records, the ending
one included, in order. Every line is ended by a line break and holds no other, and the line of a
record begins with the code, the name and the size of its tag. -/
def ListedByLine (m : Movie) (listing : String) : Prop :=
  ∃ (summary : MovieSummary) (rows : List String), m.summarize = .ok summary ∧
    listing = String.join ((summary.headerLine :: rows).map (· ++ "\n")) ∧
    (summary.headerLine :: rows).length = m.tags.length + 2 ∧
    (∀ line ∈ summary.headerLine :: rows, SingleLine line) ∧
    List.Forall₂ (fun tag row => ∃ length rest, tag.length = .ok length ∧
      row = TagSummary.front summary.nameWidth tag.code tag.name length ++ rest) m.visited rows

variable {m : Movie} {listing : String}

theorem summarize_of_render (h : m.render .text = .ok listing) :
    ∃ summary, m.summarize = .ok summary ∧ listing = summary.text ∧
      List.Forall₂ (fun tag row => TagSummary.ofTag tag = .ok row) m.visited summary.tags := by
  unfold render at h
  cases hsummary : m.summarize with
  | error err => rw [hsummary] at h; cases h
  | ok summary =>
    rw [hsummary] at h
    cases h
    refine ⟨summary, rfl, rfl, TagSummary.forall₂_of_mapM ?_⟩
    unfold summarize at hsummary
    cases hrows : m.visited.mapM TagSummary.ofTag with
    | error err => rw [hrows] at hsummary; cases hsummary
    | ok rows =>
      rw [hrows] at hsummary
      cases hsummary
      rfl

/-- A listing by line has too few line breaks for any that stands in a row. -/
theorem oneLine_of_listedByLine (h : m.render .text = .ok listing) (hlines : m.ListedByLine listing)
    {links : SymbolClass} (hmem : .symbolClass links ∈ m.tags) : links.OneLine := by
  obtain ⟨summary, hsummary, rfl, hrows⟩ := summarize_of_render h
  obtain ⟨summary', rows, hsummary', htext, hlength, hsingle, -⟩ := hlines
  obtain rfl : summary = summary' := Except.ok.inj (hsummary.symm.trans hsummary')
  have hbreaks := (count_lines (summary.headerLine :: rows)).2.mpr hsingle
  rw [← htext, hlength] at hbreaks
  have hcount : summary.lines.length = m.tags.length + 2 := by
    simp [MovieSummary.lines, ← hrows.length_eq, visited]
  have hall := (count_lines summary.lines).2.mp (hbreaks.trans hcount.symm)
  refine (TagSummary.singleLine_lines_iff summary.nameWidth hrows).mp (fun row hrow => ?_) links
    (List.mem_append_left _ hmem)
  exact hall _ (List.mem_cons_of_mem _ (List.mem_map_of_mem hrow))

/-- **A listing has one line per record** if and only if no table of classes breaks its row: of the
names in it, only the last may hold line breaks, and only in the white space at its end. -/
theorem listedByLine_iff (h : m.render .text = .ok listing) :
    m.ListedByLine listing ↔ ∀ links, .symbolClass links ∈ m.tags → links.OneLine := by
  refine ⟨fun hlines links hmem => oneLine_of_listedByLine h hlines hmem, fun hall => ?_⟩
  obtain ⟨summary, hsummary, rfl, hrows⟩ := summarize_of_render h
  refine ⟨summary, summary.tags.map (·.line summary.nameWidth), hsummary, rfl, ?_, ?_, ?_⟩
  · simp [← hrows.length_eq, visited]
  · refine List.forall_mem_cons.mpr ⟨summary.singleLine_headerLine, List.forall_mem_map.mpr ?_⟩
    refine (TagSummary.singleLine_lines_iff summary.nameWidth hrows).mpr fun links hmem => ?_
    exact hall links (by simpa [visited] using hmem)
  · rw [List.forall₂_map_right_iff]
    refine List.Forall₂.imp (fun tag row hofTag => ?_) hrows
    obtain ⟨hcode, hname, hlength, -⟩ := TagSummary.ofTag_eq_ok hofTag
    rw [← hcode, ← hname]
    exact ⟨row.length, _, hlength, row.line_eq summary.nameWidth⟩

/-- A line break at the end of the last name is cut off. -/
theorem listedByLine_iff_trailing :
    ListedByLine { tags := [.symbolClass ⟨[(0, "Main"), (5, "Blob\n")]⟩, .showFrame] }
      ("FWS v10 frame [0, 11000] x [0, 8000] rate 24.00 frames 1\n" ++
        "  76 SymbolClass       17  0=Main 5=Blob\n" ++
        "   1 ShowFrame          0\n" ++
        "   0 End                0\n") := by
  refine (listedByLine_iff (by decide +kernel)).mpr fun links hmem => ?_
  obtain rfl : links = ⟨[(0, "Main"), (5, "Blob\n")]⟩ := by simpa using hmem
  refine ⟨by decide, fun symbol hlast => ?_⟩
  obtain rfl : (5, "Blob\n") = symbol := Option.some.inj hlast
  decide

/-- A line break inside a name makes two lines of its row. -/
theorem not_listedByLine_of_break :
    ¬ ∀ (m : Movie) (listing : String), m.render .text = .ok listing → m.ListedByLine listing := by
  intro hall
  have hrender : render .text { tags := [.symbolClass ⟨[(1, "a\nb")]⟩] } =
      .ok ("FWS v10 frame [0, 11000] x [0, 8000] rate 24.00 frames 1\n" ++
        "  76 SymbolClass        8  1=a\nb\n" ++
        "   0 End                0\n") := by decide +kernel
  have honeLine := oneLine_of_listedByLine hrender (hall _ _ hrender) (List.mem_singleton_self _)
  exact absurd (honeLine.2 (1, "a\nb") rfl) (by decide)

end Movie

end Swf
