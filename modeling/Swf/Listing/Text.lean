import Swf.Listing.Summary
import Swf.Text.Blank

/-!
# The text listing

A header line, then one row per record, its columns aligned. White space at the end of a row is cut
off, so a record without detail ends with its size.
-/

namespace Swf

/-- A text filled up with spaces on its left. -/
def padLeft (width : Nat) (text : String) : String :=
  String.ofList (List.replicate (width - text.length) ' ') ++ text

/-- A text filled up with spaces on its right. -/
def padRight (width : Nat) (text : String) : String :=
  text ++ String.ofList (List.replicate (width - text.length) ' ')

namespace TagSummary

/-- The columns of a row, its name in `nameWidth` characters. -/
def columns (nameWidth : Nat) (row : TagSummary) : String :=
  s!"{padLeft 4 (toString row.code.toNat)} {padRight nameWidth row.name} " ++
    s!"{padLeft 8 (toString row.length.toNat)}  {row.detail}"

/-- A row without the white space at its end. -/
def line (nameWidth : Nat) (row : TagSummary) : String :=
  String.ofList (Text.trimEnd (row.columns nameWidth).toList)

end TagSummary

namespace MovieSummary

/-- The first line of a listing. The frame rate has two places. -/
def headerLine (s : MovieSummary) : String :=
  let signature := if s.compressed then "CWS" else "FWS"
  let rate := fixedPoint s.header.frameRate.toNat MovieHeader.rateUnit 2
  s!"{signature} v{s.header.version.toNat} frame {s.header.frameSize.display} " ++
    s!"rate {rate} frames {s.header.frameCount.toNat}"

/-- The width of the longest name. -/
def nameWidth (s : MovieSummary) : Nat := (s.tags.map (·.name.length)).foldl max 0

/-- The lines of a listing. -/
def lines (s : MovieSummary) : List String := s.headerLine :: s.tags.map (·.line s.nameWidth)

/-- A listing, each of its lines ended by a line break. -/
def text (s : MovieSummary) : String := String.join (s.lines.map (· ++ "\n"))

end MovieSummary

end Swf
