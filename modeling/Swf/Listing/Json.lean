import Swf.Listing.Summary
import Swf.Text.Json

/-!
# The JSON listing

The summary of a movie as a JSON document, its fields in the order of the file.
-/

namespace Swf

open Text (Json)

/-- The bounds by name. -/
def Rect.json (r : Rect) : Json :=
  .record [("min_x", .int r.minX.toInt), ("max_x", .int r.maxX.toInt),
    ("min_y", .int r.minY.toInt), ("max_y", .int r.maxY.toInt)]

def TagSummary.json (row : TagSummary) : Json :=
  .record [("code", .nat row.code.toNat), ("name", .string row.name),
    ("length", .nat row.length.toNat), ("detail", .string row.detail)]

namespace MovieSummary

/-- The document of a summary. The frame rate has the fewest places that read back as the same
32-bit number. -/
def json (s : MovieSummary) : Json :=
  .record [("compressed", .bool s.compressed), ("version", .nat s.header.version.toNat),
    ("frame_size", s.header.frameSize.json),
    ("frame_rate", .number (binary32.shortest s.header.frameRate.toNat MovieHeader.rateUnit)),
    ("frame_count", .nat s.header.frameCount.toNat), ("tags", .list (s.tags.map TagSummary.json))]

/-- The document as text, ended by a line break. -/
def jsonText (s : MovieSummary) : String := s.json.render 0 ++ "\n"

end MovieSummary

end Swf
