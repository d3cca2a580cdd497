import Swf.Listing.Json
import Swf.Listing.Text

/-!
# Listings in either form
-/

namespace Swf

/-- The forms of a listing. -/
inductive ListingFormat where
  | text
  | json
deriving DecidableEq, Repr

/-- The listing of a movie. -/
def Movie.render (format : ListingFormat) (m : Movie) : Except CodecError String := do
  let summary ← m.summarize
  match format with
  | .text => return summary.text
  | .json => return summary.jsonText

end Swf
