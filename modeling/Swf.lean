import Swf.Abc.Codec
import Swf.Abc.Fold
import Swf.Abc.Lift
import Swf.Abc.Method
import Swf.CommandLine.Directory
import Swf.Display.Draw
import Swf.Main
import Swf.Movie.Census
import Swf.Record.Account
import Swf.Record.Composition
import Swf.Proofs.Bits
import Swf.Proofs.Words
import Swf.Proofs.Reader.Window
import Swf.Proofs.Reader.BitFields
import Swf.Proofs.Reader.Fields
import Swf.Proofs.Writer.BitFields
import Swf.Proofs.Rect
import Swf.Proofs.RecordHeader
import Swf.Proofs.Field.Sequence
import Swf.Proofs.Record.Layout
import Swf.Proofs.Record.Framing
import Swf.Proofs.Record.Preservation
import Swf.Proofs.Movie.Body
import Swf.Proofs.Zlib.Delivers
import Swf.Proofs.Zlib.Stored
import Swf.Proofs.Movie.RoundTrip
import Swf.Proofs.Writer.Delivery
import Swf.Proofs.Movie.Delivery
import Swf.Proofs.Reader.Ensures
import Swf.Proofs.Reader.Confined
import Swf.Proofs.Tag.Readable
import Swf.Proofs.Movie.Readable
import Swf.Proofs.Movie.Rewrite
import Swf.Proofs.Reader.Shortfall
import Swf.Proofs.Record.Shortfall
import Swf.Proofs.Record.Block
import Swf.Proofs.Record.Unknown
import Swf.Proofs.Movie.Shortfall
import Swf.Proofs.Movie.Fragmentation
import Swf.Proofs.Movie.Compression
import Swf.Proofs.Movie.Policies
import Swf.Proofs.Movie.Truncation
import Swf.Proofs.Abc.Varint
import Swf.Proofs.Abc.Codec
import Swf.Proofs.Abc.Semantics
import Swf.Proofs.Abc.Lift
import Swf.Proofs.Abc.Emission
import Swf.Proofs.Abc.Reemission
import Swf.Proofs.Abc.Runtime
import Swf.Proofs.Number.Integers
import Swf.Proofs.Abc.Folding
import Swf.Proofs.Abc.Session
import Swf.Proofs.Abc.Liftable
import Swf.Proofs.Abc.NormalForm
import Swf.Proofs.Abc.Economy
import Swf.Proofs.Abc.StackUse
import Swf.Proofs.CommandLine.Reencode
import Swf.Proofs.Text.SingleLine
import Swf.Proofs.Listing.Lines
import Swf.Proofs.Listing.Sizes
import Swf.Proofs.Writer.InMemory
import Swf.Proofs.Tag.Refusal
import Swf.Proofs.Record.AllOrNothing
import Swf.Proofs.Display.Restoration
import Swf.Proofs.Record.Classification
import Swf.Proofs.Abc.Extension
import Swf.Proofs.Rect.Width
import Swf.Proofs.Abc.Interning
import Swf.Proofs.Number.Numeral
import Swf.Proofs.Abc.NumericStrings
import Swf.Proofs.Number.Arithmetic
import Swf.Proofs.Abc.IntegerFolding
import Swf.Proofs.Reader.Blocks
import Swf.Proofs.Movie.Census
import Swf.Proofs.Writer.Account
import Swf.Proofs.Field.Account
import Swf.Proofs.Reader.Calls
import Swf.Proofs.Reader.Position
import Swf.Proofs.Record.Position
