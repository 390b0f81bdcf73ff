import ByteAtlas.Expr.Memo
import ByteAtlas.Json.Scalar
import ByteAtlas.Main
import ByteAtlas.Proofs.Expr.RoundTrip
import ByteAtlas.Proofs.Expr.Faults
import ByteAtlas.Proofs.Expr.NoSlip
import ByteAtlas.Proofs.Expr.Shallow
import ByteAtlas.Proofs.Schema.Calls
import ByteAtlas.Proofs.Schema.RoundTrip
import ByteAtlas.Proofs.Resolve.Termination
import ByteAtlas.Proofs.Resolve.Walks
import ByteAtlas.Proofs.Resolve.Lasting
import ByteAtlas.Proofs.Resolve.Remains
import ByteAtlas.Proofs.Resolve.Arrivals
import ByteAtlas.Proofs.Resolve.Order
import ByteAtlas.Proofs.Elements.Sizes
import ByteAtlas.Proofs.Flat.Fresh
import ByteAtlas.Proofs.Flat.Places
import ByteAtlas.Proofs.Flat.FirstFields
import ByteAtlas.Proofs.Additions.Budget
import ByteAtlas.Proofs.Repeat.Steps
import ByteAtlas.Proofs.Repeat.Fields
import ByteAtlas.Proofs.Repeat.Walks
import ByteAtlas.Proofs.Repeat.Evaluation
import ByteAtlas.Proofs.Elements.Room
import ByteAtlas.Proofs.Expr.Ranks
import ByteAtlas.Proofs.Resolve.Succession
import ByteAtlas.Proofs.Alike.Offsets
import ByteAtlas.Proofs.Filters.Fields
import ByteAtlas.Proofs.Filters.Selecting
import ByteAtlas.Proofs.Lazy.Fields
import ByteAtlas.Proofs.Lazy.Frames
import ByteAtlas.Proofs.Resolve.CountSources
import ByteAtlas.Proofs.Resolve.Variables
import ByteAtlas.Proofs.Elements.Integers
import ByteAtlas.Proofs.Expr.Arithmetic
import ByteAtlas.Proofs.Expr.TokenTexts
import ByteAtlas.Proofs.Scalar.Joining
import ByteAtlas.Proofs.Source.LiveReads
