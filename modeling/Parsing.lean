import Parsing.Description
import Parsing.Grammar.Client
import Parsing.Iter
import Parsing.Proofs.Alternatives
import Parsing.Proofs.Backtracking
import Parsing.Proofs.Buffer
import Parsing.Proofs.Checked.Grammar
import Parsing.Proofs.Clamping
import Parsing.Proofs.Classes
import Parsing.Proofs.Coordinates
import Parsing.Proofs.Displacement
import Parsing.Proofs.Encode.Grammar
import Parsing.Proofs.Excerpt
import Parsing.Proofs.Expression.Refinement
import Parsing.Proofs.Frames
import Parsing.Proofs.Guarded.Grammar
import Parsing.Proofs.InTurn
import Parsing.Proofs.LineSplitting
import Parsing.Proofs.Literal.Decimal
import Parsing.Proofs.Literal.Float
import Parsing.Proofs.Literal.Integer
import Parsing.Proofs.Matching
import Parsing.Proofs.Nesting
import Parsing.Proofs.Occurrence
import Parsing.Proofs.Offsets
import Parsing.Proofs.Onward.Grammar
import Parsing.Proofs.Prefixes
import Parsing.Proofs.Progress.Agreement
import Parsing.Proofs.Progress.Counted
import Parsing.Proofs.Progress.Elements
import Parsing.Proofs.Progress.Iteration
import Parsing.Proofs.Progress.Resumption
import Parsing.Proofs.Reshape.Grammar
import Parsing.Proofs.Tiling
import Parsing.Report
