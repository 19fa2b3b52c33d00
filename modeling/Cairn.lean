import Cairn.Main
import Cairn.Tree.Outline
import Cairn.Proofs.Initialisation
import Cairn.Proofs.RoundTrip
import Cairn.Proofs.Terminals
import Cairn.Proofs.TypeRules
import Cairn.Proofs.Wire
import Cairn.Proofs.Words
import Cairn.Proofs.Resolving
import Cairn.Proofs.Reading
import Cairn.Proofs.Reading.Expression
import Cairn.Proofs.Reading.Statement
import Cairn.Proofs.Rendering
import Cairn.Proofs.Levels
import Cairn.Proofs.Tracking
import Cairn.Proofs.Depth
import Cairn.Proofs.Heights
import Cairn.Proofs.Limits
import Cairn.Proofs.Balance
import Cairn.Proofs.Promotion
import Cairn.Proofs.WholeNumbers
import Cairn.Proofs.Lockstep
import Cairn.Proofs.Excess
import Cairn.Proofs.Rejection
import Cairn.Proofs.Jumps
import Cairn.Proofs.Extents
import Cairn.Proofs.Offsets
import Cairn.Proofs.Size
import Cairn.Proofs.Commands
import Cairn.Proofs.Order
import Cairn.Proofs.Bounds
import Cairn.Proofs.Appending
import Cairn.Proofs.Poisoning
import Cairn.Proofs.Sufficiency
import Cairn.Proofs.Grouping
import Cairn.Proofs.Tokens
import Cairn.Proofs.Thresholds
import Cairn.Proofs.Pairs
import Cairn.Proofs.Building
import Cairn.Proofs.Shapes
import Cairn.Proofs.Descent
import Cairn.Proofs.Places
import Cairn.Proofs.Reports
import Cairn.Proofs.Onward
import Cairn.Proofs.Failures
import Cairn.Proofs.Echoes
import Cairn.Proofs.Prompting
import Cairn.Proofs.Spans
import Cairn.Proofs.SingleLine
import Cairn.Proofs.Boundaries
import Cairn.Proofs.Integers
import Cairn.Proofs.ByteScan
