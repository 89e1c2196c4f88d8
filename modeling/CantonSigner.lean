import CantonSigner.Lib.Bytes
import CantonSigner.Lib.Ring
import CantonSigner.Lib.Run
import CantonSigner.Lib.Traced
import CantonSigner.Lib.Sha256
import CantonSigner.Lib.Wire
import CantonSigner.Model.Messages
import CantonSigner.Model.Base
import CantonSigner.Model.Decode
import CantonSigner.Model.CanonicalHash
import CantonSigner.Model.NodeTreeCheck
import CantonSigner.Model.DisplayConfig
import CantonSigner.Model.NodeValuesCheck
import CantonSigner.Model.HashingParser
import CantonSigner.Model.HoldingParser
import CantonSigner.Model.DisplayParser
import CantonSigner.Model.DisplayReview
import CantonSigner.Model.PreparedTransaction
import CantonSigner.Model.UntypedVersionedMsg
import CantonSigner.Model.SignTx
import CantonSigner.Flow.Requests
import CantonSigner.Model.TopologyDecode
import CantonSigner.Model.TestDevice
import CantonSigner.Flow.Answers
import CantonSigner.Flow.Ending
import CantonSigner.Model.Host
import CantonSigner.Flow.Receiving
import CantonSigner.Hash.Extends
import CantonSigner.Display.Walk
import CantonSigner.Flow.Withdrawal
import CantonSigner.Flow.Nodes
import CantonSigner.Flow.AppRuns
import CantonSigner.Tree.Parts
import CantonSigner.Flow.Lookups
import CantonSigner.Flow.Completion
import CantonSigner.Flow.Received
import CantonSigner.Lib.Pointwise
import CantonSigner.Display.Screens
import CantonSigner.Display.Rows
import CantonSigner.Display.Values
import CantonSigner.Flow.Screens
import CantonSigner.Topology.Onboarding
import CantonSigner.Topology.AppRuns
import CantonSigner.Topology.ClearReview
import CantonSigner.Topology.Answers
import CantonSigner.Lib.SpanningTree
import CantonSigner.Tree.Check
import CantonSigner.Lib.Decimal
import CantonSigner.Lib.Numeral
import CantonSigner.Lib.Calendar
import CantonSigner.Tree.Root
import CantonSigner.Tree.Impossible
import CantonSigner.Flow.Finalized
import CantonSigner.Hash.Merkle
import CantonSigner.Wire.Fields
import CantonSigner.Wire.Values
import CantonSigner.Hash.ValueBytes
import CantonSigner.Hash.Encoding
import CantonSigner.Flow.Chunks
import CantonSigner.Flow.Bound
import CantonSigner.Flow.Filled
import CantonSigner.Flow.Rows
import CantonSigner.Flow.Holdings
import CantonSigner.Flow.RolledBack
import CantonSigner.Display.Holdings
import CantonSigner.Display.Amount
import CantonSigner.Display.Agreement
import CantonSigner.Lib.Separated
import CantonSigner.Display.Paths
import CantonSigner.Display.Met
import CantonSigner.Display.Extraction
import CantonSigner.Display.Found
import CantonSigner.Display.Reads
import CantonSigner.Display.Located
import CantonSigner.Display.Stored
import CantonSigner.Display.Blocks
import CantonSigner.Display.Typed
import CantonSigner.Display.Expiration
import CantonSigner.Display.Formatted
import CantonSigner.Display.Shown
import CantonSigner.Flow.Texts
import CantonSigner.Flow.Agreement
import CantonSigner.Hash.Hex
import CantonSigner.Hash.Named
import CantonSigner.Hash.ValueChecks
import CantonSigner.Hash.Checks
import CantonSigner.Hash.Strings
import CantonSigner.Hash.NodeBytes
import CantonSigner.Hash.LooseValues
import CantonSigner.Hash.OptionalParts
import CantonSigner.Lib.PrefixCode
import CantonSigner.Hash.Sizes
import CantonSigner.Hash.PrimCodes
import CantonSigner.Hash.ValueCodes
import CantonSigner.Hash.Injective
import CantonSigner.Display.ValuesCalls
import CantonSigner.Display.Tracks
import CantonSigner.Display.Verdict
import CantonSigner.Hash.NodeStore
import CantonSigner.Hash.Slots
import CantonSigner.Display.Exact
import CantonSigner.Display.Checked
import CantonSigner.Display.Present
import CantonSigner.Display.AmountText
import CantonSigner.Tree.Verdict
import CantonSigner.Topology.MultiHash
import CantonSigner.Flow.Aligned
import CantonSigner.Flow.Heap
import CantonSigner.Flow.AlignedApps
import CantonSigner.Flow.Isolation
import CantonSigner.Flow.Conversions
import CantonSigner.Flow.NodeIds
import CantonSigner.Flow.Missing
import CantonSigner.Lib.HashTree
import CantonSigner.Wire.Parts
import CantonSigner.Hash.Transmission
import CantonSigner.Hash.Pieces
import CantonSigner.Lib.Unfolding
import CantonSigner.Hash.Binding
import CantonSigner.Hash.Coverage
import CantonSigner.Lib.Simulation
import CantonSigner.Lib.Approval
import CantonSigner.Flow.Authorisation
import CantonSigner.Topology.Binding
import CantonSigner.Flow.Provenance
import CantonSigner.Flow.InOrder
import CantonSigner.Flow.Acceptance
import CantonSigner.Topology.Exact
import CantonSigner.Display.Calls
import CantonSigner.Flow.Calls
import CantonSigner.Flow.Cleared
