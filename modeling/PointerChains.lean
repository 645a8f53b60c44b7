import PointerChains.Access
import PointerChains.Address.Basic
import PointerChains.Address.Range
import PointerChains.Address.Text
import PointerChains.Balance
import PointerChains.Bisect
import PointerChains.Chain.Basic
import PointerChains.Chain.Format
import PointerChains.Chain.Storage
import PointerChains.Error
import PointerChains.IndexSet
import PointerChains.Interchange
import PointerChains.Map.Basic
import PointerChains.Map.Listing
import PointerChains.Memory.Reader
import PointerChains.Memory.Snapshot
import PointerChains.Options.Basic
import PointerChains.Options.Guarded
import PointerChains.Options.PointerScan
import PointerChains.Options.Ranges
import PointerChains.PointerWidth
import PointerChains.Pool.Basic
import PointerChains.Pool.Tally
import PointerChains.Proofs.Address.Lookup
import PointerChains.Proofs.Address.Numerals
import PointerChains.Proofs.Address.Reading
import PointerChains.Proofs.Address.Sought
import PointerChains.Proofs.Balance.Approximation
import PointerChains.Proofs.Balance.Dealing
import PointerChains.Proofs.Balance.Fairness
import PointerChains.Proofs.Balance.Regions
import PointerChains.Proofs.Causes
import PointerChains.Proofs.Chain.History
import PointerChains.Proofs.Chain.Layout
import PointerChains.Proofs.Chain.Loading
import PointerChains.Proofs.Chain.Rejection
import PointerChains.Proofs.Chain.RoundTrip
import PointerChains.Proofs.Chain.Saving
import PointerChains.Proofs.Chain.Slices
import PointerChains.Proofs.Chain.Stored
import PointerChains.Proofs.Chain.Table
import PointerChains.Proofs.Chain.Truncation
import PointerChains.Proofs.Map.Built
import PointerChains.Proofs.Map.Construction
import PointerChains.Proofs.Map.Entries
import PointerChains.Proofs.Map.Lines
import PointerChains.Proofs.Map.Listing
import PointerChains.Proofs.Memory.Captures
import PointerChains.Proofs.Memory.Chunks
import PointerChains.Proofs.Memory.Image
import PointerChains.Proofs.Memory.Pointer
import PointerChains.Proofs.Options.Ranges
import PointerChains.Proofs.Options.Setters
import PointerChains.Proofs.Pool.Cancellation
import PointerChains.Proofs.Pool.Coverage
import PointerChains.Proofs.Pool.Crew
import PointerChains.Proofs.Pool.Failure
import PointerChains.Proofs.Pool.History
import PointerChains.Proofs.Pool.Outcome
import PointerChains.Proofs.Pool.Partition
import PointerChains.Proofs.Pool.Reads
import PointerChains.Proofs.Pool.Ready
import PointerChains.Proofs.Pool.Refusals
import PointerChains.Proofs.Pool.Reports
import PointerChains.Proofs.Pool.Reuse
import PointerChains.Proofs.Pool.Round
import PointerChains.Proofs.Pool.Sessions
import PointerChains.Proofs.Pool.Setup
import PointerChains.Proofs.Pool.Standstill
import PointerChains.Proofs.Scan.Chains
import PointerChains.Proofs.Scan.Failure
import PointerChains.Proofs.Scan.Faults
import PointerChains.Proofs.Scan.Flattening
import PointerChains.Proofs.Scan.Flushes
import PointerChains.Proofs.Scan.Level
import PointerChains.Proofs.Scan.Matches
import PointerChains.Proofs.Scan.Outcome
import PointerChains.Proofs.Scan.Parents
import PointerChains.Proofs.Scan.Placement
import PointerChains.Proofs.Scan.Pruning
import PointerChains.Proofs.Scan.Reverification
import PointerChains.Proofs.Scan.Schedule
import PointerChains.Proofs.Scan.Search
import PointerChains.Proofs.Scan.Turns
import PointerChains.Proofs.Scan.Verification
import PointerChains.Proofs.Selection.Filter
import PointerChains.Proofs.Selection.IndexSets
import PointerChains.Proofs.Sweep.Agreement
import PointerChains.Proofs.Sweep.Breakdown
import PointerChains.Proofs.Sweep.Cancellation
import PointerChains.Proofs.Sweep.Course
import PointerChains.Proofs.Sweep.Cursor
import PointerChains.Proofs.Sweep.Progress
import PointerChains.Proofs.Sweep.Reads
import PointerChains.Proofs.Sweep.Share
import PointerChains.Proofs.Sweep.Steps
import PointerChains.Proofs.Sweep.Window
import PointerChains.Proofs.Text.Words
import PointerChains.Proofs.Tree.Commit
import PointerChains.Proofs.Tree.Leaves
import PointerChains.Proofs.Tree.Links
import PointerChains.Proofs.Tree.Previous
import PointerChains.Proofs.Tree.Rows
import PointerChains.Proofs.Tree.Runs
import PointerChains.Proofs.Tree.Ways
import PointerChains.Reference
import PointerChains.Scan.Basic
import PointerChains.Scan.Flatten
import PointerChains.Scan.Matcher
import PointerChains.Selection
import PointerChains.Sweep.Align
import PointerChains.Sweep.Basic
import PointerChains.Sweep.Buffer
import PointerChains.Sweep.Plan
import PointerChains.Text.Blank
import PointerChains.Text.Hex
import PointerChains.Text.Invisible
import PointerChains.Text.Quoted
import PointerChains.Token
import PointerChains.Tree.Basic
import PointerChains.Tree.Level
