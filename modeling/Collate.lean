import Collate.Accumulator
import Collate.Builder
import Collate.ChildMap
import Collate.Decimal.Numeral
import Collate.Decimal.Shortest
import Collate.Double.Arithmetic
import Collate.Double.Basic
import Collate.Error
import Collate.Eviction
import Collate.Field
import Collate.Json.Basic
import Collate.Json.Number
import Collate.Json.Parser
import Collate.Json.Printer
import Collate.Key.Basic
import Collate.Key.Text
import Collate.Partition
import Collate.Plan
import Collate.Queue
import Collate.Row
import Collate.Schedule
import Collate.Search.Cache
import Collate.Search.Pool
import Collate.Search.Request
import Collate.Search.Response
import Collate.Search.Shelf
import Collate.Search.Store
import Collate.Signal
import Collate.Sizes
import Collate.Snapshot
import Collate.Table.Basic
import Collate.Table.Producer
import Collate.Text.DefaultIgnorable
import Collate.Text.GraphemeExtend
import Collate.Text.Printable
import Collate.Text.Quoted
import Collate.Val
import Collate.Wire.Codec
import Collate.Wire.Search
import Collate.Wire.Value
import Collate.Proofs.Builder
import Collate.Proofs.StableSort
import Collate.Proofs.Partition
import Collate.Proofs.Settled
import Collate.Proofs.Merge
import Collate.Proofs.Feed
import Collate.Proofs.Batching
import Collate.Proofs.Ungrouped
import Collate.Proofs.Producer.Trace
import Collate.Proofs.Producer.Progress
import Collate.Proofs.Producer.Ledger
import Collate.Proofs.Producer.Linear
import Collate.Proofs.Pairs
import Collate.Proofs.Producer.History
import Collate.Proofs.Refusal
import Collate.Proofs.WellFormed
import Collate.Proofs.Listing
import Collate.Proofs.Gathering
import Collate.Proofs.Retention
import Collate.Proofs.Joining
import Collate.Proofs.Acceptance
import Collate.Proofs.ArrivalOrder
import Collate.Proofs.Refolding
import Collate.Proofs.Rereading
import Collate.Proofs.Walk
import Collate.Proofs.EarlyStop
import Collate.Proofs.Routing
import Collate.Proofs.StoreStop
import Collate.Proofs.Trimming
import Collate.Proofs.Producer.Clearing
import Collate.Proofs.Addresses
import Collate.Proofs.Pages
import Collate.Proofs.Grouping
import Collate.Proofs.Destruction
import Collate.Proofs.Shelf
import Collate.Proofs.Serving
import Collate.Proofs.LiveSearches
import Collate.Proofs.Json
import Collate.Proofs.Wire
import Collate.Proofs.Verdict
import Collate.Proofs.Remnants
import Collate.Proofs.ChildOrder
import Collate.Proofs.Survivors
import Collate.Proofs.Compilation
import Collate.Proofs.RowOrder
import Collate.Proofs.Bracketing
import Collate.Proofs.Backpressure
import Collate.Proofs.TotalOrder
import Collate.Proofs.Identity
import Collate.Proofs.Descent
import Collate.Proofs.Handles
import Collate.Proofs.Pacing
import Collate.Proofs.SharedClock
