import BlockPool.Group.Step
import BlockPool.Memory.Arena
import BlockPool.Proofs.Allocator
import BlockPool.Proofs.Allocator.Apart
import BlockPool.Proofs.Allocator.Blank
import BlockPool.Proofs.Allocator.Descent
import BlockPool.Proofs.Allocator.Growth
import BlockPool.Proofs.Allocator.Muted
import BlockPool.Proofs.Allocator.Regrouped
import BlockPool.Proofs.Allocator.Routing
import BlockPool.Proofs.Allocator.Steady
import BlockPool.Proofs.Allocator.Supply
import BlockPool.Proofs.Allocator.Tracking
import BlockPool.Proofs.Block
import BlockPool.Proofs.Effect
import BlockPool.Proofs.Group.Muted
import BlockPool.Proofs.Group.Reuse
import BlockPool.Proofs.Group.Twins
import BlockPool.Proofs.Group.Views
import BlockPool.Proofs.Log
import BlockPool.Proofs.Memory
import BlockPool.Proofs.Past
import BlockPool.Proofs.Report
import BlockPool.Proofs.Settings
import BlockPool.Proofs.Totals
import BlockPool.Proofs.Tracker.Arithmetic
import BlockPool.Proofs.Tracker.BestFit
import BlockPool.Proofs.Tracker.Gaps
import BlockPool.Proofs.Tracker.Ledger
import BlockPool.Proofs.Tracker.Release
import BlockPool.Proofs.Tracker.Reserve
import BlockPool.Proofs.Tracker.SelfCheck
import BlockPool.Proofs.Tracker.Verdict
import BlockPool.Proofs.Usage
import BlockPool.Proofs.World.Alignment
import BlockPool.Proofs.World.Apart
import BlockPool.Proofs.World.Backstop
import BlockPool.Proofs.World.BoxAlignment
import BlockPool.Proofs.World.Boxes
import BlockPool.Proofs.World.Chain
import BlockPool.Proofs.World.Compaction
import BlockPool.Proofs.World.Course
import BlockPool.Proofs.World.Descent
import BlockPool.Proofs.World.Exchange
import BlockPool.Proofs.World.Failure
import BlockPool.Proofs.World.Fallbacks
import BlockPool.Proofs.World.History
import BlockPool.Proofs.World.Muted
import BlockPool.Proofs.World.Nested
import BlockPool.Proofs.World.Owner
import BlockPool.Proofs.World.Parcels
import BlockPool.Proofs.World.Past
import BlockPool.Proofs.World.Record
import BlockPool.Proofs.World.Refusal
import BlockPool.Proofs.World.Restart
import BlockPool.Proofs.World.RoundTrip
import BlockPool.Proofs.World.Routing
import BlockPool.Proofs.World.Setup
import BlockPool.Proofs.World.Shared
import BlockPool.Proofs.World.Steady
import BlockPool.Proofs.World.Supply
import BlockPool.Proofs.World.Tally
import BlockPool.Proofs.World.Teardown
import BlockPool.Proofs.World.Tracking
import BlockPool.Proofs.World.Tuning
import BlockPool.Proofs.World.Values
import BlockPool.Proofs.World.View
import BlockPool.Proofs.World.Widening
import BlockPool.Report
import BlockPool.Table.Lemmas
import BlockPool.Tracker.Step
import BlockPool.World.Shared
import BlockPool.World.Step
import BlockPool.World.Teardown
