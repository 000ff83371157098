import ArenaAlligator.Runs
import ArenaAlligator.AlignedBlocks
import ArenaAlligator.BlockOwnership
import ArenaAlligator.WordBits
import ArenaAlligator.Usize
import ArenaAlligator.BuddyHint
import ArenaAlligator.AtomicBitmap
import ArenaAlligator.BitmapSlots
import ArenaAlligator.BitmapRefinement
import ArenaAlligator.Allocation
import ArenaAlligator.BuddyArena
import ArenaAlligator.BuddyBlocks
import ArenaAlligator.BuddyScan
import ArenaAlligator.BuddyBalance
import ArenaAlligator.BuddyRuns
import ArenaAlligator.BuddyCanonical
import ArenaAlligator.BuddyRequests
import ArenaAlligator.BuddyLevels
import ArenaAlligator.BuddyThreads
import ArenaAlligator.BuddyOwnership
import ArenaAlligator.BuddyCoalescing
import ArenaAlligator.Waiters
import ArenaAlligator.WaiterQueues
import ArenaAlligator.AsyncBuddy
import ArenaAlligator.BuddyStarvation
import ArenaAlligator.RequestSizing
import ArenaAlligator.Notify
import ArenaAlligator.FixedArena
import ArenaAlligator.FixedWaiters
import ArenaAlligator.AsyncFixed
import ArenaAlligator.FixedWakeups
import ArenaAlligator.WakeAmplification
import ArenaAlligator.WaiterThreads
import ArenaAlligator.WaiterLedger
import ArenaAlligator.WaiterBooks
import ArenaAlligator.WaiterAccounting
import ArenaAlligator.WaiterVisibility
import ArenaAlligator.WaiterTombstones
import ArenaAlligator.CancelledWakes
import ArenaAlligator.Regions
import ArenaAlligator.ArenaRef
import ArenaAlligator.Buffers
import ArenaAlligator.BufferVector
import ArenaAlligator.Lifecycle
import ArenaAlligator.ReleasedOnce
import ArenaAlligator.BitmapRanges
import ArenaAlligator.ScrubbedUnits
import ArenaAlligator.UnitOwnership
import ArenaAlligator.ZeroPolicy
import ArenaAlligator.SlotThreads
import ArenaAlligator.RangeOperations
import ArenaAlligator.Geometry
import ArenaAlligator.SlotLayout
import ArenaAlligator.WakeBudget
import ArenaAlligator.WakeStreaks
import ArenaAlligator.BuddyAccounts
import ArenaAlligator.MetricsAccounts
import ArenaAlligator.SpillCounts
import ArenaAlligator.MetricsRuns
import ArenaAlligator.FixedThreads
import ArenaAlligator.LiveBytes
import ArenaAlligator.FullScans
import ArenaAlligator.PrivateBytes
import ArenaAlligator.ScrubRules
import ArenaAlligator.ZeroSteps
import ArenaAlligator.BuddyZeroing
import ArenaAlligator.FixedZeroing
import ArenaAlligator.WakeTokens
import ArenaAlligator.BuddyProgress
import ArenaAlligator.FixedProgress
import ArenaAlligator.MetricsSettle
import ArenaAlligator.SummaryBits
import ArenaAlligator.WaiterProgress
import ArenaAlligator.BuddyFullScans
import ArenaAlligator.BoundedWaiting
import ArenaAlligator.Construction
import ArenaAlligator.StaleMemory
