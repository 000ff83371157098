import ArenaAlligator.Usize

namespace ArenaAlligator

open Usize

inductive AllocError
  | arenaFull
  | requestTooLarge
deriving DecidableEq, Repr

inductive InitPolicy
  | zero
  | uninit
deriving DecidableEq, Repr

inductive AllocationKind
  | fixed (slotIdx : Nat)
  | buddy (order blockIdx : Nat)
deriving DecidableEq, Repr

/-- The writable handle returned by allocate. The arena reference and the
base pointer are the arena whose state is passed alongside. -/
structure Buffer where
  allocation : AllocationKind
  autoSpill : Bool
  offset : Nat
  capacity : Nat
  len : Nat := 0
  released : Bool := false
  spilled : Option (List UInt8) := none
deriving DecidableEq, Repr

abbrev Memory := Nat → UInt8

def zeroizeRegion (m : Memory) (offset size : Nat) : Memory :=
  fun i => if offset ≤ i ∧ i < offset + size then 0 else m i

structure MetricsState where
  allocationsOk : Nat := 0
  allocationsFailed : Nat := 0
  frees : Nat := 0
  frozen : Nat := 0
  spills : Nat := 0
  splits : Nat := 0
  coalesces : Nat := 0
  bytesReserved : Nat
  bytesLive : Nat := 0
deriving DecidableEq, Repr

namespace MetricsState

def new (bytesReserved : Nat) : MetricsState := { bytesReserved := bytesReserved }

/-- Each counter update is one atomic operation, so the recording functions
are built from the updates they perform in order. -/
def addAllocationsOk (m : MetricsState) : MetricsState := { m with allocationsOk := fetchAdd m.allocationsOk 1 }

def addBytesLive (m : MetricsState) (capacity : Nat) : MetricsState :=
  { m with bytesLive := fetchAdd m.bytesLive capacity }

def addFrees (m : MetricsState) : MetricsState := { m with frees := fetchAdd m.frees 1 }

def subBytesLive (m : MetricsState) (capacity : Nat) : MetricsState :=
  { m with bytesLive := fetchSub m.bytesLive capacity }

def recordAllocSuccess (m : MetricsState) (capacity : Nat) : MetricsState :=
  m.addAllocationsOk.addBytesLive capacity

def recordAllocFailure (m : MetricsState) : MetricsState :=
  { m with allocationsFailed := fetchAdd m.allocationsFailed 1 }

def recordFree (m : MetricsState) (capacity : Nat) : MetricsState := m.addFrees.subBytesLive capacity

def recordFrozen (m : MetricsState) : MetricsState := { m with frozen := fetchAdd m.frozen 1 }

def recordSpill (m : MetricsState) : MetricsState := { m with spills := fetchAdd m.spills 1 }

def recordSplits (m : MetricsState) (count : Nat) : MetricsState :=
  { m with splits := fetchAdd m.splits count }

def recordCoalesce (m : MetricsState) : MetricsState := { m with coalesces := fetchAdd m.coalesces 1 }

end MetricsState

end ArenaAlligator
