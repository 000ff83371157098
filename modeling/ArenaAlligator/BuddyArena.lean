import ArenaAlligator.Allocation
import ArenaAlligator.AtomicBitmap

namespace ArenaAlligator

open Usize

/-- A validated geometry. The two constructors of geometry.rs and the hint of
a raw-backed arena only produce values of this kind. -/
structure BuddyGeometry where
  totalSize : Nat
  minBlockSize : Nat
  maxOrder : Nat
  alignment : Nat
  capCapacity : Bool
  minBlockSize_pow : ∃ k, minBlockSize = 2 ^ k
  totalSize_eq : totalSize = minBlockSize <<< maxOrder
  totalSize_lt : totalSize < 2 ^ usizeBits

theorem exists_two_pow_eq_512 : ∃ k, 512 = 2 ^ k := ⟨9, rfl⟩

def pairGeometry : BuddyGeometry where
  totalSize := 1024
  minBlockSize := 512
  maxOrder := 1
  alignment := 1
  capCapacity := false
  minBlockSize_pow := exists_two_pow_eq_512
  totalSize_eq := rfl
  totalSize_lt := by decide

theorem BuddyGeometry.maxOrder_lt (g : BuddyGeometry) : g.maxOrder < usizeBits := by
  obtain ⟨k, hk⟩ := g.minBlockSize_pow
  have h := g.totalSize_lt
  rw [g.totalSize_eq, hk, Nat.shiftLeft_eq, ← Nat.pow_add] at h
  have := (Nat.pow_lt_pow_iff_right (by decide)).mp h
  omega

structure BuddyArenaInner where
  geometry : BuddyGeometry
  freeBitmaps : List AtomicBitmap
  nonemptyOrders : Word
  autoSpill : Bool
  initPolicy : InitPolicy
  metrics : MetricsState
  zeroedBitmap : Option AtomicBitmap
  memory : Memory

namespace BuddyArenaInner

def maxOrder (a : BuddyArenaInner) : Nat := a.geometry.maxOrder

def bitmap (a : BuddyArenaInner) (order : Nat) : AtomicBitmap :=
  a.freeBitmaps.getD order (AtomicBitmap.newEmpty 0)

def setBitmap (a : BuddyArenaInner) (order : Nat) (b : AtomicBitmap) : BuddyArenaInner :=
  { a with freeBitmaps := a.freeBitmaps.set order b }

def blocksAtOrder (maxOrder order : Nat) : Nat := 1 <<< (maxOrder - order)

def blockSize (a : BuddyArenaInner) (order : Nat) : Nat := a.geometry.minBlockSize <<< order

def blockOffset (a : BuddyArenaInner) (order blockIdx : Nat) : Nat := blockIdx * a.blockSize order

/-- The arena as the builders hand it out: one free block of the top order,
over backing memory with any contents. -/
def build (g : BuddyGeometry) (autoSpill : Bool) (initPolicy : InitPolicy) (memory : Memory) : BuddyArenaInner where
  geometry := g
  freeBitmaps :=
    let empty := (List.range (g.maxOrder + 1)).map fun order => AtomicBitmap.newEmpty (blocksAtOrder g.maxOrder order)
    empty.set g.maxOrder ((AtomicBitmap.newEmpty (blocksAtOrder g.maxOrder g.maxOrder)).free 0)
  nonemptyOrders := 1#64 <<< g.maxOrder
  autoSpill := autoSpill
  initPolicy := initPolicy
  metrics := MetricsState.new g.totalSize
  zeroedBitmap := match initPolicy with
    | .zero => some (AtomicBitmap.newEmpty (blocksAtOrder g.maxOrder 0))
    | .uninit => none
  memory := memory

def isBlockFree (a : BuddyArenaInner) (order blockIdx : Nat) : Bool := (a.bitmap order).isFree blockIdx

/-- The rounding wraps to 0 for lengths above 2^63. Zero then passes the size
check, and its trailing zero count gives an order above every bitmap. -/
def orderForRequest (a : BuddyArenaInner) (len : Nat) : Option Nat :=
  let size := nextPowerOfTwo (max len a.geometry.minBlockSize)
  if size > a.geometry.totalSize then none
  else some (trailingZeros size - trailingZeros a.geometry.minBlockSize)

def setSummary (a : BuddyArenaInner) (order : Nat) : BuddyArenaInner :=
  { a with nonemptyOrders := a.nonemptyOrders ||| 1#64 <<< order }

def clearSummary (a : BuddyArenaInner) (order : Nat) : BuddyArenaInner :=
  { a with nonemptyOrders := a.nonemptyOrders &&& ~~~(1#64 <<< order) }

def freeBlock (a : BuddyArenaInner) (order blockIdx : Nat) : BuddyArenaInner :=
  a.setBitmap order ((a.bitmap order).free blockIdx)

def maybeClearSummary (a : BuddyArenaInner) (order : Nat) : BuddyArenaInner :=
  if (a.bitmap order).anyFree then a else a.clearSummary order

def skips (summary : Option Word) (order : Nat) : Bool :=
  match summary with
  | some bits => bits &&& 1#64 <<< order = 0#64
  | none => false

def tryAllocateFromOrders (summary : Option Word) :
    List Nat → BuddyArenaInner → Option (Nat × Nat) × BuddyArenaInner
  | [], a => (none, a)
  | order :: orders, a =>
      if skips summary order then tryAllocateFromOrders summary orders a
      else
        let r := (a.bitmap order).tryAlloc
        let a := a.setBitmap order r.2
        match r.1 with
        | some blockIdx => (some (order, blockIdx), a.maybeClearSummary order)
        | none => tryAllocateFromOrders summary orders a

def ordersFrom (a : BuddyArenaInner) (targetOrder : Nat) : List Nat :=
  List.range' targetOrder (a.maxOrder + 1 - targetOrder)

def tryAllocateFromSummary (a : BuddyArenaInner) (targetOrder : Nat) : Option (Nat × Nat) × BuddyArenaInner :=
  tryAllocateFromOrders (some a.nonemptyOrders) (a.ordersFrom targetOrder) a

def tryAllocateFromFullScan (a : BuddyArenaInner) (targetOrder : Nat) : Option (Nat × Nat) × BuddyArenaInner :=
  tryAllocateFromOrders none (a.ordersFrom targetOrder) a

def splitLoop (targetOrder : Nat) : Nat → Nat → Nat → BuddyArenaInner → (Nat × Nat) × Nat × BuddyArenaInner
  | 0, blockIdx, splitSteps, a => ((0, blockIdx), splitSteps, a)
  | childOrder + 1, blockIdx, splitSteps, a =>
      if childOrder + 1 > targetOrder then
        let leftChild := blockIdx * 2
        let rightChild := leftChild + 1
        splitLoop targetOrder childOrder leftChild (splitSteps + 1)
          ((a.setSummary childOrder).freeBlock childOrder rightChild)
      else ((childOrder + 1, blockIdx), splitSteps, a)

def recordSplits (a : BuddyArenaInner) (splitSteps : Nat) : BuddyArenaInner :=
  if splitSteps > 0 then { a with metrics := a.metrics.recordSplits splitSteps } else a

def splitDown (a : BuddyArenaInner) (order blockIdx targetOrder : Nat) : (Nat × Nat) × BuddyArenaInner :=
  let r := splitLoop targetOrder order blockIdx 0 a
  (r.1, r.2.2.recordSplits r.2.1)

def order0Start (order blockIdx : Nat) : Nat := blockIdx * (1 <<< order)

def order0End (order blockIdx : Nat) : Nat := order0Start order blockIdx + (1 <<< order)

/-- Zeroing on the allocation path; skipped when the whole block was scrubbed
on return. -/
def zeroOnAllocate (a : BuddyArenaInner) (order blockIdx : Nat) : BuddyArenaInner :=
  match a.initPolicy, a.zeroedBitmap with
  | .zero, some zeroedBm =>
      if zeroedBm.allSetInRange (order0Start order blockIdx) (order0End order blockIdx) then a
      else { a with memory := zeroizeRegion a.memory (a.blockOffset order blockIdx) (a.blockSize order) }
  | _, _ => a

def tryAllocateBlock (a : BuddyArenaInner) (targetOrder : Nat) : Option (Nat × Nat) × BuddyArenaInner :=
  let r := a.tryAllocateFromSummary targetOrder
  match r.1 with
  | some block => (some block, r.2)
  | none => r.2.tryAllocateFromFullScan targetOrder

def handOut (a : BuddyArenaInner) (len order blockIdx : Nat) : Buffer × BuddyArenaInner :=
  let blockSize := a.blockSize order
  let a := a.zeroOnAllocate order blockIdx
  ({ allocation := .buddy order blockIdx
     autoSpill := a.autoSpill
     offset := a.blockOffset order blockIdx
     capacity := if a.geometry.capCapacity then min len blockSize else blockSize },
    { a with metrics := a.metrics.recordAllocSuccess blockSize })

def recordAllocFailure (a : BuddyArenaInner) : BuddyArenaInner :=
  { a with metrics := a.metrics.recordAllocFailure }

def allocate (a : BuddyArenaInner) (len : Nat) : Except AllocError Buffer × BuddyArenaInner :=
  match a.orderForRequest len with
  | none => (.error .requestTooLarge, a.recordAllocFailure)
  | some targetOrder =>
      let r := a.tryAllocateBlock targetOrder
      match r.1 with
      | none => (.error .arenaFull, r.2.recordAllocFailure)
      | some (order, blockIdx) =>
          let s := r.2.splitDown order blockIdx targetOrder
          let t := s.2.handOut len s.1.1 s.1.2
          (.ok t.1, t.2)

def scrubOnRelease (a : BuddyArenaInner) (order blockIdx : Nat) : BuddyArenaInner :=
  match a.initPolicy with
  | .zero => { a with
      memory := zeroizeRegion a.memory (a.blockOffset order blockIdx) (a.blockSize order)
      zeroedBitmap := a.zeroedBitmap.map fun zeroedBm =>
        zeroedBm.setRange (order0Start order blockIdx) (order0End order blockIdx) }
  | .uninit => a

/-- The coalesce loop of release_block, with the number of orders above. -/
def coalesceLoop : Nat → Nat → Nat → BuddyArenaInner → (Nat × Nat) × BuddyArenaInner
  | 0, order, blockIdx, a => ((order, blockIdx), a)
  | above + 1, order, blockIdx, a =>
      if order < a.maxOrder then
        let r := (a.bitmap order).tryClaimExact (blockIdx ^^^ 1)
        let a := a.setBitmap order r.2
        if r.1 then
          let a := a.maybeClearSummary order
          coalesceLoop above (order + 1) (blockIdx / 2) { a with metrics := a.metrics.recordCoalesce }
        else ((order, blockIdx), a)
      else ((order, blockIdx), a)

/-- Also returns the order passed to the wake handle. -/
def releaseBlock (a : BuddyArenaInner) (order blockIdx : Nat) : Nat × BuddyArenaInner :=
  let r := coalesceLoop (a.maxOrder - order) order blockIdx (a.scrubOnRelease order blockIdx)
  (r.1.1, (r.2.setSummary r.1.1).freeBlock r.1.1 r.1.2)

def release (a : BuddyArenaInner) (order blockIdx : Nat) : Nat × BuddyArenaInner :=
  releaseBlock { a with metrics := a.metrics.recordFree (a.blockSize order) } order blockIdx

def largestFreeBlock (a : BuddyArenaInner) : Nat :=
  match (List.range (a.maxOrder + 1)).reverse.find? fun order => (a.bitmap order).anyFree with
  | some order => a.blockSize order
  | none => 0

end BuddyArenaInner

end ArenaAlligator
