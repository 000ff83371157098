import ArenaAlligator.Buffers

namespace ArenaAlligator.Lifecycle

/-- What stands over an allocation. Frozen arena memory has one owner, shared
by the clones and slices of the Bytes, each a position and a length. Bytes on
the heap are not over the allocation. -/
inductive Holder
  | buffer (buf : Buffer)
  | region (region : RawRegion)
  | bytes (handle : BufferHandle) (views : List (Nat × Nat))
  | gone

namespace Holder

def reads : Holder → Bool
  | buffer buf => !buf.isSpilled
  | region _ => true
  | bytes _ views => !views.isEmpty
  | gone => false

/-- A spilled buffer still keeps its reference to the arena. -/
def keeps : Holder → Bool
  | buffer _ => true
  | region _ => true
  | bytes _ views => !views.isEmpty
  | gone => false

end Holder

/-- A call on what stands over one allocation. A write is a store through a
pointer that the buffer or the region gives out. -/
inductive OwnerCall
  | putSlice (data : List UInt8)
  | tryPutSlice (data : List UInt8)
  | write (pos : Nat) (byte : UInt8)
  | drop
  | abandon
  | freeze
  | freezeRange (start fin : Nat)
  | cloneBytes (view : Nat)
  | sliceBytes (view start fin : Nat)
  | dropBytes (view : Nat)

structure Moved where
  store : Store
  holder : Holder
  ownerDropped : Bool

/-- What is taken from the bytes crate: BytesMut, and whether an empty slice of
Bytes counts as a slice of its owner. -/
structure BytesCrate where
  bytesMut : BytesMut
  emptySliceKeeps : Bool

def writeTo (s : Store) (allocation : AllocationKind) (pos : Nat) (byte : UInt8) : Store :=
  let block := s.arena.block allocation
  if pos < block.2 then { s with arena := s.arena.setMemory (Regions.write s.arena.memory (block.1 + pos) [byte]) }
  else s

def actBuffer (bc : BytesCrate) (s : Store) (buf : Buffer) : OwnerCall → Option Moved
  | .putSlice data =>
      let r := buf.putSlice bc.bytesMut s data
      some ⟨r.2.1, .buffer r.2.2, false⟩
  | .tryPutSlice data =>
      let r := buf.tryPutSlice bc.bytesMut s data
      some ⟨r.2.1, .buffer r.2.2, false⟩
  | .write pos byte => some ⟨if buf.isSpilled then s else writeTo s buf.allocation pos byte, .buffer buf, false⟩
  | .drop => (buf.drop s).map fun s => ⟨s, .gone, true⟩
  | .abandon => (buf.drop s).map fun s => ⟨s, .gone, true⟩
  | .freeze =>
      (buf.freeze s).map fun r =>
        match r.1 with
        | .heap _ => ⟨r.2, .gone, true⟩
        | .arena handle => ⟨r.2, .bytes handle [(0, handle.len)], false⟩
  | _ => some ⟨s, .buffer buf, false⟩

def actRegion (s : Store) (region : RawRegion) : OwnerCall → Option Moved
  | .write pos byte => some ⟨writeTo s region.allocation pos byte, .region region, false⟩
  | .drop => (region.drop s).map fun s => ⟨s, .gone, true⟩
  | .freezeRange start fin =>
      (region.freeze s start fin).map fun r =>
        match r.1 with
        | .error _ => ⟨r.2, .gone, true⟩
        | .ok handle => ⟨r.2, .bytes handle [(0, handle.len)], false⟩
  | _ => some ⟨s, .region region, false⟩

def actBytes (bc : BytesCrate) (s : Store) (handle : BufferHandle) (views : List (Nat × Nat)) :
    OwnerCall → Option Moved
  | .cloneBytes view => some ⟨s, .bytes handle (views ++ views[view]?.toList), false⟩
  | .sliceBytes view start fin =>
      match views[view]? with
      | none => some ⟨s, .bytes handle views, false⟩
      | some (pos, len) =>
          if start ≤ fin ∧ fin ≤ len ∧ (start < fin ∨ bc.emptySliceKeeps = true) then
            some ⟨s, .bytes handle (views ++ [(pos + start, fin - start)]), false⟩
          else some ⟨s, .bytes handle views, false⟩
  | .dropBytes view =>
      let rest := views.eraseIdx view
      if rest = [] then (handle.drop s).map fun s => ⟨s, .gone, true⟩ else some ⟨s, .bytes handle rest, false⟩
  | _ => some ⟨s, .bytes handle views, false⟩

def Holder.act (bc : BytesCrate) (s : Store) : Holder → OwnerCall → Option Moved
  | .buffer buf, x => actBuffer bc s buf x
  | .region raw, x => actRegion s raw x
  | .bytes handle views, x => actBytes bc s handle views x
  | .gone, _ => some ⟨s, .gone, false⟩

structure Slot where
  allocation : AllocationKind
  holder : Holder

inductive Event
  | released (id : Nat) (allocation : AllocationKind)
  | deallocated (ptr len : Nat)
deriving DecidableEq

namespace Event

def releaseOf (id : Nat) : Event → Option AllocationKind
  | released j allocation => if j = id then some allocation else none
  | deallocated _ _ => none

def deallocation : Event → Option (Nat × Nat)
  | released _ _ => none
  | deallocated ptr len => some (ptr, len)

end Event

inductive ErasedDealloc
  | erased
  | noop
deriving DecidableEq

/-- The arena behind its Arc, with the strong count and the number of arena
values. The log has the latest event first. -/
structure World where
  arena : ArenaRef
  ptr : Nat
  deallocLen : Nat
  dealloc : ErasedDealloc
  strong : Nat
  handles : Nat
  slots : List Slot
  log : List Event

namespace World

def releasesOf (w : World) (id : Nat) : List AllocationKind := w.log.filterMap (Event.releaseOf id)

def deallocations (w : World) : List (Nat × Nat) := w.log.filterMap Event.deallocation

def inUse (w : World) : Bool := 0 < w.handles || w.slots.any fun slot => slot.holder.keeps

def dropInner (w : World) : World :=
  { w with
    dealloc := .noop
    log := match w.dealloc with
      | .erased => .deallocated w.ptr w.deallocLen :: w.log
      | .noop => w.log }

def dropRef (w : World) : World :=
  let w := { w with strong := w.strong - 1 }
  if w.strong = 0 then w.dropInner else w

def addSlot (w : World) (allocation : AllocationKind) (holder : Holder) : World :=
  { w with
    strong := w.strong + 1
    slots := w.slots ++ [⟨allocation, holder⟩] }

def settle (w : World) (id : Nat) (allocation : AllocationKind) (r : Moved) : World :=
  let w := { w with
    arena := r.store.arena
    slots := w.slots.set id ⟨allocation, r.holder⟩
    log := r.store.releases.map (.released id) ++ w.log }
  if r.ownerDropped then w.dropRef else w

end World

inductive Action
  | cloneArena
  | dropArena
  | allocate (len : Nat)
  | rawAlloc (len : Nat)
  | own (id : Nat) (call : OwnerCall)

/-- One action. Without an arena value there is nothing to clone, to drop or
to allocate from. The result is none if a release panics. -/
def step (bc : BytesCrate) (w : World) : Action → Option World
  | .cloneArena => some (if w.handles = 0 then w else { w with strong := w.strong + 1, handles := w.handles + 1 })
  | .dropArena => some (if w.handles = 0 then w else { w with handles := w.handles - 1 }.dropRef)
  | .allocate len =>
      if w.handles = 0 then some w
      else
        let r := w.arena.allocate len
        match r.1 with
        | .error _ => some { w with arena := r.2 }
        | .ok buf => some ({ w with arena := r.2 }.addSlot buf.allocation (.buffer buf))
  | .rawAlloc len =>
      if w.handles = 0 then some w
      else
        let r := RawRegion.rawAlloc w.arena len
        match r.1 with
        | .error _ => some { w with arena := r.2 }
        | .ok region => some ({ w with arena := r.2 }.addSlot region.allocation (.region region))
  | .own id x =>
      match w.slots[id]? with
      | none => some w
      | some slot => (slot.holder.act bc ⟨w.arena, []⟩ x).map (w.settle id slot.allocation)

def run (bc : BytesCrate) : World → List Action → Option World
  | w, [] => some w
  | w, x :: xs => (step bc w x).bind fun w => run bc w xs

/-- The builders. A raw-backed builder takes the region as it is, so that a
part of it at the end may stay unused; the others allocate what they use. -/
inductive Builder
  | fixed (slotCount slotCapacity : Nat) (autoSpill : Bool)
  | rawFixed (slotCount slotCapacity len : Nat)
  | buddy (geometry : BuddyGeometry) (autoSpill : Bool)
  | rawBuddy (geometry : BuddyGeometry) (len : Nat)

namespace Builder

def arena (initPolicy : InitPolicy) (memory : Memory) : Builder → ArenaRef
  | fixed slotCount slotCapacity autoSpill => .fixed (.build slotCount slotCapacity autoSpill initPolicy memory)
  | rawFixed slotCount slotCapacity _ => .fixed (.build slotCount slotCapacity false initPolicy memory)
  | buddy geometry autoSpill => .buddy (.build geometry autoSpill initPolicy memory)
  | rawBuddy geometry _ => .buddy (.build geometry false initPolicy memory)

def regionLen : Builder → Nat
  | fixed slotCount slotCapacity _ => slotCount * slotCapacity
  | rawFixed _ _ len => len
  | buddy geometry _ => geometry.totalSize
  | rawBuddy _ len => len

/-- The arena over a region at ptr, with the one arena value build returns. -/
def build (b : Builder) (ptr : Nat) (initPolicy : InitPolicy) (memory : Memory) : World where
  arena := b.arena initPolicy memory
  ptr := ptr
  deallocLen := b.regionLen
  dealloc := .erased
  strong := 1
  handles := 1
  slots := []
  log := []

end Builder

end ArenaAlligator.Lifecycle
