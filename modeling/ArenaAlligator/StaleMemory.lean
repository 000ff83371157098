import ArenaAlligator.PrivateBytes

namespace ArenaAlligator

def ArenaInner.withMemory (a : ArenaInner) (m : Memory) : ArenaInner := { a with memory := m }

def BuddyArenaInner.withMemory (a : BuddyArenaInner) (m : Memory) : BuddyArenaInner := { a with memory := m }

def Store.withMemory (s : Store) (m : Memory) : Store := { s with arena := s.arena.setMemory m }

def Lifecycle.Moved.withMemory (r : Moved) (m : Memory) : Moved := { r with store := r.store.withMemory m }

def Lifecycle.World.withMemory (w : World) (m : Memory) : World := { w with arena := w.arena.setMemory m }

def Lifecycle.Action.isRaw : Action → Bool
  | .rawAlloc _ => true
  | _ => false

namespace StaleMemory

open Regions BuddyArenaInner Lifecycle PrivateBytes

section

variable (m : Memory)

theorem fixed_handOut (a : ArenaInner) (slotIdx : Nat) :
    ∃ m', (a.withMemory m).handOut slotIdx = ((a.handOut slotIdx).1, (a.handOut slotIdx).2.withMemory m') := by
  have hzero : ∃ m', (a.withMemory m).zeroOnAllocate slotIdx = (a.zeroOnAllocate slotIdx).withMemory m' := by
    obtain ⟨slotCapacity, slotCount, bitmap, autoSpill, initPolicy, metrics, zeroedBitmap, memory⟩ := a
    simp only [ArenaInner.withMemory, ArenaInner.zeroOnAllocate]
    split
    · split
      · exact ⟨m, rfl⟩
      · exact ⟨_, rfl⟩
    · exact ⟨m, rfl⟩
  obtain ⟨m', hm'⟩ := hzero
  simp only [ArenaInner.handOut, hm']
  exact ⟨m', rfl⟩

theorem fixed_allocate (a : ArenaInner) :
    ∃ m', (a.withMemory m).allocate = (a.allocate.1, a.allocate.2.withMemory m') := by
  have hbitmap : (a.withMemory m).bitmap = a.bitmap := rfl
  cases hr : a.bitmap.tryAlloc.1 with
  | none =>
      simp only [ArenaInner.allocate, hbitmap, hr]
      exact ⟨m, rfl⟩
  | some slotIdx =>
      obtain ⟨m', hm'⟩ := fixed_handOut m { a with bitmap := a.bitmap.tryAlloc.2 } slotIdx
      rw [ArenaInner.allocate_of_some hr, ArenaInner.allocate_of_some (hbitmap ▸ hr)]
      exact ⟨m', congrArg (fun r : Buffer × ArenaInner => (Except.ok r.1, r.2)) hm'⟩

theorem fixed_release (a : ArenaInner) (slotIdx : Nat) :
    ∃ m', (a.withMemory m).release slotIdx = (a.release slotIdx).withMemory m' := by
  obtain ⟨slotCapacity, slotCount, bitmap, autoSpill, initPolicy, metrics, zeroedBitmap, memory⟩ := a
  cases initPolicy with
  | zero => exact ⟨_, rfl⟩
  | uninit => exact ⟨m, rfl⟩

theorem maybeClearSummary_withMemory (a : BuddyArenaInner) (order : Nat) :
    (a.withMemory m).maybeClearSummary order = (a.maybeClearSummary order).withMemory m := by
  have hbitmap : (a.withMemory m).bitmap order = a.bitmap order := rfl
  simp only [maybeClearSummary, hbitmap]
  split <;> rfl

theorem tryAllocateFromOrders_withMemory (summary : Option Word) (orders : List Nat) (a : BuddyArenaInner) :
    tryAllocateFromOrders summary orders (a.withMemory m) =
      ((tryAllocateFromOrders summary orders a).1, (tryAllocateFromOrders summary orders a).2.withMemory m) := by
  induction orders generalizing a with
  | nil => rfl
  | cons order orders ih =>
      have hbitmap : (a.withMemory m).bitmap order = a.bitmap order := rfl
      simp only [tryAllocateFromOrders, hbitmap]
      split
      · exact ih a
      · cases (a.bitmap order).tryAlloc.1 with
        | none => exact ih (a.setBitmap order (a.bitmap order).tryAlloc.2)
        | some blockIdx => exact congrArg _ (maybeClearSummary_withMemory m (a.setBitmap order _) order)

theorem tryAllocateBlock_withMemory (a : BuddyArenaInner) (targetOrder : Nat) :
    (a.withMemory m).tryAllocateBlock targetOrder =
      ((a.tryAllocateBlock targetOrder).1, (a.tryAllocateBlock targetOrder).2.withMemory m) := by
  have hsummary : (a.withMemory m).tryAllocateFromSummary targetOrder =
      ((a.tryAllocateFromSummary targetOrder).1, (a.tryAllocateFromSummary targetOrder).2.withMemory m) :=
    tryAllocateFromOrders_withMemory m (some a.nonemptyOrders) (a.ordersFrom targetOrder) a
  simp only [tryAllocateBlock, hsummary]
  cases (a.tryAllocateFromSummary targetOrder).1 with
  | some block => rfl
  | none => exact tryAllocateFromOrders_withMemory m none _ (a.tryAllocateFromSummary targetOrder).2

theorem splitLoop_withMemory (targetOrder order blockIdx splitSteps : Nat) (a : BuddyArenaInner) :
    splitLoop targetOrder order blockIdx splitSteps (a.withMemory m) =
      ((splitLoop targetOrder order blockIdx splitSteps a).1, (splitLoop targetOrder order blockIdx splitSteps a).2.1,
        (splitLoop targetOrder order blockIdx splitSteps a).2.2.withMemory m) := by
  induction order generalizing blockIdx splitSteps a with
  | zero => rfl
  | succ childOrder ih =>
      simp only [splitLoop]
      split
      · exact ih _ _ ((a.setSummary childOrder).freeBlock childOrder (blockIdx * 2 + 1))
      · rfl

theorem splitDown_withMemory (a : BuddyArenaInner) (order blockIdx targetOrder : Nat) :
    (a.withMemory m).splitDown order blockIdx targetOrder =
      ((a.splitDown order blockIdx targetOrder).1, (a.splitDown order blockIdx targetOrder).2.withMemory m) := by
  simp only [splitDown, splitLoop_withMemory, recordSplits]
  split <;> rfl

theorem buddy_handOut (a : BuddyArenaInner) (len order blockIdx : Nat) :
    ∃ m', (a.withMemory m).handOut len order blockIdx =
      ((a.handOut len order blockIdx).1, (a.handOut len order blockIdx).2.withMemory m') := by
  have hzero : ∃ m', (a.withMemory m).zeroOnAllocate order blockIdx =
      (a.zeroOnAllocate order blockIdx).withMemory m' := by
    obtain ⟨g, freeBitmaps, nonemptyOrders, autoSpill, initPolicy, metrics, zeroedBitmap, memory⟩ := a
    simp only [BuddyArenaInner.withMemory, zeroOnAllocate]
    split
    · split
      · exact ⟨m, rfl⟩
      · exact ⟨_, rfl⟩
    · exact ⟨m, rfl⟩
  obtain ⟨m', hm'⟩ := hzero
  simp only [handOut, hm']
  exact ⟨m', rfl⟩

theorem buddy_allocate (a : BuddyArenaInner) (len : Nat) :
    ∃ m', (a.withMemory m).allocate len = ((a.allocate len).1, (a.allocate len).2.withMemory m') := by
  have horder : (a.withMemory m).orderForRequest len = a.orderForRequest len := rfl
  simp only [BuddyArenaInner.allocate, horder]
  cases a.orderForRequest len with
  | none => exact ⟨m, rfl⟩
  | some targetOrder =>
      simp only [tryAllocateBlock_withMemory]
      cases (a.tryAllocateBlock targetOrder).1 with
      | none => exact ⟨m, rfl⟩
      | some block =>
          simp only [splitDown_withMemory]
          generalize (a.tryAllocateBlock targetOrder).2.splitDown block.1 block.2 targetOrder = r
          obtain ⟨m', hm'⟩ := buddy_handOut m r.2 len r.1.1 r.1.2
          exact ⟨m', congrArg (fun t : Buffer × BuddyArenaInner => (Except.ok t.1, t.2)) hm'⟩

theorem coalesceLoop_withMemory (above order blockIdx : Nat) (a : BuddyArenaInner) :
    coalesceLoop above order blockIdx (a.withMemory m) =
      ((coalesceLoop above order blockIdx a).1, (coalesceLoop above order blockIdx a).2.withMemory m) := by
  induction above generalizing order blockIdx a with
  | zero => rfl
  | succ above ih =>
      have hbitmap : (a.withMemory m).bitmap order = a.bitmap order := rfl
      have hmax : (a.withMemory m).maxOrder = a.maxOrder := rfl
      have hclear := maybeClearSummary_withMemory m
        (a.setBitmap order ((a.bitmap order).tryClaimExact (blockIdx ^^^ 1)).2) order
      change ((a.withMemory m).setBitmap _ _).maybeClearSummary order = _ at hclear
      simp only [coalesceLoop, hbitmap, hmax, hclear]
      split
      · split
        · generalize maybeClearSummary _ order = c
          exact ih _ _ { c with metrics := c.metrics.recordCoalesce }
        · rfl
      · rfl

theorem buddy_release (a : BuddyArenaInner) (order blockIdx : Nat) :
    ∃ m', (a.withMemory m).release order blockIdx =
      ((a.release order blockIdx).1, (a.release order blockIdx).2.withMemory m') := by
  have hscrub (c : BuddyArenaInner) : ∃ m', (c.withMemory m).scrubOnRelease order blockIdx =
      (c.scrubOnRelease order blockIdx).withMemory m' := by
    obtain ⟨g, freeBitmaps, nonemptyOrders, autoSpill, initPolicy, metrics, zeroedBitmap, memory⟩ := c
    cases initPolicy with
    | zero => exact ⟨_, rfl⟩
    | uninit => exact ⟨m, rfl⟩
  have hblock (c : BuddyArenaInner) : ∃ m', (c.withMemory m).releaseBlock order blockIdx =
      ((c.releaseBlock order blockIdx).1, (c.releaseBlock order blockIdx).2.withMemory m') := by
    obtain ⟨m', hm'⟩ := hscrub c
    have hmax : (c.withMemory m).maxOrder = c.maxOrder := rfl
    simp only [releaseBlock, hm', hmax, coalesceLoop_withMemory]
    exact ⟨m', rfl⟩
  exact hblock { a with metrics := a.metrics.recordFree (a.blockSize order) }

theorem allocate_setMemory (a : ArenaRef) (len : Nat) :
    ∃ m', (a.setMemory m).allocate len = ((a.allocate len).1, (a.allocate len).2.setMemory m') := by
  cases a with
  | fixed inner =>
      obtain ⟨m', hm'⟩ := fixed_allocate m inner
      exact ⟨m', congrArg (fun r : Except AllocError Buffer × ArenaInner => (r.1, ArenaRef.fixed r.2)) hm'⟩
  | buddy inner =>
      obtain ⟨m', hm'⟩ := buddy_allocate m inner len
      exact ⟨m', congrArg (fun r : Except AllocError Buffer × BuddyArenaInner => (r.1, ArenaRef.buddy r.2)) hm'⟩

theorem release_setMemory (a : ArenaRef) (k : AllocationKind) :
    ∃ m', (a.setMemory m).release k = (a.release k).map fun c => c.setMemory m' := by
  cases a with
  | fixed inner =>
      cases k with
      | fixed slotIdx =>
          obtain ⟨m', hm'⟩ := fixed_release m inner slotIdx
          exact ⟨m', congrArg (fun c => some (ArenaRef.fixed c)) hm'⟩
      | buddy order blockIdx => exact ⟨m, rfl⟩
  | buddy inner =>
      cases k with
      | fixed slotIdx => exact ⟨m, rfl⟩
      | buddy order blockIdx =>
          obtain ⟨m', hm'⟩ := buddy_release m inner order blockIdx
          exact ⟨m', congrArg (fun r : Nat × BuddyArenaInner => some (ArenaRef.buddy r.2)) hm'⟩

theorem recordSpill_setMemory (a : ArenaRef) : (a.setMemory m).recordSpill = a.recordSpill.setMemory m := by
  cases a <;> rfl

theorem recordFrozen_setMemory (a : ArenaRef) : (a.setMemory m).recordFrozen = a.recordFrozen.setMemory m := by
  cases a <;> rfl

theorem setMemory_setMemory (a : ArenaRef) (m' : Memory) : (a.setMemory m').setMemory m = a.setMemory m := by
  cases a <;> rfl

end

/-- The bytes that were written through the buffer are the same in both
memories. Behind them anything may stand. -/
def SameWritten (m : Memory) (s : Store) (buf : Buffer) : Prop :=
  buf.spilled = none → read m buf.offset buf.len = read s.arena.memory buf.offset buf.len

variable {m : Memory} {s : Store} {buf : Buffer}

theorem store_release (m : Memory) (s : Store) (k : AllocationKind) :
    ∃ m', (s.withMemory m).release k = (s.release k).map fun t => t.withMemory m' := by
  obtain ⟨m', hm'⟩ := release_setMemory m s.arena k
  refine ⟨m', ?_⟩
  simp only [Store.release, Store.withMemory, hm', Option.map_map]
  rfl

theorem doSpill_withMemory (h : SameWritten m s buf) (hspilled : buf.spilled = none) :
    ∃ m', buf.doSpill (s.withMemory m) = (buf.doSpill s).map fun r => (r.1.withMemory m', r.2) := by
  obtain ⟨m', hm'⟩ := store_release m { s with arena := s.arena.recordSpill } buf.allocation
  refine ⟨m', ?_⟩
  have hread : read (s.arena.setMemory m).memory buf.offset buf.len = read s.arena.memory buf.offset buf.len := by
    rw [ArenaRef.memory_setMemory, h hspilled]
  simp only [Store.withMemory] at hm'
  simp only [Buffer.doSpill, Store.withMemory, hread, recordSpill_setMemory, hm', Option.map_map]
  rfl

theorem chunkMut_withMemory (h : SameWritten m s buf) :
    ∃ m', buf.chunkMut (s.withMemory m) = (buf.chunkMut s).map (fun r => (r.1.withMemory m', r.2)) ∧
      ∀ r, buf.chunkMut s = some r → SameWritten m' r.1 r.2 := by
  by_cases hfull : (buf.spilled.isNone && buf.autoSpill && buf.len ≥ buf.capacity) = true
  · have hspilled : buf.spilled = none := by
      simp only [Bool.and_eq_true, Option.isNone_iff_eq_none] at hfull
      exact hfull.1.1
    obtain ⟨m', hm'⟩ := doSpill_withMemory h hspilled
    refine ⟨m', by simp only [Buffer.chunkMut, hfull, if_true, hm'], fun r hr hnone => ?_⟩
    simp only [Buffer.chunkMut, hfull, if_true, Buffer.doSpill, Option.map_eq_some_iff] at hr
    obtain ⟨t, -, rfl⟩ := hr
    cases hnone
  · refine ⟨m, by simp only [Buffer.chunkMut, hfull]; rfl, fun r hr => ?_⟩
    simp only [Buffer.chunkMut, hfull] at hr
    cases hr
    exact h

theorem fill_withMemory (h : SameWritten m s buf) (data : List UInt8) :
    ∃ m', buf.fill (s.withMemory m) data =
        ((buf.fill s data).1, (buf.fill s data).2.1.withMemory m', (buf.fill s data).2.2) ∧
      ((buf.fill s data).1 = .done → SameWritten m' (buf.fill s data).2.1 (buf.fill s data).2.2) := by
  cases hspilled : buf.spilled with
  | some heap =>
      simp only [Buffer.fill, hspilled]
      exact ⟨m, rfl, fun _ hnone => by cases hnone⟩
  | none =>
      refine ⟨write m (buf.offset + buf.len) data, ?_⟩
      simp only [Buffer.fill, hspilled, Store.withMemory, ArenaRef.memory_setMemory, setMemory_setMemory]
      split
      · refine ⟨by simp only [setMemory_setMemory], fun _ _ => ?_⟩
        simp only [ArenaRef.memory_setMemory, read_write_append, h hspilled]
      · exact ⟨by simp only [setMemory_setMemory], fun hdone => by cases hdone⟩

theorem putLoop_withMemory (hb : BytesMut) (fuel : Nat) (src : List UInt8) (h : SameWritten m s buf) :
    ∃ m', Buffer.putLoop hb fuel (s.withMemory m) buf src =
      ((Buffer.putLoop hb fuel s buf src).1, (Buffer.putLoop hb fuel s buf src).2.1.withMemory m',
        (Buffer.putLoop hb fuel s buf src).2.2) := by
  induction fuel generalizing m s buf src with
  | zero => exact ⟨m, rfl⟩
  | succ fuel ih =>
      simp only [Buffer.putLoop]
      split
      · exact ⟨m, rfl⟩
      · obtain ⟨m₁, hchunk, hsame⟩ := chunkMut_withMemory h
        rw [hchunk]
        cases hr : buf.chunkMut s with
        | none => exact ⟨m, rfl⟩
        | some r =>
            simp only [Option.map_some]
            obtain ⟨m₂, hfill, hfilled⟩ := fill_withMemory (hsame r hr) (src.take (min src.length (r.2.chunkLen hb)))
            rw [hfill]
            cases hdone : (r.2.fill r.1 (src.take (min src.length (r.2.chunkLen hb)))).1 with
            | done => exact ih _ (hfilled hdone)
            | panicked => exact ⟨m₂, by rw [hdone]⟩
            | outOfFuel => exact ⟨m₂, by rw [hdone]⟩

theorem putSlice_withMemory (hb : BytesMut) (data : List UInt8) (h : SameWritten m s buf) :
    ∃ m', buf.putSlice hb (s.withMemory m) data =
      ((buf.putSlice hb s data).1, (buf.putSlice hb s data).2.1.withMemory m', (buf.putSlice hb s data).2.2) := by
  simp only [Buffer.putSlice]
  split
  · exact ⟨m, rfl⟩
  · exact putLoop_withMemory hb data.length data h

theorem drop_withMemory (m : Memory) (s : Store) (buf : Buffer) :
    ∃ m', buf.drop (s.withMemory m) = (buf.drop s).map fun t => t.withMemory m' := by
  simp only [Buffer.drop]
  split
  · exact ⟨m, rfl⟩
  · exact store_release m s buf.allocation

theorem writeTo_withMemory (m : Memory) (s : Store) (k : AllocationKind) (pos : Nat) (byte : UInt8) :
    ∃ m', writeTo (s.withMemory m) k pos byte = (writeTo s k pos byte).withMemory m' := by
  have hblock : (s.withMemory m).arena.block = s.arena.block := ArenaRef.block_setMemory _ _
  simp only [writeTo, hblock]
  split
  · refine ⟨write m ((s.arena.block k).1 + pos) [byte], ?_⟩
    simp only [Store.withMemory, ArenaRef.memory_setMemory, setMemory_setMemory]
  · exact ⟨m, rfl⟩

variable (bc : BytesCrate) (x : OwnerCall)

theorem actBuffer_withMemory (h : SameWritten m s buf) :
    ∃ m', actBuffer bc (s.withMemory m) buf x = (actBuffer bc s buf x).map fun r => r.withMemory m' := by
  have hdrop : ∃ m', (buf.drop (s.withMemory m)).map (fun t => (⟨t, .gone, true⟩ : Moved)) =
      ((buf.drop s).map fun t => (⟨t, .gone, true⟩ : Moved)).map fun r => r.withMemory m' := by
    obtain ⟨m', hm'⟩ := drop_withMemory m s buf
    exact ⟨m', by rw [hm', Option.map_map, Option.map_map]; rfl⟩
  cases x with
  | putSlice data =>
      obtain ⟨m', hm'⟩ := putSlice_withMemory bc.bytesMut data h
      exact ⟨m', by simp only [actBuffer, hm', Option.map_some, Moved.withMemory]⟩
  | tryPutSlice data =>
      obtain ⟨m', hm'⟩ := putSlice_withMemory bc.bytesMut data h
      simp only [actBuffer, Buffer.tryPutSlice]
      split
      · exact ⟨m, rfl⟩
      · exact ⟨m', by simp only [hm', Option.map_some, Moved.withMemory]⟩
  | write pos byte =>
      simp only [actBuffer]
      split
      · exact ⟨m, rfl⟩
      · obtain ⟨m', hm'⟩ := writeTo_withMemory m s buf.allocation pos byte
        exact ⟨m', by rw [hm']; rfl⟩
  | drop => exact hdrop
  | abandon => exact hdrop
  | freeze =>
      cases hspilled : buf.spilled with
      | some heap =>
          obtain ⟨m', hm'⟩ := drop_withMemory m s { buf with spilled := none }
          refine ⟨m', ?_⟩
          simp only [actBuffer, Buffer.freeze, hspilled, hm', Option.map_map]
          rfl
      | none =>
          refine ⟨m, ?_⟩
          simp only [actBuffer, Buffer.freeze, hspilled, Store.withMemory, recordFrozen_setMemory]
          rfl
  | freezeRange start fin => exact ⟨m, rfl⟩
  | cloneBytes view => exact ⟨m, rfl⟩
  | sliceBytes view start fin => exact ⟨m, rfl⟩
  | dropBytes view => exact ⟨m, rfl⟩

theorem actRegion_withMemory (m : Memory) (s : Store) (raw : RawRegion) :
    ∃ m', actRegion (s.withMemory m) raw x = (actRegion s raw x).map fun r => r.withMemory m' := by
  obtain ⟨m', hm'⟩ := store_release m s raw.allocation
  cases x with
  | write pos byte =>
      obtain ⟨m', hm'⟩ := writeTo_withMemory m s raw.allocation pos byte
      exact ⟨m', by simp only [actRegion, hm']; rfl⟩
  | drop => exact ⟨m', by simp only [actRegion, RawRegion.drop, hm', Option.map_map]; rfl⟩
  | freezeRange start fin =>
      simp only [actRegion, RawRegion.freeze]
      split
      · exact ⟨m', by simp only [RawRegion.drop, hm', Option.map_map]; rfl⟩
      · refine ⟨m, ?_⟩
        simp only [Store.withMemory, recordFrozen_setMemory]
        rfl
  | _ => exact ⟨m, rfl⟩

theorem actBytes_withMemory (m : Memory) (s : Store) (handle : BufferHandle) (views : List (Nat × Nat)) :
    ∃ m', actBytes bc (s.withMemory m) handle views x =
      (actBytes bc s handle views x).map fun r => r.withMemory m' := by
  cases x with
  | sliceBytes view start fin =>
      simp only [actBytes]
      cases views[view]? with
      | none => exact ⟨m, rfl⟩
      | some v =>
          simp only
          split <;> exact ⟨m, rfl⟩
  | dropBytes view =>
      simp only [actBytes]
      split
      · obtain ⟨m', hm'⟩ := store_release m s handle.allocation
        exact ⟨m', by simp only [BufferHandle.drop, hm', Option.map_map]; rfl⟩
      · exact ⟨m, rfl⟩
  | _ => exact ⟨m, rfl⟩

theorem act_withMemory (holder : Holder) (h : ∀ buf, holder = .buffer buf → SameWritten m s buf) :
    ∃ m', holder.act bc (s.withMemory m) x = (holder.act bc s x).map fun r => r.withMemory m' := by
  cases holder with
  | buffer buf => exact actBuffer_withMemory bc x (h buf rfl)
  | region raw => exact actRegion_withMemory x m s raw
  | bytes handle views => exact actBytes_withMemory bc x m s handle views
  | gone => exact ⟨m, rfl⟩

variable {w : World}

theorem dropRef_withMemory (w : World) (m : Memory) :
    (w.withMemory m).dropRef = w.dropRef.withMemory m := by
  have hstrong : (w.withMemory m).strong = w.strong := rfl
  simp only [World.dropRef, hstrong]
  split <;> rfl

theorem settle_withMemory (w : World) (m m' : Memory) (id : Nat) (k : AllocationKind) (r : Moved) :
    (w.withMemory m).settle id k (r.withMemory m') = (w.settle id k r).withMemory m' := by
  have hdropped : (r.withMemory m').ownerDropped = r.ownerDropped := rfl
  simp only [World.settle, hdropped]
  split
  · exact dropRef_withMemory { w with
      arena := r.store.arena
      slots := w.slots.set id ⟨k, r.holder⟩
      log := r.store.releases.map (.released id) ++ w.log } m'
  · rfl

/-- No action reads the memory, except that a buffer which spills copies the
bytes that were written through it. -/
theorem step_withMemory (y : Action)
    (h : ∀ (id : Nat) (slot : Slot) (buf : Buffer), w.slots[id]? = some slot → slot.holder = .buffer buf →
      SameWritten m ⟨w.arena, []⟩ buf) :
    ∃ m', step bc (w.withMemory m) y = (step bc w y).map fun v => v.withMemory m' := by
  have hhandles : (w.withMemory m).handles = w.handles := rfl
  have hslots : (w.withMemory m).slots = w.slots := rfl
  have harena : (w.withMemory m).arena = w.arena.setMemory m := rfl
  cases y with
  | cloneArena =>
      simp only [step, hhandles]
      split <;> exact ⟨m, rfl⟩
  | dropArena =>
      simp only [step, hhandles]
      split
      · exact ⟨m, rfl⟩
      · exact ⟨m, congrArg some (dropRef_withMemory { w with handles := w.handles - 1 } m)⟩
  | allocate n =>
      obtain ⟨m', hm'⟩ := allocate_setMemory m w.arena n
      simp only [step, hhandles, harena, hm']
      split
      · exact ⟨m, rfl⟩
      · cases (w.arena.allocate n).1 <;> exact ⟨m', rfl⟩
  | rawAlloc n =>
      obtain ⟨m', hm'⟩ := allocate_setMemory m w.arena n
      simp only [step, hhandles, harena, RawRegion.rawAlloc, hm']
      split
      · exact ⟨m, rfl⟩
      · cases (w.arena.allocate n).1 <;> exact ⟨m', rfl⟩
  | own id x =>
      simp only [step, hslots]
      cases hslot : w.slots[id]? with
      | none => exact ⟨m, rfl⟩
      | some slot =>
          obtain ⟨m', hm'⟩ := act_withMemory bc x slot.holder fun buf hbuf => h id slot buf hslot hbuf
          refine ⟨m', ?_⟩
          simp only [Store.withMemory] at hm'
          simp only [harena, hm', Option.map_map]
          congr 1
          funext r
          exact settle_withMemory w m m' id slot.allocation r

def madeRaw (bc : BytesCrate) : World → List Action → List Bool
  | _, [] => []
  | w, y :: ys =>
      match step bc w y with
      | none => []
      | some v => (if v.slots.length = w.slots.length then [] else [y.isRaw]) ++ madeRaw bc v ys

/-- Two runs show the same objects, except for the ones made by raw_alloc
under policy Uninit. -/
structure Agree (initPolicy : InitPolicy) (raws : List Bool) (objs objs' : List Owned) : Prop where
  raws_length : raws.length = objs.length
  length : objs'.length = objs.length
  buffers : ∀ (id : Nat) (v : List UInt8) (capacity : Nat) (autoSpill : Bool),
    objs[id]? = some (.buffer v capacity autoSpill) → raws[id]? = some false
  shows : ∀ id : Nat, initPolicy = .zero ∨ raws[id]? = some false → objs'[id]? = objs[id]?

variable {initPolicy : InitPolicy} {autoSpill : Bool} {raws : List Bool} {objs objs' next next' : List Owned}

theorem buffer_of_act {o : Owned} {v : List UInt8} {capacity : Nat} (h : o.act bc x = .buffer v capacity autoSpill) :
    ∃ v' capacity' autoSpill', o = .buffer v' capacity' autoSpill' := by
  cases o with
  | buffer v' capacity' autoSpill' => exact ⟨v', capacity', autoSpill', rfl⟩
  | region cells =>
      cases x <;> simp only [Owned.act, Owned.actRegion, reduceCtorEq] at h
      split at h <;> cases h
  | bytes views =>
      cases x <;> simp only [Owned.act, Owned.actBytes, reduceCtorEq] at h
      · split at h
        · cases h
        · split at h <;> cases h
      · split at h <;> cases h
  | gone => cases h

theorem Agree.own (h : Agree initPolicy raws objs objs') (id : Nat) :
    Agree initPolicy raws (objs.modify id (Owned.act bc x)) (objs'.modify id (Owned.act bc x)) := by
  refine ⟨?_, ?_, fun j v capacity spill hj => ?_, fun j hj => ?_⟩
  · rw [List.length_modify, h.raws_length]
  · rw [List.length_modify, List.length_modify, h.length]
  · rw [List.getElem?_modify] at hj
    obtain ⟨o, ho, hact⟩ := Option.map_eq_some_iff.mp hj
    split at hact
    · obtain ⟨v', capacity', spill', rfl⟩ := buffer_of_act bc x hact
      exact h.buffers j v' capacity' spill' ho
    · exact h.buffers j v capacity spill (hact ▸ ho)
  · rw [List.getElem?_modify, List.getElem?_modify, h.shows j hj]

theorem Agree.push (h : Agree initPolicy raws objs objs') {o o' : Owned} {raw : Bool}
    (hbuffer : ∀ v capacity autoSpill, o = .buffer v capacity autoSpill → raw = false)
    (hshow : initPolicy = .zero ∨ raw = false → o' = o) :
    Agree initPolicy (raws ++ [raw]) (objs ++ [o]) (objs' ++ [o']) := by
  have hlast (id : Nat) : (raws ++ [raw])[id]? = if id < objs.length then raws[id]? else [raw][id - objs.length]? := by
    rw [List.getElem?_append, h.raws_length]
  refine ⟨?_, ?_, fun j v capacity spill hj => ?_, fun j hj => ?_⟩
  · rw [List.length_append, List.length_append, h.raws_length]
    rfl
  · rw [List.length_append, List.length_append, h.length]
    rfl
  · rw [List.getElem?_append] at hj
    rw [hlast]
    split at hj
    next hlt =>
      rw [if_pos hlt]
      exact h.buffers j v capacity spill hj
    next hge =>
      rw [if_neg hge]
      obtain rfl : .buffer v capacity spill = o := List.mem_singleton.mp (List.mem_of_getElem? hj)
      have hzero : j - objs.length = 0 := by
        have := (List.getElem?_eq_some_iff.mp hj).1
        simpa using this
      rw [hzero, hbuffer v capacity spill rfl]
      rfl
  · rw [hlast] at hj
    rw [List.getElem?_append, List.getElem?_append, h.length]
    split at hj
    next hlt =>
      rw [if_pos hlt, if_pos hlt]
      exact h.shows j hj
    next hge =>
      rw [if_neg hge, if_neg hge]
      cases hj' : j - objs.length with
      | zero =>
          rw [hj'] at hj
          simpa using hshow (by simpa using hj)
      | succ n => rfl

/-- Objects that agree still do after one action on both sides, as long as
the arenas grant the same. -/
theorem Agree.step {y : Action} {granted : Nat → Option Nat} (h : Agree initPolicy raws objs objs')
    (hstep : PrivateStep bc autoSpill initPolicy granted objs y next)
    (hstep' : PrivateStep bc autoSpill initPolicy granted objs' y next') :
    Agree initPolicy (raws ++ if next.length = objs.length then [] else [y.isRaw]) next next' := by
  cases hstep with
  | cloneArena =>
      cases hstep'
      simpa using h
  | dropArena =>
      cases hstep'
      simpa using h
  | allocateRefused hnone =>
      cases hstep' with
      | allocateRefused => simpa using h
      | allocate hsome => cases hnone.symm.trans hsome
  | rawAllocRefused hnone =>
      cases hstep' with
      | rawAllocRefused => simpa using h
      | rawAlloc hsome => cases hnone.symm.trans hsome
  | allocate hsome =>
      cases hstep' with
      | allocateRefused hnone => cases hnone.symm.trans hsome
      | allocate hsome' =>
          cases hsome.symm.trans hsome'
          rw [if_neg (by simp)]
          exact h.push (fun _ _ _ _ => rfl) fun _ => rfl
  | rawAlloc hsome hzero =>
      cases hstep' with
      | rawAllocRefused hnone => cases hnone.symm.trans hsome
      | rawAlloc hsome' hzero' =>
          have hcells := Option.some.inj (hsome.symm.trans hsome')
          rw [if_neg (by simp)]
          apply h.push fun _ _ _ hbuffer => by cases hbuffer
          rintro (hpolicy | hraw)
          · rw [hzero hpolicy, hzero' hpolicy, hcells]
          · cases hraw
  | own =>
      cases hstep'
      rw [if_pos (List.length_modify _ _ _), List.append_nil]
      exact h.own bc _ _

variable {ptr len : Nat}

theorem objects_getElem? (w : World) (id : Nat) :
    (objects w)[id]? = w.slots[id]?.map fun slot => observe w.arena.memory slot.holder :=
  List.getElem?_map

theorem Agree.observe_eq (h : Agree initPolicy raws (objects w) (objects (w.withMemory m))) {id : Nat} {slot : Slot}
    (hslot : w.slots[id]? = some slot) (hseen : initPolicy = .zero ∨ raws[id]? = some false) :
    observe m slot.holder = observe w.arena.memory slot.holder := by
  have hshows := h.shows id hseen
  have hslot' : (w.withMemory m).slots[id]? = some slot := hslot
  rw [objects_getElem?, objects_getElem?, hslot, hslot'] at hshows
  have hmemory : (w.withMemory m).arena.memory = m := ArenaRef.memory_setMemory _ _
  simpa only [Option.map_some, Option.some.injEq, hmemory] using hshows

/-- What a buffer would copy is seen through it. -/
theorem Agree.sameWritten (h : Agree initPolicy raws (objects w) (objects (w.withMemory m))) {id : Nat} {slot : Slot}
    {buf : Buffer} (hslot : w.slots[id]? = some slot) (hbuf : slot.holder = .buffer buf) :
    SameWritten m ⟨w.arena, []⟩ buf := by
  intro hspilled
  have hraw : raws[id]? = some false := by
    apply h.buffers id
    rw [objects_getElem?, hslot, Option.map_some, hbuf]
    rfl
  have hshows := h.observe_eq hslot (.inr hraw)
  simp only [hbuf, observe, hspilled, Option.getD_none, Owned.buffer.injEq, and_true] at hshows
  exact hshows

theorem grant_withMemory (w : World) (m : Memory) : grant (w.withMemory m) = grant w := by
  funext n
  obtain ⟨m', hm'⟩ := allocate_setMemory m w.arena n
  simp only [grant, World.withMemory, hm']

theorem run_alike (acts : List Action) (h : Separate ptr len autoSpill initPolicy w)
    (h' : Separate ptr len autoSpill initPolicy (w.withMemory m))
    (hagree : Agree initPolicy raws (objects w) (objects (w.withMemory m))) :
    ∃ v m', Lifecycle.run bc w acts = some v ∧ Lifecycle.run bc (w.withMemory m) acts = some (v.withMemory m') ∧
      Agree initPolicy (raws ++ madeRaw bc w acts) (objects v) (objects (v.withMemory m')) := by
  induction acts generalizing w m raws with
  | nil => exact ⟨w, m, rfl, rfl, by rwa [madeRaw, List.append_nil]⟩
  | cons y ys ih =>
      obtain ⟨v, hstep, hv, hprivate⟩ := h.step bc y
      obtain ⟨v', hstep', hv', hprivate'⟩ := h'.step bc y
      obtain ⟨m', hm'⟩ := step_withMemory bc y fun _ _ _ hslot hbuf => hagree.sameWritten hslot hbuf
      obtain rfl : v.withMemory m' = v' := by
        rw [hstep, hstep'] at hm'
        exact (Option.some.inj hm').symm
      rw [grant_withMemory] at hprivate'
      have hnext := hagree.step bc hprivate hprivate'
      obtain ⟨u, n, hrun, hrun', hu⟩ := ih hv hv' hnext
      refine ⟨u, n, ?_, ?_, ?_⟩
      · rw [Lifecycle.run, hstep]
        exact hrun
      · rw [Lifecycle.run, hstep']
        exact hrun'
      · have hlength (w : World) : (objects w).length = w.slots.length := List.length_map _
        rw [hlength, hlength, List.append_assoc] at hu
        rwa [madeRaw, hstep]

theorem build_withMemory (b : Builder) (ptr : Nat) (initPolicy : InitPolicy) (memory m : Memory) :
    (b.build ptr initPolicy memory).withMemory m = b.build ptr initPolicy m := by
  cases b <;> rfl

/-- What stood in the region before the arena was built decides nothing: the
same calls get the same answers and leave the same counts, slots and log. Only
a raw region under policy Uninit, or what is frozen from it, can show it. -/
theorem initial_contents_unseen (bc : BytesCrate) (b : Builder) (ptr : Nat) (initPolicy : InitPolicy)
    (memory memory' : Memory) (acts : List Action) :
    ∃ w m, Lifecycle.run bc (b.build ptr initPolicy memory) acts = some w ∧
      Lifecycle.run bc (b.build ptr initPolicy memory') acts = some { w with arena := w.arena.setMemory m } ∧
      ∀ (id : Nat) (slot : Slot), w.slots[id]? = some slot →
        initPolicy = .zero ∨ (madeRaw bc (b.build ptr initPolicy memory) acts)[id]? = some false →
        observe m slot.holder = observe w.arena.memory slot.holder := by
  have hstart := Separate.build b ptr initPolicy memory
  have hstart' := Separate.build b ptr initPolicy memory'
  have hspill : (b.arena initPolicy memory').autoSpill = (b.arena initPolicy memory).autoSpill := by
    cases b <;> rfl
  rw [← build_withMemory b ptr initPolicy memory memory', hspill] at hstart'
  have hagree : Agree initPolicy [] (objects (b.build ptr initPolicy memory))
      (objects ((b.build ptr initPolicy memory).withMemory memory')) :=
    ⟨rfl, rfl, fun _ _ _ _ h => (by cases h), fun _ _ => rfl⟩
  obtain ⟨w, m, hrun, hrun', hw⟩ := run_alike bc acts hstart hstart' hagree
  rw [build_withMemory] at hrun'
  exact ⟨w, m, hrun, hrun', fun id slot hslot hseen => hw.observe_eq hslot hseen⟩

/-- A raw region under policy Uninit does show it. -/
example : (Lifecycle.run ⟨⟨8, fun _ => 0⟩, true⟩ ((Builder.fixed 1 2 false).build 0 .uninit fun _ => 7)
    [.rawAlloc 2]).map objects = some [.region [7, 7]] := by
  decide +kernel

end StaleMemory

end ArenaAlligator
