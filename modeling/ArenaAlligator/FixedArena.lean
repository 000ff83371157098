import ArenaAlligator.Allocation
import ArenaAlligator.BitmapSlots

namespace ArenaAlligator

open Function AtomicBitmap

structure ArenaInner where
  slotCapacity : Nat
  slotCount : Nat
  bitmap : AtomicBitmap
  autoSpill : Bool
  initPolicy : InitPolicy
  metrics : MetricsState
  zeroedBitmap : Option AtomicBitmap
  memory : Memory

namespace ArenaInner

def build (slotCount slotCapacity : Nat) (autoSpill : Bool) (initPolicy : InitPolicy) (memory : Memory) :
    ArenaInner where
  slotCapacity := slotCapacity
  slotCount := slotCount
  bitmap := AtomicBitmap.new slotCount
  autoSpill := autoSpill
  initPolicy := initPolicy
  metrics := MetricsState.new (slotCount * slotCapacity)
  zeroedBitmap := match initPolicy with
    | .zero => some (AtomicBitmap.newEmpty slotCount)
    | .uninit => none
  memory := memory

def slotOffset (a : ArenaInner) (slotIdx : Nat) : Nat := slotIdx * a.slotCapacity

def zeroOnAllocate (a : ArenaInner) (slotIdx : Nat) : ArenaInner :=
  match a.initPolicy, a.zeroedBitmap with
  | .zero, some zeroedBm =>
      if zeroedBm.allSetInRange slotIdx (slotIdx + 1) then a
      else { a with memory := zeroizeRegion a.memory (a.slotOffset slotIdx) a.slotCapacity }
  | _, _ => a

def handOut (a : ArenaInner) (slotIdx : Nat) : Buffer × ArenaInner :=
  let a := a.zeroOnAllocate slotIdx
  ({ allocation := .fixed slotIdx
     autoSpill := a.autoSpill
     offset := a.slotOffset slotIdx
     capacity := a.slotCapacity },
    { a with metrics := a.metrics.recordAllocSuccess a.slotCapacity })

def allocate (a : ArenaInner) : Except AllocError Buffer × ArenaInner :=
  let r := a.bitmap.tryAlloc
  let a := { a with bitmap := r.2 }
  match r.1 with
  | none => (.error .arenaFull, { a with metrics := a.metrics.recordAllocFailure })
  | some slotIdx =>
      let t := a.handOut slotIdx
      (.ok t.1, t.2)

def scrubOnRelease (a : ArenaInner) (slotIdx : Nat) : ArenaInner :=
  match a.initPolicy with
  | .zero => { a with
      memory := zeroizeRegion a.memory (a.slotOffset slotIdx) a.slotCapacity
      zeroedBitmap := a.zeroedBitmap.map fun zeroedBm => zeroedBm.setRange slotIdx (slotIdx + 1) }
  | .uninit => a

/-- The fixed arm of ArenaRef::release, up to the call of the wake handle. -/
def release (a : ArenaInner) (slotIdx : Nat) : ArenaInner :=
  let a := a.scrubOnRelease slotIdx
  { a with
    bitmap := a.bitmap.free slotIdx
    metrics := a.metrics.recordFree a.slotCapacity }

variable {a : ArenaInner}

theorem zeroOnAllocate_bitmap (a : ArenaInner) (slotIdx : Nat) : (a.zeroOnAllocate slotIdx).bitmap = a.bitmap := by
  rw [zeroOnAllocate]
  split
  · split <;> rfl
  · rfl

theorem zeroOnAllocate_metrics (a : ArenaInner) (slotIdx : Nat) : (a.zeroOnAllocate slotIdx).metrics = a.metrics := by
  rw [zeroOnAllocate]
  split
  · split <;> rfl
  · rfl

theorem scrubOnRelease_bitmap (a : ArenaInner) (slotIdx : Nat) : (a.scrubOnRelease slotIdx).bitmap = a.bitmap := by
  rw [scrubOnRelease]
  split <;> rfl

theorem scrubOnRelease_size (a : ArenaInner) (slotIdx : Nat) :
    (a.scrubOnRelease slotIdx).slotCapacity = a.slotCapacity ∧ (a.scrubOnRelease slotIdx).slotCount = a.slotCount := by
  rw [scrubOnRelease]
  split <;> exact ⟨rfl, rfl⟩

theorem scrubOnRelease_metrics (a : ArenaInner) (slotIdx : Nat) : (a.scrubOnRelease slotIdx).metrics = a.metrics := by
  rw [scrubOnRelease]
  split <;> rfl

theorem release_bitmap (a : ArenaInner) (slotIdx : Nat) : (a.release slotIdx).bitmap = a.bitmap.free slotIdx := by
  change (a.scrubOnRelease slotIdx).bitmap.free slotIdx = _
  rw [scrubOnRelease_bitmap]

theorem allocate_bitmap (a : ArenaInner) : a.allocate.2.bitmap = a.bitmap.tryAlloc.2 := by
  rw [allocate]
  cases a.bitmap.tryAlloc.1 with
  | none => rfl
  | some slotIdx =>
      change (zeroOnAllocate _ slotIdx).bitmap = _
      rw [zeroOnAllocate_bitmap]

theorem allocate_of_some {slotIdx : Nat} (h : a.bitmap.tryAlloc.1 = some slotIdx) :
    a.allocate = (.ok (handOut { a with bitmap := a.bitmap.tryAlloc.2 } slotIdx).1,
      (handOut { a with bitmap := a.bitmap.tryAlloc.2 } slotIdx).2) := by
  simp only [allocate, h]

theorem zeroOnAllocate_eq {z : AtomicBitmap} (hp : a.initPolicy = .zero) (hz : a.zeroedBitmap = some z)
    (slotIdx : Nat) :
    a.zeroOnAllocate slotIdx = { a with
      memory := if z.allSetInRange slotIdx (slotIdx + 1) then a.memory
        else zeroizeRegion a.memory (a.slotOffset slotIdx) a.slotCapacity } := by
  unfold zeroOnAllocate
  split
  next y _ hy =>
    cases hz.symm.trans hy
    split <;> rfl
  next hne => exact absurd hz (hne z hp)

theorem scrubOnRelease_eq {z : AtomicBitmap} (hp : a.initPolicy = .zero) (hz : a.zeroedBitmap = some z)
    (slotIdx : Nat) :
    a.scrubOnRelease slotIdx = { a with
      memory := zeroizeRegion a.memory (a.slotOffset slotIdx) a.slotCapacity
      zeroedBitmap := some (z.setRange slotIdx (slotIdx + 1)) } := by
  unfold scrubOnRelease
  split
  next => rw [hz, Option.map_some]
  next hu => cases hp.symm.trans hu

theorem zeroOnAllocate_slotCapacity (a : ArenaInner) (slotIdx : Nat) :
    (a.zeroOnAllocate slotIdx).slotCapacity = a.slotCapacity := by
  unfold zeroOnAllocate
  split
  · split <;> rfl
  · rfl

theorem allocate_slotCapacity (a : ArenaInner) : a.allocate.2.slotCapacity = a.slotCapacity := by
  cases h : a.bitmap.tryAlloc.1 with
  | none => simp only [allocate, h]
  | some slotIdx =>
      rw [allocate_of_some h]
      exact zeroOnAllocate_slotCapacity _ _

theorem release_slotCapacity (a : ArenaInner) (slotIdx : Nat) : (a.release slotIdx).slotCapacity = a.slotCapacity := by
  cases h : a.initPolicy <;> simp only [release, scrubOnRelease, h]

theorem allocate_cases (ha : a.bitmap.PaddingClear) :
    (∃ buf slotIdx, a.allocate.1 = .ok buf ∧ buf.allocation = .fixed slotIdx ∧ a.bitmap.bit slotIdx = true ∧
      a.allocate.2.bitmap.bit = update a.bitmap.bit slotIdx false) ∨
    (a.allocate.1 = .error .arenaFull ∧ (∀ slotIdx, a.bitmap.bit slotIdx = false) ∧
      a.allocate.2.bitmap.bit = a.bitmap.bit) := by
  have hc := a.bitmap.tryAlloc_claimed
  rw [allocate_bitmap]
  cases hr : a.bitmap.tryAlloc.1 with
  | none =>
      refine Or.inr ⟨?_, tryAlloc_none ha hr, hc.none_spec hr⟩
      simp [allocate, hr]
  | some slotIdx =>
      obtain ⟨hfree, hbit⟩ := hc.some_spec slotIdx hr
      refine Or.inl ⟨(handOut { a with bitmap := a.bitmap.tryAlloc.2 } slotIdx).1, slotIdx, ?_, rfl, hfree, hbit⟩
      simp [allocate, hr]

structure Sound (a : ArenaInner) : Prop where
  slotCount : a.bitmap.slotCount = a.slotCount
  paddingClear : a.bitmap.PaddingClear

theorem zeroOnAllocate_slotCount (a : ArenaInner) (slotIdx : Nat) :
    (a.zeroOnAllocate slotIdx).slotCount = a.slotCount := by
  rw [zeroOnAllocate]
  split
  · split <;> rfl
  · rfl

theorem allocate_slotCount (a : ArenaInner) : a.allocate.2.slotCount = a.slotCount := by
  rw [allocate]
  cases a.bitmap.tryAlloc.1 with
  | none => rfl
  | some slotIdx =>
      change (zeroOnAllocate _ slotIdx).slotCount = _
      rw [zeroOnAllocate_slotCount]

theorem allocate_sound (ha : a.Sound) : a.allocate.2.Sound := by
  have hc := a.bitmap.tryAlloc_claimed
  refine ⟨?_, ?_⟩
  · rw [allocate_bitmap, allocate_slotCount, hc.shape.slotCount, ha.slotCount]
  · rw [allocate_bitmap]
    exact hc.paddingClear ha.paddingClear

theorem release_slotCount (a : ArenaInner) (slotIdx : Nat) : (a.release slotIdx).slotCount = a.slotCount := by
  change (a.scrubOnRelease slotIdx).slotCount = _
  rw [scrubOnRelease]
  split <;> rfl

theorem release_bit (ha : a.Sound) {slotIdx : Nat} (h : slotIdx < a.slotCount) :
    (a.release slotIdx).bitmap.bit = update a.bitmap.bit slotIdx true := by
  rw [release_bitmap]
  exact free_bit a.bitmap (ha.slotCount.symm ▸ h)

theorem release_sound (ha : a.Sound) {slotIdx : Nat} (h : slotIdx < a.slotCount) : (a.release slotIdx).Sound := by
  have hs := free_shape a.bitmap slotIdx
  refine ⟨?_, ?_⟩
  · rw [release_bitmap, release_slotCount, hs.slotCount, ha.slotCount]
  · rw [release_bitmap]
    exact update_paddingClear ha.paddingClear hs (fun _ => ha.slotCount.symm ▸ h)
      (free_bit a.bitmap (ha.slotCount.symm ▸ h))

theorem build_sound (slotCount slotCapacity : Nat) (autoSpill : Bool) (initPolicy : InitPolicy) (memory : Memory) :
    (build slotCount slotCapacity autoSpill initPolicy memory).Sound :=
  ⟨rfl, new_paddingClear slotCount⟩

theorem freeSlots_allocate (ha : a.Sound) :
    freeSlots a.bitmap = ∅ ∧ freeSlots a.allocate.2.bitmap = ∅ ∧ a.allocate.1 = .error .arenaFull ∨
    (∃ buf, a.allocate.1 = .ok buf) ∧ (freeSlots a.allocate.2.bitmap).card + 1 = (freeSlots a.bitmap).card := by
  have hshape : SameShape a.bitmap a.allocate.2.bitmap := by
    rw [allocate_bitmap]
    exact a.bitmap.tryAlloc_claimed.shape
  rcases allocate_cases ha.paddingClear with ⟨buf, slotIdx, hok, -, hfree, hbit⟩ | ⟨herr, hfull, hbit⟩
  · refine Or.inr ⟨⟨buf, hok⟩, ?_⟩
    rw [freeSlots_erase hshape hbit, Finset.card_erase_add_one ((mem_freeSlots ha.paddingClear).mpr hfree)]
  · have hempty : freeSlots a.bitmap = ∅ := by
      rw [Finset.eq_empty_iff_forall_notMem]
      intro x hx
      rw [mem_freeSlots ha.paddingClear, hfull x] at hx
      cases hx
    exact Or.inl ⟨hempty, (freeSlots_congr hshape hbit).trans hempty, herr⟩

theorem freeSlots_release (ha : a.Sound) {slotIdx : Nat} (h : slotIdx < a.slotCount) :
    (freeSlots (a.release slotIdx).bitmap).card ≤ (freeSlots a.bitmap).card + 1 := by
  have hlt : slotIdx < a.bitmap.slotCount := ha.slotCount.symm ▸ h
  rw [release_bitmap, freeSlots_insert (free_shape a.bitmap slotIdx) hlt (free_bit a.bitmap hlt)]
  exact Finset.card_insert_le slotIdx (freeSlots a.bitmap)

end ArenaInner

end ArenaAlligator
