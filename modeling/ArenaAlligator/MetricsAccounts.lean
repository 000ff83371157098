import ArenaAlligator.BuddyAccounts
import ArenaAlligator.UnitOwnership
import Mathlib.Algebra.Order.BigOperators.Group.Multiset

namespace ArenaAlligator.MetricsAccounts

open AlignedBlocks AlignedBlocks.Block BuddyArenaInner UnitOwnership Usize

variable {a c : ArenaRef} {k : AllocationKind} {live : Multiset AllocationKind} {len : Nat} {buf : Buffer}

theorem fixed_release_metrics (inner : ArenaInner) (slotIdx : Nat) :
    (inner.release slotIdx).metrics = inner.metrics.recordFree inner.slotCapacity := by
  cases h : inner.initPolicy <;> simp only [ArenaInner.release, ArenaInner.scrubOnRelease, h]

theorem allocate_ok_metrics (h : a.allocate len = (.ok buf, c)) :
    ∃ splits, c.metrics = { a.metrics with splits := splits }.recordAllocSuccess (a.block buf.allocation).2 := by
  cases ArenaRef.allocated h with
  | fixed inner slotIdx =>
      have hcapacity :=
        ArenaInner.zeroOnAllocate_slotCapacity { inner with bitmap := inner.bitmap.tryAlloc.2 } slotIdx
      have hmetrics := ArenaInner.zeroOnAllocate_metrics { inner with bitmap := inner.bitmap.tryAlloc.2 } slotIdx
      refine ⟨inner.metrics.splits, ?_⟩
      simp only [ArenaRef.metrics, ArenaInner.handOut, hmetrics, hcapacity, ArenaRef.block]
  | buddy inner t o i =>
      obtain ⟨splits, hcarved⟩ := carved_metrics inner t o i
      have hsize : (inner.carved t o i).blockSize t = inner.blockSize t := by
        simp only [blockSize, (carved_backing inner t o i).geometry]
      refine ⟨splits, ?_⟩
      rw [ArenaRef.metrics, handOut_metrics, hcarved, hsize]
      rfl

theorem allocate_error_metrics {e : AllocError} (h : (a.allocate len).1 = .error e) :
    (a.allocate len).2.metrics = a.metrics.recordAllocFailure := by
  cases a with
  | fixed inner =>
      cases hr : inner.bitmap.tryAlloc.1 with
      | none => simp only [ArenaRef.allocate, ArenaInner.allocate, hr, ArenaRef.metrics]
      | some slotIdx => simp [ArenaRef.allocate, ArenaInner.allocate, hr] at h
  | buddy inner => exact BuddyArenaInner.allocate_error_metrics h

theorem release_metrics (h : a.release k = some c) :
    ∃ coalesces, c.metrics = { a.metrics.recordFree (a.block k).2 with coalesces := coalesces } := by
  cases ArenaRef.released h with
  | fixed inner slotIdx => exact ⟨inner.metrics.coalesces, fixed_release_metrics inner slotIdx⟩
  | buddy inner order blockIdx => exact BuddyArenaInner.release_metrics inner order blockIdx

/-- The full sizes of the slots or blocks, whatever capacity was asked for. -/
def bytes (a : ArenaRef) (live : Multiset AllocationKind) : Nat := (live.map fun k => (a.block k).2).sum

theorem bytes_congr (h : c.block = a.block) (live : Multiset AllocationKind) : bytes c live = bytes a live := by
  rw [bytes, h]
  rfl

theorem bytes_cons (k : AllocationKind) (live : Multiset AllocationKind) :
    bytes a (k ::ₘ live) = (a.block k).2 + bytes a live := by
  simp [bytes]

def capacity (a : ArenaRef) : Nat := unitCount a * unitSize a

theorem card_slots_le {n : Nat} {slots : Multiset Nat} (hnodup : slots.Nodup) (h : ∀ slotIdx ∈ slots, slotIdx < n) :
    slots.card ≤ n := by
  have hsub : slots ≤ Multiset.range n :=
    (Multiset.le_iff_subset hnodup).mpr fun slotIdx hs => Multiset.mem_range.mpr (h slotIdx hs)
  simpa using Multiset.card_le_card hsub

theorem card_tiles_le {n : Nat} {m : Multiset Block} (h : Tiles n m) : m.card ≤ 2 ^ n := by
  have hle : (m.map fun _ => 1).sum ≤ (m.map fun b => 2 ^ b.order).sum :=
    Multiset.sum_map_le_sum_map _ _ fun b _ => Nat.two_pow_pos b.order
  rw [h.sum_sizes] at hle
  simpa using hle

theorem bytes_kindOf (inner : BuddyArenaInner) (blocks : Multiset Block) :
    bytes (.buddy inner) (blocks.map kindOf) = inner.geometry.minBlockSize * (blocks.map fun b => 2 ^ b.order).sum := by
  rw [← sum_blockSize, bytes, Multiset.map_map]
  rfl

theorem Kept.bytes_le (h : Kept a live) : bytes a live ≤ capacity a := by
  cases a with
  | fixed inner =>
      obtain ⟨-, slots, rfl, hnodup, hslots⟩ := h
      have hcard := card_slots_le hnodup fun slotIdx hs => (hslots slotIdx hs).1
      have hbytes : bytes (.fixed inner) (slots.map AllocationKind.fixed) = slots.card * inner.slotCapacity := by
        simp [bytes, ArenaRef.block]
      rw [hbytes]
      exact Nat.mul_le_mul_right _ hcard
  | buddy inner =>
      obtain ⟨blocks, rfl, hbal⟩ := h
      have hsum := hbal.tiles.sum_sizes
      rw [Multiset.map_add, Multiset.sum_add] at hsum
      rw [bytes_kindOf, capacity, unitCount, unitSize, blocksAtOrder, Nat.sub_zero, Nat.shiftLeft_eq, one_mul,
        Nat.mul_comm]
      exact Nat.mul_le_mul_right _ (by omega)

theorem Kept.card_le (h : Kept a live) : live.card ≤ unitCount a := by
  cases a with
  | fixed inner =>
      obtain ⟨-, slots, rfl, hnodup, hslots⟩ := h
      rw [Multiset.card_map]
      exact card_slots_le hnodup fun slotIdx hs => (hslots slotIdx hs).1
  | buddy inner =>
      obtain ⟨blocks, rfl, hbal⟩ := h
      have hcard := card_tiles_le hbal.tiles
      rw [Multiset.card_add] at hcard
      rw [Multiset.card_map, unitCount, blocksAtOrder, Nat.sub_zero, Nat.shiftLeft_eq, one_mul]
      omega

theorem units_buddy {x y : BuddyArenaInner} (h : y.geometry = x.geometry) :
    unitSize (.buddy y) = unitSize (.buddy x) ∧ capacity (.buddy y) = capacity (.buddy x) := by
  simp only [unitSize, capacity, unitCount, maxOrder, h, and_self]

theorem units_fixed {x y : ArenaInner} (hcapacity : y.slotCapacity = x.slotCapacity)
    (hcount : y.slotCount = x.slotCount) :
    unitSize (.fixed y) = unitSize (.fixed x) ∧ capacity (.fixed y) = capacity (.fixed x) := by
  simp only [unitSize, capacity, unitCount, hcapacity, hcount, and_self]

theorem allocate_units (a : ArenaRef) (len : Nat) :
    unitSize (a.allocate len).2 = unitSize a ∧ capacity (a.allocate len).2 = capacity a := by
  cases a with
  | fixed inner => exact units_fixed inner.allocate_slotCapacity inner.allocate_slotCount
  | buddy inner => exact units_buddy (allocate_geometry inner len)

theorem release_units (h : a.release k = some c) : unitSize c = unitSize a ∧ capacity c = capacity a := by
  cases ArenaRef.released h with
  | fixed inner slotIdx =>
      exact units_fixed (inner.release_slotCapacity slotIdx) (inner.release_slotCount slotIdx)
  | buddy inner order blockIdx => exact units_buddy (release_geometry inner order blockIdx)

def Levelled : ArenaRef → Nat → Prop
  | .fixed _, _ => True
  | .buddy inner, n => inner.Accounted n

theorem Levelled.allocate_error {n : Nat} {e : AllocError} (h : Levelled a n) (hkept : Kept a live)
    (he : (a.allocate len).1 = .error e) : Levelled (a.allocate len).2 n := by
  cases a with
  | fixed inner => trivial
  | buddy inner =>
      obtain ⟨blocks, -, hbal⟩ := hkept
      exact allocate_error_accounted hbal h he

theorem Levelled.allocate_ok {n : Nat} (h : Levelled a n) (hkept : Kept a live)
    (hok : a.allocate len = (.ok buf, c)) : Levelled c (n + 1) := by
  cases a with
  | fixed inner =>
      obtain ⟨-, rfl⟩ := Prod.mk.inj hok
      trivial
  | buddy inner =>
      obtain ⟨blocks, -, hbal⟩ := hkept
      obtain ⟨hbuf, rfl⟩ := Prod.mk.inj hok
      exact allocate_ok_accounted hbal h (Prod.ext hbuf rfl)

theorem Levelled.release {n : Nat} (h : Levelled a (n + 1)) (hkept : Kept a (k ::ₘ live))
    (hc : a.release k = some c) : Levelled c n := by
  cases ArenaRef.released hc with
  | fixed inner slotIdx => trivial
  | buddy inner order blockIdx =>
      obtain ⟨blocks, hlive, hbal⟩ := hkept
      obtain ⟨b, hb, hkind, -⟩ := (Multiset.map_eq_cons _ _ _ _).mpr hlive.symm
      cases hkind
      rw [← Multiset.cons_erase hb] at hbal
      exact release_accounted hbal h

/-- The counters against the allocations that are live, of made in all. -/
structure Booked (a : ArenaRef) (live : Multiset AllocationKind) (made : Nat) : Prop where
  kept : Kept a live
  unit_pos : 0 < unitSize a
  fits : capacity a ≤ usizeMax
  reserved : a.metrics.bytesReserved = capacity a
  card_le : live.card ≤ made
  allocationsOk : a.metrics.allocationsOk = made % 2 ^ usizeBits
  frees : a.metrics.frees = (made - live.card) % 2 ^ usizeBits
  bytesLive : a.metrics.bytesLive = bytes a live
  levelled : Levelled a live.card

variable {made : Nat}

theorem Kept.bytes_lt (h : Kept a live) (hfits : capacity a ≤ usizeMax) : bytes a live < 2 ^ usizeBits :=
  Nat.lt_of_le_pred (by decide) ((Kept.bytes_le h).trans hfits)

theorem Booked.allocate_error {e : AllocError} (h : Booked a live made) (he : (a.allocate len).1 = .error e) :
    Booked (a.allocate len).2 live made := by
  have hmetrics := allocate_error_metrics he
  obtain ⟨hunit, hcapacity⟩ := allocate_units a len
  constructor
  · exact h.kept.allocate_error he
  · exact hunit ▸ h.unit_pos
  · exact hcapacity ▸ h.fits
  · rw [hmetrics, hcapacity]
    exact h.reserved
  · exact h.card_le
  · rw [hmetrics]
    exact h.allocationsOk
  · rw [hmetrics]
    exact h.frees
  · rw [hmetrics, bytes_congr (a.allocate_block len)]
    exact h.bytesLive
  · exact h.levelled.allocate_error h.kept he

theorem Booked.allocate_ok (h : Booked a live made) (hok : a.allocate len = (.ok buf, c)) :
    Booked c (buf.allocation ::ₘ live) (made + 1) := by
  obtain ⟨splits, hmetrics⟩ := allocate_ok_metrics hok
  have hkept := (h.kept.allocate_ok hok).1
  obtain ⟨hunit, hcapacity⟩ := allocate_units a len
  have hblock := a.allocate_block len
  rw [hok] at hunit hcapacity hblock
  have hfits : capacity c ≤ usizeMax := hcapacity ▸ h.fits
  have hbytes := bytes_congr hblock (buf.allocation ::ₘ live)
  constructor
  · exact hkept
  · exact hunit ▸ h.unit_pos
  · exact hfits
  · rw [hmetrics, hcapacity]
    exact h.reserved
  · rw [Multiset.card_cons]
    exact Nat.succ_le_succ h.card_le
  · rw [hmetrics, ← fetchAdd_mod, ← h.allocationsOk]
    rfl
  · rw [hmetrics, Multiset.card_cons, Nat.succ_sub_succ]
    exact h.frees
  · have hlt := Kept.bytes_lt hkept hfits
    rw [hbytes, bytes_cons, Nat.add_comm] at hlt
    rw [hmetrics, hbytes, bytes_cons, Nat.add_comm, ← Nat.mod_eq_of_lt hlt, ← h.bytesLive]
    rfl
  · rw [Multiset.card_cons]
    exact h.levelled.allocate_ok h.kept hok

theorem Booked.release (h : Booked a (k ::ₘ live) made) (hc : a.release k = some c) : Booked c live made := by
  obtain ⟨coalesces, hmetrics⟩ := release_metrics hc
  obtain ⟨hunit, hcapacity⟩ := release_units hc
  have hcard := h.card_le
  have hfrees := h.frees
  rw [Multiset.card_cons] at hcard hfrees
  constructor
  · exact h.kept.release hc
  · exact hunit ▸ h.unit_pos
  · exact hcapacity ▸ h.fits
  · rw [hmetrics, hcapacity]
    exact h.reserved
  · omega
  · rw [hmetrics]
    exact h.allocationsOk
  · rw [hmetrics, show made - live.card = made - (live.card + 1) + 1 by omega, ← fetchAdd_mod, ← hfrees]
    rfl
  · have hlt := Kept.bytes_lt h.kept h.fits
    rw [bytes_cons] at hlt
    rw [hmetrics, bytes_congr (ArenaRef.block_of_release hc), ← fetchSub_add _ _ hlt, ← bytes_cons, ← h.bytesLive]
    rfl
  · have hlevel := h.levelled
    rw [Multiset.card_cons] at hlevel
    exact hlevel.release h.kept hc

theorem Booked.congr (h : Booked a live made) (hkept : Kept c live) (hblock : c.block = a.block)
    (hunit : unitSize c = unitSize a) (hcapacity : capacity c = capacity a)
    (hmetrics : c.metrics = { a.metrics with frozen := c.metrics.frozen, spills := c.metrics.spills })
    (hlevel : Levelled c live.card) : Booked c live made where
  kept := hkept
  unit_pos := hunit ▸ h.unit_pos
  fits := hcapacity ▸ h.fits
  reserved := by rw [hmetrics, hcapacity]; exact h.reserved
  card_le := h.card_le
  allocationsOk := by rw [hmetrics]; exact h.allocationsOk
  frees := by rw [hmetrics]; exact h.frees
  bytesLive := by rw [hmetrics, bytes_congr hblock]; exact h.bytesLive
  levelled := hlevel

theorem Levelled.buddy {n : Nat} {x y : BuddyArenaInner} (h : Levelled (.buddy x) n) (hkept : Kept (.buddy x) live)
    (hg : y.geometry = x.geometry) (hb : y.freeBitmaps = x.freeBitmaps) (hs : y.metrics.splits = x.metrics.splits)
    (hc : y.metrics.coalesces = x.metrics.coalesces) : Levelled (.buddy y) n := by
  obtain ⟨blocks, -, hbal⟩ := hkept
  exact Accounted.congr h hs hc (freeBlocks_of_bitmaps hbal.sound hg hb)

theorem Booked.setMemory (h : Booked a live made) (m : Memory) : Booked (a.setMemory m) live made := by
  have hkept := h.kept.setMemory m
  cases a with
  | fixed inner => exact h.congr hkept (ArenaRef.block_setMemory _ m) rfl rfl rfl trivial
  | buddy inner =>
      exact h.congr hkept (ArenaRef.block_setMemory _ m) rfl rfl rfl (h.levelled.buddy h.kept rfl rfl rfl rfl)

theorem Booked.recordSpill (h : Booked a live made) : Booked a.recordSpill live made := by
  have hkept := h.kept.recordSpill
  cases a with
  | fixed inner => exact h.congr hkept (ArenaRef.block_recordSpill _) rfl rfl rfl trivial
  | buddy inner =>
      exact h.congr hkept (ArenaRef.block_recordSpill _) rfl rfl rfl (h.levelled.buddy h.kept rfl rfl rfl rfl)

theorem Booked.recordFrozen (h : Booked a live made) : Booked a.recordFrozen live made := by
  have hkept := h.kept.recordFrozen
  cases a with
  | fixed inner => exact h.congr hkept (ArenaRef.block_recordFrozen _) rfl rfl rfl trivial
  | buddy inner =>
      exact h.congr hkept (ArenaRef.block_recordFrozen _) rfl rfl rfl (h.levelled.buddy h.kept rfl rfl rfl rfl)

end ArenaAlligator.MetricsAccounts
