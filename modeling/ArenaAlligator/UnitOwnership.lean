import ArenaAlligator.ArenaRef
import ArenaAlligator.BuddyRuns

namespace ArenaAlligator.UnitOwnership

open Function AlignedBlocks AlignedBlocks.Block AtomicBitmap BuddyArenaInner

/-- The units of an arena are the slots of a fixed one and the blocks of order
0 of a buddy one. -/
def unitSize : ArenaRef → Nat
  | .fixed inner => inner.slotCapacity
  | .buddy inner => inner.geometry.minBlockSize

def unitCount : ArenaRef → Nat
  | .fixed inner => inner.slotCount
  | .buddy inner => blocksAtOrder inner.maxOrder 0

def span : AllocationKind → Nat × Nat
  | .fixed slotIdx => (slotIdx, slotIdx + 1)
  | .buddy order blockIdx => (order0Start order blockIdx, order0End order blockIdx)

def FreeUnit : ArenaRef → Nat → Prop
  | .fixed inner, u => inner.bitmap.isFree u = true
  | .buddy inner, u => ∃ order blockIdx, inner.isBlockFree order blockIdx = true ∧
      (span (.buddy order blockIdx)).1 ≤ u ∧ u < (span (.buddy order blockIdx)).2

def OwnedBy (live : Multiset AllocationKind) (u : Nat) : Prop := ∃ k ∈ live, (span k).1 ≤ u ∧ u < (span k).2

def kindOf (b : Block) : AllocationKind := .buddy b.order b.index

/-- The allocations in the bag are the arena's, and no two share a unit with
each other or with what is free. -/
def Kept : ArenaRef → Multiset AllocationKind → Prop
  | .fixed inner, live => inner.Sound ∧ ∃ slots : Multiset Nat, live = slots.map AllocationKind.fixed ∧ slots.Nodup ∧
      ∀ slotIdx ∈ slots, slotIdx < inner.slotCount ∧ inner.bitmap.bit slotIdx = false
  | .buddy inner, live => ∃ blocks : Multiset Block, live = blocks.map kindOf ∧ inner.Balanced inner.geometry blocks

theorem mem_span_iff (b : Block) (u : Nat) : (span (kindOf b)).1 ≤ u ∧ u < (span (kindOf b)).2 ↔ u ∈ b.units := by
  rw [mem_units, Nat.div_eq_iff (Nat.two_pow_pos _)]
  simp only [span, kindOf, order0Start, order0End, Nat.shiftLeft_eq, one_mul]
  have := Nat.two_pow_pos b.order
  omega

theorem ownedBy_map_kindOf (blocks : Multiset Block) (u : Nat) : OwnedBy (blocks.map kindOf) u ↔ u ∈ cover blocks := by
  rw [mem_cover, OwnedBy]
  constructor
  · rintro ⟨k, hk, hu⟩
    obtain ⟨b, hb, rfl⟩ := Multiset.mem_map.mp hk
    exact ⟨b, hb, (mem_span_iff b u).mp hu⟩
  · rintro ⟨b, hb, hu⟩
    exact ⟨kindOf b, Multiset.mem_map_of_mem kindOf hb, (mem_span_iff b u).mpr hu⟩

theorem ownedBy_cons {k : AllocationKind} {live : Multiset AllocationKind} {u : Nat} :
    OwnedBy (k ::ₘ live) u ↔ ((span k).1 ≤ u ∧ u < (span k).2) ∨ OwnedBy live u := by
  simp [OwnedBy]

variable {a c : ArenaRef} {k : AllocationKind} {live : Multiset AllocationKind}

theorem block_eq_span (h : a.Serves k) :
    a.block k = ((span k).1 * unitSize a, ((span k).2 - (span k).1) * unitSize a) := by
  cases a with
  | fixed inner =>
      cases k with
      | fixed slotIdx => simp [ArenaRef.block, span, unitSize, ArenaInner.slotOffset]
      | buddy order blockIdx => exact h.elim
  | buddy inner =>
      cases k with
      | fixed slotIdx => exact h.elim
      | buddy order blockIdx =>
          simp only [ArenaRef.block, span, unitSize, order0Start, order0End, blockOffset, blockSize, Nat.shiftLeft_eq,
            one_mul, Nat.add_sub_cancel_left, Prod.mk.injEq]
          constructor
          · ring
          · ring

theorem Kept.span_le (h : Kept a live) (hk : k ∈ live) :
    a.Serves k ∧ (span k).1 < (span k).2 ∧ (span k).2 ≤ unitCount a := by
  cases a with
  | fixed inner =>
      obtain ⟨-, slots, rfl, -, hslots⟩ := h
      obtain ⟨slotIdx, hs, rfl⟩ := Multiset.mem_map.mp hk
      exact ⟨trivial, Nat.lt_succ_self _, (hslots slotIdx hs).1⟩
  | buddy inner =>
      obtain ⟨blocks, rfl, hbal⟩ := h
      obtain ⟨b, hb, rfl⟩ := Multiset.mem_map.mp hk
      have hin : b.Inside inner.maxOrder := hbal.tiles.inside (Multiset.mem_add.mpr (Or.inr hb))
      have hpos := Nat.two_pow_pos b.order
      have hlast : b.index * 2 ^ b.order + 2 ^ b.order - 1 ∈ b.units := by
        rw [← mem_span_iff]
        simp only [span, kindOf, order0Start, order0End, Nat.shiftLeft_eq, one_mul]
        omega
      have hlt := unit_lt_of_inside hin hlast
      refine ⟨trivial, ?_, ?_⟩
      · simp only [span, kindOf, order0Start, order0End, Nat.shiftLeft_eq, one_mul]
        omega
      · simp only [span, kindOf, order0Start, order0End, unitCount, blocksAtOrder, Nat.shiftLeft_eq, one_mul,
          Nat.sub_zero]
        omega

theorem Kept.not_ownedBy_of_free (h : Kept a live) {u : Nat} (hu : FreeUnit a u) : ¬OwnedBy live u := by
  cases a with
  | fixed inner =>
      obtain ⟨-, slots, rfl, -, hslots⟩ := h
      rintro ⟨k, hk, hlo, hhi⟩
      obtain ⟨slotIdx, hs, rfl⟩ := Multiset.mem_map.mp hk
      obtain rfl : u = slotIdx := Nat.le_antisymm (Nat.le_of_lt_succ hhi) hlo
      rw [FreeUnit, isFree_eq_bit, (hslots u hs).2] at hu
      cases hu
  | buddy inner =>
      obtain ⟨blocks, rfl, hbal⟩ := h
      obtain ⟨o, i, hfree, hspan⟩ := hu
      rw [ownedBy_map_kindOf]
      intro hcover
      have hmem : (⟨o, i⟩ : Block) ∈ inner.freeBlocks := by
        rw [mem_freeBlocks hbal.sound, ← isBlockFree_eq]
        exact hfree
      have hnodup := hbal.tiles.nodup
      rw [cover_add, Multiset.nodup_add] at hnodup
      refine Multiset.disjoint_left.mp hnodup.2.2 (mem_cover.mpr ⟨⟨o, i⟩, hmem, ?_⟩) hcover
      exact (mem_span_iff ⟨o, i⟩ u).mp hspan

theorem Kept.allocate_error (h : Kept a live) {len : Nat} {e : AllocError} (he : (a.allocate len).1 = .error e) :
    Kept (a.allocate len).2 live := by
  cases a with
  | fixed inner =>
      obtain ⟨hsound, slots, hlive, hnodup, hslots⟩ := h
      rcases ArenaInner.allocate_cases hsound.paddingClear with ⟨buf, _, hok, -⟩ | ⟨-, -, hbit⟩
      · rw [ArenaRef.allocate, hok] at he
        cases he
      · refine ⟨ArenaInner.allocate_sound hsound, slots, hlive, hnodup, fun slotIdx hs => ?_⟩
        rw [ArenaInner.allocate_slotCount, hbit]
        exact hslots slotIdx hs
  | buddy inner =>
      obtain ⟨blocks, hlive, hbal⟩ := h
      refine ⟨blocks, hlive, ?_⟩
      rw [allocate_geometry]
      exact (BuddyRuns.allocate_balanced hbal len).2 e he

theorem Kept.allocate_ok (h : Kept a live) {len : Nat} {buf : Buffer} (hbuf : a.allocate len = (.ok buf, c)) :
    Kept c (buf.allocation ::ₘ live) ∧
      ∀ u, (span buf.allocation).1 ≤ u → u < (span buf.allocation).2 → ¬OwnedBy live u := by
  cases a with
  | fixed inner =>
      obtain ⟨hsound, slots, rfl, hnodup, hslots⟩ := h
      obtain ⟨hok, hc⟩ := Prod.mk.inj hbuf
      rcases ArenaInner.allocate_cases hsound.paddingClear with ⟨buf', slotIdx, hok', halloc, hfree, hbit⟩ | ⟨herr, -⟩
      · rw [hok'] at hok
        cases hok
        cases hc
        have hnew : slotIdx ∉ slots := by
          intro hs
          rw [(hslots slotIdx hs).2] at hfree
          cases hfree
        have hlt : slotIdx < inner.slotCount := hsound.slotCount ▸ hsound.paddingClear slotIdx hfree
        rw [halloc]
        refine ⟨⟨ArenaInner.allocate_sound hsound, slotIdx ::ₘ slots, by simp, by simp [hnew, hnodup], ?_⟩, ?_⟩
        · intro s hs
          rw [ArenaInner.allocate_slotCount, hbit]
          rcases Multiset.mem_cons.mp hs with rfl | hs
          · exact ⟨hlt, update_self _ _ _⟩
          · have hne : s ≠ slotIdx := fun he => hnew (he ▸ hs)
            rw [update_of_ne hne]
            exact hslots s hs
        · intro u hlo hhi
          obtain rfl : u = slotIdx := Nat.le_antisymm (Nat.le_of_lt_succ hhi) hlo
          exact Kept.not_ownedBy_of_free (a := .fixed inner) ⟨hsound, slots, rfl, hnodup, hslots⟩
            ((isFree_eq_bit _ _).trans hfree)
      · rw [herr] at hok
        cases hok
  | buddy inner =>
      obtain ⟨blocks, rfl, hbal⟩ := h
      obtain ⟨hok, hc⟩ := Prod.mk.inj hbuf
      cases hc
      obtain ⟨b, hb, hbal'⟩ := (BuddyRuns.allocate_balanced hbal len).1 buf hok
      have hkind : buf.allocation = kindOf b := by
        cases halloc : buf.allocation with
        | fixed slotIdx => simp [BuddyRuns.blockOf, halloc] at hb
        | buddy order blockIdx =>
            simp only [BuddyRuns.blockOf, halloc, Option.some.injEq] at hb
            rw [← hb]
            rfl
      rw [hkind]
      refine ⟨⟨b ::ₘ blocks, by simp, ?_⟩, fun u hlo hhi => ?_⟩
      · rw [allocate_geometry]
        exact hbal'
      · rw [ownedBy_map_kindOf]
        intro hcover
        have hnodup := hbal'.tiles.nodup
        rw [cover_add, Multiset.nodup_add, cover_cons, Multiset.nodup_add] at hnodup
        exact Multiset.disjoint_left.mp hnodup.2.1.2.2 ((mem_span_iff b u).mp ⟨hlo, hhi⟩) hcover

theorem Kept.release (h : Kept a (k ::ₘ live)) (hc : a.release k = some c) : Kept c live := by
  cases ArenaRef.released hc with
  | fixed inner slotIdx =>
      obtain ⟨hsound, slots, hlive, hnodup, hslots⟩ := h
      obtain ⟨s, hs, hkind, hrest⟩ := (Multiset.map_eq_cons _ _ _ _).mpr hlive.symm
      cases hkind
      have hlt := (hslots slotIdx hs).1
      refine ⟨ArenaInner.release_sound hsound hlt, slots.erase slotIdx, hrest.symm, hnodup.erase slotIdx, ?_⟩
      intro t ht
      obtain ⟨hne, ht⟩ := hnodup.mem_erase_iff.mp ht
      rw [ArenaInner.release_slotCount, ArenaInner.release_bit hsound hlt, update_of_ne hne]
      exact hslots t ht
  | buddy inner order blockIdx =>
      obtain ⟨blocks, hlive, hbal⟩ := h
      obtain ⟨b, hb, hkind, hrest⟩ := (Multiset.map_eq_cons _ _ _ _).mpr hlive.symm
      cases hkind
      refine ⟨blocks.erase b, hrest.symm, ?_⟩
      rw [release_geometry]
      rw [← Multiset.cons_erase hb] at hbal
      exact BuddyRuns.release_balanced hbal

theorem kept_fixed {x y : ArenaInner} (h : Kept (.fixed x) live) (hb : y.bitmap = x.bitmap)
    (hs : y.slotCount = x.slotCount) : Kept (.fixed y) live := by
  obtain ⟨hsound, hslots⟩ := h
  refine ⟨⟨by rw [hb, hs, hsound.slotCount], by rw [hb]; exact hsound.paddingClear⟩, ?_⟩
  rw [hb, hs]
  exact hslots

theorem kept_buddy {x y : BuddyArenaInner} (h : Kept (.buddy x) live) (hg : y.geometry = x.geometry)
    (hf : y.freeBitmaps = x.freeBitmaps) (hs : y.nonemptyOrders = x.nonemptyOrders) : Kept (.buddy y) live := by
  obtain ⟨blocks, hlive, hbal⟩ := h
  exact ⟨blocks, hlive, hg ▸ hbal.congr hg hf hs⟩

theorem Kept.setMemory (h : Kept a live) (m : Memory) : Kept (a.setMemory m) live := by
  cases a with
  | fixed inner => exact kept_fixed h rfl rfl
  | buddy inner => exact kept_buddy h rfl rfl rfl

theorem Kept.recordSpill (h : Kept a live) : Kept a.recordSpill live := by
  cases a with
  | fixed inner => exact kept_fixed h rfl rfl
  | buddy inner => exact kept_buddy h rfl rfl rfl

theorem Kept.recordFrozen (h : Kept a live) : Kept a.recordFrozen live := by
  cases a with
  | fixed inner => exact kept_fixed h rfl rfl
  | buddy inner => exact kept_buddy h rfl rfl rfl

end ArenaAlligator.UnitOwnership
