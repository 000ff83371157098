import ArenaAlligator.BitmapSlots
import ArenaAlligator.BuddyArena
import ArenaAlligator.AlignedBlocks
import Mathlib.Algebra.BigOperators.Ring.Multiset

namespace ArenaAlligator.BuddyArenaInner

open Function AlignedBlocks WordBits AtomicBitmap

def freeBit (a : BuddyArenaInner) (b : Block) : Bool := (a.bitmap b.order).bit b.index

/-- The bitmaps have the sizes they were built with, no padding bit is set,
and no debug assertion of theirs has failed. -/
structure Sound (a : BuddyArenaInner) : Prop where
  length : a.freeBitmaps.length = a.maxOrder + 1
  slotCount : ∀ o ≤ a.maxOrder, (a.bitmap o).slotCount = 2 ^ (a.maxOrder - o)
  padding : ∀ o, (a.bitmap o).PaddingClear
  asserts : ∀ o, (a.bitmap o).asserts = true

theorem isBlockFree_eq (a : BuddyArenaInner) (o i : Nat) : a.isBlockFree o i = a.freeBit ⟨o, i⟩ :=
  isFree_eq_bit _ _

theorem bitmap_setBitmap {a : BuddyArenaInner} (ha : a.Sound) {o : Nat} (ho : o ≤ a.maxOrder)
    (b : AtomicBitmap) (o' : Nat) : (a.setBitmap o b).bitmap o' = if o' = o then b else a.bitmap o' := by
  simp only [bitmap, setBitmap, List.getD_eq_getElem?_getD, List.getElem?_set, ha.length]
  by_cases h : o = o'
  · subst h
    simp [Nat.lt_succ_of_le ho]
  · simp [h, Ne.symm h]

theorem bitmap_of_gt {a : BuddyArenaInner} (ha : a.Sound) {o : Nat} (ho : a.maxOrder < o) :
    a.bitmap o = newEmpty 0 := by
  rw [bitmap, List.getD_eq_default _ _ (by rw [ha.length]; exact ho)]

theorem slot_lt {a : BuddyArenaInner} (ha : a.Sound) {b : Block} (hb : b.Inside a.maxOrder) :
    b.index < (a.bitmap b.order).slotCount := by
  rw [ha.slotCount _ hb.1]
  exact hb.2

theorem inside_of_freeBit {a : BuddyArenaInner} (ha : a.Sound) {b : Block} (hb : a.freeBit b = true) :
    b.Inside a.maxOrder := by
  have hlt := ha.padding b.order b.index hb
  rcases Nat.lt_or_ge a.maxOrder b.order with h | h
  · rw [freeBit, bitmap_of_gt ha h, newEmpty_bit] at hb
    exact absurd hb (by decide)
  · rw [ha.slotCount _ h] at hlt
    exact ⟨h, hlt⟩

theorem Sound.setBitmap {a : BuddyArenaInner} (ha : a.Sound) {o : Nat} (ho : o ≤ a.maxOrder)
    {b : AtomicBitmap} (hs : SameShape (a.bitmap o) b) (hp : b.PaddingClear) (hb : b.asserts = true) :
    (a.setBitmap o b).Sound where
  length := by simp only [BuddyArenaInner.setBitmap, List.length_set]; exact ha.length
  slotCount := by
    intro o' ho'
    rw [bitmap_setBitmap ha ho]
    split
    next h => rw [hs.slotCount, ha.slotCount o ho, h]; rfl
    next => exact ha.slotCount o' ho'
  padding := by
    intro o'
    rw [bitmap_setBitmap ha ho]
    split
    · exact hp
    · exact ha.padding o'
  asserts := by
    intro o'
    rw [bitmap_setBitmap ha ho]
    split
    · exact hb
    · exact ha.asserts o'

theorem setBitmap_freeBit {a : BuddyArenaInner} (ha : a.Sound) {o i : Nat} (ho : o ≤ a.maxOrder)
    {b : AtomicBitmap} {v : Bool} (hb : b.bit = update (a.bitmap o).bit i v) :
    (a.setBitmap o b).freeBit = update a.freeBit ⟨o, i⟩ v := by
  funext c
  rw [freeBit, bitmap_setBitmap ha ho]
  by_cases hc : c.order = o
  · rw [if_pos hc, hb]
    by_cases hi : c.index = i
    · have : c = ⟨o, i⟩ := by rw [← hc, ← hi]
      subst this
      simp
    · have hne : c ≠ ⟨o, i⟩ := fun he => hi (congrArg Block.index he)
      rw [update_of_ne hi, update_of_ne hne, freeBit, hc]
  · have hne : c ≠ ⟨o, i⟩ := fun he => hc (congrArg Block.order he)
    rw [if_neg hc, update_of_ne hne, freeBit]

theorem setBitmap_freeBit_same {a : BuddyArenaInner} (ha : a.Sound) {o : Nat} (ho : o ≤ a.maxOrder)
    {b : AtomicBitmap} (hb : b.bit = (a.bitmap o).bit) : (a.setBitmap o b).freeBit = a.freeBit := by
  funext c
  rw [freeBit, bitmap_setBitmap ha ho]
  by_cases hc : c.order = o
  · rw [if_pos hc, hb, freeBit, hc]
  · rw [if_neg hc, freeBit]

theorem freeBlock_sound {a : BuddyArenaInner} (ha : a.Sound) {o i : Nat} (hb : Block.Inside a.maxOrder ⟨o, i⟩)
    (hf : a.freeBit ⟨o, i⟩ = false) : (a.freeBlock o i).Sound := by
  have hlt := slot_lt ha hb
  have hbit := free_bit (a.bitmap o) hlt
  refine ha.setBitmap hb.1 (free_shape _ _) ?_ ?_
  · exact update_paddingClear (ha.padding o) (free_shape _ _) (fun _ => hlt) hbit
  · rw [free_asserts _ hlt hf]
    exact ha.asserts o

theorem freeBlock_freeBit {a : BuddyArenaInner} (ha : a.Sound) {o i : Nat} (hb : Block.Inside a.maxOrder ⟨o, i⟩) :
    (a.freeBlock o i).freeBit = update a.freeBit ⟨o, i⟩ true :=
  setBitmap_freeBit ha hb.1 (free_bit _ (slot_lt ha hb))

def claimExact (a : BuddyArenaInner) (o i : Nat) : BuddyArenaInner :=
  a.setBitmap o ((a.bitmap o).tryClaimExact i).2

theorem claimExact_sound {a : BuddyArenaInner} (ha : a.Sound) {o i : Nat} (hb : Block.Inside a.maxOrder ⟨o, i⟩) :
    (a.claimExact o i).Sound := by
  have hlt := slot_lt ha hb
  have hbit := tryClaimExact_bit (a.bitmap o) hlt
  refine ha.setBitmap hb.1 (tryClaimExact_shape _ _) ?_ ?_
  · exact update_paddingClear (ha.padding o) (tryClaimExact_shape _ _) (by simp) hbit
  · rw [tryClaimExact_asserts _ hlt]
    exact ha.asserts o

theorem claimExact_freeBit {a : BuddyArenaInner} (ha : a.Sound) {o i : Nat}
    (hb : Block.Inside a.maxOrder ⟨o, i⟩) : (a.claimExact o i).freeBit = update a.freeBit ⟨o, i⟩ false :=
  setBitmap_freeBit ha hb.1 (tryClaimExact_bit _ (slot_lt ha hb))

theorem setBitmap_of_gt {a : BuddyArenaInner} (ha : a.Sound) {o : Nat} (ho : a.maxOrder < o) (b : AtomicBitmap) :
    a.setBitmap o b = a := by
  rw [setBitmap, List.set_eq_of_length_le (by rw [ha.length]; exact ho)]

section Claimed

variable {a : BuddyArenaInner} (ha : a.Sound) {o : Nat} {r : Option Nat × AtomicBitmap}
  (hc : Claimed (a.bitmap o) r)

include ha hc

theorem setBitmap_claimed_sound : (a.setBitmap o r.2).Sound := by
  rcases Nat.lt_or_ge a.maxOrder o with ho | ho
  · rw [setBitmap_of_gt ha ho]
    exact ha
  · exact ha.setBitmap ho hc.shape (hc.paddingClear (ha.padding o)) (hc.asserts.trans (ha.asserts o))

theorem setBitmap_claimed_some {i : Nat} (hr : r.1 = some i) :
    a.freeBit ⟨o, i⟩ = true ∧ (a.setBitmap o r.2).freeBit = update a.freeBit ⟨o, i⟩ false := by
  obtain ⟨hset, hbit⟩ := hc.some_spec i hr
  exact ⟨hset, setBitmap_freeBit ha (inside_of_freeBit ha (b := ⟨o, i⟩) hset).1 hbit⟩

theorem setBitmap_claimed_none (hr : r.1 = none) : (a.setBitmap o r.2).freeBit = a.freeBit := by
  rcases Nat.lt_or_ge a.maxOrder o with ho | ho
  · rw [setBitmap_of_gt ha ho]
  · exact setBitmap_freeBit_same ha ho (hc.none_spec hr)

end Claimed

theorem Sound.congr {a c : BuddyArenaInner} (ha : a.Sound) (hg : c.geometry = a.geometry)
    (hb : c.freeBitmaps = a.freeBitmaps) : c.Sound := by
  have hm : c.maxOrder = a.maxOrder := congrArg BuddyGeometry.maxOrder hg
  have hbm (o : Nat) : c.bitmap o = a.bitmap o := by rw [bitmap, hb]; rfl
  exact ⟨by rw [hb, hm]; exact ha.length, fun o ho => by rw [hbm, hm]; exact ha.slotCount o (hm ▸ ho),
    fun o => by rw [hbm]; exact ha.padding o, fun o => by rw [hbm]; exact ha.asserts o⟩

def allBlocks (n : Nat) : Finset Block :=
  (Finset.range (n + 1)).biUnion fun o => (Finset.range (2 ^ (n - o))).image (Block.mk o)

theorem mem_allBlocks {n : Nat} {b : Block} : b ∈ allBlocks n ↔ b.Inside n := by
  simp only [allBlocks, Finset.mem_biUnion, Finset.mem_range, Finset.mem_image, Block.Inside]
  constructor
  · rintro ⟨o, ho, i, hi, rfl⟩
    exact ⟨Nat.le_of_lt_succ ho, hi⟩
  · rintro ⟨ho, hi⟩
    exact ⟨b.order, Nat.lt_succ_of_le ho, b.index, hi, rfl⟩

def freeBlocks (a : BuddyArenaInner) : Finset Block := (allBlocks a.maxOrder).filter fun b => a.freeBit b

theorem mem_freeBlocks {a : BuddyArenaInner} (ha : a.Sound) {b : Block} :
    b ∈ a.freeBlocks ↔ a.freeBit b = true := by
  rw [freeBlocks, Finset.mem_filter, mem_allBlocks]
  exact ⟨fun h => h.2, fun h => ⟨inside_of_freeBit ha h, h⟩⟩

theorem freeBlocks_insert {a c : BuddyArenaInner} (ha : a.Sound) (hc : c.Sound) {b : Block}
    (h : c.freeBit = update a.freeBit b true) : c.freeBlocks = insert b a.freeBlocks := by
  ext d
  rw [Finset.mem_insert, mem_freeBlocks hc, mem_freeBlocks ha, h]
  by_cases hd : d = b
  · subst hd; simp
  · simp [hd]

theorem freeBlocks_erase {a c : BuddyArenaInner} (ha : a.Sound) (hc : c.Sound) {b : Block}
    (h : c.freeBit = update a.freeBit b false) : c.freeBlocks = a.freeBlocks.erase b := by
  ext d
  rw [Finset.mem_erase, mem_freeBlocks hc, mem_freeBlocks ha, h]
  by_cases hd : d = b
  · subst hd; simp
  · simp [hd]

theorem freeBlocks_congr {a c : BuddyArenaInner} (ha : a.Sound) (hc : c.Sound) (h : c.freeBit = a.freeBit) :
    c.freeBlocks = a.freeBlocks := by
  ext d
  rw [mem_freeBlocks hc, mem_freeBlocks ha, h]

theorem build_bitmap (g : BuddyGeometry) (s : Bool) (p : InitPolicy) (m : Memory) (o : Nat) :
    (build g s p m).bitmap o =
      if o = g.maxOrder then (newEmpty (blocksAtOrder g.maxOrder o)).free 0
      else if o < g.maxOrder then newEmpty (blocksAtOrder g.maxOrder o) else newEmpty 0 := by
  simp only [bitmap, build, List.getD_eq_getElem?_getD, List.getElem?_set, List.length_map, List.length_range]
  by_cases h : g.maxOrder = o
  · subst h; simp
  · rw [if_neg h, if_neg (Ne.symm h)]
    by_cases ho : o < g.maxOrder
    · rw [if_pos ho, List.getElem?_map, List.getElem?_range (by omega)]
      rfl
    · rw [if_neg ho, List.getElem?_eq_none (by simp; omega)]
      rfl

theorem build_sound (g : BuddyGeometry) (s : Bool) (p : InitPolicy) (m : Memory) : (build g s p m).Sound := by
  have hroot : 0 < (newEmpty (blocksAtOrder g.maxOrder g.maxOrder)).slotCount := by
    simp [newEmpty, withAllocationState, blocksAtOrder]
  refine ⟨by simp [build, maxOrder], ?_, ?_, ?_⟩
  · intro o ho
    rw [build_bitmap]
    change o ≤ g.maxOrder at ho
    change _ = 2 ^ (g.maxOrder - o)
    have hn : (newEmpty (blocksAtOrder g.maxOrder o)).slotCount = 2 ^ (g.maxOrder - o) := by
      simp [newEmpty, withAllocationState, blocksAtOrder, Nat.shiftLeft_eq]
    split
    · exact hn
    next h =>
      rw [if_pos (by omega)]
      exact hn
  · intro o
    rw [build_bitmap]
    split
    next h =>
      subst h
      exact update_paddingClear (newEmpty_paddingClear _) (free_shape _ _) (fun _ => hroot) (free_bit _ hroot)
    · split <;> exact newEmpty_paddingClear _
  · intro o
    rw [build_bitmap]
    split
    next h =>
      subst h
      rw [free_asserts _ hroot (newEmpty_bit _ _)]
      rfl
    · split <;> rfl

theorem build_freeBit (g : BuddyGeometry) (s : Bool) (p : InitPolicy) (m : Memory) (b : Block) :
    (build g s p m).freeBit b = decide (b = ⟨g.maxOrder, 0⟩) := by
  have hroot : 0 < (newEmpty (blocksAtOrder g.maxOrder g.maxOrder)).slotCount := by
    simp [newEmpty, withAllocationState, blocksAtOrder]
  obtain ⟨o, i⟩ := b
  simp only [freeBit, build_bitmap, Block.mk.injEq]
  split
  next h =>
    subst h
    rw [free_bit _ hroot]
    by_cases hi : i = 0
    · subst hi; simp
    · simp [hi, newEmpty_bit]
  next h => split <;> simp [h, newEmpty_bit]

theorem sum_blockSize (a : BuddyArenaInner) (m : Multiset Block) :
    (m.map fun b => a.blockSize b.order).sum = a.geometry.minBlockSize * (m.map fun b => 2 ^ b.order).sum := by
  rw [← Multiset.sum_map_mul_left]
  simp only [blockSize, Nat.shiftLeft_eq]

theorem build_freeBlocks (g : BuddyGeometry) (s : Bool) (p : InitPolicy) (m : Memory) :
    (build g s p m).freeBlocks = {⟨g.maxOrder, 0⟩} := by
  ext b
  rw [mem_freeBlocks (build_sound g s p m), build_freeBit]
  simp

theorem minBlockSize_exp (g : BuddyGeometry) : ∃ k, g.minBlockSize = 2 ^ k ∧ g.totalSize = 2 ^ (k + g.maxOrder) ∧
    k + g.maxOrder < usizeBits := by
  obtain ⟨k, hk⟩ := g.minBlockSize_pow
  have htotal : g.totalSize = 2 ^ (k + g.maxOrder) := by
    rw [g.totalSize_eq, hk, Nat.shiftLeft_eq, ← pow_add]
  have hlt := g.totalSize_lt
  rw [htotal] at hlt
  exact ⟨k, hk, htotal, (Nat.pow_lt_pow_iff_right (by decide)).mp hlt⟩

/-- Up to 2^63 the rounding does not wrap, and the order is the number of
doublings from the smallest block to the rounded size. -/
theorem orderForRequest_eq (a : BuddyArenaInner) {len : Nat} (hlen : len ≤ 2 ^ 63) :
    ∃ j k, a.geometry.minBlockSize = 2 ^ k ∧ k ≤ j ∧
      Usize.leastPowerOfTwo (max len a.geometry.minBlockSize) = 2 ^ j ∧
      a.orderForRequest len = if 2 ^ j > a.geometry.totalSize then none else some (j - k) := by
  obtain ⟨k, hk, -, hbits⟩ := minBlockSize_exp a.geometry
  obtain ⟨j, hj⟩ := Usize.leastPowerOfTwo_isPow (max len a.geometry.minBlockSize)
  have hk63 : k ≤ 63 := by
    rw [usizeBits] at hbits
    omega
  have hle : max len a.geometry.minBlockSize ≤ 2 ^ 63 :=
    max_le hlen (hk ▸ Nat.pow_le_pow_right (by decide) hk63)
  have hj63 : j ≤ 63 := (Nat.pow_le_pow_iff_right (by decide)).mp (hj ▸ Usize.leastPowerOfTwo_le hle)
  have hkj : k ≤ j := by
    refine (Nat.pow_le_pow_iff_right (by decide : 1 < 2)).mp ?_
    rw [← hk, ← hj]
    exact (le_max_right _ _).trans (Usize.le_leastPowerOfTwo _)
  refine ⟨j, k, hk, hkj, hj, ?_⟩
  have hj64 : j < usizeBits := Nat.lt_succ_of_le hj63
  have hsize : Usize.nextPowerOfTwo (max len a.geometry.minBlockSize) = 2 ^ j := by
    rw [Usize.nextPowerOfTwo_eq hle, hj]
  have htz : Usize.trailingZeros (2 ^ j) - Usize.trailingZeros a.geometry.minBlockSize = j - k := by
    rw [hk, Usize.trailingZeros_two_pow hj64, Usize.trailingZeros_two_pow (Nat.lt_succ_of_le hk63)]
  simp only [orderForRequest, hsize, htz]

theorem totalSize_le (g : BuddyGeometry) : g.totalSize ≤ 2 ^ 63 := by
  obtain ⟨k, -, htotal, hbits⟩ := minBlockSize_exp g
  rw [htotal]
  exact Nat.pow_le_pow_right (by decide) (Nat.le_of_lt_succ hbits)

theorem blockSize_maxOrder (a : BuddyArenaInner) : a.blockSize a.maxOrder = a.geometry.totalSize :=
  a.geometry.totalSize_eq.symm

theorem blockSize_le_blockSize (a : BuddyArenaInner) {o o' : Nat} : a.blockSize o ≤ a.blockSize o' ↔ o ≤ o' := by
  obtain ⟨k, hk⟩ := a.geometry.minBlockSize_pow
  rw [blockSize, blockSize, hk, Nat.shiftLeft_eq, Nat.shiftLeft_eq, ← pow_add, ← pow_add,
    Nat.pow_le_pow_iff_right (by decide), Nat.add_le_add_iff_left]

theorem orderForRequest_none_iff (a : BuddyArenaInner) {len : Nat} (hlen : len ≤ 2 ^ 63) :
    a.orderForRequest len = none ↔ a.geometry.totalSize < len := by
  obtain ⟨j, k, hk, hkj, hj, heq⟩ := a.orderForRequest_eq hlen
  obtain ⟨k', hk', htotal, -⟩ := minBlockSize_exp a.geometry
  have hmin : a.geometry.minBlockSize ≤ a.geometry.totalSize := by
    rw [hk', htotal]
    exact Nat.pow_le_pow_right (by decide) (Nat.le_add_right _ _)
  have hround : 2 ^ j > a.geometry.totalSize ↔ a.geometry.totalSize < len := by
    constructor
    · intro hgt
      by_contra hle
      have hmax : max len a.geometry.minBlockSize ≤ a.geometry.totalSize := max_le (not_lt.mp hle) hmin
      rw [htotal] at hmax hgt
      exact absurd (hj ▸ Usize.leastPowerOfTwo_le hmax) (not_le.mpr hgt)
    · intro hlt
      rw [← hj]
      exact hlt.trans_le ((le_max_left _ _).trans (Usize.le_leastPowerOfTwo _))
  rw [heq, ← hround]
  simp

/-- The order of a request is the least one whose blocks hold it. -/
theorem orderForRequest_least (a : BuddyArenaInner) {len o : Nat} (hlen : len ≤ 2 ^ 63)
    (ho : a.orderForRequest len = some o) : len ≤ a.blockSize o ∧ ∀ o', len ≤ a.blockSize o' → o ≤ o' := by
  obtain ⟨j, k, hk, hkj, hj, heq⟩ := a.orderForRequest_eq hlen
  have hsize (o' : Nat) : a.blockSize o' = 2 ^ (k + o') := by rw [blockSize, hk, Nat.shiftLeft_eq, ← pow_add]
  rw [heq] at ho
  split at ho
  next => cases ho
  next =>
    cases ho
    constructor
    · rw [hsize, Nat.add_sub_cancel' hkj, ← hj]
      exact (le_max_left _ _).trans (Usize.le_leastPowerOfTwo _)
    · intro o' hle
      have hmax : max len a.geometry.minBlockSize ≤ 2 ^ (k + o') :=
        max_le (hsize o' ▸ hle) (hk ▸ Nat.pow_le_pow_right (by decide) (Nat.le_add_right _ _))
      have hpow := Usize.leastPowerOfTwo_le hmax
      rw [hj, Nat.pow_le_pow_iff_right (by decide)] at hpow
      omega

theorem orderForRequest_le (a : BuddyArenaInner) {len order : Nat} (hlen : len ≤ 2 ^ 63)
    (ho : a.orderForRequest len = some order) : order ≤ a.maxOrder := by
  refine (a.orderForRequest_least hlen ho).2 a.maxOrder ?_
  rw [blockSize_maxOrder]
  by_contra hgt
  rw [(a.orderForRequest_none_iff hlen).mpr (not_le.mp hgt)] at ho
  cases ho

theorem exists_orderForRequest (a : BuddyArenaInner) {len : Nat} (hlen : len ≤ a.geometry.totalSize) :
    ∃ o, a.orderForRequest len = some o := by
  cases h : a.orderForRequest len with
  | some o => exact ⟨o, rfl⟩
  | none => exact absurd ((a.orderForRequest_none_iff (hlen.trans (totalSize_le _))).mp h) (not_lt.mpr hlen)

theorem orderForRequest_total (a : BuddyArenaInner) : a.orderForRequest a.geometry.totalSize = some a.maxOrder := by
  obtain ⟨o, ho⟩ := a.exists_orderForRequest le_rfl
  obtain ⟨hfits, -⟩ := a.orderForRequest_least (totalSize_le _) ho
  rw [← blockSize_maxOrder, blockSize_le_blockSize] at hfits
  rw [ho, le_antisymm (a.orderForRequest_le (totalSize_le _) ho) hfits]

theorem maybeClearSummary_bitmaps (a : BuddyArenaInner) (o : Nat) :
    (a.maybeClearSummary o).freeBitmaps = a.freeBitmaps ∧ (a.maybeClearSummary o).geometry = a.geometry := by
  unfold maybeClearSummary
  split <;> exact ⟨rfl, rfl⟩

structure SameBacking (a c : BuddyArenaInner) : Prop where
  geometry : c.geometry = a.geometry
  autoSpill : c.autoSpill = a.autoSpill
  initPolicy : c.initPolicy = a.initPolicy
  zeroedBitmap : c.zeroedBitmap = a.zeroedBitmap
  memory : c.memory = a.memory

theorem SameBacking.refl (a : BuddyArenaInner) : SameBacking a a := ⟨rfl, rfl, rfl, rfl, rfl⟩

theorem SameBacking.trans {a c d : BuddyArenaInner} (h : SameBacking a c) (h' : SameBacking c d) : SameBacking a d :=
  ⟨h'.geometry.trans h.geometry, h'.autoSpill.trans h.autoSpill, h'.initPolicy.trans h.initPolicy,
    h'.zeroedBitmap.trans h.zeroedBitmap, h'.memory.trans h.memory⟩

theorem splitLoop_backing (target order idx steps : Nat) (a : BuddyArenaInner) :
    SameBacking a (splitLoop target order idx steps a).2.2 := by
  induction order generalizing idx steps a with
  | zero => exact .refl a
  | succ child ih =>
      rw [splitLoop]
      split
      · refine SameBacking.trans ?_ (ih _ _ _)
        exact ⟨rfl, rfl, rfl, rfl, rfl⟩
      · exact .refl a

theorem splitDown_backing (a : BuddyArenaInner) (o i t : Nat) : SameBacking a (a.splitDown o i t).2 := by
  have h := splitLoop_backing t o i 0 a
  simp only [splitDown, recordSplits]
  split
  · exact h.trans ⟨rfl, rfl, rfl, rfl, rfl⟩
  · exact h

theorem maybeClearSummary_backing (a : BuddyArenaInner) (o : Nat) : SameBacking a (a.maybeClearSummary o) := by
  unfold maybeClearSummary
  split
  · exact .refl a
  · exact ⟨rfl, rfl, rfl, rfl, rfl⟩

theorem coalesceLoop_backing (above order idx : Nat) (a : BuddyArenaInner) :
    SameBacking a (coalesceLoop above order idx a).2 := by
  induction above generalizing order idx a with
  | zero => exact .refl a
  | succ above ih =>
      rw [coalesceLoop]
      split
      · simp only
        split
        · have hclear :=
            maybeClearSummary_backing (a.setBitmap order ((a.bitmap order).tryClaimExact (idx ^^^ 1)).2) order
          refine SameBacking.trans ?_ (ih _ _ _)
          exact ⟨hclear.geometry, hclear.autoSpill, hclear.initPolicy, hclear.zeroedBitmap, hclear.memory⟩
        · exact ⟨rfl, rfl, rfl, rfl, rfl⟩
      · exact .refl a

theorem zeroOnAllocate_bitmaps (a : BuddyArenaInner) (o i : Nat) :
    (a.zeroOnAllocate o i).geometry = a.geometry ∧ (a.zeroOnAllocate o i).freeBitmaps = a.freeBitmaps := by
  unfold zeroOnAllocate
  split
  · split <;> exact ⟨rfl, rfl⟩
  · exact ⟨rfl, rfl⟩

theorem scrubOnRelease_bitmaps (a : BuddyArenaInner) (o i : Nat) :
    (a.scrubOnRelease o i).geometry = a.geometry ∧ (a.scrubOnRelease o i).freeBitmaps = a.freeBitmaps := by
  unfold scrubOnRelease
  split <;> exact ⟨rfl, rfl⟩

theorem zeroOnAllocate_eq {a : BuddyArenaInner} {z : AtomicBitmap} (hp : a.initPolicy = .zero)
    (hz : a.zeroedBitmap = some z) (o i : Nat) :
    a.zeroOnAllocate o i = { a with
      memory := if z.allSetInRange (order0Start o i) (order0End o i) then a.memory
        else zeroizeRegion a.memory (a.blockOffset o i) (a.blockSize o) } := by
  unfold zeroOnAllocate
  split
  next y _ hy =>
    cases hz.symm.trans hy
    split <;> rfl
  next hne => exact absurd hz (hne z hp)

theorem scrubOnRelease_eq {a : BuddyArenaInner} {z : AtomicBitmap} (hp : a.initPolicy = .zero)
    (hz : a.zeroedBitmap = some z) (o i : Nat) :
    a.scrubOnRelease o i = { a with
      memory := zeroizeRegion a.memory (a.blockOffset o i) (a.blockSize o)
      zeroedBitmap := some (z.setRange (order0Start o i) (order0End o i)) } := by
  unfold scrubOnRelease
  split
  next => rw [hz, Option.map_some]
  next hu => cases hp.symm.trans hu

theorem release_backing (a : BuddyArenaInner) (o i : Nat) : SameBacking (a.scrubOnRelease o i) (a.release o i).2 := by
  let c : BuddyArenaInner := { a with metrics := a.metrics.recordFree (a.blockSize o) }
  have hscrub : SameBacking (a.scrubOnRelease o i) (c.scrubOnRelease o i) := by
    simp only [scrubOnRelease, c]
    split <;> exact ⟨rfl, rfl, rfl, rfl, rfl⟩
  have hloop := coalesceLoop_backing (c.maxOrder - o) o i (c.scrubOnRelease o i)
  exact (hscrub.trans hloop).trans ⟨rfl, rfl, rfl, rfl, rfl⟩

theorem release_geometry (a : BuddyArenaInner) (o i : Nat) : (a.release o i).2.geometry = a.geometry :=
  (a.release_backing o i).geometry.trans (a.scrubOnRelease_bitmaps o i).1

theorem splitLoop_fst {target order : Nat} (idx steps : Nat) (a : BuddyArenaInner) (h : target ≤ order) :
    (splitLoop target order idx steps a).1 = (target, idx * 2 ^ (order - target)) := by
  induction order generalizing idx steps a with
  | zero =>
      obtain rfl : target = 0 := by omega
      simp [splitLoop]
  | succ child ih =>
      rw [splitLoop]
      split
      next hgt =>
        rw [ih _ _ _ (by omega), Nat.succ_sub (by omega), pow_succ, mul_assoc, mul_comm 2]
      next hle =>
        obtain rfl : target = child + 1 := by omega
        simp

theorem handOut_capacity (a : BuddyArenaInner) (len o i : Nat) :
    (a.handOut len o i).1.capacity = if a.geometry.capCapacity then min len (a.blockSize o) else a.blockSize o := by
  simp only [handOut, (zeroOnAllocate_bitmaps a o i).1]

end ArenaAlligator.BuddyArenaInner
