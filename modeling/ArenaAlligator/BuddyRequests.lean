import ArenaAlligator.BuddyCanonical

namespace ArenaAlligator.BuddyRequests

open AlignedBlocks AlignedBlocks.Block AtomicBitmap BuddyArenaInner BuddyRuns BuddyCanonical Runs

variable {g : BuddyGeometry} {a : BuddyArenaInner}

def HasFree (a : BuddyArenaInner) (t : Nat) : Prop := ∃ b : Block, a.freeBit b = true ∧ t ≤ b.order

theorem tryAllocateBlock_iff_hasFree (ha : a.Sound) (t : Nat) :
    (∃ o i, (a.tryAllocateBlock t).1 = some (o, i)) ↔ HasFree a t := by
  constructor
  · rintro ⟨o, i, hr⟩
    exact ⟨⟨o, i⟩, ((tryAllocateBlock_scanned a t).some_spec o i hr).1, (tryAllocateBlock_mem hr).1⟩
  · rintro ⟨b, hfree, hle⟩
    cases hr : (a.tryAllocateBlock t).1 with
    | some block => exact ⟨block.1, block.2, rfl⟩
    | none =>
        rw [tryAllocateBlock_none ha.padding hr hle (inside_of_freeBit ha hfree).1] at hfree
        cases hfree

theorem units_leftmost {t o i u : Nat} (hto : t ≤ o) (hu : u ∈ units ⟨t, i * 2 ^ (o - t)⟩) : u ∈ units ⟨o, i⟩ := by
  have hstart : i * 2 ^ (o - t) * 2 ^ t = i * 2 ^ o := by rw [mul_assoc, ← pow_add, Nat.sub_add_cancel hto]
  refine units_subset (b := ⟨t, i * 2 ^ (o - t)⟩) hto (start_mem_units _) ?_ hu
  change i * 2 ^ (o - t) * 2 ^ t ∈ _
  rw [hstart]
  exact start_mem_units ⟨o, i⟩

/-- Room for a block of some order: an aligned place that no live block
touches. Coalescing makes it lie in one free block. -/
theorem hasFree_iff_place {live : List Block} (h : a.Balanced g live) {t : Nat} (ht : t ≤ a.maxOrder) :
    HasFree a t ↔ ∃ i, Inside a.maxOrder ⟨t, i⟩ ∧ ∀ b ∈ live, ∀ u ∈ b.units, u ∉ units ⟨t, i⟩ := by
  have hcover {u : Nat} : u ∈ cover (a.freeBlocks.val + live) ↔ u < 2 ^ a.maxOrder := by
    rw [h.tiles, mem_root_units]
  constructor
  · rintro ⟨⟨o, i⟩, hfree, hto⟩
    have hin := inside_of_freeBit h.sound hfree
    refine ⟨i * 2 ^ (o - t), ?_, fun b hb u hub hu => ?_⟩
    · have hstart := units_leftmost hto (start_mem_units ⟨t, i * 2 ^ (o - t)⟩)
      exact inside_of_unit_lt ht (start_mem_units _) (unit_lt_of_inside hin hstart)
    · have hnd := h.tiles.nodup
      rw [cover_add, Multiset.nodup_add] at hnd
      have hfree' : u ∈ cover a.freeBlocks.val :=
        mem_cover.mpr ⟨⟨o, i⟩, (mem_freeBlocks h.sound).mpr hfree, units_leftmost hto hu⟩
      exact Multiset.disjoint_left.mp hnd.2.2 hfree' (mem_cover.mpr ⟨b, hb, hub⟩)
  · rintro ⟨i, hin, hdis⟩
    obtain ⟨c, hc, hle, -⟩ := exists_containing h.coalesced t i ht fun u hu => by
      have hu' := hcover.mpr (unit_lt_of_inside hin hu)
      rw [cover_add, Multiset.mem_add] at hu'
      refine hu'.resolve_right fun hl => ?_
      obtain ⟨b, hb, hub⟩ := mem_cover.mp hl
      exact hdis b hb u hub hu
    exact ⟨c, (mem_freeBlocks h.sound).mp hc, hle⟩

theorem largestFreeBlock_spec (ha : a.Sound) :
    (∃ b : Block, a.freeBit b = true ∧ a.largestFreeBlock = a.blockSize b.order ∧
      ∀ c : Block, a.freeBit c = true → c.order ≤ b.order) ∨
    (a.largestFreeBlock = 0 ∧ ∀ c : Block, a.freeBit c = false) := by
  have hany (o : Nat) := anyFree_iff (a.bitmap o) (ha.padding o)
  cases hf : (List.range (a.maxOrder + 1)).reverse.find? fun order => (a.bitmap order).anyFree with
  | some o =>
      left
      obtain ⟨i, hi⟩ := (hany o).mp (by simpa using List.find?_some hf)
      refine ⟨⟨o, i⟩, hi, by simp [largestFreeBlock, hf], fun c hc => ?_⟩
      by_contra hlt
      have hmem : c.order ∈ (List.range (a.maxOrder + 1)).reverse := by
        simpa using Nat.lt_succ_of_le (inside_of_freeBit ha hc).1
      -- The orders come in decreasing order, so the search has passed c's order.
      have hsort : (List.range (a.maxOrder + 1)).reverse.Pairwise (· > ·) :=
        List.pairwise_reverse.mpr List.pairwise_lt_range
      obtain ⟨-, before, after, hsplit, hmiss⟩ := List.find?_eq_some_iff_append.mp hf
      rw [hsplit] at hmem hsort
      have hafter := (List.pairwise_cons.mp (List.pairwise_append.mp hsort).2.1).1
      rcases List.mem_append.mp hmem with hm | hm
      · have := hmiss c.order hm
        rw [(hany c.order).mpr ⟨c.index, hc⟩] at this
        cases this
      · rcases List.mem_cons.mp hm with he | hm
        · exact hlt he.le
        · exact hlt (hafter c.order hm).le
  | none =>
      right
      refine ⟨by simp [largestFreeBlock, hf], fun c => ?_⟩
      rw [← Bool.not_eq_true]
      intro hc
      have hmax := (inside_of_freeBit ha hc).1
      have hmiss := List.find?_eq_none.mp hf c.order (by simpa using Nat.lt_succ_of_le hmax)
      exact hmiss ((hany c.order).mpr ⟨c.index, hc⟩)

theorem le_largestFreeBlock_iff (ha : a.Sound) {len t : Nat} (hpos : 0 < len) (hlen : len ≤ a.geometry.totalSize)
    (ht : a.orderForRequest len = some t) : len ≤ a.largestFreeBlock ↔ HasFree a t := by
  obtain ⟨hfits, hleast⟩ := a.orderForRequest_least (hlen.trans (totalSize_le _)) ht
  rcases largestFreeBlock_spec ha with ⟨b, hb, hsize, hmax⟩ | ⟨hzero, hnone⟩
  · rw [hsize]
    constructor
    · intro hle
      exact ⟨b, hb, hleast b.order hle⟩
    · rintro ⟨c, hc, hle⟩
      exact hfits.trans (a.blockSize_le_blockSize.mpr (hle.trans (hmax c hc)))
  · rw [hzero]
    constructor
    · intro hle
      omega
    · rintro ⟨c, hc, -⟩
      rw [hnone c] at hc
      cases hc

/-- The passes take the smallest order that has a block at all. -/
theorem tryAllocateBlock_smallest {m : Multiset Block} (h : a.Balanced g m) {t o i : Nat}
    (hr : (a.tryAllocateBlock t).1 = some (o, i)) {c : Block} (hc : a.freeBit c = true) (hle : t ≤ c.order) :
    o ≤ c.order := by
  by_contra hlt
  rw [tryAllocateBlock_exact h.sound.padding (fun o _ => h.summary o)] at hr
  have hmem : c.order ∈ a.ordersFrom t := mem_ordersFrom.mpr ⟨hle, (inside_of_freeBit h.sound hc).1⟩
  have hmiss :=
    tryAllocateFromOrders_first none (a.ordersFrom_sorted t) h.sound.padding hr hmem (not_le.mp hlt) rfl c.index
  rw [show a.freeBit ⟨c.order, c.index⟩ = true from hc] at hmiss
  cases hmiss

theorem allocate_refused {len t : Nat} (ht : a.orderForRequest len = some t) (hr : (a.tryAllocateBlock t).1 = none) :
    freeState (a.allocate len).2 = freeState a ∧
    (a.allocate len).2 = { a with
      freeBitmaps := (a.allocate len).2.freeBitmaps, metrics := a.metrics.recordAllocFailure } := by
  have hscan := tryAllocateBlock_scanned a t
  obtain ⟨hfree, hsummary⟩ := hscan.none_spec hr
  have hrow (o : Nat) : ((a.tryAllocateBlock t).2.bitmap o).words = (a.bitmap o).words :=
    words_eq_of_bit_eq (hscan.shape o).slotCount (funext fun i => congrFun hfree ⟨o, i⟩)
  rw [allocate_of_none ht hr]
  constructor
  · exact Prod.ext (freeState_rows hscan.length hrow) hsummary
  · rw [recordAllocFailure]
    nth_rewrite 1 [hscan.rest]
    rw [hsummary, hscan.rest]

/-- In every state of every sequential run, a request up to the arena's size
succeeds exactly when some aligned place of its order is untouched by the live
blocks, that is, when it is at most the largest free block. A success carves
its block from a free block of the smallest sufficient order, and a refusal
changes nothing but the failure count and scan cursors. -/
theorem allocation_complete (g : BuddyGeometry) (autoSpill : Bool) (policy : InitPolicy) (memory : Memory) (w : World)
    (h : Reachable step (start g autoSpill policy memory) w) (len : Nat) (hpos : 1 ≤ len) (hlen : len ≤ g.totalSize) :
    ∃ t, w.arena.orderForRequest len = some t ∧ t ≤ g.maxOrder ∧
      ((∃ buf, (w.arena.allocate len).1 = .ok buf) ↔
        ∃ i, i < 2 ^ (g.maxOrder - t) ∧ ∀ b ∈ w.live, ∀ u ∈ b.units, u ∉ Block.units ⟨t, i⟩) ∧
      ((∃ buf, (w.arena.allocate len).1 = .ok buf) ↔ len ≤ w.arena.largestFreeBlock) ∧
      (∀ buf, (w.arena.allocate len).1 = .ok buf → ∃ b c : Block, blockOf buf = some b ∧ b.order = t ∧
        w.arena.isBlockFree c.order c.index = true ∧ t ≤ c.order ∧ (∀ u ∈ b.units, u ∈ c.units) ∧
        ∀ o i, w.arena.isBlockFree o i = true → t ≤ o → c.order ≤ o) ∧
      ∀ e, (w.arena.allocate len).1 = .error e → e = .arenaFull ∧
        freeState (w.arena.allocate len).2 = freeState w.arena ∧
        (w.arena.allocate len).2 = { w.arena with
          freeBitmaps := (w.arena.allocate len).2.freeBitmaps
          metrics := w.arena.metrics.recordAllocFailure } := by
  have hb := run_balanced h
  have hmax : w.arena.maxOrder = g.maxOrder := congrArg BuddyGeometry.maxOrder hb.geometry
  rw [← hb.geometry] at hlen
  obtain ⟨t, ht⟩ := w.arena.exists_orderForRequest hlen
  have hle := w.arena.orderForRequest_le (hlen.trans (totalSize_le _)) ht
  have hroom := (allocate_ok_iff ht).trans (tryAllocateBlock_iff_hasFree hb.sound t)
  refine ⟨t, ht, hmax ▸ hle, ?_, ?_, fun buf hok => ?_, fun e he => ?_⟩
  · rw [hroom, hasFree_iff_place hb hle, hmax]
    exact exists_congr fun i => and_congr_left fun _ => and_iff_right (hmax ▸ hle)
  · rw [hroom, le_largestFreeBlock_iff hb.sound hpos hlen ht]
  · obtain ⟨o, i, hr⟩ := (allocate_ok_iff ht).mp ⟨buf, hok⟩
    rw [allocate_of_some ht hr] at hok
    cases hok
    have hto := (tryAllocateBlock_mem hr).1
    refine ⟨⟨t, i * 2 ^ (o - t)⟩, ⟨o, i⟩, rfl, rfl, ?_, hto, fun u hu => units_leftmost hto hu,
      fun o' i' hfree hle' => ?_⟩
    · rw [isBlockFree_eq]
      exact ((tryAllocateBlock_scanned _ t).some_spec o i hr).1
    · rw [isBlockFree_eq] at hfree
      exact tryAllocateBlock_smallest hb hr hfree hle'
  · cases hr : (w.arena.tryAllocateBlock t).1 with
    | some block =>
        rw [allocate_of_some ht hr] at he
        cases he
    | none =>
        refine ⟨?_, allocate_refused ht hr⟩
        rw [allocate_of_none ht hr] at he
        exact (Except.error.inj he).symm

/-- The small run leaves 1024 bytes free in one block: that much can be
allocated, and twice as much cannot. -/
theorem allocation_complete_small :
    smallWorld.arena.largestFreeBlock = 1024 ∧ (∃ buf, (smallWorld.arena.allocate 1024).1 = .ok buf) ∧
    ¬∃ buf, (smallWorld.arena.allocate 2048).1 = .ok buf := by
  have hlargest : smallWorld.arena.largestFreeBlock = 1024 := by decide +kernel
  obtain ⟨-, -, -, -, hok, -⟩ := allocation_complete smallGeometry false .zero (fun _ => 7) smallWorld
    smallWorld_reachable 1024 (by decide) (by decide)
  obtain ⟨-, -, -, -, hno, -⟩ := allocation_complete smallGeometry false .zero (fun _ => 7) smallWorld
    smallWorld_reachable 2048 (by decide) (by decide)
  rw [hlargest] at hok hno
  exact ⟨hlargest, hok.mpr le_rfl, fun h => absurd (hno.mp h) (by decide)⟩

end ArenaAlligator.BuddyRequests
