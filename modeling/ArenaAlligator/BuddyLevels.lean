import ArenaAlligator.BuddyRuns

namespace ArenaAlligator.BuddyArenaInner

open Function AlignedBlocks AlignedBlocks.Block AtomicBitmap BuddyRuns

variable {g : BuddyGeometry} {a : BuddyArenaInner}

theorem splitLoop_freeBit (target order idx steps : Nat) (a : BuddyArenaInner) {c : Block} (hc : order ≤ c.order) :
    (splitLoop target order idx steps a).2.2.freeBit c = a.freeBit c := by
  induction order generalizing idx steps a with
  | zero => rfl
  | succ child ih =>
      rw [splitLoop]
      split
      · rw [ih _ _ _ (by omega), freeBit, freeBlock, bitmap_setBitmap_of_ne _ (by omega)]
        rfl
      · rfl

theorem splitDown_freeBit (a : BuddyArenaInner) (o i t : Nat) {c : Block} (hc : o ≤ c.order) :
    (a.splitDown o i t).2.freeBit c = a.freeBit c := by
  rw [← splitLoop_freeBit t o i 0 a hc]
  simp only [splitDown, recordSplits]
  split <;> rfl

theorem handOut_freeBit (a : BuddyArenaInner) (len o i : Nat) : (a.handOut len o i).2.freeBit = a.freeBit :=
  freeBit_congr (zeroOnAllocate_bitmaps a o i).2

theorem allocate_takes {len t : Nat} (ht : a.orderForRequest len = some t) {buf : Buffer}
    (h : (a.allocate len).1 = .ok buf) :
    ∃ b : Block, t ≤ b.order ∧ a.freeBit b = true ∧
      ∀ c : Block, b.order ≤ c.order → (a.allocate len).2.freeBit c = update a.freeBit b false c := by
  rw [allocate, ht] at h ⊢
  simp only at h ⊢
  cases hr : (a.tryAllocateBlock t).1 with
  | none => simp [hr] at h
  | some block =>
      obtain ⟨o, i⟩ := block
      obtain ⟨hset, hf⟩ := (tryAllocateBlock_scanned a t).some_spec o i hr
      refine ⟨⟨o, i⟩, (tryAllocateBlock_mem hr).1, hset, fun c hc => ?_⟩
      simp only
      rw [handOut_freeBit, splitDown_freeBit _ _ _ _ hc, hf]

theorem allocate_refuses (ha : a.Sound) {len t : Nat} (ht : a.orderForRequest len = some t) {e : AllocError}
    (h : (a.allocate len).1 = .error e) :
    (a.allocate len).2.freeBit = a.freeBit ∧ ∀ c : Block, t ≤ c.order → a.freeBit c = false := by
  rw [allocate, ht] at h ⊢
  simp only at h ⊢
  cases hr : (a.tryAllocateBlock t).1 with
  | none =>
      refine ⟨((tryAllocateBlock_scanned a t).none_spec hr).1, fun c hc => ?_⟩
      rw [← Bool.not_eq_true]
      intro hset
      rw [tryAllocateBlock_none ha.padding hr hc (inside_of_freeBit ha hset).1] at hset
      cases hset
  | some block => simp [hr] at h

theorem coalesceLoop_le (above order idx : Nat) (a : BuddyArenaInner) :
    order ≤ (coalesceLoop above order idx a).1.1 := by
  induction above generalizing order idx a with
  | zero => exact le_rfl
  | succ above ih =>
      rw [coalesceLoop]
      split
      · simp only
        split
        · exact (Nat.le_succ order).trans (ih _ _ _)
        · exact le_rfl
      · exact le_rfl

theorem coalesceLoop_freeBit (above order idx : Nat) {m : Multiset Block} (h : a.Balanced g (⟨order, idx⟩ ::ₘ m))
    (habove : above = a.maxOrder - order) {c : Block} (hc : (coalesceLoop above order idx a).1.1 ≤ c.order) :
    (coalesceLoop above order idx a).2.freeBit c = a.freeBit c := by
  induction above generalizing order idx a with
  | zero => rfl
  | succ above ih =>
      rw [coalesceLoop] at hc ⊢
      have hlt : order < a.maxOrder := by omega
      have hbin : Block.Inside a.maxOrder ⟨order, idx ^^^ 1⟩ := h.inside.buddy hlt
      simp only [if_pos hlt, tryClaimExact_fst] at hc ⊢
      split at hc
      next hset =>
        simp only [hset, if_true]
        have hup := (Nat.lt_succ_self order).trans_le ((coalesceLoop_le _ _ _ _).trans hc)
        have hmax := mergeStep_maxOrder a order (idx ^^^ 1)
        refine (ih (order + 1) (idx / 2) ?_ ?_ hc).trans ?_
        · exact (mergeStep_balanced h hlt hset).1.congr rfl rfl rfl
        · change above = ((a.claimExact order (idx ^^^ 1)).maybeClearSummary order).maxOrder - (order + 1)
          omega
        · change ((a.claimExact order (idx ^^^ 1)).maybeClearSummary order).freeBit c = _
          rw [freeBit_congr (maybeClearSummary_bitmaps _ _).1, freeBit, claimExact,
            bitmap_setBitmap_of_ne _ (by omega)]
          rfl
      next hclear =>
        simp only [hclear]
        rw [Bool.not_eq_true] at hclear
        exact congrFun (setBitmap_freeBit_same h.sound hlt.le
          (tryClaimExact_bit_of_clear (slot_lt h.sound hbin) hclear)) c

/-- Where a release settles: it joins with the buddy as long as that is free. -/
def settle (free : Block → Bool) : Nat → Block → Block
  | 0, b => b
  | above + 1, b => if free b.buddy then settle free above b.parent else b

theorem settle_congr {free free' : Block → Bool} (above : Nat) {b : Block}
    (h : ∀ c : Block, b.order ≤ c.order → free' c = free c) : settle free' above b = settle free above b := by
  induction above generalizing b with
  | zero => rfl
  | succ above ih =>
      rw [settle, settle, h b.buddy le_rfl, ih fun c hc => h c ((Nat.le_succ b.order).trans hc)]

theorem coalesceLoop_settle (above order idx : Nat) (a : BuddyArenaInner) (habove : above = a.maxOrder - order) :
    (coalesceLoop above order idx a).1.1 = (settle a.freeBit above ⟨order, idx⟩).order := by
  induction above generalizing order idx a with
  | zero => rfl
  | succ above ih =>
      have hlt : order < a.maxOrder := by omega
      rw [coalesceLoop, settle]
      simp only [if_pos hlt, tryClaimExact_fst]
      by_cases hset : (a.bitmap order).bit (idx ^^^ 1) = true
      · rw [if_pos hset, if_pos (show a.freeBit (buddy ⟨order, idx⟩) = true from hset)]
        refine (ih (order + 1) (idx / 2) _ ?_).trans (congrArg Block.order (settle_congr above fun c hc => ?_))
        · change above = ((a.setBitmap order _).maybeClearSummary order).geometry.maxOrder - (order + 1)
          rw [(maybeClearSummary_bitmaps _ _).2]
          change above = a.maxOrder - (order + 1)
          omega
        · change ((a.setBitmap order _).maybeClearSummary order).freeBit c = _
          change order + 1 ≤ c.order at hc
          rw [freeBit_congr (maybeClearSummary_bitmaps _ _).1, freeBit, bitmap_setBitmap_of_ne _ (by omega)]
          rfl
      · rw [if_neg hset, if_neg (show ¬a.freeBit (buddy ⟨order, idx⟩) = true from hset)]

theorem release_settles (a : BuddyArenaInner) (b : Block) :
    (a.release b.order b.index).1 = (settle a.freeBit (a.maxOrder - b.order) b).order := by
  have hs := scrubOnRelease_bitmaps { a with metrics := a.metrics.recordFree (a.blockSize b.order) } b.order b.index
  have hmax := congrArg BuddyGeometry.maxOrder hs.1
  have hl := coalesceLoop_settle (a.maxOrder - b.order) b.order b.index
    (scrubOnRelease { a with metrics := a.metrics.recordFree (a.blockSize b.order) } b.order b.index)
    (congrArg (· - b.order) hmax.symm)
  rw [freeBit_congr hs.2] at hl
  exact hl

/-- A release publishes one block; it claims only smaller ones. -/
theorem releaseBlock_publishes {m : Multiset Block} {b : Block} (h : a.Balanced g (b ::ₘ m)) :
    (a.releaseBlock b.order b.index).1 ≤ a.maxOrder ∧
    ∃ i, ∀ c : Block, (a.releaseBlock b.order b.index).1 ≤ c.order →
      (a.releaseBlock b.order b.index).2.freeBit c =
        update a.freeBit ⟨(a.releaseBlock b.order b.index).1, i⟩ true c := by
  obtain ⟨hs, hmax⟩ := scrubOnRelease_balanced h b.order b.index
  have hl := (coalesceLoop_balanced (a.maxOrder - b.order) b.order b.index hs (by rw [hmax])).1
  have hfree {c : Block} := coalesceLoop_freeBit (a.maxOrder - b.order) b.order b.index hs (by rw [hmax]) (c := c)
  rw [freeBit_congr (scrubOnRelease_bitmaps a b.order b.index).2] at hfree
  simp only [releaseBlock]
  generalize coalesceLoop (a.maxOrder - b.order) b.order b.index (a.scrubOnRelease b.order b.index) = r at hl hfree ⊢
  have hin := hl.inside
  have hgeo : r.2.maxOrder = a.maxOrder := by rw [maxOrder, maxOrder, hl.geometry, h.geometry]
  refine ⟨hgeo ▸ hin.1, r.1.2, fun c hc => ?_⟩
  have hset := freeBlock_freeBit (a := r.2.setSummary r.1.1) (hl.sound.congr rfl rfl) hin
  rw [hset, update_apply, update_apply]
  split
  · rfl
  · exact hfree hc

theorem release_publishes {m : Multiset Block} {b : Block} (h : a.Balanced g (b ::ₘ m)) :
    (a.release b.order b.index).1 ≤ a.maxOrder ∧
    ∃ i, ∀ c : Block, (a.release b.order b.index).1 ≤ c.order →
      (a.release b.order b.index).2.freeBit c = update a.freeBit ⟨(a.release b.order b.index).1, i⟩ true c :=
  releaseBlock_publishes (a := { a with metrics := a.metrics.recordFree (a.blockSize b.order) }) (h.congr rfl rfl rfl)

def freeAt (a : BuddyArenaInner) (o : Nat) : Nat := (a.freeBlocks.filter fun b => b.order = o).card

theorem mem_freeAt (ha : a.Sound) {o : Nat} {b : Block} :
    b ∈ (a.freeBlocks.filter fun b => b.order = o) ↔ a.freeBit b = true ∧ b.order = o := by
  rw [Finset.mem_filter, mem_freeBlocks ha]

variable {a' : BuddyArenaInner} {o : Nat}

theorem freeAt_le (ha : a.Sound) (ha' : a'.Sound)
    (h : ∀ b : Block, b.order = o → a'.freeBit b = true → a.freeBit b = true) : a'.freeAt o ≤ a.freeAt o := by
  refine Finset.card_le_card fun b hb => ?_
  rw [mem_freeAt ha'] at hb
  exact (mem_freeAt ha).mpr ⟨h b hb.2 hb.1, hb.2⟩

theorem freeAt_le_succ (ha : a.Sound) (ha' : a'.Sound) (x : Block)
    (h : ∀ b : Block, b.order = o → b ≠ x → a'.freeBit b = true → a.freeBit b = true) :
    a'.freeAt o ≤ a.freeAt o + 1 := by
  refine (Finset.card_le_card fun b hb => ?_).trans (Finset.card_insert_le x _)
  rw [mem_freeAt ha'] at hb
  rw [Finset.mem_insert, mem_freeAt ha]
  by_cases hx : b = x
  · exact Or.inl hx
  · exact Or.inr ⟨h b hb.2 hx hb.1, hb.2⟩

theorem freeAt_lt (ha : a.Sound) (ha' : a'.Sound)
    (h : ∀ b : Block, b.order = o → a'.freeBit b = true → a.freeBit b = true) {x : Block} (hx : x.order = o)
    (hfree : a.freeBit x = true) (htaken : a'.freeBit x = false) : a'.freeAt o < a.freeAt o := by
  refine Finset.card_lt_card (Finset.ssubset_iff_of_subset (fun b hb => ?_) |>.mpr ⟨x, ?_, ?_⟩)
  · rw [mem_freeAt ha'] at hb
    exact (mem_freeAt ha).mpr ⟨h b hb.2 hb.1, hb.2⟩
  · exact (mem_freeAt ha).mpr ⟨hfree, hx⟩
  · rw [mem_freeAt ha', htaken]
    simp

theorem freeAt_eq_zero (ha : a.Sound) (h : ∀ b : Block, b.order = o → a.freeBit b = false) : a.freeAt o = 0 := by
  rw [freeAt, Finset.card_eq_zero, Finset.eq_empty_iff_forall_notMem]
  intro b hb
  rw [mem_freeAt ha] at hb
  rw [h b hb.2] at hb
  cases hb.1

/-- When no free block is above an order, an allocation of any size leaves it
so and adds none at that order. -/
theorem allocate_shrinks (ha : a.Sound) (len : Nat) (h : ∀ c : Block, a.freeBit c = true → c.order ≤ o) {c : Block}
    (hc : (a.allocate len).2.freeBit c = true) : c.order ≤ o ∧ (c.order = o → a.freeBit c = true) := by
  cases ht : a.orderForRequest len with
  | none =>
      have hsame : (a.allocate len).2.freeBit = a.freeBit := by
        rw [allocate, ht]
        rfl
      rw [hsame] at hc
      exact ⟨h c hc, fun _ => hc⟩
  | some t =>
      cases hr : (a.allocate len).1 with
      | error e =>
          rw [(allocate_refuses ha ht hr).1] at hc
          exact ⟨h c hc, fun _ => hc⟩
      | ok buf =>
          obtain ⟨b, -, hb, hbit⟩ := allocate_takes ht hr
          have hbo := h b hb
          rcases Nat.lt_or_ge c.order b.order with hlt | hge
          · exact ⟨by omega, fun he => by omega⟩
          · rw [hbit c hge, update_apply] at hc
            split at hc
            · cases hc
            · exact ⟨h c hc, fun _ => hc⟩

end ArenaAlligator.BuddyArenaInner
