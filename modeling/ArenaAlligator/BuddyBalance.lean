import ArenaAlligator.BuddyScan

namespace ArenaAlligator.BuddyArenaInner

open Function AlignedBlocks AlignedBlocks.Block WordBits AtomicBitmap

def ExactAt (a : BuddyArenaInner) (o : Nat) : Prop :=
  a.nonemptyOrders.getLsbD o = true ↔ ∃ i, (a.bitmap o).bit i = true

/-- The state of an arena with no operation running, seen from outside: the
bag holds the blocks that are not marked free. -/
structure Balanced (g : BuddyGeometry) (a : BuddyArenaInner) (outside : Multiset Block) : Prop where
  geometry : a.geometry = g
  sound : a.Sound
  tiles : Tiles a.maxOrder (a.freeBlocks.val + outside)
  coalesced : Coalesced a.maxOrder a.freeBlocks
  summary : ∀ o, a.ExactAt o

variable {g : BuddyGeometry}

theorem maxOrder_lt_bits (a : BuddyArenaInner) : a.maxOrder < 64 := a.geometry.maxOrder_lt

theorem Balanced.retile {a : BuddyArenaInner} {m k : Multiset Block} (h : a.Balanced g m)
    (hc : cover k = cover m) : a.Balanced g k where
  geometry := h.geometry
  sound := h.sound
  tiles := h.tiles.of_cover_eq (by simp [hc])
  coalesced := h.coalesced
  summary := h.summary

theorem Balanced.notMem_freeBlocks {a : BuddyArenaInner} {b c : Block} {m : Multiset Block}
    (h : a.Balanced g (b ::ₘ m)) {u : Nat} (hb : u ∈ b.units) (hc : u ∈ c.units) : c ∉ a.freeBlocks := by
  have ht := h.tiles
  rw [Multiset.add_cons] at ht
  intro hm
  exact ht.notMem hb hc (Multiset.mem_add.mpr (Or.inl hm))

theorem Balanced.inside {a : BuddyArenaInner} {b : Block} {m : Multiset Block} (h : a.Balanced g (b ::ₘ m)) :
    b.Inside a.maxOrder :=
  h.tiles.inside (Multiset.mem_add.mpr (Or.inr (Multiset.mem_cons_self b m)))

theorem freeBlocks_of_bitmaps {a c : BuddyArenaInner} (ha : a.Sound) (hg : c.geometry = a.geometry)
    (hb : c.freeBitmaps = a.freeBitmaps) : c.freeBlocks = a.freeBlocks :=
  freeBlocks_congr ha (ha.congr hg hb) (by funext b; rw [freeBit, bitmap, hb]; rfl)

theorem Balanced.congr {a c : BuddyArenaInner} {m : Multiset Block} (h : a.Balanced g m)
    (hg : c.geometry = a.geometry) (hb : c.freeBitmaps = a.freeBitmaps)
    (hs : c.nonemptyOrders = a.nonemptyOrders) : c.Balanced g m := by
  have hc := h.sound.congr hg hb
  have hm : c.maxOrder = a.maxOrder := congrArg BuddyGeometry.maxOrder hg
  have hbm (o : Nat) : c.bitmap o = a.bitmap o := by rw [bitmap, hb]; rfl
  have hf := freeBlocks_of_bitmaps h.sound hg hb
  refine ⟨hg.trans h.geometry, hc, by rw [hf, hm]; exact h.tiles, by rw [hf, hm]; exact h.coalesced, fun o => ?_⟩
  rw [ExactAt, hs, hbm]
  exact h.summary o

theorem setSummary_getLsbD (a : BuddyArenaInner) {o : Nat} (ho : o < 64) (o' : Nat) :
    (a.setSummary o).nonemptyOrders.getLsbD o' = (a.nonemptyOrders.getLsbD o' || decide (o' = o)) :=
  getLsbD_set ho _ _

theorem clearSummary_getLsbD (a : BuddyArenaInner) {o : Nat} (ho : o < 64) (o' : Nat) :
    (a.clearSummary o).nonemptyOrders.getLsbD o' = (a.nonemptyOrders.getLsbD o' && decide (o' ≠ o)) :=
  getLsbD_clear ho _ _

theorem Balanced.publish_freeBlocks {a : BuddyArenaInner} {b : Block} {m : Multiset Block}
    (h : a.Balanced g (b ::ₘ m)) :
    b ∉ a.freeBlocks ∧ ((a.setSummary b.order).freeBlock b.order b.index).Sound ∧
      ((a.setSummary b.order).freeBlock b.order b.index).freeBlocks = insert b a.freeBlocks := by
  have hin := h.inside
  have hnf := h.notMem_freeBlocks (start_mem_units b) (start_mem_units b)
  have hbit : a.freeBit b = false := by
    rw [mem_freeBlocks h.sound, Bool.not_eq_true] at hnf
    exact hnf
  have hs : (a.setSummary b.order).Sound := h.sound.congr rfl rfl
  have hs' := freeBlock_sound hs hin hbit
  exact ⟨hnf, hs', freeBlocks_insert h.sound hs' (freeBlock_freeBit hs hin)⟩

/-- Publishing a block whose buddy is not free: the summary bit first, then
the block's own bit. -/
theorem Balanced.publish {a : BuddyArenaInner} {b : Block} {m : Multiset Block} (h : a.Balanced g (b ::ₘ m))
    (hbuddy : b.order < a.maxOrder → b.buddy ∉ a.freeBlocks) :
    ((a.setSummary b.order).freeBlock b.order b.index).Balanced g m := by
  have hin := h.inside
  have hs : (a.setSummary b.order).Sound := h.sound.congr rfl rfl
  obtain ⟨hnf, hs', hf⟩ := h.publish_freeBlocks
  have ht := h.tiles
  refine ⟨h.geometry, hs', ?_, ?_, ?_⟩
  · rw [hf, Finset.insert_val_of_notMem hnf, Multiset.cons_add, ← Multiset.add_cons]
    exact ht
  · rw [hf]
    exact h.coalesced.insert hbuddy
  · intro o
    have hlt : b.order < 64 := hin.1.trans_lt a.maxOrder_lt_bits
    have hbm := bitmap_setBitmap hs hin.1 ((a.bitmap b.order).free b.index) o
    change _ ↔ ∃ i, (((a.setSummary b.order).setBitmap b.order ((a.bitmap b.order).free b.index)).bitmap o).bit i = true
    rw [hbm]
    change (a.setSummary b.order).nonemptyOrders.getLsbD o = true ↔ _
    rw [setSummary_getLsbD a hlt]
    by_cases ho : o = b.order
    · rw [if_pos ho, free_bit _ (slot_lt h.sound hin)]
      simp only [ho, decide_true, Bool.or_true, true_iff]
      exact ⟨b.index, update_self _ _ _⟩
    · rw [if_neg ho]
      change _ ↔ ∃ i, (a.bitmap o).bit i = true
      rw [decide_eq_false ho, Bool.or_false]
      exact h.summary o

/-- The state between clearing the bit of a free block and repairing the
summary of its order. -/
theorem maybeClearSummary_exactAt {a : BuddyArenaInner} (ha : a.Sound) {o : Nat} (ho : o ≤ a.maxOrder)
    (hset : a.nonemptyOrders.getLsbD o = true) (hex : ∀ o', o' ≠ o → a.ExactAt o') (o' : Nat) :
    (a.maybeClearSummary o).ExactAt o' := by
  have hlt : o < 64 := ho.trans_lt a.maxOrder_lt_bits
  have hany := anyFree_iff (a.bitmap o) (ha.padding o)
  unfold maybeClearSummary
  split
  next h =>
    by_cases he : o' = o
    · rw [he]
      exact ⟨fun _ => hany.mp h, fun _ => hset⟩
    · exact hex o' he
  next h =>
    change (a.clearSummary o).nonemptyOrders.getLsbD o' = true ↔ ∃ i, (a.bitmap o').bit i = true
    rw [clearSummary_getLsbD a hlt]
    by_cases he : o' = o
    · rw [he]
      simp only [ne_eq, not_true_eq_false, decide_false, Bool.and_false, Bool.false_eq_true, false_iff]
      exact fun hex => h (hany.mpr hex)
    · have h' := hex o' he
      rw [ExactAt] at h'
      simpa [he] using h'

theorem claim_freeBlocks {a : BuddyArenaInner} (ha : a.Sound) {b : Block} (hb : a.freeBit b = true) {bm : AtomicBitmap}
    (hs : (a.setBitmap b.order bm).Sound) (hbit : bm.bit = update (a.bitmap b.order).bit b.index false) :
    ((a.setBitmap b.order bm).maybeClearSummary b.order).Sound ∧
      ((a.setBitmap b.order bm).maybeClearSummary b.order).freeBlocks = a.freeBlocks.erase b := by
  have hf := freeBlocks_erase ha hs (setBitmap_freeBit ha (inside_of_freeBit ha hb).1 hbit)
  obtain ⟨hbs, hg⟩ := maybeClearSummary_bitmaps (a.setBitmap b.order bm) b.order
  have hs' := hs.congr hg hbs
  refine ⟨hs', ?_⟩
  rw [← hf]
  exact freeBlocks_of_bitmaps hs hg hbs

theorem Balanced.claim {a : BuddyArenaInner} {m : Multiset Block} (h : a.Balanced g m) {b : Block}
    (hb : a.freeBit b = true) {bm : AtomicBitmap} (hs : (a.setBitmap b.order bm).Sound)
    (hbit : bm.bit = update (a.bitmap b.order).bit b.index false) :
    ((a.setBitmap b.order bm).maybeClearSummary b.order).Balanced g (b ::ₘ m) := by
  have hin := inside_of_freeBit h.sound hb
  have hmem := (mem_freeBlocks h.sound).mpr hb
  obtain ⟨hs', hf'⟩ := claim_freeBlocks h.sound hb hs hbit
  have hg := (maybeClearSummary_bitmaps (a.setBitmap b.order bm) b.order).2
  have hmax : ((a.setBitmap b.order bm).maybeClearSummary b.order).maxOrder = a.maxOrder :=
    congrArg BuddyGeometry.maxOrder hg
  refine ⟨hg.trans h.geometry, hs', ?_, ?_, ?_⟩
  · rw [hf', hmax, Finset.erase_val, Multiset.add_cons, ← Multiset.cons_add, Multiset.cons_erase hmem]
    exact h.tiles
  · rw [hf', hmax]
    exact h.coalesced.subset (Finset.erase_subset _ _)
  · refine maybeClearSummary_exactAt hs hin.1 ((h.summary b.order).mpr ⟨b.index, hb⟩) fun o ho => ?_
    change a.nonemptyOrders.getLsbD o = true ↔ _
    rw [bitmap_setBitmap h.sound hin.1, if_neg ho]
    exact h.summary o

theorem Balanced.setBitmap_same {a : BuddyArenaInner} {m : Multiset Block} (h : a.Balanced g m) {o : Nat}
    (ho : o ≤ a.maxOrder) {bm : AtomicBitmap} (hs : (a.setBitmap o bm).Sound)
    (hbit : bm.bit = (a.bitmap o).bit) : (a.setBitmap o bm).Balanced g m := by
  have hf := freeBlocks_congr h.sound hs (setBitmap_freeBit_same h.sound ho hbit)
  refine ⟨h.geometry, hs, by rw [hf]; exact h.tiles, by rw [hf]; exact h.coalesced, fun o' => ?_⟩
  change a.nonemptyOrders.getLsbD o' = true ↔ _
  rw [bitmap_setBitmap h.sound ho]
  split
  next he => rw [hbit, he]; exact h.summary o
  next => exact h.summary o'

theorem tryClaimExact_bit_of_clear {b : AtomicBitmap} {slot : Nat} (h : slot < b.slotCount)
    (hb : b.bit slot = false) : (b.tryClaimExact slot).2.bit = b.bit := by
  rw [tryClaimExact_bit b h, ← hb]
  exact update_eq_self slot b.bit

theorem tryAllocateFromOrders_balanced (summary : Option Word) (orders : List Nat) {a : BuddyArenaInner}
    {m : Multiset Block} (h : a.Balanced g m) (ho : ∀ o ∈ orders, o ≤ a.maxOrder) :
    (∀ o i, (tryAllocateFromOrders summary orders a).1 = some (o, i) →
      o ∈ orders ∧ (tryAllocateFromOrders summary orders a).2.Balanced g (⟨o, i⟩ ::ₘ m)) ∧
    ((tryAllocateFromOrders summary orders a).1 = none →
      (tryAllocateFromOrders summary orders a).2.Balanced g m) := by
  induction orders generalizing a with
  | nil => exact ⟨fun o i he => by simp [tryAllocateFromOrders] at he, fun _ => h⟩
  | cons order orders ih =>
      simp only [tryAllocateFromOrders]
      have hord : order ≤ a.maxOrder := ho order List.mem_cons_self
      split
      next =>
        obtain ⟨h₁, h₂⟩ := ih h fun o hm => ho o (List.mem_cons_of_mem _ hm)
        exact ⟨fun o i he => ⟨List.mem_cons_of_mem _ (h₁ o i he).1, (h₁ o i he).2⟩, h₂⟩
      next =>
        have hc := (a.bitmap order).tryAlloc_claimed
        have hs := setBitmap_claimed_sound h.sound hc
        cases hr : (a.bitmap order).tryAlloc.1 with
        | some idx =>
            obtain ⟨hset, hbit⟩ := hc.some_spec idx hr
            refine ⟨?_, fun he => by simp at he⟩
            rintro o i ⟨⟩
            exact ⟨List.mem_cons_self, h.claim (b := ⟨order, idx⟩) hset hs hbit⟩
        | none =>
            have hb := h.setBitmap_same hord hs (hc.none_spec hr)
            obtain ⟨h₁, h₂⟩ := ih hb fun o hm => ho o (List.mem_cons_of_mem _ hm)
            exact ⟨fun o i he => ⟨List.mem_cons_of_mem _ (h₁ o i he).1, (h₁ o i he).2⟩, h₂⟩

/-- A split publishes the right half and keeps the left one, whose units the
right half's buddy would need. -/
theorem splitStep_balanced {a : BuddyArenaInner} {m : Multiset Block} {child idx : Nat}
    (h : a.Balanced g (⟨child + 1, idx⟩ ::ₘ m)) :
    ((a.setSummary child).freeBlock child (idx * 2 + 1)).Balanced g (⟨child, idx * 2⟩ ::ₘ m) := by
  have hkids := h.retile (cover_children child idx m)
  refine hkids.publish fun _ => ?_
  have hbud : Block.buddy ⟨child, idx * 2 + 1⟩ = ⟨child, idx * 2⟩ := by
    rw [← buddy_buddy ⟨child, idx * 2⟩]
    simp only [buddy, Nat.xor_one_of_even (show Even (idx * 2) by simp)]
  rw [hbud]
  refine h.notMem_freeBlocks (u := idx * 2 * 2 ^ child) ?_ (start_mem_units ⟨child, idx * 2⟩)
  rw [← units_children]
  exact Multiset.mem_add.mpr (Or.inl (start_mem_units ⟨child, idx * 2⟩))

theorem splitLoop_balanced (target order : Nat) (idx steps : Nat) {a : BuddyArenaInner} {m : Multiset Block}
    (h : a.Balanced g (⟨order, idx⟩ ::ₘ m)) (ht : target ≤ order) :
    (splitLoop target order idx steps a).2.2.Balanced g
      (⟨(splitLoop target order idx steps a).1.1, (splitLoop target order idx steps a).1.2⟩ ::ₘ m) := by
  induction order generalizing idx steps a with
  | zero => exact h
  | succ child ih =>
      rw [splitLoop]
      split
      next hgt => exact ih (idx * 2) (steps + 1) (splitStep_balanced h) (by omega)
      next hgt => exact h

theorem mergeStep_balanced {a : BuddyArenaInner} {m : Multiset Block} {order idx : Nat}
    (h : a.Balanced g (⟨order, idx⟩ ::ₘ m)) (hlt : order < a.maxOrder) (hset : a.freeBit ⟨order, idx ^^^ 1⟩ = true) :
    ((a.claimExact order (idx ^^^ 1)).maybeClearSummary order).Balanced g (⟨order + 1, idx / 2⟩ ::ₘ m) ∧
      ((a.claimExact order (idx ^^^ 1)).maybeClearSummary order).freeBlocks =
        a.freeBlocks.erase ⟨order, idx ^^^ 1⟩ := by
  have hbin : Block.Inside a.maxOrder ⟨order, idx ^^^ 1⟩ := h.inside.buddy hlt
  have hs : (a.claimExact order (idx ^^^ 1)).Sound := claimExact_sound h.sound hbin
  have hbit := tryClaimExact_bit (a.bitmap order) (slot_lt h.sound hbin)
  have hc := h.claim (b := ⟨order, idx ^^^ 1⟩) hset hs hbit
  exact ⟨hc.retile (k := ⟨order + 1, idx / 2⟩ ::ₘ m) (cover_parent ⟨order, idx⟩ m),
    (claim_freeBlocks h.sound hset hs hbit).2⟩

theorem mergeStep_maxOrder (a : BuddyArenaInner) (order i : Nat) :
    ((a.claimExact order i).maybeClearSummary order).maxOrder = a.maxOrder :=
  congrArg BuddyGeometry.maxOrder (maybeClearSummary_bitmaps (a.claimExact order i) order).2

theorem keepStep_balanced {a : BuddyArenaInner} {m : Multiset Block} {order idx : Nat}
    (h : a.Balanced g (⟨order, idx⟩ ::ₘ m)) (hlt : order < a.maxOrder) (hclear : a.freeBit ⟨order, idx ^^^ 1⟩ = false) :
    (a.claimExact order (idx ^^^ 1)).Balanced g (⟨order, idx⟩ ::ₘ m) ∧
      (a.claimExact order (idx ^^^ 1)).freeBlocks = a.freeBlocks := by
  have hbin : Block.Inside a.maxOrder ⟨order, idx ^^^ 1⟩ := h.inside.buddy hlt
  have hs : (a.claimExact order (idx ^^^ 1)).Sound := claimExact_sound h.sound hbin
  have hsame := tryClaimExact_bit_of_clear (slot_lt h.sound hbin) hclear
  exact ⟨h.setBitmap_same hlt.le hs hsame,
    freeBlocks_congr h.sound hs (setBitmap_freeBit_same h.sound hlt.le hsame)⟩

theorem coalesceLoop_balanced (above order idx : Nat) {a : BuddyArenaInner} {m : Multiset Block}
    (h : a.Balanced g (⟨order, idx⟩ ::ₘ m)) (habove : above = a.maxOrder - order) :
    (coalesceLoop above order idx a).2.Balanced g
      (⟨(coalesceLoop above order idx a).1.1, (coalesceLoop above order idx a).1.2⟩ ::ₘ m) ∧
    ((coalesceLoop above order idx a).1.1 < (coalesceLoop above order idx a).2.maxOrder →
      Block.buddy ⟨(coalesceLoop above order idx a).1.1, (coalesceLoop above order idx a).1.2⟩ ∉
        (coalesceLoop above order idx a).2.freeBlocks) := by
  induction above generalizing order idx a with
  | zero =>
      refine ⟨h, fun hlt => ?_⟩
      simp only [coalesceLoop] at hlt
      omega
  | succ above ih =>
      rw [coalesceLoop]
      have hlt : order < a.maxOrder := by omega
      simp only [if_pos hlt, tryClaimExact_fst]
      split
      next hset =>
        refine ih (order + 1) (idx / 2) ((mergeStep_balanced h hlt hset).1.congr rfl rfl rfl) ?_
        have hmax := mergeStep_maxOrder a order (idx ^^^ 1)
        change above = ((a.claimExact order (idx ^^^ 1)).maybeClearSummary order).maxOrder - (order + 1)
        omega
      next hclear =>
        rw [Bool.not_eq_true] at hclear
        obtain ⟨hbal, hfree⟩ := keepStep_balanced h hlt hclear
        refine ⟨hbal, fun _ => ?_⟩
        change Block.buddy ⟨order, idx⟩ ∉ (a.claimExact order (idx ^^^ 1)).freeBlocks
        rw [hfree, mem_freeBlocks h.sound, Bool.not_eq_true]
        exact hclear

end ArenaAlligator.BuddyArenaInner
