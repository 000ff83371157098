import ArenaAlligator.BuddyBalance
import ArenaAlligator.Runs

namespace ArenaAlligator.BuddyRuns

open Function AlignedBlocks AlignedBlocks.Block AtomicBitmap BuddyArenaInner Runs

variable {g : BuddyGeometry}

theorem splitDown_balanced {a : BuddyArenaInner} {m : Multiset Block} {o i t : Nat}
    (h : a.Balanced g (⟨o, i⟩ ::ₘ m)) (ht : t ≤ o) :
    (a.splitDown o i t).2.Balanced g (⟨(a.splitDown o i t).1.1, (a.splitDown o i t).1.2⟩ ::ₘ m) := by
  have hl := splitLoop_balanced t o i 0 h ht
  simp only [splitDown, recordSplits]
  split
  · exact hl.congr rfl rfl rfl
  · exact hl

theorem zeroOnAllocate_balanced {a : BuddyArenaInner} {m : Multiset Block} (h : a.Balanced g m) (o i : Nat) :
    (a.zeroOnAllocate o i).Balanced g m := by
  unfold zeroOnAllocate
  split
  · split
    · exact h
    · exact h.congr rfl rfl rfl
  · exact h

theorem scrubOnRelease_balanced {a : BuddyArenaInner} {m : Multiset Block} (h : a.Balanced g m) (o i : Nat) :
    (a.scrubOnRelease o i).Balanced g m ∧ (a.scrubOnRelease o i).maxOrder = a.maxOrder := by
  unfold scrubOnRelease
  split
  · exact ⟨h.congr rfl rfl rfl, rfl⟩
  · exact ⟨h, rfl⟩

theorem tryAllocate_balanced {a : BuddyArenaInner} {m : Multiset Block} (h : a.Balanced g m)
    (summary : Option Word) (t : Nat) :
    (∀ o i, (tryAllocateFromOrders summary (a.ordersFrom t) a).1 = some (o, i) →
      t ≤ o ∧ (tryAllocateFromOrders summary (a.ordersFrom t) a).2.Balanced g (⟨o, i⟩ ::ₘ m)) ∧
    ((tryAllocateFromOrders summary (a.ordersFrom t) a).1 = none →
      (tryAllocateFromOrders summary (a.ordersFrom t) a).2.Balanced g m) := by
  obtain ⟨h₁, h₂⟩ := tryAllocateFromOrders_balanced summary (a.ordersFrom t) h fun o ho =>
    (mem_ordersFrom.mp ho).2
  exact ⟨fun o i he => ⟨(mem_ordersFrom.mp (h₁ o i he).1).1, (h₁ o i he).2⟩, h₂⟩

theorem tryAllocateBlock_balanced {a : BuddyArenaInner} {m : Multiset Block} (h : a.Balanced g m) (t : Nat) :
    (∀ o i, (a.tryAllocateBlock t).1 = some (o, i) →
      t ≤ o ∧ (a.tryAllocateBlock t).2.Balanced g (⟨o, i⟩ ::ₘ m)) ∧
    ((a.tryAllocateBlock t).1 = none → (a.tryAllocateBlock t).2.Balanced g m) := by
  obtain ⟨hs, hn⟩ := tryAllocate_balanced h (some a.nonemptyOrders) t
  simp only [tryAllocateBlock]
  split
  next block hb =>
    refine ⟨?_, fun he => by simp at he⟩
    rintro o i ⟨⟩
    exact hs o i hb
  next hb => exact tryAllocate_balanced (hn hb) none t

theorem handOut_balanced {a : BuddyArenaInner} {m : Multiset Block} (h : a.Balanced g m) (len o i : Nat) :
    (a.handOut len o i).2.Balanced g m :=
  (zeroOnAllocate_balanced h o i).congr rfl rfl rfl

def blockOf (buf : Buffer) : Option Block :=
  match buf.allocation with
  | .buddy order blockIdx => some ⟨order, blockIdx⟩
  | .fixed _ => none

theorem allocate_balanced {a : BuddyArenaInner} {m : Multiset Block} (h : a.Balanced g m) (len : Nat) :
    (∀ buf, (a.allocate len).1 = .ok buf → ∃ b, blockOf buf = some b ∧ (a.allocate len).2.Balanced g (b ::ₘ m)) ∧
    (∀ e, (a.allocate len).1 = .error e → (a.allocate len).2.Balanced g m) := by
  rw [allocate]
  split
  next => exact ⟨fun buf he => (by simp at he), fun _ _ => h.congr rfl rfl rfl⟩
  next t _ =>
    obtain ⟨hs, hn⟩ := tryAllocateBlock_balanced h t
    simp only
    split
    next hb => exact ⟨fun buf he => (by simp at he), fun _ _ => (hn hb).congr rfl rfl rfl⟩
    next o i hb =>
      obtain ⟨hto, hbal⟩ := hs o i hb
      refine ⟨?_, fun e he => (by simp at he)⟩
      rintro buf ⟨⟩
      exact ⟨_, rfl, handOut_balanced (splitDown_balanced hbal hto) len _ _⟩

theorem releaseBlock_balanced {a : BuddyArenaInner} {m : Multiset Block} {b : Block}
    (h : a.Balanced g (b ::ₘ m)) : (a.releaseBlock b.order b.index).2.Balanced g m := by
  obtain ⟨hs, hmax⟩ := scrubOnRelease_balanced h b.order b.index
  obtain ⟨hl, hbud⟩ := coalesceLoop_balanced (a.maxOrder - b.order) b.order b.index hs (by rw [hmax])
  exact hl.publish hbud

theorem release_balanced {a : BuddyArenaInner} {m : Multiset Block} {b : Block} (h : a.Balanced g (b ::ₘ m)) :
    (a.release b.order b.index).2.Balanced g m :=
  releaseBlock_balanced (h.congr rfl rfl rfl)

theorem build_balanced (g : BuddyGeometry) (s : Bool) (p : InitPolicy) (mem : Memory) :
    (build g s p mem).Balanced g 0 := by
  have hroot := build_freeBlocks g s p mem
  refine ⟨rfl, build_sound g s p mem, ?_, ?_, fun o => ?_⟩
  · rw [hroot, add_zero]
    exact Tiles.root
  · rw [hroot]
    intro b hb hlt
    rw [Finset.mem_singleton] at hb
    subst hb
    exact absurd hlt (lt_irrefl _)
  · have hbit (i : Nat) := build_freeBit g s p mem ⟨o, i⟩
    change (1#64 <<< g.maxOrder).getLsbD o = true ↔ ∃ i, (build g s p mem).freeBit ⟨o, i⟩ = true
    rw [WordBits.getLsbD_mask (show g.maxOrder < 64 from g.maxOrder_lt)]
    simp only [hbit, Block.mk.injEq, decide_eq_true_eq]
    exact ⟨fun ho => ⟨0, ho, rfl⟩, fun ⟨_, ho, _⟩ => ho⟩

structure World where
  arena : BuddyArenaInner
  live : List Block

inductive Op
  | allocate (len : Nat)
  | release (b : Block)
deriving DecidableEq

/-- Lengths are non-zero usize values, and only a live block is released. -/
def step (w : World) : Op → Option World
  | .allocate len =>
      if 0 < len ∧ len ≤ usizeMax then
        let r := w.arena.allocate len
        match r.1 with
        | .ok buf => some ⟨r.2, (blockOf buf).toList ++ w.live⟩
        | .error _ => some ⟨r.2, w.live⟩
      else none
  | .release b =>
      if b ∈ w.live then some ⟨(w.arena.release b.order b.index).2, w.live.erase b⟩
      else none

def start (g : BuddyGeometry) (autoSpill : Bool) (initPolicy : InitPolicy) (memory : Memory) : World :=
  ⟨build g autoSpill initPolicy memory, []⟩

theorem step_balanced {w w' : World} {op : Op} (h : w.arena.Balanced g w.live) (hs : step w op = some w') :
    w'.arena.Balanced g w'.live := by
  cases op with
  | allocate len =>
      obtain ⟨hok, herr⟩ := allocate_balanced h len
      simp only [step] at hs
      split at hs
      · split at hs
        next buf hr =>
          obtain ⟨b, hb, hbal⟩ := hok buf hr
          cases hs
          simpa [hb] using hbal
        next e hr =>
          cases hs
          exact herr e hr
      · cases hs
  | release b =>
      simp only [step] at hs
      split at hs
      next hb =>
        cases hs
        have hp : (w.live : Multiset Block) = b ::ₘ (w.live.erase b : Multiset Block) := by
          rw [Multiset.cons_coe, Multiset.coe_eq_coe]
          exact List.perm_cons_erase hb
        rw [hp] at h
        exact release_balanced h
      · cases hs

theorem run_balanced {autoSpill : Bool} {initPolicy : InitPolicy} {memory : Memory} {w : World}
    (h : Reachable step (start g autoSpill initPolicy memory) w) : w.arena.Balanced g w.live :=
  h.invariant (fun w => w.arena.Balanced g w.live) (build_balanced g autoSpill initPolicy memory)
    fun _ _ _ hb hs => step_balanced hb hs

theorem byte_range_le {a : BuddyArenaInner} {b : Block} (hb : b.Inside a.maxOrder) :
    a.blockOffset b.order b.index + a.blockSize b.order ≤ a.geometry.totalSize := by
  have hp : 2 ^ (a.maxOrder - b.order) * 2 ^ b.order = 2 ^ a.maxOrder := by
    rw [← pow_add, Nat.sub_add_cancel hb.1]
  have hle := Nat.mul_le_mul_right (2 ^ b.order) (Nat.succ_le_of_lt hb.2)
  rw [hp] at hle
  have hle' := Nat.mul_le_mul_left a.geometry.minBlockSize hle
  rw [a.geometry.totalSize_eq, blockOffset, blockSize, Nat.shiftLeft_eq, Nat.shiftLeft_eq]
  calc b.index * (a.geometry.minBlockSize * 2 ^ b.order) + a.geometry.minBlockSize * 2 ^ b.order
      = a.geometry.minBlockSize * (b.index.succ * 2 ^ b.order) := by rw [Nat.succ_eq_add_one]; ring
    _ ≤ a.geometry.minBlockSize * 2 ^ a.maxOrder := hle'

theorem Balanced.freeBlocks_eq {a c : BuddyArenaInner} {m : Multiset Block} (ha : a.Balanced g m)
    (hc : c.Balanced g m) : a.freeBlocks = c.freeBlocks := by
  have hmax : c.maxOrder = a.maxOrder := congrArg BuddyGeometry.maxOrder (hc.geometry.trans ha.geometry.symm)
  exact coalesced_unique ha.tiles (hmax ▸ hc.tiles) ha.coalesced (hmax ▸ hc.coalesced)
    (fun b hm => (inside_of_freeBit ha.sound ((mem_freeBlocks ha.sound).mp hm)).1)
    (fun b hm => hmax ▸ (inside_of_freeBit hc.sound ((mem_freeBlocks hc.sound).mp hm)).1)

/-- The blocks outside determine the free bits and the summary. -/
theorem Balanced.canonical {a c : BuddyArenaInner} {m : Multiset Block} (ha : a.Balanced g m)
    (hc : c.Balanced g m) : (∀ o, (a.bitmap o).words = (c.bitmap o).words) ∧ a.nonemptyOrders = c.nonemptyOrders := by
  have hmax : c.maxOrder = a.maxOrder := congrArg BuddyGeometry.maxOrder (hc.geometry.trans ha.geometry.symm)
  have hfree := Balanced.freeBlocks_eq ha hc
  have hrow (o : Nat) : (a.bitmap o).bit = (c.bitmap o).bit := by
    funext i
    change a.freeBit ⟨o, i⟩ = c.freeBit ⟨o, i⟩
    rw [Bool.eq_iff_iff, ← mem_freeBlocks ha.sound, ← mem_freeBlocks hc.sound, hfree]
  refine ⟨fun o => ?_, BitVec.eq_of_getLsbD_eq fun o _ => ?_⟩
  · rcases Nat.lt_or_ge a.maxOrder o with ho | ho
    · rw [bitmap_of_gt ha.sound ho, bitmap_of_gt hc.sound (hmax ▸ ho)]
    · refine words_eq_of_bit_eq ?_ (hrow o)
      rw [ha.sound.slotCount o ho, hc.sound.slotCount o (hmax ▸ ho), hmax]
  · rw [Bool.eq_iff_iff]
    have h := ha.summary o
    rw [ExactAt, hrow o] at h
    exact h.trans (hc.summary o).symm

/-- In every state of every sequential run, the free and the live blocks tile
the arena, buddies are merged, the summary is exact and no debug assertion of
the bitmaps has failed. With nothing live, the arena is as built. -/
theorem sequential_run_sound (g : BuddyGeometry) (autoSpill : Bool) (initPolicy : InitPolicy) (memory : Memory)
    (w : World) (h : Reachable step (start g autoSpill initPolicy memory) w) :
    (∀ o i, w.arena.isBlockFree o i = true ↔ ⟨o, i⟩ ∈ w.arena.freeBlocks) ∧
    Tiles g.maxOrder (w.arena.freeBlocks.val + w.live) ∧
    (∀ b ∈ w.arena.freeBlocks.val + w.live,
      w.arena.blockOffset b.order b.index + w.arena.blockSize b.order ≤ g.totalSize) ∧
    (∀ o i, o < g.maxOrder → ¬(w.arena.isBlockFree o (2 * i) = true ∧ w.arena.isBlockFree o (2 * i + 1) = true)) ∧
    (∀ o, w.arena.nonemptyOrders.getLsbD o = true ↔ ∃ i, w.arena.isBlockFree o i = true) ∧
    (∀ o, (w.arena.bitmap o).asserts = true) ∧
    (w.live = [] →
      (∀ o ≤ g.maxOrder, (w.arena.bitmap o).words =
        ((build g autoSpill initPolicy memory).bitmap o).words) ∧
      w.arena.nonemptyOrders = (build g autoSpill initPolicy memory).nonemptyOrders) := by
  have hb := run_balanced h
  have hmax : w.arena.maxOrder = g.maxOrder := congrArg BuddyGeometry.maxOrder hb.geometry
  have hfree (o i : Nat) : w.arena.isBlockFree o i = true ↔ ⟨o, i⟩ ∈ w.arena.freeBlocks := by
    rw [isBlockFree_eq, mem_freeBlocks hb.sound]
  refine ⟨hfree, hmax ▸ hb.tiles, ?_, ?_, ?_, hb.sound.asserts, ?_⟩
  · intro b hm
    rw [← hb.geometry]
    exact byte_range_le (hb.tiles.inside hm)
  · rintro o i ho ⟨hl, hr⟩
    rw [hfree] at hl hr
    refine hb.coalesced _ hl (hmax ▸ ho) ?_
    simpa [buddy, Nat.xor_one_of_even (even_two_mul i)] using hr
  · intro o
    simp only [isBlockFree_eq]
    exact hb.summary o
  · intro hlive
    rw [hlive] at hb
    obtain ⟨hwords, hsummary⟩ := Balanced.canonical hb (build_balanced g autoSpill initPolicy memory)
    exact ⟨fun o _ => hwords o, hsummary⟩

def smallGeometry : BuddyGeometry where
  totalSize := 4096
  minBlockSize := 512
  maxOrder := 3
  alignment := 1
  capCapacity := false
  minBlockSize_pow := exists_two_pow_eq_512
  totalSize_eq := rfl
  totalSize_lt := by decide

def smallOps : List Op := [.allocate 600, .allocate 100, .allocate 5000, .allocate 2048, .release ⟨1, 0⟩]

def smallWorld : World :=
  (run step (start smallGeometry false .zero fun _ => 7) smallOps).getD (start smallGeometry false .zero fun _ => 7)

theorem smallWorld_reachable : Reachable step (start smallGeometry false .zero fun _ => 7) smallWorld :=
  ⟨smallOps, run_eq_some_getD (by decide +kernel)⟩

theorem sequential_run_sound_small :
    smallWorld.live = [⟨2, 1⟩, ⟨0, 2⟩] ∧ smallWorld.arena.isBlockFree 1 0 = true ∧
    Tiles 3 (smallWorld.arena.freeBlocks.val + smallWorld.live) :=
  ⟨by decide +kernel, by decide +kernel,
    (sequential_run_sound smallGeometry false .zero (fun _ => 7) smallWorld smallWorld_reachable).2.1⟩

end ArenaAlligator.BuddyRuns
