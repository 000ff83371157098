import ArenaAlligator.LiveBytes
import ArenaAlligator.MeteredCalls
import Mathlib.Data.ZMod.Basic

namespace ArenaAlligator

open Usize MeteredCalls

abbrev Wrapping : Type := ZMod (2 ^ usizeBits)

theorem cast_fetchAdd (x n : Nat) : (fetchAdd x n : Wrapping) = x + n := by
  rw [fetchAdd, ZMod.natCast_mod, Nat.cast_add]

theorem cast_fetchSub (x : Nat) {n : Nat} (h : n ≤ 2 ^ usizeBits) : (fetchSub x n : Wrapping) = x - n := by
  rw [fetchSub, ZMod.natCast_mod, Nat.cast_add, Nat.cast_sub h, ZMod.natCast_self, zero_sub, sub_eq_add_neg]

def MetricsState.counters (m : MetricsState) : Counters Wrapping :=
  ⟨m.allocationsOk, m.allocationsFailed, m.frees, m.bytesLive⟩

namespace MetricsState

variable (m : MetricsState)

theorem counters_recordAllocFailure :
    m.recordAllocFailure.counters = { m.counters with failed := m.counters.failed + 1 } := by
  simp [counters, recordAllocFailure, cast_fetchAdd]

theorem counters_addAllocationsOk :
    m.addAllocationsOk.counters = { m.counters with ok := m.counters.ok + 1 } := by
  simp [counters, addAllocationsOk, cast_fetchAdd]

theorem counters_addBytesLive (n : Nat) :
    (m.addBytesLive n).counters = { m.counters with bytes := m.counters.bytes + n } := by
  simp [counters, addBytesLive, cast_fetchAdd]

theorem counters_addFrees : m.addFrees.counters = { m.counters with frees := m.counters.frees + 1 } := by
  simp [counters, addFrees, cast_fetchAdd]

theorem counters_subBytesLive {n : Nat} (h : n ≤ 2 ^ usizeBits) :
    (m.subBytesLive n).counters = { m.counters with bytes := m.counters.bytes - n } := by
  simp [counters, subBytesLive, cast_fetchSub _ h]

end MetricsState

end ArenaAlligator

namespace ArenaAlligator.FixedThreads

open Function AtomicBitmap BitmapRefinement Runs Usize MeteredCalls

def Pc.stage (c : Nat) : Pc → Stage
  | idle => .idle
  | addCursor | loadWord _ _ | claimBit _ _ _ | recordFailure | zeroSlot _ | addAllocationsOk _ => .searching
  | addBytesLive _ => .recorded c
  | handOut _ => .handing c
  | scrub _ | free _ | addFrees => .releasing c
  | subBytesLive => .freed c

theorem resume_stage (c : Nat) (q : SlotThreads.Pc) (e : SlotThreads.Effect) : (resume q e).stage c = .searching := by
  cases q <;> cases e <;> rfl

theorem advance_entry {c : Nat} {a : ArenaInner} (hcapacity : a.slotCapacity = c) (hc : c ≤ 2 ^ usizeBits) (p : Pc)
    (hret : ∀ slotIdx, p ≠ .handOut slotIdx) :
    Entry a.metrics.counters (p.stage c) (advance a p).1.metrics.counters ((advance a p).2.stage c) := by
  cases p with
  | idle => exact .quiet _
  | addCursor | loadWord | claimBit =>
      simp only [advance, scan, resume_stage]
      exact .quiet _
  | recordFailure =>
      simp only [advance, MetricsState.counters_recordAllocFailure]
      exact .failed
  | zeroSlot slotIdx =>
      simp only [advance, a.zeroOnAllocate_metrics]
      exact .quiet _
  | addAllocationsOk slotIdx =>
      simp only [advance, MetricsState.counters_addAllocationsOk]
      exact .ok c
  | addBytesLive slotIdx =>
      simp only [advance, hcapacity, MetricsState.counters_addBytesLive]
      exact .add c
  | handOut slotIdx => exact absurd rfl (hret slotIdx)
  | scrub slotIdx =>
      simp only [advance, a.scrubOnRelease_metrics]
      exact .quiet _
  | free slotIdx => exact .quiet _
  | addFrees =>
      simp only [advance, MetricsState.counters_addFrees]
      exact .free c
  | subBytesLive =>
      simp only [advance, hcapacity, MetricsState.counters_subBytesLive _ hc]
      exact .sub c

variable {τ : Type} [DecidableEq τ]

def view (c : Nat) (s : State τ) : Meter Wrapping τ where
  counters := s.arena.metrics.counters
  live := (s.live : Multiset Nat).map fun _ => c
  stage t := (s.pc t).stage c

def label (s : State τ) : Action τ → Option Call
  | .allocate _ => some .allocate
  | .release _ _ => some .release
  | .tick t =>
      match s.pc t with
      | .handOut _ => some .handOut
      | _ => none

theorem stage_update (c : Nat) (pc : τ → Pc) (t : τ) (p : Pc) :
    (fun u => (update pc t p u).stage c) = update (fun u => (pc u).stage c) t (p.stage c) := by
  funext u
  exact apply_update (fun _ => Pc.stage c) pc t p u

variable [Fintype τ]

theorem fixed_metered {n c : Nat} (hc : c ≤ 2 ^ usizeBits) :
    Metered (step : State τ → Action τ → Option (State τ)) (view c) label (Owning n c) where
  keeps h hs := step_owning h hs
  move := by
    intro s x s' h hs
    cases step_cases hs with
    | allocate t p hidle hp =>
        have hp' : p.stage c = .searching := by rcases hp with rfl | rfl <;> rfl
        simp only [view, stage_update, hp']
        exact .allocate t (congrArg (Pc.stage c) hidle)
    | release t slotIdx hidle hlive =>
        simp only [view, stage_update]
        rw [← Multiset.coe_erase, Multiset.map_erase_of_mem _ _ hlive]
        have hsize : c ∈ (s.live : Multiset Nat).map fun _ => c := Multiset.mem_map_of_mem (fun _ => c) hlive
        exact .release t c (congrArg (Pc.stage c) hidle) hsize
    | handOut t slotIdx hpc =>
        simp only [view, stage_update, label, hpc]
        rw [← Multiset.cons_coe, Multiset.map_cons]
        exact .handOut t c (congrArg (Pc.stage c) hpc)
    | advance t hidle hret =>
        have hlabel : label s (.tick t) = none := by simp only [label]
        simp only [view, stage_update, hlabel]
        exact .record t _ _ (advance_entry h.slotCapacity hc (s.pc t) hret)

omit [Fintype τ] in
theorem step_bytesLive_lt {s s' : State τ} {x : Action τ} (h : s.arena.metrics.bytesLive < 2 ^ usizeBits)
    (hs : step s x = some s') : s'.arena.metrics.bytesLive < 2 ^ usizeBits := by
  cases step_cases hs with
  | allocate | release | handOut => exact h
  | advance t hidle hret =>
      cases (advance_counting s.arena (s.pc t)).booking with
      | quiet hbytes hcounted => exact hbytes.trans_lt h
      | add hbytes hp hcounted => exact hbytes.trans_lt (Nat.mod_lt _ (Nat.two_pow_pos _))
      | sub hbytes hcounted => exact hbytes.trans_lt (Nat.mod_lt _ (Nat.two_pow_pos _))

end ArenaAlligator.FixedThreads

namespace ArenaAlligator.BuddyThreads

open Function AlignedBlocks AlignedBlocks.Block BuddyArenaInner AtomicBitmap Runs BlockOwnership Usize MeteredCalls

def Claim.stage : Claim → Stage
  | split _ _ => .searching
  | coalesce _ => .idle

def Pc.stage (size : Block → Nat) : Pc → Stage
  | idle => .idle
  | loadSummary _ | addCursor _ | loadWord _ _ _ | claimBit _ _ _ _ | recordFailure => .searching
  | anyFree _ _ k | clearSummary _ k => k.stage
  | splitSummary _ _ _ _ | splitFree _ _ _ _ | recordSplits _ _ | zeroBlock _ | addAllocationsOk _ => .searching
  | addBytesLive b => .recorded (size b)
  | handOut b => .handing (size b)
  | addFrees b => .releasing (size b)
  | subBytesLive b => .freed (size b)
  | scrub _ | claimBuddy _ | recordCoalesce _ | publishSummary _ | publish _ => .idle

section Stages

variable (size : Block → Nat)

theorem stage_of_searching {p : Pc} (h : p.searching = true) : p.stage size = .searching := by
  cases p with
  | addCursor | loadWord | recordFailure => rfl
  | _ => cases h

theorem splitNext_stage (target : Nat) (b : Block) (steps : Nat) :
    (splitNext target b steps).stage size = .searching := by
  unfold splitNext
  split
  · split
    · rfl
    · split <;> rfl
  · split <;> rfl

theorem claim_resume_stage (k : Claim) : k.resume.stage size = k.stage := by
  cases k with
  | split target b => exact splitNext_stage size target b 0
  | coalesce b => rfl

theorem checkWord_stage (a : BuddyArenaInner) (order wordIdx : Nat) (k : Claim) :
    (checkWord a order wordIdx k).stage size = k.stage := by
  rw [checkWord]
  split <;> rfl

end Stages

theorem entry_of_eq {a c : BuddyArenaInner} {p q : Stage} (hmetrics : c.metrics = a.metrics) (hq : q = p) :
    Entry a.metrics.counters p c.metrics.counters q := by
  rw [hmetrics, hq]
  exact .quiet _

theorem advance_entry {a : BuddyArenaInner} {size : Block → Nat} (hsize : ∀ b : Block, a.blockSize b.order = size b)
    {p : Pc} (hp : ∀ b ∈ p.booked, size b ≤ 2 ^ usizeBits) (hret : ∀ b, p ≠ .handOut b) :
    Entry a.metrics.counters (p.stage size) (advance a p).1.metrics.counters ((advance a p).2.stage size) := by
  cases p with
  | handOut b => exact absurd rfl (hret b)
  | loadSummary target =>
      exact entry_of_eq rfl (stage_of_searching size (nextOrder_searching _ _ (afterPass_searching _ _ _) _))
  | addCursor s =>
      simp only [advance]
      split
      · exact entry_of_eq rfl (stage_of_searching size (next_searching a s))
      · exact entry_of_eq rfl (stage_of_searching size (visit_searching a s _ _))
  | loadWord s start i =>
      simp only [advance]
      split
      · exact entry_of_eq rfl (stage_of_searching size (visit_searching a s _ _))
      · exact .quiet _
  | claimBit s start i bit =>
      simp only [advance]
      split
      · exact entry_of_eq rfl (checkWord_stage size _ _ _ _)
      · exact .quiet _
  | anyFree order wordIdx k =>
      simp only [advance]
      split
      · exact entry_of_eq rfl (claim_resume_stage size k)
      · exact entry_of_eq rfl (checkWord_stage size _ _ _ k)
  | clearSummary order k => exact entry_of_eq rfl (claim_resume_stage size k)
  | splitFree target child idx steps => exact entry_of_eq rfl (splitNext_stage size _ _ _)
  | zeroBlock b => exact entry_of_eq (zeroOnAllocate_metrics a b.order b.index) rfl
  | scrub b => exact entry_of_eq (scrubOnRelease_metrics a b.order b.index) rfl
  | claimBuddy b =>
      simp only [advance]
      split
      · split
        · exact entry_of_eq rfl (checkWord_stage size _ _ _ _)
        · exact .quiet _
      · exact .quiet _
  | recordFailure =>
      simp only [advance, recordAllocFailure, MetricsState.counters_recordAllocFailure]
      exact .failed
  | addAllocationsOk b =>
      simp only [advance, MetricsState.counters_addAllocationsOk]
      exact .ok (size b)
  | addBytesLive b =>
      simp only [advance, hsize, MetricsState.counters_addBytesLive]
      exact .add (size b)
  | addFrees b =>
      simp only [advance, MetricsState.counters_addFrees]
      exact .free (size b)
  | subBytesLive b =>
      simp only [advance, hsize, MetricsState.counters_subBytesLive _ (hp b rfl)]
      exact .sub (size b)
  | idle | splitSummary | recordSplits | recordCoalesce | publishSummary | publish => exact .quiet _

variable {τ : Type} [DecidableEq τ] {g : BuddyGeometry}

def sizeOf (g : BuddyGeometry) (b : Block) : Nat := g.minBlockSize <<< b.order

def view (g : BuddyGeometry) (s : State τ) : Meter Wrapping τ where
  counters := s.arena.metrics.counters
  live := (s.live : Multiset Block).map (sizeOf g)
  stage t := (s.pc t).stage (sizeOf g)

def label (s : State τ) : Action τ → Option Call
  | .allocate _ _ => some .allocate
  | .release _ _ => some .release
  | .tick t =>
      match s.pc t with
      | .handOut _ => some .handOut
      | _ => none

theorem stage_update (size : Block → Nat) (pc : τ → Pc) (t : τ) (p : Pc) :
    (fun u => (update pc t p u).stage size) = update (fun u => (pc u).stage size) t (p.stage size) := by
  funext u
  exact apply_update (fun _ => Pc.stage size) pc t p u

variable [Fintype τ]

omit [DecidableEq τ] in
theorem Owning.booked_le {s : State τ} (h : Owning g s) {t : τ} {b : Block} (hb : b ∈ (s.pc t).booked) :
    sizeOf g b ≤ 2 ^ usizeBits := by
  have hmem : b ∈ counted s := by
    apply Multiset.mem_add.mpr
    right
    apply Multiset.mem_sum.mpr
    refine ⟨t, Finset.mem_univ t, ?_⟩
    rw [Option.mem_def.mp hb]
    exact Multiset.mem_singleton_self b
  have hle : s.arena.blockSize b.order ≤ bytesOf s.arena (counted s) :=
    Multiset.le_sum_of_mem (Multiset.mem_map_of_mem (fun b => s.arena.blockSize b.order) hmem)
  have htotal := hle.trans (h.bytesOf_le.trans g.totalSize_lt.le)
  rwa [blockSize, h.geometry] at htotal

theorem buddy_metered : Metered (step : State τ → Action τ → Option (State τ)) (view g) label (Owning g) where
  keeps h hs := step_owning h hs
  move := by
    intro s x s' h hs
    cases step_cases hs with
    | allocate t len p hidle hp =>
        have hp' : p.stage (sizeOf g) = .searching := by rcases hp with rfl | ⟨target, rfl⟩ <;> rfl
        simp only [view, stage_update, hp']
        exact .allocate t (congrArg (Pc.stage _) hidle)
    | release t b hidle hlive =>
        simp only [view, stage_update]
        rw [← Multiset.coe_erase, Multiset.map_erase_of_mem _ _ hlive]
        have hsize : sizeOf g b ∈ (s.live : Multiset Block).map (sizeOf g) := Multiset.mem_map_of_mem (sizeOf g) hlive
        exact .release t (sizeOf g b) (congrArg (Pc.stage _) hidle) hsize
    | handOut t b hpc =>
        simp only [view, stage_update, label, hpc]
        rw [← Multiset.cons_coe, Multiset.map_cons]
        exact .handOut t (sizeOf g b) (congrArg (Pc.stage _) hpc)
    | advance t hidle hret =>
        have hlabel : label s (.tick t) = none := by simp only [label]
        have hsize : ∀ b : Block, s.arena.blockSize b.order = sizeOf g b := by
          intro b
          rw [blockSize, h.geometry, sizeOf]
        simp only [view, stage_update, hlabel]
        exact .record t _ _ (advance_entry hsize (fun b hb => h.booked_le hb) hret)

def Pc.splitSteps : Pc → Nat
  | splitSummary _ _ _ n | splitFree _ _ _ n | recordSplits _ n => n
  | _ => 0

def Claim.joins : Claim → Nat
  | split _ _ => 0
  | coalesce _ => 1

def Pc.joins : Pc → Nat
  | anyFree _ _ k | clearSummary _ k => k.joins
  | recordCoalesce _ => 1
  | _ => 0

/-- What a thread has done to the number of blocks and not booked, and the
block that it holds. A split is booked after all its halves are free, a
coalesce after the buddy is claimed. -/
def Pc.worth (p : Pc) : Wrapping := p.splitSteps - p.joins - (bag p.held).card

def worth (a : BuddyArenaInner) : Wrapping := a.metrics.splits - a.metrics.coalesces - a.freeBlocks.card

section Worth

variable {a c : BuddyArenaInner} {p q : Pc}

structure Aside (a : BuddyArenaInner) (p : Pc) (r : BuddyArenaInner × Pc) : Prop where
  splits : r.1.metrics.splits = a.metrics.splits
  coalesces : r.1.metrics.coalesces = a.metrics.coalesces
  splitSteps : r.2.splitSteps = p.splitSteps
  joins : r.2.joins = p.joins

theorem Aside.of_metrics (hmetrics : c.metrics = a.metrics) (h : q.splitSteps = p.splitSteps ∧ q.joins = p.joins) :
    Aside a p (c, q) :=
  ⟨congrArg MetricsState.splits hmetrics, congrArg MetricsState.coalesces hmetrics, h.1, h.2⟩

theorem Aside.worth {r : BuddyArenaInner × Pc} (h : Aside a p r)
    (hblocks : r.1.freeBlocks.card + (bag r.2.held).card = a.freeBlocks.card + (bag p.held).card) :
    worth r.1 + r.2.worth = worth a + p.worth := by
  have hcast : (r.1.freeBlocks.card + (bag r.2.held).card : Wrapping) = a.freeBlocks.card + (bag p.held).card :=
    mod_cast congrArg (Nat.cast : Nat → Wrapping) hblocks
  rw [BuddyThreads.worth, BuddyThreads.worth, Pc.worth, Pc.worth, h.splits, h.coalesces, h.splitSteps, h.joins]
  calc _ = (a.metrics.splits - a.metrics.coalesces + p.splitSteps - p.joins : Wrapping) -
        (r.1.freeBlocks.card + (bag r.2.held).card) := by abel
    _ = _ := by rw [hcast]; abel

theorem Outcome.blocks {r : BuddyArenaInner × Pc} (h : Outcome a p r) (ha : a.Sound) (hp : Owned a p)
    (hsplit : ∀ target o i n, p ≠ .splitFree target o i n) (hmerge : ∀ b, p ≠ .claimBuddy b) :
    r.1.freeBlocks.card + (bag r.2.held).card = a.freeBlocks.card + (bag p.held).card := by
  cases h.effect with
  | quiet hf hr => rw [freeBlocks_congr ha h.sound hf, hr]
  | claim b hnone hb hf hr =>
      rw [freeBlocks_erase ha h.sound hf, hnone, hr]
      exact Finset.card_erase_add_one ((mem_freeBlocks ha).mpr hb)
  | split target o i n hp' => exact absurd hp' (hsplit target o i n)
  | merge b hp' => exact absurd hp' (hmerge b)
  | publish b hp' hf hr =>
      have hclear : b ∉ a.freeBlocks := by
        have hheld : p.held = some b := by rw [hp', Pc.held]
        rw [mem_freeBlocks ha, (hp b hheld).2 b _ (start_mem_units b) (start_mem_units b)]
        exact Bool.false_ne_true
      rw [freeBlocks_insert ha h.sound hf, hr, Finset.card_insert_of_notMem hclear, hp']
      rfl

theorem splitNext_splitSteps (target : Nat) (b : Block) (n : Nat) :
    (splitNext target b n).splitSteps = n ∧ (splitNext target b n).joins = 0 := by
  have hdone : (if n > 0 then Pc.recordSplits b n else .zeroBlock b).splitSteps = n ∧
      (if n > 0 then Pc.recordSplits b n else .zeroBlock b).joins = 0 := by
    split
    · exact ⟨rfl, rfl⟩
    · exact ⟨by simp only [Pc.splitSteps]; omega, rfl⟩
  unfold splitNext
  split
  · split
    · exact ⟨rfl, rfl⟩
    · exact hdone
  · exact hdone

theorem resume_joins (k : Claim) : k.resume.splitSteps = 0 ∧ k.resume.joins = k.joins := by
  cases k with
  | split target b => exact splitNext_splitSteps target b 0
  | coalesce b => exact ⟨rfl, rfl⟩

theorem checkWord_joins (a : BuddyArenaInner) (order wordIdx : Nat) (k : Claim) :
    (checkWord a order wordIdx k).splitSteps = 0 ∧ (checkWord a order wordIdx k).joins = k.joins := by
  rw [checkWord]
  split <;> exact ⟨rfl, rfl⟩

theorem searching_joins (h : p.searching = true) : p.splitSteps = 0 ∧ p.joins = 0 := by
  cases p with
  | addCursor | loadWord | recordFailure => exact ⟨rfl, rfl⟩
  | _ => cases h

theorem advance_aside (a : BuddyArenaInner) {p : Pc} (hsplit : ∀ target o i n, p ≠ .splitFree target o i n)
    (hmerge : ∀ b, p ≠ .claimBuddy b) (hsplits : ∀ b n, p ≠ .recordSplits b n)
    (hcoalesce : ∀ b, p ≠ .recordCoalesce b) : Aside a p (advance a p) := by
  cases p with
  | splitFree target o i n => exact absurd rfl (hsplit target o i n)
  | claimBuddy b => exact absurd rfl (hmerge b)
  | recordSplits b n => exact absurd rfl (hsplits b n)
  | recordCoalesce b => exact absurd rfl (hcoalesce b)
  | loadSummary target =>
      exact .of_metrics rfl (searching_joins (nextOrder_searching _ _ (afterPass_searching _ _ _) _))
  | addCursor s =>
      simp only [advance]
      split
      · exact .of_metrics rfl (searching_joins (next_searching a s))
      · exact .of_metrics rfl (searching_joins (visit_searching a s _ _))
  | loadWord s start i =>
      simp only [advance]
      split
      · exact .of_metrics rfl (searching_joins (visit_searching a s _ _))
      · exact ⟨rfl, rfl, rfl, rfl⟩
  | claimBit s start i bit =>
      simp only [advance]
      split
      · exact .of_metrics rfl (checkWord_joins _ _ _ _)
      · exact ⟨rfl, rfl, rfl, rfl⟩
  | anyFree order wordIdx k =>
      simp only [advance]
      split
      · exact .of_metrics rfl (resume_joins k)
      · exact .of_metrics rfl (checkWord_joins _ _ _ k)
  | clearSummary order k => exact .of_metrics rfl (resume_joins k)
  | zeroBlock b => exact .of_metrics (zeroOnAllocate_metrics a b.order b.index) ⟨rfl, rfl⟩
  | scrub b => exact .of_metrics (scrubOnRelease_metrics a b.order b.index) ⟨rfl, rfl⟩
  | _ => exact ⟨rfl, rfl, rfl, rfl⟩

theorem splitFree_worth (ha : a.Sound) (target child idx n : Nat) (hp : Owned a (.splitFree target child idx n)) :
    worth (advance a (.splitFree target child idx n)).1 + (advance a (.splitFree target child idx n)).2.worth =
      worth a + Pc.worth (.splitFree target child idx n) := by
  obtain ⟨hin, hnf⟩ := hp _ rfl
  have hkid : Block.Inside a.maxOrder ⟨child, idx * 2 + 1⟩ := hin.child (by omega)
  have hclear : a.freeBit ⟨child, idx * 2 + 1⟩ = false := by
    apply hnf _ _ _ (start_mem_units ⟨child, idx * 2 + 1⟩)
    rw [← units_children]
    exact Multiset.mem_add.mpr (Or.inr (start_mem_units ⟨child, idx * 2 + 1⟩))
  have hnotMem : (⟨child, idx * 2 + 1⟩ : Block) ∉ a.freeBlocks := by
    rw [mem_freeBlocks ha, hclear]
    exact Bool.false_ne_true
  have hcard : (a.freeBlock child (idx * 2 + 1)).freeBlocks.card = a.freeBlocks.card + 1 := by
    rw [freeBlocks_insert ha (freeBlock_sound ha hkid hclear) (freeBlock_freeBit ha hkid),
      Finset.card_insert_of_notMem hnotMem]
  obtain ⟨hsteps, hjoins⟩ := splitNext_splitSteps target ⟨child, idx * 2⟩ (n + 1)
  simp only [advance, worth, Pc.worth, hcard, hsteps, hjoins, splitNext_held]
  simp only [Pc.splitSteps, Pc.joins, Pc.held, bag_some, Multiset.card_singleton, Nat.cast_add, Nat.cast_one]
  rw [show (a.freeBlock child (idx * 2 + 1)).metrics = a.metrics from rfl]
  abel

theorem claimBuddy_worth (ha : a.Sound) (b : Block) (hp : Owned a (.claimBuddy b)) :
    worth (advance a (.claimBuddy b)).1 + (advance a (.claimBuddy b)).2.worth = worth a + Pc.worth (.claimBuddy b) := by
  simp only [advance]
  split
  next hlt =>
    have hin : b.buddy.Inside a.maxOrder := (hp b rfl).1.buddy hlt
    have hs : (a.claimExact b.order (b.index ^^^ 1)).Sound := claimExact_sound ha hin
    have hf : (a.claimExact b.order (b.index ^^^ 1)).freeBit = update a.freeBit b.buddy false :=
      claimExact_freeBit ha hin
    rw [tryClaimExact_fst]
    split
    next hset =>
      have hcard : (a.claimExact b.order (b.index ^^^ 1)).freeBlocks.card + 1 = a.freeBlocks.card := by
        rw [freeBlocks_erase ha hs hf]
        exact Finset.card_erase_add_one ((mem_freeBlocks ha).mpr hset)
      obtain ⟨hsteps, hjoins⟩ := checkWord_joins (a.claimExact b.order (b.index ^^^ 1)) b.order 0 (.coalesce b.parent)
      change worth (a.claimExact b.order (b.index ^^^ 1)) +
        (checkWord (a.claimExact b.order (b.index ^^^ 1)) b.order 0 (.coalesce b.parent)).worth = _
      simp only [worth, Pc.worth, ← hcard, hsteps, hjoins, checkWord_held, Claim.joins]
      simp only [Pc.splitSteps, Pc.joins, Pc.held, bag_some, Multiset.card_singleton, Nat.cast_add, Nat.cast_one]
      rw [show (a.claimExact b.order (b.index ^^^ 1)).metrics = a.metrics from rfl]
      abel
    next hclear =>
      rw [Bool.not_eq_true] at hclear
      have hsame : (a.claimExact b.order (b.index ^^^ 1)).freeBlocks = a.freeBlocks :=
        freeBlocks_congr ha hs (hf.trans (update_eq_self_iff.mpr hclear.symm))
      have haside : Aside a (.claimBuddy b) (a.claimExact b.order (b.index ^^^ 1), .publishSummary b) :=
        ⟨rfl, rfl, rfl, rfl⟩
      exact haside.worth (congrArg (fun F => F.card + 1) hsame)
  next => rfl

theorem advance_worth (ha : a.Sound) (hp : Owned a p) :
    worth (advance a p).1 + (advance a p).2.worth = worth a + p.worth := by
  have hout := advance_outcome ha p hp
  cases p with
  | splitFree target child idx n => exact splitFree_worth ha target child idx n hp
  | claimBuddy b => exact claimBuddy_worth ha b hp
  | recordSplits b n =>
      have hsplits : ((advance a (.recordSplits b n)).1.metrics.splits : Wrapping) = a.metrics.splits + n :=
        cast_fetchAdd _ _
      have hcoalesces : (advance a (.recordSplits b n)).1.metrics.coalesces = a.metrics.coalesces := rfl
      have hfree : (advance a (.recordSplits b n)).1.freeBlocks = a.freeBlocks := rfl
      rw [worth, hsplits, hcoalesces, hfree]
      simp only [advance, worth, Pc.worth, Pc.splitSteps, Pc.joins, Pc.held, Nat.cast_zero]
      abel
  | recordCoalesce b =>
      have hcoalesces : ((advance a (.recordCoalesce b)).1.metrics.coalesces : Wrapping) =
          a.metrics.coalesces + 1 := by
        rw [← Nat.cast_one]
        exact cast_fetchAdd _ _
      have hsplits : (advance a (.recordCoalesce b)).1.metrics.splits = a.metrics.splits := rfl
      have hfree : (advance a (.recordCoalesce b)).1.freeBlocks = a.freeBlocks := rfl
      rw [worth, hcoalesces, hsplits, hfree]
      simp only [advance, worth, Pc.worth, Pc.splitSteps, Pc.joins, Pc.held, Nat.cast_zero, Nat.cast_one]
      abel
  | _ =>
      exact (advance_aside a (by simp) (by simp) (by simp) (by simp)).worth (hout.blocks ha hp (by simp) (by simp))

end Worth

/-- The splits less the coalesces, less the blocks there are. -/
def balance (s : State τ) : Wrapping := worth s.arena - s.live.length + ∑ t, (s.pc t).worth

theorem step_balance {s s' : State τ} {x : Action τ} (h : Owning g s) (hs : step s x = some s') :
    balance s' = balance s := by
  rw [← add_zero (balance s)]
  cases step_cases hs with
  | allocate t len p hidle hp =>
      apply sum_trade Pc.worth
      rw [hidle, add_zero]
      rcases hp with rfl | ⟨target, rfl⟩ <;> rfl
  | release t b hidle hlive =>
      have hlength := List.length_erase_add_one hlive
      apply sum_trade Pc.worth
      rw [hidle, ← hlength]
      simp only [Pc.worth, Pc.splitSteps, Pc.joins, Pc.held, bag_some, bag_none, Multiset.card_singleton,
        Multiset.card_zero, Nat.cast_add, Nat.cast_zero, Nat.cast_one]
      abel
  | handOut t b hpc =>
      apply sum_trade Pc.worth
      rw [hpc, List.length_cons]
      simp only [Pc.worth, Pc.splitSteps, Pc.joins, Pc.held, bag_some, bag_none, Multiset.card_singleton,
        Multiset.card_zero, Nat.cast_add, Nat.cast_zero, Nat.cast_one]
      abel
  | advance t hidle hret =>
      have hworth := advance_worth h.sound (h.owned t)
      apply sum_trade Pc.worth
      calc worth (advance s.arena (s.pc t)).1 - s.live.length + (advance s.arena (s.pc t)).2.worth
          = worth (advance s.arena (s.pc t)).1 + (advance s.arena (s.pc t)).2.worth - s.live.length := by abel
        _ = worth s.arena - s.live.length + (s.pc t).worth + 0 := by rw [hworth]; abel

omit [DecidableEq τ] in
theorem balance_of_quiescent {s : State τ} (h : Quiescent s) : balance s = worth s.arena - s.live.length := by
  rw [balance, Finset.sum_eq_zero, add_zero]
  intro t _
  rw [h t]
  simp [Pc.worth, Pc.splitSteps, Pc.joins, Pc.held]

omit [DecidableEq τ] in
theorem start_balance (g : BuddyGeometry) (autoSpill : Bool) (initPolicy : InitPolicy) (memory : Memory) :
    balance (start g autoSpill initPolicy memory : State τ) = -1 := by
  rw [balance_of_quiescent fun _ => rfl]
  simp only [start, worth, build_freeBlocks, Finset.card_singleton, List.length_nil]
  simp [build, MetricsState.new]

/-- When no call is under way there are as many splits more than coalesces as
there are blocks more than one. -/
theorem splits_settle {autoSpill : Bool} {initPolicy : InitPolicy} {memory : Memory} {as : List (Action τ)}
    {s : State τ} (hr : run step (start g autoSpill initPolicy memory) as = some s) (hq : Quiescent s) :
    s.arena.metrics.splits + 1 ≡ s.arena.metrics.coalesces + (s.arena.freeBlocks.card + s.live.length)
      [MOD 2 ^ usizeBits] := by
  have hkeep := run_preserves (fun s => Owning g s ∧ balance s = -1)
    (fun _ _ _ h hs => ⟨step_owning h.1 hs, (step_balance h.1 hs).trans h.2⟩)
    ⟨start_owning g autoSpill initPolicy memory, start_balance g autoSpill initPolicy memory⟩ hr
  have hbalance := hkeep.2
  rw [balance_of_quiescent hq, worth] at hbalance
  rw [← ZMod.natCast_eq_natCast_iff]
  push_cast
  calc (s.arena.metrics.splits + 1 : Wrapping)
      = (s.arena.metrics.splits - s.arena.metrics.coalesces - s.arena.freeBlocks.card - s.live.length) + 1 +
          (s.arena.metrics.coalesces + (s.arena.freeBlocks.card + s.live.length)) := by abel
    _ = s.arena.metrics.coalesces + (s.arena.freeBlocks.card + s.live.length) := by rw [hbalance]; simp

end ArenaAlligator.BuddyThreads

namespace ArenaAlligator.MetricsSettle

open Lifecycle MetricsRuns Runs MeteredCalls LiveBytes

/-- The counters of an arena after a run without a call under way: against the
numbers of allocations called, of buffers returned and of releases called, and
the bytes of what is live. -/
structure Settled (m : MetricsState) (allocates handOuts releases bytes : Nat) : Prop where
  allocationsOk : m.allocationsOk ≡ handOuts [MOD 2 ^ usizeBits]
  allocations : m.allocationsOk + m.allocationsFailed ≡ allocates [MOD 2 ^ usizeBits]
  frees : m.frees ≡ releases [MOD 2 ^ usizeBits]
  bytesLive : m.bytesLive = bytes

def callsOf {σ α : Type} (step : σ → α → Option σ) (label : σ → α → Option Call) (k : Call) (s : σ)
    (as : List α) : Nat :=
  tally step (fun s a => decide (label s a = some k)) s as

variable {τ : Type} [DecidableEq τ] [Fintype τ]

theorem settled_of_metered {σ α : Type} {step : σ → α → Option σ} {view : σ → Meter Wrapping τ}
    {label : σ → α → Option Call} {P : σ → Prop} (h : Metered step view label P) {s t : σ} {as : List α}
    (hr : run step s as = some t) (hs : P s) (hfresh : (view s).counters = ⟨0, 0, 0, 0⟩) (hempty : (view s).live = 0)
    (hstart : ∀ u, (view s).stage u = .idle) (hidle : ∀ u, (view t).stage u = .idle) {m : MetricsState} {bytes : Nat}
    (hm : (view t).counters = m.counters) (hbytes : (view t).live.sum = bytes) (hlive : m.bytesLive < 2 ^ usizeBits)
    (hlt : bytes < 2 ^ usizeBits) :
    Settled m (callsOf step label .allocate s as) (callsOf step label .handOut s as)
      (callsOf step label .release s as) bytes := by
  obtain ⟨hok, hcalls, hfrees, hsum⟩ := h.settled hr hs hfresh hempty hstart hidle
  rw [hm] at hok hcalls hfrees hsum
  rw [hbytes] at hsum
  refine ⟨(ZMod.natCast_eq_natCast_iff _ _ _).mp hok, (ZMod.natCast_eq_natCast_iff _ _ _).mp ?_,
    (ZMod.natCast_eq_natCast_iff _ _ _).mp hfrees, ?_⟩
  · rw [Nat.cast_add]
    exact hcalls
  · have hmod : m.bytesLive ≡ bytes [MOD 2 ^ usizeBits] := (ZMod.natCast_eq_natCast_iff _ _ _).mp hsum
    exact Nat.ModEq.eq_of_lt_of_lt hmod hlive hlt

theorem fixed_settled {n c : Nat} (hn : 1 ≤ n) (hfits : n * c ≤ usizeMax) {autoSpill : Bool} {initPolicy : InitPolicy}
    {memory : Memory} {as : List (FixedThreads.Action τ)} {s : FixedThreads.State τ}
    (hr : run FixedThreads.step (FixedThreads.start (.build n c autoSpill initPolicy memory)) as = some s)
    (hq : ∀ t, s.pc t = .idle) :
    Settled s.arena.metrics
      (callsOf FixedThreads.step FixedThreads.label .allocate
        (FixedThreads.start (.build n c autoSpill initPolicy memory)) as)
      (callsOf FixedThreads.step FixedThreads.label .handOut
        (FixedThreads.start (.build n c autoSpill initPolicy memory)) as)
      (callsOf FixedThreads.step FixedThreads.label .release
        (FixedThreads.start (.build n c autoSpill initPolicy memory)) as)
      (s.live.length * c) := by
  have hstart := FixedThreads.start_owning (τ := τ) n c autoSpill initPolicy memory
  have hs := run_preserves (FixedThreads.Owning n c) (fun _ _ _ => FixedThreads.step_owning) hstart hr
  have hbytes := run_preserves (fun s : FixedThreads.State τ => s.arena.metrics.bytesLive < 2 ^ usizeBits)
    (fun _ _ _ => FixedThreads.step_bytesLive_lt) (Nat.two_pow_pos _) hr
  have hmax : usizeMax < 2 ^ usizeBits := by decide
  have hc : c ≤ 2 ^ usizeBits := (Nat.le_mul_of_pos_left c hn).trans (hfits.trans hmax.le)
  have hlive : s.live.length ≤ n := by
    have hcard := congrArg Multiset.card hs.slots
    simp only [Multiset.card_add, Multiset.coe_card, Multiset.card_range] at hcard
    omega
  apply settled_of_metered (FixedThreads.fixed_metered hc) hr hstart _ rfl (fun _ => rfl) _ rfl _ hbytes
    ((Nat.mul_le_mul_right c hlive).trans_lt (hfits.trans_lt hmax))
  · simp [FixedThreads.view, FixedThreads.start, ArenaInner.build, MetricsState.counters, MetricsState.new]
  · intro u
    simp only [FixedThreads.view, hq u]
    rfl
  · simp [FixedThreads.view]

theorem buddy_settled {g : BuddyGeometry} {autoSpill : Bool} {initPolicy : InitPolicy} {memory : Memory}
    {as : List (BuddyThreads.Action τ)} {s : BuddyThreads.State τ}
    (hr : run BuddyThreads.step (BuddyThreads.start g autoSpill initPolicy memory) as = some s)
    (hq : BuddyThreads.Quiescent s) :
    Settled s.arena.metrics
      (callsOf BuddyThreads.step BuddyThreads.label .allocate (BuddyThreads.start g autoSpill initPolicy memory) as)
      (callsOf BuddyThreads.step BuddyThreads.label .handOut (BuddyThreads.start g autoSpill initPolicy memory) as)
      (callsOf BuddyThreads.step BuddyThreads.label .release (BuddyThreads.start g autoSpill initPolicy memory) as)
      (s.live.map (BuddyThreads.sizeOf g)).sum := by
  have hstart := BuddyThreads.start_owning (τ := τ) g autoSpill initPolicy memory
  have hs := run_preserves (BuddyThreads.Counted g) (fun _ _ _ => BuddyThreads.step_counted)
    (BuddyThreads.start_counted g autoSpill initPolicy memory) hr
  have hle := hs.owning.bytesOf_le.trans_lt g.totalSize_lt
  have hcounted : BuddyThreads.counted s = s.live := by
    rw [BuddyThreads.counted, Finset.sum_eq_zero, add_zero]
    intro t _
    rw [hq t]
    rfl
  have hbytes : BuddyThreads.bytesOf s.arena (BuddyThreads.counted s) = (s.live.map (BuddyThreads.sizeOf g)).sum := by
    rw [hcounted, BuddyThreads.bytesOf, Multiset.map_coe, Multiset.sum_coe]
    simp only [BuddyArenaInner.blockSize, hs.owning.geometry]
    rfl
  apply settled_of_metered BuddyThreads.buddy_metered hr hstart _ rfl (fun _ => rfl) _ rfl _ (hs.bytesLive.trans_lt hle)
    (hbytes.symm.trans_lt hle)
  · simp [BuddyThreads.view, BuddyThreads.start, BuddyArenaInner.build, MetricsState.counters, MetricsState.new]
  · intro u
    simp only [BuddyThreads.view, hq u]
    rfl
  · simp [BuddyThreads.view]

/-- Whatever the interleaving, the counters are exact when no call is under
way: every allocation is counted once as a success or a failure, every release
once, and bytes_live is the size of what is live. In a buddy arena the splits
and the coalesces then account for the blocks there are. -/
theorem metrics_settle (b : Builder) (initPolicy : InitPolicy) (memory : Memory) (hb : Accepted memory b) :
    (∀ inner, b.arena initPolicy memory = .buddy inner →
      ∀ (as : List (BuddyThreads.Action τ)) (s : BuddyThreads.State τ),
        run BuddyThreads.step ⟨inner, [], fun _ => .idle⟩ as = some s → BuddyThreads.Quiescent s →
        Settled s.arena.metrics
          (callsOf BuddyThreads.step BuddyThreads.label .allocate ⟨inner, [], fun _ => .idle⟩ as)
          (callsOf BuddyThreads.step BuddyThreads.label .handOut ⟨inner, [], fun _ => .idle⟩ as)
          (callsOf BuddyThreads.step BuddyThreads.label .release ⟨inner, [], fun _ => .idle⟩ as)
          (s.live.map (BuddyThreads.sizeOf inner.geometry)).sum ∧
        s.arena.metrics.splits + 1 ≡ s.arena.metrics.coalesces + (s.arena.freeBlocks.card + s.live.length)
          [MOD 2 ^ usizeBits]) ∧
    (∀ inner, b.arena initPolicy memory = .fixed inner →
      ∀ (as : List (FixedThreads.Action τ)) (s : FixedThreads.State τ),
        run FixedThreads.step (FixedThreads.start inner) as = some s → (∀ t, s.pc t = .idle) →
        Settled s.arena.metrics
          (callsOf FixedThreads.step FixedThreads.label .allocate (FixedThreads.start inner) as)
          (callsOf FixedThreads.step FixedThreads.label .handOut (FixedThreads.start inner) as)
          (callsOf FixedThreads.step FixedThreads.label .release (FixedThreads.start inner) as)
          (s.live.length * inner.slotCapacity)) := by
  constructor
  · intro inner hinner as s hr hq
    cases hb with
    | fixed | rawFixed => cases hinner
    | buddy g autoSpill =>
        cases hinner
        exact ⟨buddy_settled hr hq, BuddyThreads.splits_settle hr hq⟩
    | rawBuddy g len =>
        cases hinner
        exact ⟨buddy_settled hr hq, BuddyThreads.splits_settle hr hq⟩
  · intro inner hinner as s hr hq
    cases hb with
    | fixed hbuild =>
        have hlayout := buildInner_layout hbuild
        cases hinner
        exact fixed_settled hlayout.count_pos (hlayout.bytes_le.trans hlayout.len_le) hr hq
    | rawFixed hbuild =>
        have hlayout := raw_build_layout hbuild
        cases hinner
        exact fixed_settled hlayout.count_pos (hlayout.bytes_le.trans hlayout.len_le) hr hq
    | buddy | rawBuddy => cases hinner

/-- The only slot is claimed again before its bytes are taken away, and then
both threads end their calls. -/
def reclaimedRun : List (FixedThreads.Action (Fin 2)) := reclaimed ++ [.tick 1, .tick 0, .tick 0, .tick 1]

def calmState : FixedThreads.State (Fin 2) :=
  (run FixedThreads.step (FixedThreads.start loneInner) reclaimedRun).getD (FixedThreads.start loneInner)

theorem calmState_reached : run FixedThreads.step (FixedThreads.start loneInner) reclaimedRun = some calmState :=
  run_eq_some_getD (by decide +kernel)

theorem metrics_settle_reclaimed :
    Accepted (fun _ => 0) loneSlot ∧ loneSlot.arena .uninit (fun _ => 0) = .fixed loneInner ∧
    (∀ t, calmState.pc t = .idle) ∧
    Settled calmState.arena.metrics 2 2 1 (calmState.live.length * loneInner.slotCapacity) := by
  have hidle : ∀ t, calmState.pc t = .idle := by decide +kernel
  have hcalls : ∀ k, callsOf FixedThreads.step FixedThreads.label k (FixedThreads.start loneInner) reclaimedRun =
      if k = .release then 1 else 2 := by
    intro k
    cases k <;> decide +kernel
  obtain ⟨-, hfixed⟩ := metrics_settle (τ := Fin 2) loneSlot .uninit (fun _ => 0) loneSlot_accepted
  have h := hfixed loneInner rfl reclaimedRun calmState calmState_reached hidle
  rw [hcalls, hcalls, hcalls] at h
  exact ⟨loneSlot_accepted, rfl, hidle, h⟩

end ArenaAlligator.MetricsSettle
