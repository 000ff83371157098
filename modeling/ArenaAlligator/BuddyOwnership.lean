import ArenaAlligator.BlockOwnership
import ArenaAlligator.BuddyThreads
import Mathlib.Algebra.BigOperators.Ring.Multiset

namespace ArenaAlligator.BuddyThreads

open Function AlignedBlocks AlignedBlocks.Block BuddyArenaInner AtomicBitmap Runs BlockOwnership

def Pc.searching : Pc → Bool
  | addCursor _ | loadWord _ _ _ | recordFailure => true
  | _ => false

theorem nextOrder_searching (target : Nat) (summary : Option Word) {exhausted : Pc}
    (h : exhausted.searching = true) (orders : List Nat) :
    (nextOrder target summary exhausted orders).searching = true := by
  induction orders with
  | nil => exact h
  | cons order rest ih =>
      rw [nextOrder]
      split
      · exact ih
      · rfl

theorem afterPass_searching (a : BuddyArenaInner) (target : Nat) (summary : Option Word) :
    (afterPass a target summary).searching = true := by
  cases summary with
  | none => rfl
  | some bits => exact nextOrder_searching target none rfl _

theorem next_searching (a : BuddyArenaInner) (s : Search) : (s.next a).searching = true :=
  nextOrder_searching _ _ (afterPass_searching _ _ _) _

theorem visit_searching (a : BuddyArenaInner) (s : Search) (start i : Nat) :
    (s.visit a start i).searching = true := by
  rw [Search.visit]
  split
  · rfl
  · exact next_searching a s

theorem held_of_searching {p : Pc} (h : p.searching = true) : p.held = none := by
  cases p with
  | addCursor | loadWord | recordFailure => rfl
  | _ => cases h

@[simp] theorem splitNext_held (target : Nat) (b : Block) (steps : Nat) : (splitNext target b steps).held = some b := by
  obtain ⟨order, index⟩ := b
  cases order with
  | zero =>
      simp only [splitNext]
      split <;> rfl
  | succ child =>
      simp only [splitNext]
      split
      · rfl
      · split <;> rfl

@[simp] theorem resume_held (k : Claim) : k.resume.held = some k.block := by
  cases k with
  | split target b => exact splitNext_held target b 0
  | coalesce b => rfl

@[simp] theorem checkWord_held (a : BuddyArenaInner) (order wordIdx : Nat) (k : Claim) :
    (checkWord a order wordIdx k).held = some k.block := by
  rw [checkWord]
  split <;> rfl

def Pc.passing : Pc → Bool
  | idle | addCursor _ | loadWord _ _ _ | recordFailure | anyFree _ _ _ | clearSummary _ _ | splitSummary _ _ _ _
  | recordSplits _ _ | zeroBlock _ | recordCoalesce _ => true
  | _ => false

theorem passing_of_searching {p : Pc} (h : p.searching = true) : p.passing = true := by
  cases p with
  | addCursor | loadWord | recordFailure => rfl
  | _ => cases h

@[simp] theorem splitNext_passing (target : Nat) (b : Block) (steps : Nat) :
    (splitNext target b steps).passing = true := by
  unfold splitNext
  split
  · split
    · rfl
    · split <;> rfl
  · split <;> rfl

@[simp] theorem resume_passing (k : Claim) : k.resume.passing = true := by
  cases k with
  | split target b => exact splitNext_passing target b 0
  | coalesce b => rfl

@[simp] theorem checkWord_passing (a : BuddyArenaInner) (order wordIdx : Nat) (k : Claim) :
    (checkWord a order wordIdx k).passing = true := by
  rw [checkWord]
  split <;> rfl

/-- What one atomic operation does to the free bits and to the block of its
thread. -/
inductive Effect (a : BuddyArenaInner) (p : Pc) (r : BuddyArenaInner × Pc) : Prop
  | quiet (hf : r.1.freeBit = a.freeBit) (hr : r.2.held = p.held)
  | claim (b : Block) (hp : p.held = none) (hb : a.freeBit b = true) (hf : r.1.freeBit = update a.freeBit b false)
      (hr : r.2.held = some b)
  | split (target o i steps : Nat) (hp : p = .splitFree target o i steps)
      (hf : r.1.freeBit = update a.freeBit ⟨o, i * 2 + 1⟩ true) (hr : r.2.held = some ⟨o, i * 2⟩)
  | merge (b : Block) (hp : p = .claimBuddy b) (hb : a.freeBit b.buddy = true)
      (hf : r.1.freeBit = update a.freeBit b.buddy false) (hr : r.2.held = some b.parent)
  | publish (b : Block) (hp : p = .publish b) (hf : r.1.freeBit = update a.freeBit b true) (hr : r.2.held = none)

structure Outcome (a : BuddyArenaInner) (p : Pc) (r : BuddyArenaInner × Pc) : Prop where
  geometry : r.1.geometry = a.geometry
  sound : r.1.Sound
  effect : Effect a p r

def Owned (a : BuddyArenaInner) (p : Pc) : Prop :=
  ∀ b, p.held = some b → b.Inside a.maxOrder ∧ ∀ c u, u ∈ b.units → u ∈ c.units → a.freeBit c = false

variable {a : BuddyArenaInner}

theorem Outcome.quiet (ha : a.Sound) {p : Pc} {r : BuddyArenaInner × Pc} (hg : r.1.geometry = a.geometry)
    (hb : r.1.freeBitmaps = a.freeBitmaps) (hr : r.2.held = p.held) : Outcome a p r := by
  refine ⟨hg, ha.congr hg hb, .quiet ?_ hr⟩
  funext b
  simp only [freeBit, bitmap, hb]

theorem addCursor_outcome (ha : a.Sound) (s : Search) : Outcome a (.addCursor s) (advance a (.addCursor s)) := by
  simp only [advance]
  split
  · exact .quiet ha rfl rfl (held_of_searching (next_searching a s))
  · have hc := (a.bitmap s.order).fetchAddCursor_claimed
    have hs := setBitmap_claimed_sound ha hc
    have hf := setBitmap_claimed_none ha hc rfl
    exact ⟨rfl, hs, .quiet hf (held_of_searching (visit_searching a s _ 0))⟩

theorem claimBit_outcome (ha : a.Sound) (s : Search) (start i bit : Nat) :
    Outcome a (.claimBit s start i bit) (advance a (.claimBit s start i bit)) := by
  have hc := (a.bitmap s.order).claimBit_claimed ((start + i) &&& (a.bitmap s.order).wordMask) bit
  simp only [advance]
  split
  next idx hr =>
    obtain ⟨hset, hf⟩ := setBitmap_claimed_some ha hc hr
    exact ⟨rfl, setBitmap_claimed_sound ha hc, .claim ⟨s.order, idx⟩ rfl hset hf (checkWord_held _ _ _ _)⟩
  next hr => exact ⟨rfl, setBitmap_claimed_sound ha hc, .quiet (setBitmap_claimed_none ha hc hr) rfl⟩

theorem splitFree_outcome (ha : a.Sound) (target child idx steps : Nat)
    (hp : Owned a (.splitFree target child idx steps)) :
    Outcome a (.splitFree target child idx steps) (advance a (.splitFree target child idx steps)) := by
  obtain ⟨hin, hnf⟩ := hp _ rfl
  have hkid : Block.Inside a.maxOrder ⟨child, idx * 2 + 1⟩ := hin.child (by omega)
  have hclear : a.freeBit ⟨child, idx * 2 + 1⟩ = false := by
    refine hnf _ _ ?_ (start_mem_units ⟨child, idx * 2 + 1⟩)
    rw [← units_children]
    exact Multiset.mem_add.mpr (Or.inr (start_mem_units ⟨child, idx * 2 + 1⟩))
  exact ⟨rfl, freeBlock_sound ha hkid hclear,
    .split target child idx steps rfl (freeBlock_freeBit ha hkid) (splitNext_held _ _ _)⟩

theorem claimBuddy_outcome (ha : a.Sound) (b : Block) (hp : Owned a (.claimBuddy b)) :
    Outcome a (.claimBuddy b) (advance a (.claimBuddy b)) := by
  simp only [advance]
  split
  next hlt =>
    have hin : b.buddy.Inside a.maxOrder := (hp b rfl).1.buddy hlt
    have hs : (a.claimExact b.order (b.index ^^^ 1)).Sound := claimExact_sound ha hin
    have hf : (a.claimExact b.order (b.index ^^^ 1)).freeBit = update a.freeBit b.buddy false :=
      claimExact_freeBit ha hin
    rw [tryClaimExact_fst]
    split
    next hset => exact ⟨rfl, hs, .merge b rfl hset hf (checkWord_held _ _ _ _)⟩
    next hclear =>
      refine ⟨rfl, hs, .quiet (hf.trans ?_) rfl⟩
      rw [Bool.not_eq_true] at hclear
      exact update_eq_self_iff.mpr hclear.symm
  next => exact .quiet ha rfl rfl rfl

theorem publish_outcome (ha : a.Sound) (b : Block) (hp : Owned a (.publish b)) :
    Outcome a (.publish b) (advance a (.publish b)) := by
  obtain ⟨hin, hnf⟩ := hp b rfl
  exact ⟨rfl, freeBlock_sound ha hin (hnf b _ (start_mem_units b) (start_mem_units b)),
    .publish b rfl (freeBlock_freeBit ha hin) rfl⟩

theorem advance_outcome (ha : a.Sound) (p : Pc) (hp : Owned a p) : Outcome a p (advance a p) := by
  cases p with
  | addCursor s => exact addCursor_outcome ha s
  | claimBit s start i bit => exact claimBit_outcome ha s start i bit
  | splitFree target child idx steps => exact splitFree_outcome ha target child idx steps hp
  | claimBuddy b => exact claimBuddy_outcome ha b hp
  | publish b => exact publish_outcome ha b hp
  | loadSummary target =>
      exact .quiet ha rfl rfl (held_of_searching (nextOrder_searching _ _ (afterPass_searching _ _ _) _))
  | loadWord s start i =>
      simp only [advance]
      split
      · exact .quiet ha rfl rfl (held_of_searching (visit_searching a s _ _))
      · exact .quiet ha rfl rfl rfl
  | anyFree order wordIdx k =>
      simp only [advance]
      split
      · exact .quiet ha rfl rfl (resume_held k)
      · exact .quiet ha rfl rfl (checkWord_held a _ _ k)
  | clearSummary order k => exact .quiet ha rfl rfl (resume_held k)
  | zeroBlock b => exact .quiet ha (zeroOnAllocate_bitmaps a _ _).1 (zeroOnAllocate_bitmaps a _ _).2 rfl
  | scrub b => exact .quiet ha (scrubOnRelease_bitmaps a _ _).1 (scrubOnRelease_bitmaps a _ _).2 rfl
  | idle | splitSummary | recordSplits | addAllocationsOk | addBytesLive | handOut | recordFailure | addFrees
  | subBytesLive | recordCoalesce | publishSummary => exact .quiet ha rfl rfl rfl

variable {τ : Type} [DecidableEq τ] {g : BuddyGeometry}

inductive Step (s : State τ) : Action τ → State τ → Prop
  | allocate (t : τ) (len : Nat) (p : Pc) (hidle : s.pc t = .idle)
      (hp : p = .recordFailure ∨ ∃ target, p = .loadSummary target) :
      Step s (.allocate t len) { s with pc := update s.pc t p }
  | release (t : τ) (b : Block) (hidle : s.pc t = .idle) (hb : b ∈ s.live) :
      Step s (.release t b) { s with live := s.live.erase b, pc := update s.pc t (.addFrees b) }
  | handOut (t : τ) (b : Block) (hpc : s.pc t = .handOut b) :
      Step s (.tick t) { s with live := b :: s.live, pc := update s.pc t .idle }
  | advance (t : τ) (hidle : s.pc t ≠ .idle) (hret : ∀ b, s.pc t ≠ .handOut b) :
      Step s (.tick t) { s with
        arena := (advance s.arena (s.pc t)).1
        pc := update s.pc t (advance s.arena (s.pc t)).2 }

theorem step_cases {s s' : State τ} {a : Action τ} (h : step s a = some s') : Step s a s' := by
  cases a with
  | allocate t len =>
      simp only [step] at h
      split at h
      next hc =>
        split at h
        next target _ =>
          cases h
          exact .allocate t len _ hc.1 (Or.inr ⟨target, rfl⟩)
        next =>
          cases h
          exact .allocate t len _ hc.1 (Or.inl rfl)
      next => cases h
  | release t b =>
      simp only [step] at h
      split at h
      next hc =>
        cases h
        exact .release t b hc.1 hc.2
      next => cases h
  | tick t =>
      simp only [step] at h
      split at h
      next => cases h
      next b hpc =>
        cases h
        exact .handOut t b hpc
      next hidle hret =>
        cases h
        exact .advance t hidle hret

def owners (s : State τ) : Owners τ := ⟨s.arena.freeBlocks, s.live, fun t => (s.pc t).held⟩

theorem owners_update (a : BuddyArenaInner) (live : List Block) (pc : τ → Pc) (t : τ) (p : Pc) :
    owners ⟨a, live, update pc t p⟩ = ⟨a.freeBlocks, live, update (fun u => (pc u).held) t p.held⟩ := by
  simp only [owners, Owners.mk.injEq, true_and]
  funext u
  exact apply_update (fun _ => Pc.held) pc t p u

theorem owners_update_same (a : BuddyArenaInner) (live : List Block) (pc : τ → Pc) (t : τ) (p : Pc)
    (hp : p.held = (pc t).held) : owners ⟨a, live, update pc t p⟩ = owners ⟨a, live, pc⟩ := by
  rw [owners_update, hp, update_eq_self (f := fun u => (pc u).held)]
  rfl

theorem advance_move {s : State τ} {t : τ} (ha : s.arena.Sound) {r : BuddyArenaInner × Pc}
    (h : Outcome s.arena (s.pc t) r) : Move (owners s) (owners { s with arena := r.1, pc := update s.pc t r.2 }) := by
  have hs := h.sound
  cases h.effect with
  | quiet hf hr =>
      rw [owners_update_same _ _ _ _ _ hr]
      have hfree : owners ⟨r.1, s.live, s.pc⟩ = owners s := by
        simp only [owners, freeBlocks_congr ha hs hf]
      rw [hfree]
      exact .stay _
  | claim b hp hb hf hr =>
      rw [owners_update, freeBlocks_erase ha hs hf, hr]
      exact .claim (owners s) t b ((mem_freeBlocks ha).mpr hb) hp
  | split target o i steps hp hf hr =>
      rw [owners_update, freeBlocks_insert ha hs hf, hr]
      exact .split (owners s) t o i (congrArg Pc.held hp)
  | merge b hp hb hf hr =>
      rw [owners_update, freeBlocks_erase ha hs hf, hr]
      exact .merge (owners s) t b (congrArg Pc.held hp) ((mem_freeBlocks ha).mpr hb)
  | publish b hp hf hr =>
      rw [owners_update, freeBlocks_insert ha hs hf, hr]
      exact .publish (owners s) t b (congrArg Pc.held hp)

variable [Fintype τ]

/-- Every unit has one owner, and the bitmaps are sound. -/
structure Owning (g : BuddyGeometry) (s : State τ) : Prop where
  geometry : s.arena.geometry = g
  sound : s.arena.Sound
  tiles : Tiles s.arena.maxOrder (owners s).all

theorem Owning.owned {s : State τ} (h : Owning g s) (t : τ) : Owned s.arena (s.pc t) := by
  intro b hb
  refine ⟨h.tiles.inside (held_mem_all (s := owners s) hb), fun c u hu hc => ?_⟩
  have hnf := notMem_free h.tiles (s := owners s) hb hu hc
  rw [Bool.eq_false_iff]
  exact fun hm => hnf ((mem_freeBlocks h.sound).mpr hm)

theorem Owning.move {s s' : State τ} (h : Owning g s) (hg : s'.arena.geometry = s.arena.geometry)
    (hs : s'.arena.Sound) (hm : Move (owners s) (owners s')) : Owning g s' := by
  refine ⟨hg.trans h.geometry, hs, ?_⟩
  rw [show s'.arena.maxOrder = s.arena.maxOrder from congrArg BuddyGeometry.maxOrder hg]
  exact hm.tiles h.tiles

theorem step_owning {s s' : State τ} {a : Action τ} (h : Owning g s) (hs : step s a = some s') : Owning g s' := by
  cases step_cases hs with
  | allocate t len p hidle hp =>
      refine h.move rfl h.sound ?_
      have hheld : p.held = (s.pc t).held := by
        rw [hidle]
        rcases hp with rfl | ⟨target, rfl⟩ <;> rfl
      rw [owners_update_same _ _ _ _ _ hheld]
      exact .stay _
  | release t b hidle hb =>
      refine h.move rfl h.sound ?_
      rw [owners_update, ← Multiset.coe_erase]
      exact .take (owners s) t b hb (by simp [owners, hidle, Pc.held])
  | handOut t b hpc =>
      refine h.move rfl h.sound ?_
      rw [owners_update, ← Multiset.cons_coe]
      exact .hand (owners s) t b (by simp [owners, hpc, Pc.held])
  | advance t hidle hret =>
      have hout := advance_outcome h.sound (s.pc t) (h.owned t)
      exact h.move hout.geometry hout.sound (advance_move h.sound hout)

omit [DecidableEq τ] in
theorem start_owning (g : BuddyGeometry) (autoSpill : Bool) (initPolicy : InitPolicy) (memory : Memory) :
    Owning g (start g autoSpill initPolicy memory : State τ) := by
  refine ⟨rfl, build_sound g autoSpill initPolicy memory, ?_⟩
  have hall : (owners (start g autoSpill initPolicy memory : State τ)).all = {⟨g.maxOrder, 0⟩} := by
    simp [owners, start, Owners.all, Pc.held, build_freeBlocks]
  rw [hall]
  exact Tiles.root

theorem reachable_owning {autoSpill : Bool} {initPolicy : InitPolicy} {memory : Memory} {s : State τ}
    (h : Reachable step (start g autoSpill initPolicy memory) s) : Owning g s :=
  h.invariant (Owning g) (start_owning g autoSpill initPolicy memory) fun _ _ _ hi hs => step_owning hi hs

omit [DecidableEq τ] in
theorem Owning.sum_all {s : State τ} (h : Owning g s) :
    ((owners s).all.map fun b => s.arena.blockSize b.order).sum = g.totalSize := by
  rw [sum_blockSize, h.tiles.sum_sizes, ← h.geometry, s.arena.geometry.totalSize_eq, Nat.shiftLeft_eq]
  rfl

omit [DecidableEq τ] in
/-- Between operations, the free and the live bytes add up to the arena. -/
theorem Owning.bytes {s : State τ} (h : Owning g s) (hq : Quiescent s) :
    ∑ b ∈ s.arena.freeBlocks, s.arena.blockSize b.order +
      (s.live.map fun b => s.arena.blockSize b.order).sum = g.totalSize := by
  have hall : (owners s).all = s.arena.freeBlocks.val + s.live := by
    have hq' (t : τ) : s.pc t = .idle := hq t
    simp [owners, Owners.all, hq', Pc.held]
  rw [← h.sum_all, hall, Multiset.map_add, Multiset.sum_add, Finset.sum, Multiset.map_coe, Multiset.sum_coe]

omit [DecidableEq τ] in
theorem Owning.live_disjoint {s : State τ} (h : Owning g s) :
    s.live.Pairwise fun b c => ∀ u ∈ b.units, u ∉ c.units := by
  have hnd := h.tiles.nodup
  rw [Owners.all, cover_add, cover_add, Multiset.nodup_add, Multiset.nodup_add] at hnd
  exact pairwise_disjoint hnd.1.2.1

/-- In every interleaving, each unit of the arena belongs to one free bit, one
live block or one running operation. Live blocks do not overlap, no debug
assertion of the bitmaps fails, and between operations no byte is missing. -/
theorem concurrent_run_owns (g : BuddyGeometry) (autoSpill : Bool) (initPolicy : InitPolicy) (memory : Memory)
    (s : State τ) (h : Reachable step (start g autoSpill initPolicy memory) s) :
    (∀ o i, s.arena.isBlockFree o i = true ↔ ⟨o, i⟩ ∈ s.arena.freeBlocks) ∧
    (∀ u < 2 ^ g.maxOrder,
      s.arena.freeBlocks.val.countP (fun b => u ∈ b.units) + s.live.countP (fun b => u ∈ b.units) +
        (Finset.univ.filter fun t => ∃ b, (s.pc t).held = some b ∧ u ∈ b.units).card = 1) ∧
    (∀ b, b ∈ s.arena.freeBlocks ∨ b ∈ s.live ∨ (∃ t, (s.pc t).held = some b) → b.Inside g.maxOrder) ∧
    (s.live.Pairwise fun b c => ∀ u ∈ b.units, u ∉ c.units) ∧
    (∀ o, (s.arena.bitmap o).asserts = true) ∧
    (Quiescent s →
      ∑ b ∈ s.arena.freeBlocks, s.arena.blockSize b.order +
        (s.live.map fun b => s.arena.blockSize b.order).sum = g.totalSize) := by
  have ho := reachable_owning h
  have hmax : s.arena.maxOrder = g.maxOrder := congrArg BuddyGeometry.maxOrder ho.geometry
  refine ⟨fun o i => ?_, fun u hu => ?_, fun b hb => ?_, ho.live_disjoint, ho.sound.asserts, ho.bytes⟩
  · rw [isBlockFree_eq, mem_freeBlocks ho.sound]
  · have hone := ho.tiles.countP (hmax.symm ▸ hu)
    rw [← hone, Owners.all, Multiset.countP_add, Multiset.countP_add]
    congr 1
    rw [← Multiset.coe_countPAddMonoidHom, map_sum, Finset.card_filter]
    refine Finset.sum_congr rfl fun t _ => ?_
    cases hp : (s.pc t).held with
    | none => simp [owners, hp]
    | some b => simp [owners, hp, ← Multiset.cons_zero, Multiset.countP_cons]
  · rw [← hmax]
    refine ho.tiles.inside ?_
    rcases hb with hb | hb | ⟨t, ht⟩
    · exact Multiset.mem_add.mpr (Or.inl (Multiset.mem_add.mpr (Or.inl hb)))
    · exact Multiset.mem_add.mpr (Or.inl (Multiset.mem_add.mpr (Or.inr hb)))
    · exact held_mem_all (s := owners s) ht

def pairStart : State (Fin 2) := start pairGeometry false .uninit fun _ => 0

/-- Both blocks are handed out, and the first is released up to the point
where its buddy was found taken. -/
def pairRun : List (Action (Fin 2)) :=
  [.allocate 0 512] ++ List.replicate 13 (.tick 0) ++ [.allocate 1 512] ++ List.replicate 10 (.tick 1) ++
    [.release 0 ⟨0, 0⟩] ++ List.replicate 4 (.tick 0)

def pairState : State (Fin 2) := (run step pairStart pairRun).getD pairStart

theorem pairState_reached : run step pairStart pairRun = some pairState :=
  run_eq_some_getD (by decide +kernel)

theorem concurrent_run_owns_pair :
    pairState.live = [⟨0, 1⟩] ∧ pairState.pc 0 = .publishSummary ⟨0, 0⟩ ∧
    ∀ u < 2, pairState.arena.freeBlocks.val.countP (fun b => u ∈ b.units) +
      pairState.live.countP (fun b => u ∈ b.units) +
      (Finset.univ.filter fun t => ∃ b, (pairState.pc t).held = some b ∧ u ∈ b.units).card = 1 :=
  ⟨by decide +kernel, by decide +kernel,
    (concurrent_run_owns pairGeometry false .uninit (fun _ => 0) pairState ⟨pairRun, pairState_reached⟩).2.1⟩

end ArenaAlligator.BuddyThreads
