import ArenaAlligator.BuddyScan
import ArenaAlligator.BuddyOwnership

namespace ArenaAlligator.BuddyThreads

open Function AlignedBlocks AlignedBlocks.Block BuddyArenaInner Runs BlockOwnership

/-- The block of a release that has given up on its buddy, or reached the top
order, and still has to publish the block. -/
def Pc.unpublished : Pc → Option Block
  | publishSummary b => some b
  | publish b => some b
  | _ => none

def Pc.publishing : Pc → Option Block
  | publish b => some b
  | _ => none

theorem unpublished_held {p : Pc} {b : Block} (h : p.unpublished = some b) : p.held = some b := by
  cases p with
  | publishSummary c | publish c => exact h
  | _ => simp [Pc.unpublished] at h

theorem unpublished_of_passing {p : Pc} (h : p.passing = true) : p.unpublished = none := by
  cases p with
  | publishSummary c | publish c => cases h
  | _ => rfl

/-- A release comes to the point of publishing only after it saw its buddy
taken. -/
theorem advance_unpublished (a : BuddyArenaInner) (p : Pc) {b : Block}
    (h : (advance a p).2.unpublished = some b) :
    p = .publishSummary b ∨ p = .claimBuddy b ∧ (b.order < a.maxOrder → a.freeBit b.buddy = false) := by
  cases p with
  | publishSummary c =>
      simp only [advance, Pc.unpublished, Option.some.injEq] at h
      exact Or.inl (congrArg _ h)
  | claimBuddy c =>
      refine Or.inr ?_
      simp only [advance] at h
      split at h
      next hlt =>
        rw [AtomicBitmap.tryClaimExact_fst] at h
        split at h
        next => simp [unpublished_of_passing (checkWord_passing _ _ _ _)] at h
        next hclear =>
          simp only [Pc.unpublished, Option.some.injEq] at h
          subst h
          exact ⟨rfl, fun _ => Bool.not_eq_true _ ▸ hclear⟩
      next hge =>
        simp only [Pc.unpublished, Option.some.injEq] at h
        subst h
        exact ⟨rfl, fun hlt => absurd hlt hge⟩
  | addCursor s =>
      simp only [advance] at h
      split at h
      · simp [unpublished_of_passing (passing_of_searching (next_searching a s))] at h
      · simp [unpublished_of_passing (passing_of_searching (visit_searching a s _ _))] at h
  | loadSummary target =>
      simp only [advance] at h
      rw [unpublished_of_passing (passing_of_searching (nextOrder_searching _ _ (afterPass_searching _ _ _) _))] at h
      cases h
  | loadWord s start i =>
      simp only [advance] at h
      split at h
      · simp [unpublished_of_passing (passing_of_searching (visit_searching a s _ _))] at h
      · simp [Pc.unpublished] at h
  | claimBit s start i bit =>
      simp only [advance] at h
      split at h
      · simp [unpublished_of_passing (checkWord_passing _ _ _ _)] at h
      · simp [Pc.unpublished] at h
  | anyFree order wordIdx k =>
      simp only [advance] at h
      split at h
      · simp [unpublished_of_passing (resume_passing k)] at h
      · simp [unpublished_of_passing (checkWord_passing _ _ _ _)] at h
  | clearSummary order k => simp [advance, unpublished_of_passing (resume_passing k)] at h
  | splitFree target child idx steps => simp [advance, unpublished_of_passing (splitNext_passing _ _ _)] at h
  | _ => simp [advance, Pc.unpublished] at h

theorem Effect.stays_clear {a : BuddyArenaInner} {p : Pc} {r : BuddyArenaInner × Pc} (h : Effect a p r) {c : Block}
    (hc : a.freeBit c = false) (hpub : p ≠ .publish c)
    (hsplit : ∀ target i steps, p = .splitFree target c.order i steps → c.index ≠ i * 2 + 1) :
    r.1.freeBit c = false := by
  cases h with
  | quiet hf hr => rw [hf, hc]
  | claim b hp hb hf hr | merge b hp hb hf hr =>
      rw [hf, update_apply]
      split
      · rfl
      · exact hc
  | split target o i steps hp hf hr =>
      rw [hf, update_apply, if_neg ?_]
      · exact hc
      · rintro rfl
        exact hsplit target i steps hp rfl
  | publish b hp hf hr =>
      rw [hf, update_apply, if_neg ?_]
      · exact hc
      · rintro rfl
        exact hpub hp

variable {τ : Type} [DecidableEq τ] {g : BuddyGeometry}

/-- The step does not publish a block while the release of its buddy, which
has found that block taken, still has to publish. -/
def NoRival (s : State τ) : Action τ → Prop
  | .tick t => ∀ b ∈ (s.pc t).publishing, b.order < s.arena.maxOrder → ∀ u, (s.pc u).unpublished ≠ some b.buddy
  | _ => True

instance [Fintype τ] (s : State τ) (a : Action τ) : Decidable (NoRival s a) :=
  match a with
  | .tick t => inferInstanceAs (Decidable (∀ b ∈ (s.pc t).publishing, b.order < s.arena.maxOrder →
      ∀ u, (s.pc u).unpublished ≠ some b.buddy))
  | .allocate _ _ => isTrue trivial
  | .release _ _ => isTrue trivial

/-- No two buddies are free, and the buddy of a block about to be published
is still taken. -/
structure Merged (s : State τ) : Prop where
  coalesced : Coalesced s.arena.maxOrder s.arena.freeBlocks
  buddy_taken : ∀ t b, (s.pc t).unpublished = some b → b.order < s.arena.maxOrder → s.arena.freeBit b.buddy = false

omit [DecidableEq τ] in
theorem Merged.congr {s s' : State τ} (h : Merged s) (ha : s'.arena = s.arena)
    (hp : ∀ t b, (s'.pc t).unpublished = some b → (s.pc t).unpublished = some b) : Merged s' := by
  refine ⟨by rw [ha]; exact h.coalesced, fun t b hu => ?_⟩
  rw [ha]
  exact h.buddy_taken t b (hp t b hu)

theorem unpublished_update {pc : τ → Pc} {t u : τ} {p : Pc} {b : Block} (hp : p.unpublished = none)
    (h : (update pc t p u).unpublished = some b) : (pc u).unpublished = some b := by
  by_cases hu : u = t
  · subst hu
    rw [update_self, hp] at h
    cases h
  · rwa [update_of_ne hu] at h

variable [Fintype τ]

theorem advance_coalesced {s : State τ} (h : Owning g s) (hm : Merged s) {t : τ} {r : BuddyArenaInner × Pc}
    (hout : Outcome s.arena (s.pc t) r) : Coalesced s.arena.maxOrder r.1.freeBlocks := by
  cases hout.effect with
  | quiet hf hr =>
      rw [freeBlocks_congr h.sound hout.sound hf]
      exact hm.coalesced
  | claim b hp hb hf hr | merge b hp hb hf hr =>
      rw [freeBlocks_erase h.sound hout.sound hf]
      exact hm.coalesced.subset (Finset.erase_subset _ _)
  | split target o i steps hp hf hr =>
      rw [freeBlocks_insert h.sound hout.sound hf]
      refine hm.coalesced.insert fun _ => ?_
      have hbuddy : Block.buddy ⟨o, i * 2 + 1⟩ = ⟨o, i * 2⟩ := by
        rw [← buddy_buddy ⟨o, i * 2⟩]
        simp only [buddy, Nat.xor_one_of_even (show Even (i * 2) by simp)]
      rw [hbuddy]
      refine notMem_free h.tiles (s := owners s) (t := t) (b := ⟨o + 1, i⟩) (congrArg Pc.held hp) ?_
        (start_mem_units ⟨o, i * 2⟩)
      rw [← units_children]
      exact Multiset.mem_add.mpr (Or.inl (start_mem_units ⟨o, i * 2⟩))
  | publish b hp hf hr =>
      rw [freeBlocks_insert h.sound hout.sound hf]
      refine hm.coalesced.insert fun hlt => ?_
      rw [mem_freeBlocks h.sound, Bool.not_eq_true]
      exact hm.buddy_taken t b (congrArg Pc.unpublished hp) hlt

theorem advance_buddy_taken {s : State τ} (h : Owning g s) (hm : Merged s) {t u : τ} (hno : NoRival s (.tick t))
    {b : Block} (hu : (update s.pc t (advance s.arena (s.pc t)).2 u).unpublished = some b)
    (hlt : b.order < s.arena.maxOrder) : (advance s.arena (s.pc t)).1.freeBit b.buddy = false := by
  have heff := (advance_outcome h.sound (s.pc t) (h.owned t)).effect
  by_cases hut : u = t
  · subst hut
    rw [update_self] at hu
    rcases advance_unpublished _ _ hu with hpc | ⟨hpc, htaken⟩
    · refine heff.stays_clear (hm.buddy_taken u b (congrArg Pc.unpublished hpc) hlt) ?_ ?_ <;> simp [hpc]
    · refine heff.stays_clear (htaken hlt) ?_ ?_ <;> simp [hpc]
  · rw [update_of_ne hut] at hu
    refine heff.stays_clear (hm.buddy_taken u b hu hlt) ?_ ?_
    · intro hpc
      exact hno b.buddy (congrArg Pc.publishing hpc) hlt u (by rw [buddy_buddy]; exact hu)
    · -- the splitting thread holds the parent of b, which another thread holds
      intro target i steps hpc hidx
      have hb : b = ⟨b.order, i * 2⟩ := by
        rcases buddy_cases b with hc | hc
        · rw [show i * 2 = b.index by omega]
        · omega
      refine held_disjoint h.tiles (s := owners s) hut (unpublished_held hu) (congrArg Pc.held hpc)
        (start_mem_units b) ?_
      rw [hb, ← units_children]
      exact Multiset.mem_add.mpr (Or.inl (start_mem_units ⟨b.order, i * 2⟩))

theorem step_merged {s s' : State τ} {a : Action τ} (h : Owning g s) (hm : Merged s) (hno : NoRival s a)
    (hs : step s a = some s') : Merged s' := by
  cases step_cases hs with
  | allocate t len p hidle hp =>
      refine hm.congr rfl fun u b hu => unpublished_update ?_ hu
      rcases hp with rfl | ⟨target, rfl⟩ <;> rfl
  | release t b hidle hb => exact hm.congr rfl fun u b hu => unpublished_update rfl hu
  | handOut t b hpc => exact hm.congr rfl fun u b hu => unpublished_update rfl hu
  | advance t hidle hret =>
      have hout := advance_outcome h.sound (s.pc t) (h.owned t)
      have hmax : (advance s.arena (s.pc t)).1.maxOrder = s.arena.maxOrder :=
        congrArg BuddyGeometry.maxOrder hout.geometry
      refine ⟨?_, fun u b hu hlt => ?_⟩
      · rw [hmax]
        exact advance_coalesced h hm hout
      · exact advance_buddy_taken h hm hno hu (hmax ▸ hlt)

omit [DecidableEq τ] [Fintype τ] in
theorem start_merged (g : BuddyGeometry) (autoSpill : Bool) (initPolicy : InitPolicy) (memory : Memory) :
    Merged (start g autoSpill initPolicy memory : State τ) := by
  refine ⟨?_, fun t b hu => by cases hu⟩
  intro b hb hlt
  rw [show (start g autoSpill initPolicy memory : State τ).arena.freeBlocks = _ from build_freeBlocks _ _ _ _,
    Finset.mem_singleton] at hb
  subst hb
  exact absurd hlt (lt_irrefl _)

theorem run_merged {autoSpill : Bool} {initPolicy : InitPolicy} {memory : Memory} {as : List (Action τ)} {s : State τ}
    (hrun : run step (start g autoSpill initPolicy memory) as = some s)
    (hok : Meets step NoRival (start g autoSpill initPolicy memory) as) : Owning g s ∧ Merged s :=
  run_preserves_of_meets (fun s => Owning g s ∧ Merged s)
    (fun _ _ _ hi hno hs => ⟨step_owning hi.1 hs, step_merged hi.1 hi.2 hno hs⟩)
    ⟨start_owning g autoSpill initPolicy memory, start_merged g autoSpill initPolicy memory⟩ hok hrun

theorem allocate_total {a : BuddyArenaInner} (ha : a.Sound) (hroot : a.freeBit ⟨a.maxOrder, 0⟩ = true) :
    ∃ buf, (a.allocate a.geometry.totalSize).1 = .ok buf ∧ buf.capacity = a.geometry.totalSize := by
  rw [allocate, orderForRequest_total]
  simp only
  cases hr : (a.tryAllocateBlock a.maxOrder).1 with
  | none =>
      rw [tryAllocateBlock_none ha.padding hr (b := ⟨a.maxOrder, 0⟩) le_rfl le_rfl] at hroot
      cases hroot
  | some block =>
      obtain ⟨o, i⟩ := block
      have hle := (tryAllocateBlock_mem hr).1
      refine ⟨_, rfl, ?_⟩
      have hsize : a.blockSize a.maxOrder = a.geometry.totalSize := a.geometry.totalSize_eq.symm
      have hg : ((a.tryAllocateBlock a.maxOrder).2.splitDown o i a.maxOrder).2.geometry = a.geometry :=
        (splitDown_backing _ _ _ _).geometry.trans (tryAllocateBlock_scanned a a.maxOrder).backing.geometry
      have horder : ((a.tryAllocateBlock a.maxOrder).2.splitDown o i a.maxOrder).1.1 = a.maxOrder :=
        congrArg Prod.fst (splitLoop_fst i 0 _ hle)
      rw [handOut_capacity, horder, blockSize, hg]
      change (if a.geometry.capCapacity = true then min _ (a.blockSize a.maxOrder) else a.blockSize a.maxOrder) = _
      rw [hsize, min_self, ite_self]

/-- In every run in which no release publishes across the release of the
buddy, no two buddies are ever both free, and once everything is released and
no operation runs, the whole arena can be allocated again. -/
theorem coalesced_without_rivals (g : BuddyGeometry) (autoSpill : Bool) (initPolicy : InitPolicy) (memory : Memory)
    (as : List (Action τ)) (s : State τ) (hrun : run step (start g autoSpill initPolicy memory) as = some s)
    (hok : Meets step NoRival (start g autoSpill initPolicy memory) as) :
    (∀ o i, o < g.maxOrder → ¬(s.arena.isBlockFree o (2 * i) = true ∧ s.arena.isBlockFree o (2 * i + 1) = true)) ∧
    (Quiescent s → s.live = [] →
      s.arena.isBlockFree g.maxOrder 0 = true ∧
      ∃ buf, (s.arena.allocate g.totalSize).1 = .ok buf ∧ buf.capacity = g.totalSize) := by
  obtain ⟨ho, hm⟩ := run_merged hrun hok
  have hmax : s.arena.maxOrder = g.maxOrder := congrArg BuddyGeometry.maxOrder ho.geometry
  refine ⟨?_, fun hq hlive => ?_⟩
  · rintro o i hlt ⟨hl, hr⟩
    rw [isBlockFree_eq, ← mem_freeBlocks ho.sound] at hl hr
    refine hm.coalesced _ hl (hmax ▸ hlt) ?_
    simpa [buddy, Nat.xor_one_of_even (even_two_mul i)] using hr
  · have hall : (owners s).all = s.arena.freeBlocks.val := by
      have hq' (t : τ) : s.pc t = .idle := hq t
      simp [owners, Owners.all, hq', Pc.held, hlive]
    have ht := ho.tiles
    rw [hall] at ht
    have hroot := coalesced_root ht hm.coalesced fun b hb =>
      (inside_of_freeBit ho.sound ((mem_freeBlocks ho.sound).mp hb)).1
    have hfree : s.arena.freeBit ⟨s.arena.maxOrder, 0⟩ = true := by
      rw [← mem_freeBlocks ho.sound, hroot]
      exact Finset.mem_singleton_self _
    refine ⟨?_, ?_⟩
    · rw [isBlockFree_eq, ← hmax]
      exact hfree
    · rw [← ho.geometry]
      exact allocate_total ho.sound hfree

def orderlyRun : List (Action (Fin 2)) :=
  pairRun ++ List.replicate 2 (.tick 0) ++ [.release 1 ⟨0, 1⟩] ++ List.replicate 10 (.tick 1)

def orderlyState : State (Fin 2) := (run step pairStart orderlyRun).getD pairStart

theorem orderlyState_reached : run step pairStart orderlyRun = some orderlyState :=
  run_eq_some_getD (by decide +kernel)

theorem coalesced_without_rivals_orderly :
    Meets step NoRival pairStart orderlyRun ∧
    ∃ buf, (orderlyState.arena.allocate 1024).1 = .ok buf ∧ buf.capacity = 1024 := by
  have hok : Meets step NoRival pairStart orderlyRun := by decide +kernel
  have hidle : ∀ t : Fin 2, orderlyState.pc t = .idle := by decide +kernel
  exact ⟨hok, ((coalesced_without_rivals pairGeometry false .uninit (fun _ => 0) orderlyRun orderlyState
    orderlyState_reached hok).2 hidle (by decide +kernel)).2⟩

/-- The second release runs up to its own publishing between the two halves
of the first. -/
def crossingRun : List (Action (Fin 2)) :=
  pairRun ++ [.release 1 ⟨0, 1⟩] ++ List.replicate 4 (.tick 1) ++ [.tick 0, .tick 0, .tick 1, .tick 1]

def crossingState : State (Fin 2) := (run step pairStart crossingRun).getD pairStart

theorem crossingState_reached : run step pairStart crossingRun = some crossingState :=
  run_eq_some_getD (by decide +kernel)

/-- Each release finds the other block taken, and both are published: two free
buddies stay apart, and the empty arena refuses a request for its whole size. -/
theorem crossing_releases_stay_split :
    Reachable step pairStart crossingState ∧ Quiescent crossingState ∧ crossingState.live = [] ∧
    crossingState.arena.isBlockFree 0 0 = true ∧ crossingState.arena.isBlockFree 0 1 = true ∧
    crossingState.arena.isBlockFree 1 0 = false ∧
    (crossingState.arena.allocate 1024).1 = .error .arenaFull := by
  have hidle : ∀ t : Fin 2, crossingState.pc t = .idle := by decide +kernel
  exact ⟨⟨crossingRun, crossingState_reached⟩, hidle, by decide +kernel, by decide +kernel, by decide +kernel,
    by decide +kernel, by decide +kernel⟩

end ArenaAlligator.BuddyThreads
