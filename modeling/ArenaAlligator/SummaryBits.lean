import ArenaAlligator.BuddyBalance
import ArenaAlligator.BuddyProgress
import ArenaAlligator.BuddyScan

namespace ArenaAlligator.BuddyThreads

open Function AlignedBlocks AlignedBlocks.Block BuddyArenaInner AtomicBitmap Runs WordBits

/-- The thread is about to publish a block of the order, or to see whether the
order is empty and to clear its bit. -/
def Pc.attends (o : Nat) : Pc → Bool
  | splitFree _ childOrder _ _ => childOrder = o
  | publish b => b.order = o
  | anyFree order _ _ | clearSummary order _ => order = o
  | _ => false

inductive Attended (a : BuddyArenaInner) (p : Pc) (r : BuddyArenaInner × Pc) (o : Nat) : Prop
  | attends (h : r.2.attends o = true)
  | free (i : Nat) (h : r.1.freeBit ⟨o, i⟩ = true)
  | before (hbit : a.nonemptyOrders.getLsbD o = true) (hp : p.attends o = false)
      (hfree : ∀ i, a.freeBit ⟨o, i⟩ = true → r.1.freeBit ⟨o, i⟩ = true)

section Operation

variable {a c : BuddyArenaInner} {p q : Pc} {o : Nat}

theorem Attended.quiet (hbit : a.nonemptyOrders.getLsbD o = true) (hp : p.attends o = false)
    (hf : c.freeBit = a.freeBit) : Attended a p (c, q) o :=
  .before hbit hp fun i hi => by rwa [hf]

theorem freeBit_update_of_ne {b : Block} {x : Bool} (hf : c.freeBit = update a.freeBit b x) (ho : o ≠ b.order)
    (i : Nat) (hi : a.freeBit ⟨o, i⟩ = true) : c.freeBit ⟨o, i⟩ = true := by
  rw [hf, update_of_ne]
  · exact hi
  · rintro rfl
    exact ho rfl

theorem checkWord_attends (a : BuddyArenaInner) (order wordIdx : Nat) (k : Claim) :
    (checkWord a order wordIdx k).attends order = true := by
  rw [checkWord]
  split <;> simp [Pc.attends]

theorem setSummary_of_ne {o' : Nat} (h : (a.setSummary o').nonemptyOrders.getLsbD o = true) (hne : o ≠ o') :
    a.nonemptyOrders.getLsbD o = true := by
  by_cases ho : o' < 64
  · simpa [setSummary_getLsbD a ho, hne] using h
  · have hzero : 1#64 <<< o' = 0#64 := BitVec.shiftLeft_eq_zero (Nat.le_of_not_lt ho)
    simpa [setSummary, hzero] using h

theorem clearSummary_named {o' : Nat} (h : (a.clearSummary o').nonemptyOrders.getLsbD o = true) :
    o ≠ o' ∧ a.nonemptyOrders.getLsbD o = true := by
  have hlt : o < 64 := BitVec.lt_of_getLsbD h
  constructor
  · rintro rfl
    simp [clearSummary_getLsbD a hlt] at h
  · rw [clearSummary, BitVec.getLsbD_and, Bool.and_eq_true] at h
    exact h.1

theorem exists_free_of_load {order wordIdx : Nat} (h : (a.bitmap order).load wordIdx ≠ 0#64) :
    ∃ i, a.freeBit ⟨order, i⟩ = true := by
  obtain ⟨j, hj, hbit⟩ := (ne_zero_iff _).mp h
  exact ⟨wordIdx * bitsPerWord + j, (bit_word (a.bitmap order) hj).trans hbit⟩

theorem claimBit_attended (ha : a.Sound) (s : Search) (start i bit : Nat) (h : a.nonemptyOrders.getLsbD o = true) :
    Attended a (.claimBit s start i bit) (advance a (.claimBit s start i bit)) o := by
  have hc := (a.bitmap s.order).claimBit_claimed ((start + i) &&& (a.bitmap s.order).wordMask) bit
  simp only [advance]
  split
  next idx hr =>
    obtain ⟨-, hf⟩ := setBitmap_claimed_some ha hc hr
    by_cases ho : o = s.order
    · rw [ho]
      exact .attends (checkWord_attends _ _ _ _)
    · exact .before h rfl (freeBit_update_of_ne hf ho)
  next hr => exact .quiet h rfl (setBitmap_claimed_none ha hc hr)

theorem claimBuddy_attended (ha : a.Sound) (b : Block) (hp : Owned a (.claimBuddy b))
    (h : a.nonemptyOrders.getLsbD o = true) : Attended a (.claimBuddy b) (advance a (.claimBuddy b)) o := by
  simp only [advance]
  split
  next hlt =>
    have hf : (a.claimExact b.order (b.index ^^^ 1)).freeBit = update a.freeBit b.buddy false :=
      claimExact_freeBit ha ((hp b rfl).1.buddy hlt)
    rw [tryClaimExact_fst]
    split
    next =>
      by_cases ho : o = b.order
      · rw [ho]
        exact .attends (checkWord_attends _ _ _ _)
      · exact .before h rfl (freeBit_update_of_ne hf ho)
    next hclear =>
      rw [Bool.not_eq_true] at hclear
      exact .quiet h rfl (hf.trans (update_eq_self_iff.mpr hclear.symm))
  next => exact .quiet h rfl rfl

theorem zeroOnAllocate_summary (a : BuddyArenaInner) (o i : Nat) :
    (a.zeroOnAllocate o i).nonemptyOrders = a.nonemptyOrders := by
  simp only [zeroOnAllocate]
  split
  · split <;> rfl
  · rfl

theorem scrubOnRelease_summary (a : BuddyArenaInner) (o i : Nat) :
    (a.scrubOnRelease o i).nonemptyOrders = a.nonemptyOrders := by
  simp only [scrubOnRelease]
  split <;> rfl

theorem advance_summary (a : BuddyArenaInner) {p : Pc} (hclear : ∀ order k, p ≠ .clearSummary order k)
    (hsplit : ∀ target child idx n, p ≠ .splitSummary target child idx n) (hpublish : ∀ b, p ≠ .publishSummary b) :
    (advance a p).1.nonemptyOrders = a.nonemptyOrders := by
  cases p with
  | clearSummary order k => exact absurd rfl (hclear order k)
  | splitSummary target child idx n => exact absurd rfl (hsplit target child idx n)
  | publishSummary b => exact absurd rfl (hpublish b)
  | addCursor | loadWord | claimBit | anyFree =>
      simp only [advance]
      split <;> rfl
  | claimBuddy b =>
      simp only [advance]
      split
      · split <;> rfl
      · rfl
  | zeroBlock b => exact zeroOnAllocate_summary a b.order b.index
  | scrub b => exact scrubOnRelease_summary a b.order b.index
  | _ => rfl

theorem attended_elsewhere (ha : a.Sound) (hp : Owned a p) (hclaims : claims a p = false)
    (hattends : p.attends o = false) (h : a.nonemptyOrders.getLsbD o = true) : Attended a p (advance a p) o :=
  .before h hattends fun _ hi => freeBit_of_not_claims ha hp hclaims hi

theorem advance_attended (ha : a.Sound) (hp : Owned a p) (h : (advance a p).1.nonemptyOrders.getLsbD o = true) :
    Attended a p (advance a p) o := by
  have hsame := advance_summary a (p := p)
  cases p with
  | claimBit s start i bit =>
      rw [hsame (by simp) (by simp) (by simp)] at h
      exact claimBit_attended ha s start i bit h
  | claimBuddy b =>
      rw [hsame (by simp) (by simp) (by simp)] at h
      exact claimBuddy_attended ha b hp h
  | anyFree order wordIdx k =>
      rw [hsame (by simp) (by simp) (by simp)] at h
      by_cases ho : o = order
      · subst ho
        simp only [advance]
        split
        next hload =>
          obtain ⟨i, hi⟩ := exists_free_of_load hload
          exact .free i hi
        next => exact .attends (checkWord_attends _ _ _ _)
      · exact attended_elsewhere ha hp rfl (decide_eq_false (Ne.symm ho)) h
  | splitFree target child idx n =>
      rw [hsame (by simp) (by simp) (by simp)] at h
      by_cases ho : o = child
      · subst ho
        have hkid : Block.Inside a.maxOrder ⟨o, idx * 2 + 1⟩ := (hp _ rfl).1.child (by omega)
        apply Attended.free (idx * 2 + 1)
        simp only [advance, freeBlock_freeBit ha hkid, update_self]
      · exact attended_elsewhere ha hp rfl (decide_eq_false (Ne.symm ho)) h
  | publish b =>
      rw [hsame (by simp) (by simp) (by simp)] at h
      by_cases ho : o = b.order
      · subst ho
        apply Attended.free b.index
        simp only [advance, freeBlock_freeBit ha (hp b rfl).1, update_self]
      · exact attended_elsewhere ha hp rfl (decide_eq_false (Ne.symm ho)) h
  | clearSummary order k =>
      obtain ⟨hne, hbit⟩ := clearSummary_named h
      exact attended_elsewhere ha hp rfl (decide_eq_false hne.symm) hbit
  | splitSummary target child idx n =>
      by_cases ho : o = child
      · exact .attends (decide_eq_true ho.symm)
      · exact attended_elsewhere ha hp rfl rfl (setSummary_of_ne h ho)
  | publishSummary b =>
      by_cases ho : o = b.order
      · exact .attends (decide_eq_true ho.symm)
      · exact attended_elsewhere ha hp rfl rfl (setSummary_of_ne h ho)
  | _ =>
      rw [hsame (by simp) (by simp) (by simp)] at h
      exact attended_elsewhere ha hp rfl rfl h

end Operation

variable {τ : Type} [DecidableEq τ] {g : BuddyGeometry} {s s' : State τ}

/-- Every order that the summary names has a free block or a thread on its way
to it. The summary may miss an order that has a free block. -/
def Honest (s : State τ) : Prop :=
  ∀ o, s.arena.nonemptyOrders.getLsbD o = true →
    (∃ i, s.arena.freeBit ⟨o, i⟩ = true) ∨ ∃ t, (s.pc t).attends o = true

omit [DecidableEq τ] in
theorem Honest.of_quiescent (h : Honest s) (hq : Quiescent s) {o : Nat}
    (ho : s.arena.nonemptyOrders.getLsbD o = true) : ∃ i, s.arena.freeBit ⟨o, i⟩ = true := by
  rcases h o ho with hfree | ⟨t, ht⟩
  · exact hfree
  · rw [hq t] at ht
    cases ht

theorem Honest.goto (h : Honest s) {t : τ} (ht : ∀ o, (s.pc t).attends o = false) (live : List Block) (p : Pc) :
    Honest (⟨s.arena, live, update s.pc t p⟩ : State τ) := by
  intro o ho
  rcases h o ho with hfree | ⟨u, hu⟩
  · exact .inl hfree
  · have hne : u ≠ t := by
      rintro rfl
      rw [ht o] at hu
      cases hu
    exact .inr ⟨u, by simpa only [update_of_ne hne] using hu⟩

variable [Fintype τ]

theorem step_honest {x : Action τ} (h : Owning g s) (hh : Honest s) (hs : step s x = some s') : Honest s' := by
  cases step_cases hs with
  | allocate t len p hidle hp =>
      apply hh.goto
      intro o
      exact congrArg (Pc.attends o) hidle
  | release t b hidle hb =>
      apply hh.goto
      intro o
      exact congrArg (Pc.attends o) hidle
  | handOut t b hpc =>
      apply hh.goto
      intro o
      exact congrArg (Pc.attends o) hpc
  | advance t hidle hret =>
      intro o ho
      cases advance_attended h.sound (h.owned t) ho with
      | attends hself => exact .inr ⟨t, by simpa only [update_self] using hself⟩
      | free i hi => exact .inl ⟨i, hi⟩
      | before hbit hself hfree =>
          rcases hh o hbit with ⟨i, hi⟩ | ⟨u, hu⟩
          · exact .inl ⟨i, hfree i hi⟩
          · have hne : u ≠ t := by
              rintro rfl
              rw [hself] at hu
              cases hu
            exact .inr ⟨u, by simpa only [update_of_ne hne] using hu⟩

omit [DecidableEq τ] [Fintype τ] in
theorem start_honest (g : BuddyGeometry) (autoSpill : Bool) (initPolicy : InitPolicy) (memory : Memory) :
    Honest (start g autoSpill initPolicy memory : State τ) := by
  intro o ho
  have hlt : g.maxOrder < 64 := g.maxOrder_lt
  change (1#64 <<< g.maxOrder).getLsbD o = true at ho
  rw [getLsbD_mask hlt, decide_eq_true_iff] at ho
  refine .inl ⟨0, ?_⟩
  change (build g autoSpill initPolicy memory).freeBit ⟨o, 0⟩ = true
  rw [build_freeBit, ho]
  exact decide_eq_true rfl

end ArenaAlligator.BuddyThreads

namespace ArenaAlligator.BuddyArenaInner

open AlignedBlocks AtomicBitmap

theorem tryAllocateFromOrders_named (summary : Option Word) (orders : List Nat) (a : BuddyArenaInner) {o i : Nat}
    (h : (tryAllocateFromOrders summary orders a).1 = some (o, i)) : skips summary o = false := by
  induction orders generalizing a with
  | nil => simp [tryAllocateFromOrders] at h
  | cons order orders ih =>
      simp only [tryAllocateFromOrders] at h
      split at h
      next => exact ih a h
      next hskip =>
        split at h
        next =>
          cases h
          exact Bool.not_eq_true _ ▸ hskip
        next => exact ih _ h

/-- Where the summary names only orders that have a free block, the pass over
the summary takes from the least order that it names. -/
theorem tryAllocateFromSummary_least {a : BuddyArenaInner} (hp : ∀ o, (a.bitmap o).PaddingClear)
    (hnamed : ∀ o, a.nonemptyOrders.getLsbD o = true → ∃ i, a.freeBit ⟨o, i⟩ = true) (hmax : a.maxOrder < 64)
    (target : Nat) :
    (∀ o i, (a.tryAllocateFromSummary target).1 = some (o, i) →
      target ≤ o ∧ o ≤ a.maxOrder ∧ a.freeBit ⟨o, i⟩ = true ∧ a.nonemptyOrders.getLsbD o = true ∧
      ∀ o', target ≤ o' → o' < o → a.nonemptyOrders.getLsbD o' = false) ∧
    ((a.tryAllocateFromSummary target).1 = none →
      ∀ o, target ≤ o → o ≤ a.maxOrder → a.nonemptyOrders.getLsbD o = false) := by
  have hskip {o : Nat} (ho : o ≤ a.maxOrder) : skips (some a.nonemptyOrders) o = !a.nonemptyOrders.getLsbD o :=
    skips_summary _ (ho.trans_lt hmax)
  -- an order that is named has a free block, which the pass would not have passed over
  have hclear {o : Nat} (ho : o ≤ a.maxOrder)
      (hmiss : skips (some a.nonemptyOrders) o = false → ∀ j, a.freeBit ⟨o, j⟩ = false) :
      a.nonemptyOrders.getLsbD o = false := by
    by_contra hset
    rw [Bool.not_eq_false] at hset
    obtain ⟨j, hj⟩ := hnamed o hset
    have hnone := hmiss (by rw [hskip ho, hset, Bool.not_true]) j
    rw [hj] at hnone
    cases hnone
  constructor
  · intro o i h
    have hmem := mem_ordersFrom.mp (tryAllocateFromOrders_mem _ _ _ h)
    have hfree := ((tryAllocateFromOrders_scanned _ _ a).some_spec o i h).1
    have hbit := tryAllocateFromOrders_named _ _ _ h
    rw [hskip hmem.2] at hbit
    refine ⟨hmem.1, hmem.2, hfree, by simpa using hbit, fun o' ht hlt => ?_⟩
    have hle : o' ≤ a.maxOrder := hlt.le.trans hmem.2
    exact hclear hle fun hvisited => tryAllocateFromOrders_first _ List.pairwise_lt_range' hp h
      (mem_ordersFrom.mpr ⟨ht, hle⟩) hlt hvisited
  · intro h o ht ho
    exact hclear ho fun hvisited => tryAllocateFromOrders_misses _ _ hp h (mem_ordersFrom.mpr ⟨ht, ho⟩) hvisited

end ArenaAlligator.BuddyArenaInner

namespace ArenaAlligator.BuddyThreads

open Function AlignedBlocks AlignedBlocks.Block BuddyArenaInner AtomicBitmap Runs

variable {τ : Type} [DecidableEq τ] [Fintype τ]

/-- In every reachable state an order that the summary names has a free block
or a thread on its way to it. When no call is under way the summary names only
orders with a free block, and an allocation that trusts it takes a free block of
the least order named at or above its own; it fails only when none is named. -/
theorem summary_names_free_orders (g : BuddyGeometry) (autoSpill : Bool) (initPolicy : InitPolicy) (memory : Memory)
    (s : State τ) (hr : Reachable step (start g autoSpill initPolicy memory) s) :
    (∀ o, s.arena.nonemptyOrders.getLsbD o = true →
      (∃ i, s.arena.freeBit ⟨o, i⟩ = true) ∨ ∃ t, (s.pc t).attends o = true) ∧
    (Quiescent s → ∀ target,
      (∀ o, s.arena.nonemptyOrders.getLsbD o = true → ∃ i, s.arena.freeBit ⟨o, i⟩ = true) ∧
      (∀ o i, (s.arena.tryAllocateFromSummary target).1 = some (o, i) →
        target ≤ o ∧ o ≤ g.maxOrder ∧ s.arena.freeBit ⟨o, i⟩ = true ∧ s.arena.nonemptyOrders.getLsbD o = true ∧
        ∀ o', target ≤ o' → o' < o → s.arena.nonemptyOrders.getLsbD o' = false) ∧
      ((s.arena.tryAllocateFromSummary target).1 = none →
        ∀ o, target ≤ o → o ≤ g.maxOrder → s.arena.nonemptyOrders.getLsbD o = false)) := by
  have hkeep := hr.invariant (fun s => Owning g s ∧ Honest s)
    ⟨start_owning g autoSpill initPolicy memory, start_honest g autoSpill initPolicy memory⟩
    fun _ _ _ h hs => ⟨step_owning h.1 hs, step_honest h.1 h.2 hs⟩
  obtain ⟨hown, hhonest⟩ := hkeep
  refine ⟨hhonest, fun hq target => ?_⟩
  have hnamed : ∀ o, s.arena.nonemptyOrders.getLsbD o = true → ∃ i, s.arena.freeBit ⟨o, i⟩ = true :=
    fun o ho => hhonest.of_quiescent hq ho
  have hmaxOrder : s.arena.maxOrder = g.maxOrder := congrArg BuddyGeometry.maxOrder hown.geometry
  obtain ⟨hsome, hnone⟩ := tryAllocateFromSummary_least hown.sound.padding hnamed
    (hmaxOrder ▸ g.maxOrder_lt) target
  rw [hmaxOrder] at hsome hnone
  exact ⟨hnamed, hsome, hnone⟩

def restRun : List (Action (Fin 2)) := pairRun ++ List.replicate 2 (.tick 0)

def restState : State (Fin 2) := (run step pairStart restRun).getD pairStart

theorem restState_reached : run step pairStart restRun = some restState :=
  run_eq_some_getD (by decide +kernel)

theorem summary_names_free_orders_rest :
    Quiescent restState ∧ restState.arena.nonemptyOrders = 1#64 ∧
      (restState.arena.tryAllocateFromSummary 0).1 = some (0, 0) ∧ restState.arena.freeBit ⟨0, 0⟩ = true ∧
      (restState.arena.tryAllocateFromSummary 1).1 = none ∧ restState.arena.nonemptyOrders.getLsbD 1 = false := by
  have hidle : ∀ t : Fin 2, restState.pc t = .idle := by decide +kernel
  have hserved : (restState.arena.tryAllocateFromSummary 0).1 = some (0, 0) := by decide +kernel
  have hfailed : (restState.arena.tryAllocateFromSummary 1).1 = none := by decide +kernel
  obtain ⟨-, hrest⟩ := summary_names_free_orders pairGeometry false .uninit (fun _ => 0) restState
    ⟨restRun, restState_reached⟩
  obtain ⟨-, -, hfree, -⟩ := (hrest hidle 0).2.1 0 0 hserved
  exact ⟨hidle, by decide +kernel, hserved, hfree, hfailed, (hrest hidle 1).2.2 hfailed 1 le_rfl (by decide)⟩

end ArenaAlligator.BuddyThreads
