import ArenaAlligator.WaiterBooks

namespace ArenaAlligator.WaiterThreads

open Function NotifyWaiters Runs

variable {τ : Type}

def Pc.hand : Pc → Option (Nat × Nat)
  | wakeCheck k i | wakeCas k i => some (k.order, i)
  | _ => none

def Pc.handsLive (w : NotifyWaiters) (o : Nat) (p : Pc) : Bool := p.hand.any fun c => c.1 = o && w.isLive c.2

def takes (i : Nat) (s : State τ) : Action τ → Bool
  | .tick t =>
      match s.pc t with
      | .revokeTake r _ => r.entry = i
      | .wakeTake _ j => j = i
      | _ => false
  | _ => false

section Counts

variable [Fintype τ]

def handsOn (s : State τ) (o i : Nat) : Nat := (Finset.univ.filter fun t => (s.pc t).hand = some (o, i)).card

def liveInHand (s : State τ) (o : Nat) : Nat := (Finset.univ.filter fun t => (s.pc t).handsLive s.waiters o).card

def liveQueued (s : State τ) (o : Nat) : Nat := (s.waiters.queue o).countP s.waiters.isLive

def increments (s : State τ) (o : Nat) : Nat := ∑ t, (s.roles t).adds o

def decrements (s : State τ) (o : Nat) : Nat := ∑ t, (s.roles t).wins o

end Counts

theorem hand_eq_some {p : Pc} {o i : Nat} : p.hand = some (o, i) ↔ p.role = .holding o i := by
  cases p with
  | wakeCheck k j | wakeCas k j => simp [Pc.hand, Pc.role]
  | wakeUnlock k won => cases won <;> simp [Pc.hand, Pc.role]
  | _ => simp [Pc.hand, Pc.role]

theorem hand_inside {p : Pc} {o i : Nat} (h : p.hand = some (o, i)) : p.inside = some o := by
  cases p with
  | wakeCheck k j | wakeCas k j => cases h; rfl
  | _ => cases h

theorem handsLive_iff {w : NotifyWaiters} {o : Nat} {p : Pc} :
    p.handsLive w o = true ↔ ∃ i, p.hand = some (o, i) ∧ w.isLive i = true := by
  rw [Pc.handsLive, Option.any_eq_true]
  constructor
  · rintro ⟨⟨o', i⟩, hp, hc⟩
    rw [Bool.and_eq_true, decide_eq_true_eq] at hc
    exact ⟨i, hc.1 ▸ hp, hc.2⟩
  · rintro ⟨i, hp, hl⟩
    exact ⟨(o, i), hp, by simp [hl]⟩

section Accounts

variable [Fintype τ] {s s' : State τ}

theorem Books.place (h : Books s) {i o : Nat} (ho : s.home i = some o) (hi : s.waiters.isLive i = true) :
    (s.waiters.queue o).count i + handsOn s o i = 1 := by
  have hone {t u : τ} (ht : (s.pc t).hand = some (o, i)) (hu : (s.pc u).hand = some (o, i)) : u = t :=
    h.ledger.holds u t i (by rw [State.roles, hand_eq_some.mp hu]; rfl) (by rw [State.roles, hand_eq_some.mp ht]; rfl)
  by_cases hm : i ∈ s.waiters.queue o
  · have hempty : (Finset.univ.filter fun t => (s.pc t).hand = some (o, i)) = ∅ := by
      refine Finset.filter_eq_empty_iff.mpr fun t _ ht => ?_
      have hok := h.ledger.ok t
      rw [State.roles, hand_eq_some.mp ht] at hok
      exact hok.2 hm
    rw [handsOn, hempty, Finset.card_empty, List.count_eq_one_of_mem (h.ledger.nodup o) hm]
  · obtain ⟨t, ht⟩ := (h.ledger.placed i o (of_decide_eq_true hi) ho).resolve_left hm
    have hhand : (s.pc t).hand = some (o, i) := hand_eq_some.mpr ht
    rw [List.count_eq_zero_of_not_mem hm, handsOn, Nat.zero_add, Finset.card_eq_one]
    refine ⟨t, Finset.ext fun u => ?_⟩
    rw [Finset.mem_filter, Finset.mem_singleton]
    exact ⟨fun hu => hone hhand hu.2, fun hu => ⟨Finset.mem_univ u, hu ▸ hhand⟩⟩

theorem Books.live_queued (h : Books s) (o : Nat) :
    ((Finset.range s.waiters.created).filter fun i =>
      ((s.waiters.entries i).state = .live ∧ s.home i = some o) ∧ i ∈ s.waiters.queue o).card = liveQueued s o := by
  rw [liveQueued, List.countP_eq_length_filter, ← List.toFinset_card_of_nodup ((h.ledger.nodup o).filter _)]
  congr 1
  ext i
  rw [Finset.mem_filter, Finset.mem_range, List.mem_toFinset, List.mem_filter, isLive, decide_eq_true_eq]
  constructor
  · exact fun hi => ⟨hi.2.2, hi.2.1.1⟩
  · intro hi
    have ho := h.ledger.queued o i hi.1
    exact ⟨h.ledger.lt_created ho, ⟨hi.2, ho⟩, hi.1⟩

theorem Books.live_inHand (h : Books s) (o : Nat) :
    ((Finset.range s.waiters.created).filter fun i =>
      ((s.waiters.entries i).state = .live ∧ s.home i = some o) ∧ i ∉ s.waiters.queue o).card = liveInHand s o := by
  symm
  refine Finset.card_bij (fun t _ => ((s.pc t).hand.getD (0, 0)).2) (fun t ht => ?_) (fun t ht u hu he => ?_)
    fun i hi => ?_
  · obtain ⟨i, hp, hl⟩ := handsLive_iff.mp (Finset.mem_filter.mp ht).2
    have hok := h.ledger.ok t
    rw [State.roles, hand_eq_some.mp hp] at hok
    rw [hp]
    exact Finset.mem_filter.mpr
      ⟨Finset.mem_range.mpr (h.ledger.lt_created hok.1), ⟨of_decide_eq_true hl, hok.1⟩, hok.2⟩
  · obtain ⟨i, hp, -⟩ := handsLive_iff.mp (Finset.mem_filter.mp ht).2
    obtain ⟨j, hq, -⟩ := handsLive_iff.mp (Finset.mem_filter.mp hu).2
    rw [hp, hq] at he
    change i = j at he
    exact h.ledger.holds t u j (by rw [State.roles, hand_eq_some.mp hp, he]; rfl)
      (by rw [State.roles, hand_eq_some.mp hq]; rfl)
  · obtain ⟨-, ⟨hl, ho⟩, hm⟩ := Finset.mem_filter.mp hi
    obtain ⟨t, ht⟩ := (h.ledger.placed i o hl ho).resolve_left hm
    have hhand : (s.pc t).hand = some (o, i) := hand_eq_some.mpr ht
    exact ⟨t, Finset.mem_filter.mpr ⟨Finset.mem_univ t, handsLive_iff.mpr ⟨i, hhand, decide_eq_true hl⟩⟩,
      by rw [hhand]; rfl⟩

/-- The live entries of an order are in its queue or in a hand. -/
theorem Books.liveHome_eq (h : Books s) (o : Nat) :
    liveHome s.waiters s.home o = liveQueued s o + liveInHand s o := by
  rw [← h.live_queued, ← h.live_inHand, liveHome,
    ← Finset.card_filter_add_card_filter_not fun i => i ∈ s.waiters.queue o, Finset.filter_filter, Finset.filter_filter]

variable [DecidableEq τ] {t : τ} {i : Nat}

omit [Fintype τ] in
@[simp] theorem finish_waiters (s : State τ) (t : τ) (r : BuddyRegistration) (d : Bool) :
    (s.finish t r d).waiters = s.waiters := by
  cases d <;> rfl

theorem tick_tx (h : Books s) (hs : Tick s t s') :
    (takes i s (.tick t)).toNat + (s'.waiters.entries i).tx.toNat ≤ (s.waiters.entries i).tx.toNat := by
  have hquiet (hno : takes i s (.tick t) = false) (htx : (s'.waiters.entries i).tx = (s.waiters.entries i).tx) :
      (takes i s (.tick t)).toNat + (s'.waiters.entries i).tx.toNat ≤ (s.waiters.entries i).tx.toNat := by
    rw [hno, htx]
    exact Nat.le_of_eq (Nat.zero_add _)
  have htake {j : Nat} (hj : (s.waiters.entries j).tx = true) (hyes : takes i s (.tick t) = decide (j = i))
      (htx : (s'.waiters.entries i).tx = if i = j then false else (s.waiters.entries i).tx) :
      (takes i s (.tick t)).toNat + (s'.waiters.entries i).tx.toNat ≤ (s.waiters.entries i).tx.toNat := by
    rw [hyes, htx]
    by_cases hij : j = i
    · subst hij
      simp [hj]
    · simp [hij, Ne.symm hij]
  have hok := h.ledger.ok t
  rw [State.roles] at hok
  cases hs with
  | revokeTake r d hp =>
      rw [hp] at hok
      exact htake hok.2.2.2 (by simp only [takes, hp]) (takeTx_entries _ _ _).2.1
  | wakeTake k j hp =>
      rw [hp] at hok
      exact htake hok.2.2 (by simp only [takes, hp]) (takeTx_entries _ _ _).2.1
  | revokeWin r d hp | wakeWin k j hp => exact hquiet (by simp only [takes, hp]) (storeState_entries _ _ _ _).2.1
  | send k j tx hp => exact hquiet (by simp only [takes, hp]) (setChannel_entries _ _ _ _).2.1
  | revokeLose r d hp => exact hquiet (by simp only [takes, hp]) (by rw [finish_waiters])
  | revokeSub r d tx hp =>
      refine hquiet (by simp only [takes, hp]) ?_
      rw [finish_waiters]
      cases tx with
      | true => exact (setChannel_entries _ _ _ _).2.1
      | false => rfl
  | dropRx r hp =>
      refine hquiet (by simp only [takes, hp]) ?_
      change ((if r.rx then s.waiters.dropRx r.entry else s.waiters).entries i).tx = _
      split
      · exact (sameEntries_dropRx _ _).tx i
      · rfl
  | _ => exact hquiet (by simp only [takes, *]) rfl

theorem step_tx_le {a : Action τ} (h : Books s) (hs : Step s a s') :
    (s'.waiters.entries i).tx.toNat ≤ (s.waiters.entries i).tx.toNat := by
  cases hs with
  | tick t s' ht => exact (Nat.le_add_left _ _).trans (tick_tx h ht)
  | nothing | prepare | revoke | drop | wake => exact Nat.le_refl _
  | register order now =>
      have hlive := h.ledger.sender s.waiters.created (h.ledger.blank _ (h.ledger.fresh _ le_rfl))
      simp only [buddyRegister, update_apply]
      split
      next hi => rw [hi, hlive]
      next => exact Nat.le_refl _
  | poll j r hr =>
      rw [NotifyWaiters.poll]
      split
      · split
        · exact Nat.le_refl _
        · exact Nat.le_of_eq (congrArg Bool.toNat ((sameEntries_dropRx _ _).tx i))
      · exact Nat.le_refl _

theorem step_tx {a : Action τ} (h : Books s) (hs : step s a = some s') :
    (takes i s a).toNat + (s'.waiters.entries i).tx.toNat ≤ (s.waiters.entries i).tx.toNat := by
  cases a with
  | tick t => exact tick_tx h (advance_tick hs)
  | _ => exact (Nat.le_of_eq (Nat.zero_add _)).trans (step_tx_le h (step_cases hs))

theorem taken_once {numOrders : Nat} {as : List (Action τ)} (hr : run step (start numOrders) as = some s) (i : Nat) :
    tally step (takes i) (start numOrders) as ≤ 1 := by
  have hpot := tally_potential Sound (fun s : State τ => (s.waiters.entries i).tx.toNat)
    (takes i) (fun _ _ => false) hr (meets_true _ _) (start_sound numOrders) fun s a s' h _ hs =>
      ⟨step_sound h hs, step_tx h.books hs⟩
  rw [tally_false, Nat.add_zero] at hpot
  exact (Nat.le_add_right _ _).trans hpot

/-- A live entry that a prepare pushed is once in the queue of its order, or
in the hand of the one wake that holds that queue's mutex; the counter of an
order is short of the entries by what is about to be added or taken off, and
positive whenever it is decremented; a sender is taken once, and only the
winner of a wake uses it. -/
theorem waiter_entry_accounting (numOrders : Nat) (as : List (Action τ)) (s : State τ)
    (hr : run step (start numOrders) as = some s) :
    (∀ i o, s.home i = some o → s.waiters.isLive i = true →
      (s.waiters.queue o).count i + handsOn s o i = 1 ∧ ∀ o', o' ≠ o → (s.waiters.queue o').count i = 0) ∧
    (∀ t o i, (s.pc t).hand = some (o, i) → s.lock o = some t) ∧
    (∀ o, (s.waiters.buddyOrders o).count + increments s o = liveQueued s o + liveInHand s o + decrements s o) ∧
    (∀ t o, (s.roles t).wins o = 1 → 0 < (s.waiters.buddyOrders o).count) ∧
    (∀ i, tally step (takes i) (start numOrders) as ≤ 1) ∧
    ∀ i f, (s.waiters.entries i).channel = .sent f → s.waiters.isWoken i = true := by
  obtain ⟨hl, h⟩ := run_sound hr
  refine ⟨fun i o ho hi => ⟨h.place ho hi, fun o' hne => ?_⟩, fun t o i ht => (hl o t).mpr (hand_inside ht),
    fun o => ?_, fun t o => h.count_pos hl, taken_once hr, fun i f hf => decide_eq_true (h.ledger.sent i f hf)⟩
  · refine List.count_eq_zero_of_not_mem fun hm => hne ?_
    exact Option.some.inj ((h.ledger.queued o' i hm).symm.trans ho)
  · rw [← h.liveHome_eq]
    exact h.ledger.count o

end Accounts

def poppedRun : List (Action (Fin 2)) :=
  [.register 0 7, .prepare 0 0] ++ List.replicate 5 (.tick 0) ++ [.wake 1 0] ++ List.replicate 5 (.tick 1)

def poppedState : State (Fin 2) := (run step (start 1) poppedRun).getD (start 1)

def deliveredRun : List (Action (Fin 2)) := poppedRun ++ List.replicate 10 (.tick 1)

def deliveredState : State (Fin 2) := (run step (start 1) deliveredRun).getD (start 1)

theorem waiter_entry_accounting_delivered :
    run step (start 1) deliveredRun = some deliveredState ∧ (deliveredState.waiters.entries 0).channel = .sent 0 ∧
    deliveredState.waiters.isWoken 0 = true ∧ tally step (takes 0) (start 1) deliveredRun ≤ 1 := by
  have hr : run step (start 1) deliveredRun = some deliveredState := run_eq_some_getD (by decide +kernel)
  have hsent : (deliveredState.waiters.entries 0).channel = .sent 0 := by decide +kernel
  obtain ⟨-, -, -, -, htaken, hwoken⟩ := waiter_entry_accounting 1 deliveredRun deliveredState hr
  exact ⟨hr, hsent, hwoken 0 0 hsent, htaken 0⟩

/-- Between the pop and the compare-exchange a live entry is in no queue, and
counted. -/
theorem popped_entry_leaves_queue :
    run step (start 1) poppedRun = some poppedState ∧ poppedState.home 0 = some 0 ∧
    poppedState.waiters.isLive 0 = true ∧ (poppedState.waiters.queue 0).count 0 = 0 ∧
    (poppedState.waiters.buddyOrders 0).count + increments poppedState 0 ≠
      liveQueued poppedState 0 + decrements poppedState 0 := by
  refine ⟨run_eq_some_getD (by decide +kernel), ?_⟩
  decide +kernel

end ArenaAlligator.WaiterThreads
