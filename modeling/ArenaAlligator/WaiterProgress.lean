import ArenaAlligator.StepBounds
import ArenaAlligator.WaiterBooks
import Mathlib.Data.List.Sort

namespace ArenaAlligator.WaiterThreads

open Function NotifyWaiters Runs StepBounds

def Pc.wants : Pc → Option Nat
  | prepareLock r => some r.order
  | wakeLock k => some k.order
  | _ => none

section Enabled

variable {τ : Type} [DecidableEq τ] {s : State τ} {t : τ}

theorem acquire_of_free {o : Nat} (h : s.lock o = none) (p : Pc) : ∃ s', s.acquire t o p = some s' :=
  ⟨_, if_pos h⟩

theorem tick_enabled (hidle : s.pc t ≠ .idle) (hwants : ∀ o, (s.pc t).wants = some o → s.lock o = none) :
    ∃ s', step s (.tick t) = some s' := by
  simp only [step]
  cases hp : s.pc t with
  | idle => exact absurd hp hidle
  | prepareLock r =>
      rw [hp] at hwants
      simp only [advance, hp]
      exact acquire_of_free (hwants r.order rfl) _
  | wakeLock k =>
      rw [hp] at hwants
      simp only [advance, hp]
      exact acquire_of_free (hwants k.order rfl) _
  | revokeCas r d =>
      simp only [advance, hp]
      split <;> exact ⟨_, rfl⟩
  | wakePop k =>
      simp only [advance, hp]
      split
      · split <;> exact ⟨_, rfl⟩
      · exact ⟨_, rfl⟩
  | wakeCas k i =>
      simp only [advance, hp]
      split <;> exact ⟨_, rfl⟩
  | wakeSend k i tx =>
      simp only [advance, hp]
      split <;> exact ⟨_, rfl⟩
  | _ =>
      simp only [advance, hp]
      exact ⟨_, rfl⟩

theorem Locked.holder_enabled (h : Locked s) {o : Nat} {u : τ} (hu : s.lock o = some u) :
    ∃ s', step s (.tick u) = some s' := by
  have hinside := (h o u).mp hu
  apply tick_enabled
  · intro hidle
    rw [hidle] at hinside
    cases hinside
  · intro o' hwants
    cases hp : s.pc u with
    | prepareLock r =>
        rw [hp] at hinside
        cases hinside
    | wakeLock k =>
        rw [hp] at hinside
        cases hinside
    | _ =>
        rw [hp] at hwants
        cases hwants

/-- A thread inside a call can go on, or it waits for a mutex whose holder
can. -/
theorem Locked.some_enabled (h : Locked s) (hidle : s.pc t ≠ .idle) :
    (∃ s', step s (.tick t) = some s') ∨
      ∃ o u, (s.pc t).wants = some o ∧ s.lock o = some u ∧ ∃ s', step s (.tick u) = some s' := by
  by_cases hfree : ∀ o, (s.pc t).wants = some o → s.lock o = none
  · exact .inl (tick_enabled hidle hfree)
  · push Not at hfree
    obtain ⟨o, hwants, hlock⟩ := hfree
    obtain ⟨u, hu⟩ := Option.ne_none_iff_exists'.mp hlock
    exact .inr ⟨o, u, hwants, hu, h.holder_enabled hu⟩

end Enabled

def left (n pops orders here : Nat) : Nat := 3 * (maxPopsPerWake - pops) + orders * (n + 9) + here

def Wake.left (n : Nat) (k : Wake) (here : Nat) : Nat := WaiterThreads.left n k.pops k.rest.length here

def scoring (n numOrders freedOrder order candidates here : Nat) : Nat :=
  3 * maxPopsPerWake + 2 * (min freedOrder (numOrders - 1) - order) +
    (candidates + (min freedOrder (numOrders - 1) - order) + 1) * (n + 9) + here

def work (n numOrders : Nat) : Pc → Nat
  | .idle => 0
  | .prepareLock _ => 5
  | .preparePush _ => 4
  | .prepareAdd _ => 3
  | .prepareStamp _ => 2
  | .prepareUnlock _ => 1
  | .revokeCas _ _ => 4
  | .revokeTake _ _ => 3
  | .revokeSub _ _ _ => 2
  | .dropRx _ => 1
  | .scoreStreak f => scoring n numOrders f 0 0 3
  | .scoreCount f _ order cs => scoring n numOrders f order cs.length 2
  | .scoreStamp f _ order _ cs => scoring n numOrders f order cs.length 1
  | .wakeLock k => k.left n (n + 9)
  | .wakePop k => k.left n (n + 8)
  | .wakeCheck k _ => k.left n (n + 10)
  | .wakeCas k _ => k.left n (n + 9)
  | .wakeSub k _ => k.left n (n + 8)
  | .wakeScan k _ scan => k.left n (scan.length + 7)
  | .wakeStore k _ _ => k.left n 6
  | .wakeUnlock k (some _) => k.left n 5
  | .wakeUnlock k none => k.left n 1
  | .wakeTake k _ => k.left n 4
  | .wakeSend k _ _ => k.left n 3
  | .streakLoad k => k.left n 2
  | .streakStore k _ => k.left n 1

variable {n numOrders : Nat}

theorem nextOrder_work (f : Nat) (orders : List Nat) (pops : Nat) :
    work n numOrders (nextOrder f orders pops) ≤ left n pops orders.length 0 := by
  cases orders with
  | nil => exact Nat.zero_le _
  | cons order rest =>
      rw [nextOrder]
      split
      · exact Nat.zero_le _
      · simp only [work, Wake.left, left, List.length_cons, Nat.succ_mul]
        omega

theorem rank_length_le (streak : BitVec 64) (cs : List (Nat × Nat)) : (rank streak cs).length ≤ cs.length := by
  simp only [rank, List.length_map, List.length_insertionSort]
  split
  · exact List.length_filter_le _ _
  · exact le_rfl

theorem nextScore_work (w : NotifyWaiters) (f : Nat) (streak : BitVec 64) (order : Nat) (cs : List (Nat × Nat))
    {c : Nat} (hc : cs.length ≤ c + 1) :
    work n w.numOrders (nextScore w f streak order cs) ≤ scoring n w.numOrders f order c 0 := by
  rw [nextScore]
  split
  next hlt =>
    have hmul := Nat.mul_le_mul_right (n + 9)
      (show cs.length + (min f (w.numOrders - 1) - (order + 1)) + 1 ≤
        c + (min f (w.numOrders - 1) - order) + 1 by omega)
    simp only [work, scoring]
    omega
  next =>
    have hrank := (rank_length_le streak cs).trans hc
    have hmul := Nat.mul_le_mul_right (n + 9)
      (show (rank streak cs).length ≤ c + (min f (w.numOrders - 1) - order) + 1 by omega)
    have hnext : work n w.numOrders (nextOrder f (rank streak cs) 0) ≤ left n 0 (rank streak cs).length 0 :=
      nextOrder_work f (rank streak cs) 0
    simp only [left, scoring] at hnext ⊢
    omega

theorem nextScan_work (w : NotifyWaiters) (k : Wake) (i : Nat) (scan : List Nat) :
    work n numOrders (nextScan w k i scan) ≤ k.left n (scan.length + 6) := by
  cases scan with
  | nil => exact le_rfl
  | cons j rest =>
      rw [nextScan]
      split
      · simp only [work, Wake.left, left]
        omega
      · simp only [work, Wake.left, left, List.length_cons]
        omega

section Ticks

variable {τ : Type} [DecidableEq τ] {s s' : State τ} {t : τ}

theorem advance_pop_lt {k k' : Wake} {i : Nat} (h : advance s t = some s') (hp : s.pc t = .wakePop k)
    (hp' : s'.pc t = .wakeCheck k' i) : k.pops < maxPopsPerWake := by
  simp only [advance, hp] at h
  split at h
  · split at h
    next hlt => exact hlt
    next =>
      cases h
      rw [goto_self] at hp'
      cases hp'
  · cases h
    rw [goto_self] at hp'
    cases hp'

theorem finish_work (s : State τ) (t : τ) (r : BuddyRegistration) (d : Bool) :
    work n numOrders ((s.finish t r d).pc t) ≤ 1 := by
  cases d <;> simp [State.finish, work]

/-- An operation takes one from the work of its thread. -/
theorem tick_work (hm : s.waiters.numOrders = numOrders) (hq : ∀ o, (s.waiters.queue o).length ≤ n)
    (h : advance s t = some s') : work n numOrders (s'.pc t) + 1 ≤ work n numOrders (s.pc t) := by
  cases advance_tick h with
  | prepareLock r hp | preparePush r hp | prepareStamp r hp | prepareUnlock r hp =>
      rw [hp, goto_self]
      simp only [work]
      omega
  | prepareAdd r hp =>
      rw [hp, goto_self]
      split
      · simp only [work]
        omega
      · simp only [work]
        omega
  | revokeWin r d hp | revokeTake r d hp =>
      rw [hp, goto_self]
      simp only [work]
      omega
  | revokeLose r d hp =>
      rw [hp]
      exact (Nat.succ_le_succ (finish_work s t r d)).trans (by simp [work])
  | revokeSub r d tx hp =>
      rw [hp]
      exact Nat.succ_le_succ (finish_work _ t r d)
  | dropRx r hp =>
      rw [hp, goto_self]
      exact le_rfl
  | scoreStreak f hp =>
      rw [hp, goto_self]
      exact le_rfl
  | scoreCount f streak order cs hp =>
      rw [hp, goto_self]
      split
      · have hnext := nextScore_work (n := n) s.waiters f streak order cs (Nat.le_succ cs.length)
        rw [hm] at hnext
        simp only [work, scoring] at hnext ⊢
        omega
      · exact le_rfl
  | scoreStamp f streak order count cs hp =>
      have hlength : (if (s.waiters.buddyOrders order).headTimestamp = noWaitersTimestamp then cs else
          cs ++ [(order, effectiveAge order count (s.waiters.buddyOrders order).headTimestamp)]).length ≤
            cs.length + 1 := by
        split
        · exact Nat.le_succ _
        · simp
      have hnext := nextScore_work (n := n) s.waiters f streak order _ hlength
      rw [hm] at hnext
      rw [hp, goto_self]
      exact Nat.succ_le_succ hnext
  | wakeLock k hp =>
      rw [hp, goto_self]
      exact le_rfl
  | pop k i queue hp hcons =>
      have hlt := advance_pop_lt h hp (goto_self _ _ _)
      rw [hp, goto_self]
      simp only [work, Wake.left, left]
      omega
  | popNone k hp =>
      rw [hp, goto_self]
      simp only [work, Wake.left, left]
      omega
  | wakeCheck k i hp =>
      rw [hp, goto_self]
      split
      · exact le_rfl
      · simp only [work, Wake.left, left]
        omega
  | wakeWin k i hp | wakeLose k i hp =>
      rw [hp, goto_self]
      exact le_rfl
  | wakeSub k i hp =>
      have hlength := hq k.order
      rw [hp, goto_self]
      simp only [work, Wake.left, left]
      omega
  | wakeScan k i scan hp =>
      rw [hp, goto_self]
      exact Nat.succ_le_succ (nextScan_work s.waiters k i scan)
  | wakeStore k i ts hp | wakeTake k i hp | send k i tx hp | streakLoad k hp =>
      rw [hp, goto_self]
      exact le_rfl
  | wakeUnlock k won hp =>
      rw [hp, goto_self]
      cases won with
      | some i => exact le_rfl
      | none => exact Nat.succ_le_succ (nextOrder_work _ _ _)
  | sendNone k i tx hp =>
      rw [hp, goto_self]
      have hnext : work n numOrders (nextOrder k.freedOrder k.rest k.pops) ≤ left n k.pops k.rest.length 0 :=
        nextOrder_work _ _ _
      simp only [work, Wake.left, left] at hnext ⊢
      omega
  | streakStore k current hp =>
      rw [hp, goto_self]
      exact Nat.succ_le_succ (nextOrder_work _ _ _)

theorem tick_waiters (h : Tick s t s') :
    s'.waiters.numOrders = s.waiters.numOrders ∧ s'.waiters.created = s.waiters.created := by
  cases h with
  | revokeLose r d => cases d <;> exact ⟨rfl, rfl⟩
  | revokeSub r d tx => cases d <;> cases tx <;> exact ⟨rfl, rfl⟩
  | dropRx r =>
      simp only [State.goto]
      split
      · exact ⟨rfl, rfl⟩
      · exact ⟨rfl, rfl⟩
  | _ => exact ⟨rfl, rfl⟩

theorem step_waiters {a : Action τ} (h : step s a = some s') :
    s'.waiters.numOrders = s.waiters.numOrders ∧ s.waiters.created ≤ s'.waiters.created := by
  cases step_cases h with
  | register order now => exact ⟨rfl, Nat.le_succ _⟩
  | poll i r hr =>
      simp only [NotifyWaiters.poll]
      split
      · split <;> exact ⟨rfl, le_rfl⟩
      · exact ⟨rfl, le_rfl⟩
  | tick t s' ht =>
      obtain ⟨hnum, hcreated⟩ := tick_waiters ht
      exact ⟨hnum, hcreated.ge⟩
  | _ => exact ⟨rfl, le_rfl⟩

def mover : Action τ → Option τ
  | .register _ _ | .poll _ => none
  | .prepare t _ | .revoke t _ | .drop t _ | .wake t _ | .tick t => some t

theorem tick_pc_of_ne {u : τ} (h : Tick s t s') (hu : u ≠ t) : s'.pc u = s.pc u := by
  cases h with
  | revokeLose r d => cases d <;> simp [State.finish, State.goto, hu]
  | revokeSub r d tx => cases d <;> simp [State.finish, State.goto, hu]
  | _ => exact goto_of_ne _ hu _

theorem step_pc_of_ne {a : Action τ} {u : τ} (h : step s a = some s') (hu : mover a ≠ some u) : s'.pc u = s.pc u := by
  cases a with
  | register order now =>
      cases h
      rfl
  | poll i =>
      simp only [step] at h
      split at h <;> cases h
      rfl
  | tick t => exact tick_pc_of_ne (advance_tick h) fun he => hu (congrArg some he.symm)
  | prepare t i =>
      have hne : u ≠ t := fun he => hu (congrArg some he.symm)
      simp only [step] at h
      split at h
      · split at h <;> cases h
        · exact goto_of_ne _ hne _
        · rfl
      · cases h
  | revoke t i =>
      have hne : u ≠ t := fun he => hu (congrArg some he.symm)
      simp only [step] at h
      split at h
      · split at h <;> cases h
        · exact goto_of_ne _ hne _
        · rfl
      · cases h
  | drop t i =>
      have hne : u ≠ t := fun he => hu (congrArg some he.symm)
      simp only [step] at h
      split at h <;> cases h
      exact goto_of_ne _ hne _
  | wake t f =>
      have hne : u ≠ t := fun he => hu (congrArg some he.symm)
      simp only [step] at h
      split at h <;> cases h
      exact goto_of_ne _ hne _

theorem call_work {a : Action τ} (hpos : 0 < numOrders) (ha : mover a = some t) (hcall : a ≠ .tick t)
    (h : step s a = some s') : work n numOrders (s'.pc t) ≤ 27 + (n + 11) * numOrders := by
  have hsmall : ∀ {p : Pc}, work n numOrders p ≤ 5 → work n numOrders p ≤ 27 + (n + 11) * numOrders :=
    fun hp => hp.trans (by omega)
  cases a with
  | register | poll => cases ha
  | tick u =>
      cases ha
      exact absurd rfl hcall
  | prepare u i =>
      cases ha
      apply hsmall
      simp only [step] at h
      split at h
      next r hp hr =>
        split at h <;> cases h
        · rw [goto_self]
          exact le_rfl
        · rw [hp]
          exact Nat.zero_le _
      next => cases h
  | revoke u i =>
      cases ha
      apply hsmall
      simp only [step] at h
      split at h
      next r hp hr =>
        split at h <;> cases h
        · rw [goto_self]
          exact Nat.le_succ _
        · rw [hp]
          exact Nat.zero_le _
      next => cases h
  | drop u i =>
      cases ha
      apply hsmall
      simp only [step] at h
      split at h <;> cases h
      rw [goto_self]
      split <;> simp [work]
  | wake u f =>
      cases ha
      simp only [step] at h
      split at h <;> cases h
      rw [goto_self]
      have hmax : min f (numOrders - 1) + 1 ≤ numOrders := by omega
      have hmul := Nat.mul_le_mul_right (n + 9) hmax
      rw [Nat.mul_comm numOrders, Nat.add_mul] at hmul
      simp only [work, scoring, maxPopsPerWake, Nat.sub_zero, Nat.zero_add, Nat.add_mul]
      rw [Nat.add_mul] at hmul
      omega

end Ticks

variable {τ : Type} [DecidableEq τ] [Fintype τ]

omit [DecidableEq τ] in
theorem Books.queue_length_le {s : State τ} (h : Books s) (o : Nat) :
    (s.waiters.queue o).length ≤ s.waiters.created := by
  have hsub : s.waiters.queue o ⊆ List.range s.waiters.created := by
    intro i hi
    rw [List.mem_range]
    by_contra hge
    have hfresh := h.ledger.fresh i (Nat.le_of_not_lt hge)
    rw [h.ledger.queued o i hi] at hfresh
    cases hfresh
  have hle := ((h.ledger.nodup o).subperm hsub).length_le
  rwa [List.length_range] at hle

/-- However the threads are interleaved, the waiters never deadlock: a thread
inside a call has a next operation, or it waits for a mutex whose holder has
one. A call performs a bounded number of operations; the bound grows with the
orders and with the registrations, because a wake scans the queue behind the
entry that it delivers. -/
theorem waiter_calls_finish (numOrders : Nat) (hpos : 0 < numOrders) (as : List (Action τ)) (s : State τ)
    (hr : run step (start numOrders) as = some s) :
    (∀ t, s.pc t ≠ .idle → (∃ s', step s (.tick t) = some s') ∨
      ∃ o u, (s.pc t).wants = some o ∧ s.lock o = some u ∧ ∃ s', step s (.tick u) = some s') ∧
    ∀ x t v bs s', mover x = some t → x ≠ .tick t → step s x = some v → run step v bs = some s' →
      Meets step (fun _ y => mover y = some t → y = .tick t) v bs →
      tally step (fun _ y => decide (mover y = some t)) v bs ≤ 27 + (s'.waiters.created + 11) * numOrders := by
  have hsound := run_sound hr
  have hnum : s.waiters.numOrders = numOrders :=
    run_preserves (fun s => s.waiters.numOrders = numOrders)
      (fun _ _ _ h hs => (step_waiters hs).1.trans h) rfl hr
  refine ⟨fun t ht => hsound.locked.some_enabled ht, fun x t v bs s' hmover hcall hx hrun hno => ?_⟩
  have hlast := (meets_le_last (fun s : State τ => s.waiters.created) (fun _ _ _ hs => (step_waiters hs).2) hrun).2
  have htally := tally_potential (fun w => Sound w ∧ w.waiters.numOrders = numOrders)
    (fun w => work s'.waiters.created numOrders (w.pc t)) (fun _ y => decide (mover y = some t)) (fun _ _ => false)
    hrun (meets_and hno hlast) ⟨step_sound hsound hx, (step_waiters hx).1.trans hnum⟩ ?_
  · have hwork := call_work (n := s'.waiters.created) hpos hmover hcall hx
    rw [tally_false] at htally
    omega
  · intro w y w' hw hok hstep
    refine ⟨⟨step_sound hw.1 hstep, (step_waiters hstep).1.trans hw.2⟩, ?_⟩
    by_cases hy : mover y = some t
    · have htick := hok.1 hy
      rw [htick] at hstep
      have hpay := tick_work (n := s'.waiters.created) hw.2
        (fun o => (hw.1.books.queue_length_le o).trans hok.2) hstep
      simp only [hy, decide_true, Bool.toNat_true, Bool.toNat_false]
      omega
    · rw [step_pc_of_ne hstep hy]
      simp [hy]

def queuingRun : List (Action (Fin 2)) :=
  [.register 0 5, .register 0 6, .prepare 0 0] ++ List.replicate 5 (.tick 0) ++ [.prepare 0 1, .tick 0]

def queuingState : State (Fin 2) := (run step (start 1) queuingRun).getD (start 1)

theorem queuingState_reached : run step (start 1) queuingRun = some queuingState :=
  run_eq_some_getD (by decide +kernel)

def wakingState : State (Fin 2) := (step queuingState (.wake 1 0)).getD queuingState

theorem wakingState_reached : step queuingState (.wake 1 0) = some wakingState := by
  have hsome : (step queuingState (.wake 1 0)).isSome = true := by decide +kernel
  obtain ⟨v, hv⟩ := Option.isSome_iff_exists.mp hsome
  rw [wakingState, hv]
  rfl

def blockedState : State (Fin 2) := (run step wakingState (List.replicate 3 (.tick 1))).getD wakingState

theorem blockedState_reached : run step wakingState (List.replicate 3 (.tick 1)) = some blockedState :=
  run_eq_some_getD (by decide +kernel)

theorem waiter_calls_finish_blocked :
    tally step (fun _ y => decide (mover y = some 1)) wakingState (List.replicate 3 (.tick 1)) = 3 ∧
    tally step (fun _ y => decide (mover y = some 1)) wakingState (List.replicate 3 (.tick 1)) ≤
      27 + (blockedState.waiters.created + 11) * 1 ∧
    (step blockedState (.tick 1)).isNone = true := by
  have hno : Meets step (fun _ y => mover y = some 1 → y = .tick 1) wakingState (List.replicate 3 (.tick 1)) := by
    decide +kernel
  obtain ⟨-, hbound⟩ := waiter_calls_finish 1 Nat.one_pos queuingRun queuingState queuingState_reached
  exact ⟨by decide +kernel, hbound (.wake 1 0) 1 wakingState _ blockedState rfl (by decide) wakingState_reached
    blockedState_reached hno, by decide +kernel⟩

end ArenaAlligator.WaiterThreads
