import ArenaAlligator.WaiterAging

namespace ArenaAlligator.AsyncBuddy

open Function BuddyArenaInner NotifyWaiters Runs

variable {τ : Type} [DecidableEq τ]

/-- The clock of the registrations runs forward, below its sentinel. -/
def Clocked (s : State τ) : Action τ → Prop
  | .prepare _ now => now < noWaitersTimestamp ∧ ∀ i < s.waiters.created, s.waiters.stamp i ≤ now
  | _ => True

instance (s : State τ) (x : Action τ) : Decidable (Clocked s x) :=
  match x with
  | .prepare _ now =>
      inferInstanceAs (Decidable (now < noWaitersTimestamp ∧ ∀ i < s.waiters.created, s.waiters.stamp i ≤ now))
  | .call _ _ | .tryAllocate _ | .revoke _ | .poll _ | .drop _ | .cancel _ | .allocate _ | .release _ => isTrue trivial

/-- A block that is large enough for the registration becomes free while its
entry is live. -/
def freesFor (r : BuddyRegistration) (s : State τ) : Action τ → Bool
  | .release b => s.waiters.isLive r.entry && decide (r.order ≤ (s.arena.release b.order b.index).1)
  | _ => false

/-- An entry joins with a stamp up to the horizon, or a live entry is revoked. -/
def holdsUp (horizon : Nat) (s : State τ) : Action τ → Bool
  | .prepare _ now => decide (now ≤ horizon)
  | .revoke t | .drop t | .cancel t => (s.phase t).registration.any fun r => s.waiters.isLive r.entry
  | .call _ _ | .tryAllocate _ | .poll _ | .allocate _ | .release _ => false

/-- The stamp up to which an entry of another order can be scored before one
with the given stamp: the bonus of the top order and that of a queue that all
tasks stand in. -/
def horizonOf (orders tasks stamp : Nat) : Nat := stamp + orders * orderBonusNs + tasks * depthBonusNs

variable {g : BuddyGeometry} {s s' : State τ} {r : BuddyRegistration} {x : Action τ}

inductive Touched (s s' : State τ) : Action τ → Prop
  | quiet {x : Action τ} (hx : ∀ b, x ≠ .release b) (hw : s'.waiters = s.waiters) : Touched s s' x
  | close {x : Action τ} (hx : ∀ b, x ≠ .release b) (i : Nat) (hcloses : Closes i s.waiters s'.waiters)
      (hstill : Still s.waiters s'.waiters)
      (hcost : ∀ horizon, s.waiters.isLive i = true → holdsUp horizon s x = true) : Touched s s' x
  | join (t : τ) (now order : Nat) (hw : s'.waiters = (s.waiters.enroll order now).1) : Touched s s' (.prepare t now)
  | wake (b : AlignedBlocks.Block)
      (hw : s'.waiters = s.waiters.buddyWake (s.arena.release b.order b.index).1) : Touched s s' (.release b)

theorem step_touched (h : Consistent g s) (hs : step s x = some s') : Touched s s' x := by
  have halloc (len : Nat) : (s.allocate len).2.waiters = s.waiters := by
    obtain ⟨live, hframe⟩ := allocate_frame s len
    rw [hframe]
  have hcost {t : τ} {r' : BuddyRegistration} (hr : (s.phase t).registration = some r')
      (hl : s.waiters.isLive r'.entry = true) :
      ((s.phase t).registration.any fun r => s.waiters.isLive r.entry) = true := by
    rw [hr]
    exact hl
  cases step_cases hs with
  | call | pending => exact .quiet (by simp) rfl
  | refuse t len | allocate len => exact .quiet (by simp) (halloc len)
  | succeed t q r' owed b | fail t q r' owed => exact .quiet (by simp) (halloc q.len)
  | prepare t now q owed hp => exact .join t now q.order rfl
  | release b => exact .wake b rfl
  | revoke t r' hp =>
      have hr : (s.phase t).registration = some r' := by rw [hp]; rfl
      exact .close (by simp) r'.entry (revoke_closes h.linked.filed (h.registered hr)) (revoke_still _ r')
        fun _ => hcost hr
  | leave t r' hp | again t q r' hp | cancel t q r' hp =>
      have hr : (s.phase t).registration = some r' := by rw [hp]; rfl
      exact .close (by simp) r'.entry (drop_closes h.linked.filed (h.registered hr)) (drop_still _ r') fun _ => hcost hr
  | ready t q r' hp hpoll =>
      have hr : (s.phase t).registration = some r' := by rw [hp]; rfl
      have hqueued := h.linked.queued t r' hr
      refine .close (by simp) r'.entry (poll_closes h.linked.filed hpoll (fun hl => (hqueued hl).2.1)
        (h.linked.silent r'.entry)) (poll_still _ r') fun _ hl => ?_
      -- an entry that is polled ready was woken
      rw [poll, if_pos (hqueued hl).2.1, if_pos (h.linked.silent r'.entry hl)] at hpoll
      cases hpoll

theorem step_ready (h : Consistent g s) (hr : s.waiters.Ready) (hok : Clocked s x) (hs : step s x = some s') :
    s'.waiters.Ready := by
  cases step_touched h hs with
  | quiet hx hw => exact hw ▸ hr
  | close hx i hcloses hstill => exact hr.close hcloses hstill
  | join t now order hw => exact hw ▸ hr.enroll order hok.1 hok.2
  | wake b hw => exact hw ▸ hr.wake _

structure Waiting (g : BuddyGeometry) (r : BuddyRegistration) (horizon tasks : Nat) (s : State τ) : Prop where
  consistent : Consistent g s
  ready : s.waiters.Ready
  created : r.entry < s.waiters.created
  queued : s.waiters.isLive r.entry = true → r.entry ∈ s.waiters.queue r.order
  order : r.order < s.waiters.numOrders
  within : horizonOf s.waiters.numOrders tasks (s.waiters.stamp r.entry) ≤ horizon

variable {horizon tasks : Nat}

theorem step_waiting (h : Waiting g r horizon tasks s) (hok : Clocked s x) (hs : step s x = some s') :
    Waiting g r horizon tasks s' := by
  have hc := step_consistent h.consistent hs
  have hready := step_ready h.consistent h.ready hok hs
  cases step_touched h.consistent hs with
  | quiet hx hw => exact ⟨hc, hready, hw ▸ h.created, hw ▸ h.queued, hw ▸ h.order, hw ▸ h.within⟩
  | close hx i hcloses hstill =>
      refine ⟨hc, hready, hcloses.created ▸ h.created, fun hl => ?_, hcloses.numOrders ▸ h.order, ?_⟩
      · rw [hcloses.isLive, Bool.and_eq_true] at hl
        rw [hcloses.queue]
        exact h.queued hl.1
      · rw [hcloses.numOrders, hstill.stamp]
        exact h.within
  | join t now order hw =>
      have hne : r.entry ≠ s.waiters.created := h.created.ne
      refine ⟨hc, hready, hw ▸ Nat.lt_succ_of_lt h.created, fun hl => ?_, hw ▸ h.order, ?_⟩
      · rw [hw, enroll_isLive, if_neg hne] at hl
        rw [hw, enroll_queue]
        split
        · exact List.mem_append_left _ (h.queued hl)
        · exact h.queued hl
      · rw [hw, enroll_stamp, if_neg hne]
        exact h.within
  | wake b hw =>
      obtain ⟨hwakes, -⟩ := buddyWake_wakes h.ready.filed (s.arena.release b.order b.index).1
      rw [← hw] at hwakes
      refine ⟨hc, hready, hwakes.created ▸ h.created, fun hl => ?_, hwakes.numOrders ▸ h.order, ?_⟩
      · exact hwakes.kept r.order r.entry (h.queued (hwakes.isLive hl)) hl
      · rw [hwakes.numOrders, hwakes.stamp]
        exact h.within

variable [Fintype τ]

omit [DecidableEq τ] in
theorem Waiting.count_le (h : Waiting g r horizon tasks s) (o : Nat) :
    (s.waiters.buddyOrders o).count ≤ Fintype.card τ := by
  rw [h.ready.filed.count o]
  exact (live_le_outstanding h.consistent.linked o).trans (Finset.card_le_univ _)

omit [DecidableEq τ] [Fintype τ] in
theorem freesFor_of_ne (hx : ∀ b, x ≠ .release b) : freesFor r s x = false := by
  cases x with
  | release b => exact absurd rfl (hx b)
  | _ => rfl

/-- A block that could serve the registration brings its wake closer; entries
that join within the horizon and revocations put it off. -/
theorem step_delay (h : Waiting g r horizon (Fintype.card τ) s) (hs : step s x = some s') :
    (freesFor r s x).toNat + s'.waiters.delay horizon r.entry r.order ≤
      s.waiters.delay horizon r.entry r.order + (holdsUp horizon s x).toNat := by
  cases step_touched h.consistent hs with
  | quiet hx hw =>
      rw [freesFor_of_ne hx, hw, Bool.toNat_false]
      omega
  | close hx i hcloses hstill hcost =>
      have hdelay : s'.waiters.delay horizon r.entry r.order ≤
          s.waiters.delay horizon r.entry r.order + (s.waiters.isLive i).toNat := delay_close h.ready hcloses hstill
      have hpaid := toNat_le_of_imp (hcost horizon)
      rw [freesFor_of_ne hx, Bool.toNat_false]
      omega
  | join t now order hw =>
      have hdelay : (s.waiters.enroll order now).1.delay horizon r.entry r.order ≤
          s.waiters.delay horizon r.entry r.order + (decide (now ≤ horizon)).toNat :=
        delay_enroll h.ready h.created h.order order now
      rw [hw]
      exact (Nat.zero_add _).le.trans hdelay
  | wake b hw =>
      generalize hf : (s.arena.release b.order b.index).1 = f at hw
      rw [hw, freesFor, holdsUp, hf, Bool.toNat_false]
      by_cases hserves : s.waiters.isLive r.entry = true ∧ r.order ≤ f
      · have hless := delay_wake h.ready h.order (h.queued hserves.1) hserves.1 hserves.2 h.count_le h.within
        rw [hserves.1, decide_eq_true hserves.2, Bool.and_true, Bool.toNat_true]
        omega
      · have hnever : (s.waiters.buddyWake f).delay horizon r.entry r.order ≤
            s.waiters.delay horizon r.entry r.order :=
          delay_foldl _ (fun c hc => ⟨scoreOrders_le hc, WakeStreaks.scoreOrders_lt (Nat.zero_lt_of_lt h.order) hc⟩)
            h.ready h.order h.queued 0
        have hnone : (s.waiters.isLive r.entry && decide (r.order ≤ f)) = false := by
          rw [Bool.eq_false_iff, Ne, Bool.and_eq_true, decide_eq_true_eq]
          exact hserves
        rw [hnone, Bool.toNat_false]
        omega

/-- The entries ahead of the registration, twice, those of the other queues,
and one for each order. -/
def place (w : NotifyWaiters) (r : BuddyRegistration) : Nat :=
  2 * (w.queue r.order).countP (fun i => decide (i < r.entry)) + 3 +
    ∑ o ∈ (Finset.range w.numOrders).erase r.order, ((w.queue o).length + 1)

theorem delay_le_place {w : NotifyWaiters} (horizon : Nat) (hr : r.order < w.numOrders) :
    w.delay horizon r.entry r.order ≤ place w r := by
  have hothers : ∑ o ∈ (Finset.range w.numOrders).erase r.order, w.share horizon r.entry r.order o ≤
      ∑ o ∈ (Finset.range w.numOrders).erase r.order, ((w.queue o).length + 1) := by
    refine Finset.sum_le_sum fun o ho => ?_
    rw [share_of_ne w (Finset.ne_of_mem_erase ho)]
    exact Nat.add_le_add List.countP_le_length (Bool.toNat_le _)
  have hown : w.share horizon r.entry r.order r.order =
      2 * ((w.queue r.order).countP (fun i => decide (i < r.entry)) + 1) := if_pos rfl
  have hbar : (w.barred r.order).toNat ≤ 1 := Bool.toNat_le _
  rw [delay, place]
  split
  · rw [← Finset.add_sum_erase _ _ (Finset.mem_range.mpr hr), hown]
    omega
  · exact Nat.zero_le _

omit [Fintype τ] in
theorem ready_of_run {autoSpill : Bool} {initPolicy : InitPolicy} {memory : Memory} {as : List (Action τ)}
    (hr : run step (start g autoSpill initPolicy memory) as = some s)
    (hok : Meets step Clocked (start g autoSpill initPolicy memory) as) : Consistent g s ∧ s.waiters.Ready := by
  refine run_preserves_of_meets (fun s => Consistent g s ∧ s.waiters.Ready) ?_ ?_ hok hr
  · intro s x s' h hx hs
    exact ⟨step_consistent h.1 hs, step_ready h.1 h.2 hx hs⟩
  · refine ⟨start_consistent g autoSpill initPolicy memory, new_ready ?_⟩
    have := g.maxOrder_lt
    rw [usizeBits] at this
    omega

/-- Where each prepare, revoke, drop, and release with its wake is one atomic
step, a parked task is woken after a bounded number of releases that could
serve it: at most its place, one for each registration that still falls within
the horizon of its own, and one for each entry that is revoked. -/
theorem waiting_is_bounded (g : BuddyGeometry) (autoSpill : Bool) (initPolicy : InitPolicy) (memory : Memory)
    (before as : List (Action τ)) (s s' : State τ)
    (hs : run step (start g autoSpill initPolicy memory) before = some s)
    (hclock : Meets step Clocked (start g autoSpill initPolicy memory) before) (t : τ) (q : Request)
    (r : BuddyRegistration) (hpark : s.phase t = .awaiting q r) (hrun : run step s as = some s')
    (hon : Meets step Clocked s as) :
    tally step (freesFor r) s as ≤ place s.waiters r +
      tally step (holdsUp (horizonOf (g.maxOrder + 1) (Fintype.card τ) (s.waiters.stamp r.entry))) s as := by
  obtain ⟨hc, hready⟩ := ready_of_run hs hclock
  have hr : (s.phase t).registration = some r := by
    rw [hpark]
    rfl
  have horder : r.order < s.waiters.numOrders := by
    have hfits := (hc.fits t).order q r (by rw [hpark]; rfl) hr
    rw [hfits, hc.numOrders, maxOrder, hc.balanced.geometry]
    omega
  have hwaiting : Waiting g r (horizonOf (g.maxOrder + 1) (Fintype.card τ) (s.waiters.stamp r.entry))
      (Fintype.card τ) s := by
    refine ⟨hc, hready, hc.linked.created t r hr, fun hl => (hc.linked.queued t r hr hl).2.2, horder, ?_⟩
    rw [hc.numOrders]
  have hpaid := tally_potential (Waiting g r _ (Fintype.card τ)) (fun s => s.waiters.delay _ r.entry r.order)
    (freesFor r) (holdsUp _) hrun hon hwaiting fun v x v' hv hx hstep =>
      ⟨step_waiting hv hx hstep, step_delay hv hstep⟩
  have hplace := delay_le_place (horizonOf (g.maxOrder + 1) (Fintype.card τ) (s.waiters.stamp r.entry)) horder
  omega

def duoRun : List (Action (Fin 2)) :=
  [.allocate 512, .allocate 512, .call 0 512, .prepare 0 1, .tryAllocate 0, .call 1 1024, .prepare 1 2, .tryAllocate 1]

def duoState : State (Fin 2) := (run step pairStart duoRun).getD pairStart

theorem duoState_reached : run step pairStart duoRun = some duoState := run_eq_some_getD (by decide +kernel)

def duoServed : List (Action (Fin 2)) :=
  [.release ⟨0, 0⟩, .poll 0, .drop 0, .prepare 0 3, .tryAllocate 0, .revoke 0, .drop 0, .release ⟨0, 1⟩,
    .release ⟨0, 0⟩, .poll 1]

def duoServedState : State (Fin 2) := (run step duoState duoServed).getD pairStart

def duoRegistration : BuddyRegistration := ⟨1, 1, true, false, true⟩

theorem waiting_is_bounded_duo :
    duoState.phase 1 = .awaiting ⟨1024, 1⟩ duoRegistration ∧
    duoState.waiters.isLive duoRegistration.entry = true ∧
    duoServedState.waiters.isWoken duoRegistration.entry = true ∧
    tally step (freesFor duoRegistration) duoState duoServed ≤ place duoState.waiters duoRegistration +
      tally step (holdsUp (horizonOf (pairGeometry.maxOrder + 1) (Fintype.card (Fin 2))
        (duoState.waiters.stamp duoRegistration.entry))) duoState duoServed := by
  have hpark : duoState.phase 1 = .awaiting ⟨1024, 1⟩ duoRegistration := by decide +kernel
  have hclock : Meets step Clocked pairStart duoRun := by decide +kernel
  have hon : Meets step Clocked duoState duoServed := by decide +kernel
  have hrun : run step duoState duoServed = some duoServedState := run_eq_some_getD (by decide +kernel)
  exact ⟨hpark, by decide +kernel, by decide +kernel,
    waiting_is_bounded pairGeometry false .uninit (fun _ => 0) duoRun duoServed duoState duoServedState
      duoState_reached hclock 1 ⟨1024, 1⟩ duoRegistration hpark hrun hon⟩

end ArenaAlligator.AsyncBuddy
