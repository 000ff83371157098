import ArenaAlligator.FixedWakeups

namespace ArenaAlligator.AsyncFixed

open Function AtomicBitmap Runs

variable {τ : Type} [DecidableEq τ]

def notifies (s : State τ) : Action τ → Bool
  | .wake => s.slot.count > 0
  | .drop t => (s.phase t).registration.any s.slot.renotifies
  | .cancel t => (s.phase t).registration.any s.slot.renotifies
  | _ => false

def releases (_ : State τ) : Action τ → Bool
  | .free _ => true
  | _ => false

def cancels (_ : State τ) : Action τ → Bool
  | .cancel _ => true
  | _ => false

def Phase.woken (p : Phase) : Bool := p.registration.any (·.woken)

/-- A task that was woken ends its round of the loop only while no other
registration is counted. -/
def Unshared (s : State τ) : Action τ → Prop
  | .drop t => (s.phase t).woken = true → s.slot.count = 0
  | _ => True

instance (s : State τ) : (a : Action τ) → Decidable (Unshared s a)
  | .drop t => inferInstanceAs (Decidable ((s.phase t).woken = true → s.slot.count = 0))
  | .call _ | .prepare _ | .tryAllocate _ | .revoke _ | .poll _ | .cancel _ | .allocate | .free _ | .wake =>
      isTrue trivial

variable [Fintype τ] {s s' : State τ}

/-- Without a second waiter around, only a release leads to a notification. -/
theorem step_notifies {a : Action τ} (h : Consistent s) (hok : Unshared s a) (hs : step s a = some s') :
    (notifies s a).toNat + s'.pendingWakes ≤ s.pendingWakes + (releases s a).toNat := by
  have hunwoken {t : τ} {r : NotifyRegistration} (hr : (s.phase t).registration = some r) (hw : r.woken = false) :
      (s.phase t).registration.any s.slot.renotifies = false := by
    simp [hr, FixedOrderSlot.renotifies, hw]
  cases step_cases hs with
  | leave t r hp | cancel t r hp =>
      have hag := h.linked.agrees t
      rw [hp] at hag
      have hn := hunwoken (t := t) (r := r) (by rw [hp]; rfl) (by rw [hag.1])
      simp only [notifies, releases, hn]
      exact le_of_eq (Nat.zero_add _)
  | again t r hp =>
      have hag := h.linked.agrees t
      rw [hp] at hag
      have hzero := hok (by rw [hp, hag.1]; rfl)
      have hn : (s.phase t).registration.any s.slot.renotifies = false := by
        rw [hp, hag.1]
        simp [Phase.registration, FixedOrderSlot.renotifies, FixedOrderSlot.uncount, hzero]
      simp only [notifies, releases, hn]
      exact le_of_eq (Nat.zero_add _)
  | wake hw =>
      have hle := Bool.toNat_le (decide (s.slot.count > 0))
      simp only [notifies, releases, Bool.toNat_false]
      omega
  | free slotIdx hb => exact le_of_eq (Nat.zero_add _)
  | succeed t r hp ha =>
      obtain ⟨live, hf, -⟩ := allocate_frame s h.sound h.within
      rw [hf]
      exact le_of_eq (Nat.zero_add _)
  | fail t r hp ha =>
      obtain ⟨live, hf, -⟩ := allocate_frame s h.sound h.within
      rw [hf]
      exact le_of_eq (Nat.zero_add _)
  | allocate =>
      obtain ⟨live, hf, -⟩ := allocate_frame s h.sound h.within
      rw [hf]
      exact le_of_eq (Nat.zero_add _)
  | call t hp => exact le_of_eq (Nat.zero_add _)
  | prepare t hp => exact le_of_eq (Nat.zero_add _)
  | revoke t r hp => exact le_of_eq (Nat.zero_add _)
  | ready t r hp hr => exact le_of_eq (Nat.zero_add _)
  | pending t r hp hr => exact le_of_eq (Nat.zero_add _)

/-- The steps of the tasks inside allocate_with_waiter, and of releases that
have already freed their slot. -/
def OfWaiters : Action τ → Prop
  | .prepare _ | .tryAllocate _ | .revoke _ | .poll _ | .drop _ | .wake => True
  | .call _ | .cancel _ | .allocate | .free _ => False

instance : (a : Action τ) → Decidable (OfWaiters a)
  | .prepare _ | .tryAllocate _ | .revoke _ | .poll _ | .drop _ | .wake => isTrue trivial
  | .call _ | .cancel _ | .allocate | .free _ => isFalse id

/-- A poll that is not ready leaves everything as it is; all else is a move. -/
def moves (s : State τ) : Action τ → Bool
  | .poll t => (s.slot.notify.poll t).1
  | _ => true

def pollsLeft : Future → Nat
  | .init | .waiting => 0
  | .notified | .done => 4

def workOf (p : Phase) (f : Future) : Nat :=
  match p with
  | .idle => 0
  | .starting => 2
  | .trying _ => 1 + pollsLeft f
  | .revoking _ => 2 + pollsLeft f
  | .leaving _ => 1 + pollsLeft f
  | .awaiting _ => pollsLeft f
  | .dropping _ => 3

def works (phase : τ → Phase) (n : Notify τ) : Nat := 4 * n.permit.toNat + ∑ t, workOf (phase t) (n.future t)

def State.work (s : State τ) : Nat := 5 * s.pendingWakes + works s.phase s.slot.notify

variable {phase : τ → Phase} {n m : Notify τ}

theorem workOf_notified (p : Phase) : workOf p .notified ≤ workOf p .waiting + 4 := by
  cases p <;> simp [workOf, pollsLeft]

theorem works_notifyOne (h : n.Proper) : works phase n.notifyOne ≤ works phase n + 4 := by
  have hn := Notify.notifyOne_notified h
  generalize n.notifyOne = m at hn ⊢
  cases hn with
  | store hw =>
      simp only [works, Bool.toNat_true]
      omega
  | take i rest hw hi =>
      have hsum := sum_change (M := Nat)
        (f := fun t => workOf (phase t) (({ n with waiting := rest }.setFuture i .notified).future t))
        (g := fun t => workOf (phase t) (n.future t)) i fun u hu => by rw [Notify.setFuture_of_ne _ hu]
      have hle := workOf_notified (phase i)
      simp only [Notify.setFuture_self, hi] at hsum
      simp only [works]
      change 4 * n.permit.toNat + _ ≤ _
      omega

theorem works_change {t : τ} {p : Phase} (hu : ∀ u, u ≠ t → m.future u = n.future u) {k : Nat}
    (hk : k + workOf p (m.future t) + 4 * m.permit.toNat ≤ workOf (phase t) (n.future t) + 4 * n.permit.toNat) :
    k + works (update phase t p) m ≤ works phase n := by
  have hsum := sum_change (M := Nat) (f := fun v => workOf (update phase t p v) (m.future v))
    (g := fun v => workOf (phase v) (n.future v)) t fun v hv => by rw [hu v hv, update_of_ne hv]
  rw [update_self] at hsum
  simp only [works]
  omega

theorem Dropped.works {w : FixedOrderSlot τ} {t : τ} {r : NotifyRegistration} (hd : Dropped w t r m)
    (h : Linked phase w.notify) {p : Phase} (hp : 1 + workOf p .init ≤ workOf (phase t) (w.notify.future t))
    (hpass : w.notify.future t = .notified ∨ w.renotifies r = true →
      5 + workOf p .init ≤ workOf (phase t) (w.notify.future t)) :
    1 + works (update phase t p) m ≤ works phase w.notify := by
  cases hd with
  | quiet hf hr =>
      refine works_change (fun u hu => Notify.drop_of_ne _ hf hu) ?_
      have hpermit : (w.notify.drop t).permit = w.notify.permit := by
        rw [Notify.drop]
        split
        · rfl
        next he => exact absurd he hf
        · rfl
        · rfl
      rw [Notify.drop_self _ hf, hpermit]
      omega
  | pass hf =>
      have hout : w.notify.future t ≠ .waiting := by
        rcases hf with ⟨hf, -⟩ | ⟨hf, -⟩ <;> rw [hf] <;> exact Future.noConfusion
      have hle : works (update phase t p) (w.notify.setFuture t .init).notifyOne ≤
          works (update phase t p) (w.notify.setFuture t .init) + 4 :=
        works_notifyOne (h.proper.setFuture hout Future.noConfusion)
      have hc : 5 + works (update phase t p) (w.notify.setFuture t .init) ≤ works phase w.notify := by
        refine works_change (fun u hu => Notify.setFuture_of_ne _ hu _) ?_
        have hfive := hpass (hf.imp And.left And.right)
        rw [Notify.setFuture_self]
        exact Nat.add_le_add_right hfive _
      omega

/-- On a full arena, every move of a waiting task is one less to make. -/
theorem step_work {a : Action τ} (h : Consistent s) (hfull : s.arena.bitmap.freeSlots = ∅) (hok : Unshared s a)
    (ha : OfWaiters a) (hs : step s a = some s') :
    s'.arena.bitmap.freeSlots = ∅ ∧ (moves s a).toNat + s'.work ≤ s.work := by
  have hl := h.linked
  cases step_cases hs with
  | prepare t hp =>
      refine ⟨hfull, ?_⟩
      have hinit : s.slot.notify.future t = .init := by
        have hag := hl.agrees t
        rwa [hp] at hag
      have hc : 1 + works (update s.phase t (.trying ⟨true, false⟩)) (s.slot.notify.enable t) ≤
          works s.phase s.slot.notify := by
        refine works_change (fun u hu => Notify.enable_of_ne _ hu) ?_
        rw [hp, hinit, Notify.enable, hinit]
        cases hpermit : s.slot.notify.permit <;> simp [Notify.setFuture, workOf, pollsLeft]
      simp only [State.work, State.setPhase, moves, Bool.toNat_true]
      omega
  | succeed t r hp hsome =>
      rcases ArenaInner.freeSlots_allocate h.sound with ⟨-, -, herr⟩ | ⟨-, hcard⟩
      · simp [State.allocate, herr] at hsome
      · rw [hfull, Finset.card_empty] at hcard
        omega
  | fail t r hp hnone =>
      obtain ⟨live, hf, -⟩ := allocate_frame s h.sound h.within
      refine ⟨(allocate_freeSlots h.sound).2 hnone, ?_⟩
      rw [hf]
      have hc : 1 + works (update s.phase t (.awaiting r)) s.slot.notify ≤ works s.phase s.slot.notify := by
        refine works_change (fun _ _ => rfl) ?_
        rw [hp]
        exact le_rfl
      simp only [State.work, State.setPhase, moves, Bool.toNat_true]
      omega
  | revoke t r hp =>
      refine ⟨hfull, ?_⟩
      have hc : 1 + works (update s.phase t (.leaving ⟨false, false⟩)) (s.slot.uncount r).notify ≤
          works s.phase s.slot.notify := by
        rw [FixedOrderSlot.uncount_notify]
        refine works_change (fun _ _ => rfl) ?_
        rw [hp]
        simp only [workOf]
        omega
      simp only [State.work, State.setPhase, moves, Bool.toNat_true]
      omega
  | ready t r hp hr =>
      refine ⟨hfull, ?_⟩
      have hc : 1 + works (update s.phase t (.dropping ⟨false, true⟩)) (s.slot.notify.poll t).2 ≤
          works s.phase s.slot.notify := by
        have hag := hl.agrees t
        rw [hp] at hag
        obtain ⟨hf, hpermit⟩ := Notify.poll_ready hag.2 hr
        refine works_change (fun u hu => Notify.enable_of_ne _ hu) ?_
        change _ + 4 * (s.slot.notify.poll t).2.permit.toNat ≤ _
        rw [hp, hpermit]
        rcases hf with hf | hf <;> rw [hf] <;> exact le_rfl
      simp only [State.work, State.setPhase, moves, hr, FixedOrderSlot.uncount_notify, Bool.toNat_true]
      omega
  | pending t r hp hr =>
      refine ⟨hfull, ?_⟩
      have hag := hl.agrees t
      rw [hp] at hag
      rw [(Notify.poll_pending hag.2 hr).1]
      simp [moves, hr]
  | leave t r hp =>
      refine ⟨hfull, ?_⟩
      have hag := hl.agrees t
      rw [hp] at hag
      have hc : 1 + works (update s.phase t .idle) (s.slot.drop t r).notify ≤ works s.phase s.slot.notify := by
        refine (drop_dropped (t := t) hl (by rw [hp]; rfl)).works hl ?_ fun hf => ?_
        · rw [hp]
          simp [workOf]
        · rw [hp]
          rcases hf with hf | hf
          · rw [hf]
            exact le_rfl
          · rw [hag.1] at hf
            cases hf
      simp only [State.work, State.setPhase, moves, Bool.toNat_true]
      omega
  | again t r hp =>
      refine ⟨hfull, ?_⟩
      have hag := hl.agrees t
      rw [hp] at hag
      have hzero := hok (by rw [hp, hag.1]; rfl)
      have hc : 1 + works (update s.phase t .starting) (s.slot.drop t r).notify ≤ works s.phase s.slot.notify := by
        refine (drop_dropped (t := t) hl (by rw [hp]; rfl)).works hl ?_ fun hf => ?_
        · rw [hp]
          exact le_rfl
        · rcases hf with hf | hf
          · rw [hag.2] at hf
            cases hf
          · rw [hag.1] at hf
            simp [FixedOrderSlot.renotifies, FixedOrderSlot.uncount, hzero] at hf
      simp only [State.work, State.setPhase, moves, Bool.toNat_true]
      omega
  | wake hw =>
      refine ⟨hfull, ?_⟩
      have hle : works s.phase s.slot.wake.notify ≤ works s.phase s.slot.notify + 4 := by
        rw [FixedOrderSlot.wake]
        split
        · exact works_notifyOne hl.proper
        · exact Nat.le_add_right _ _
      simp only [State.work, moves, Bool.toNat_true]
      omega
  | call t hp => exact ha.elim
  | cancel t r hp => exact ha.elim
  | allocate => exact ha.elim
  | free slotIdx hb => exact ha.elim

theorem parked_of_no_move (h : Consistent s)
    (hnone : ∀ a s', OfWaiters a → step s a = some s' → moves s a = false) (t : τ) :
    s.phase t = .idle ∨ Parked s.phase s.slot.notify t := by
  cases hp : s.phase t with
  | idle => exact Or.inl rfl
  | starting => cases hnone (.prepare t) _ trivial (by simp only [step, hp]; rfl)
  | trying r =>
      cases hb : s.allocate.1 with
      | true => cases hnone (.tryAllocate t) _ trivial (by simp only [step, hp, hb, if_true]; rfl)
      | false => cases hnone (.tryAllocate t) _ trivial (by simp only [step, hp, hb, if_false, Bool.false_eq_true]; rfl)
  | revoking r => cases hnone (.revoke t) _ trivial (by simp only [step, hp]; rfl)
  | leaving r => cases hnone (.drop t) _ trivial (by simp only [step, hp]; rfl)
  | dropping r => cases hnone (.drop t) _ trivial (by simp only [step, hp]; rfl)
  | awaiting r =>
      have hag := h.linked.agrees t
      rw [hp] at hag
      have hstep : ∃ s', step s (.poll t) = some s' := by
        simp only [step, hp]
        split <;> exact ⟨_, rfl⟩
      obtain ⟨s', hs'⟩ := hstep
      have hr := hnone (.poll t) s' trivial hs'
      exact Or.inr ⟨⟨r, hp⟩, (Notify.poll_pending hag.2 hr).2⟩

/-- Without wakes among several waiters, notify_one is called no more often
than slots are released, and the waiting tasks of a full arena all park after
a bounded number of moves. -/
theorem no_wake_amplification (slotCount slotCapacity : Nat) (autoSpill : Bool) (initPolicy : InitPolicy)
    (memory : Memory) (as : List (Action τ)) (s : State τ)
    (hrun : run step (start slotCount slotCapacity autoSpill initPolicy memory) as = some s)
    (hok : Meets step Unshared (start slotCount slotCapacity autoSpill initPolicy memory) as) :
    tally step notifies (start slotCount slotCapacity autoSpill initPolicy memory) as ≤
      tally step releases (start slotCount slotCapacity autoSpill initPolicy memory) as +
      tally step cancels (start slotCount slotCapacity autoSpill initPolicy memory) as ∧
    ∀ bs s', (∀ slotIdx, s.arena.bitmap.isFree slotIdx = false) → run step s bs = some s' →
      Meets step (fun s a => Unshared s a ∧ OfWaiters a) s bs →
      tally step moves s bs ≤ s.work ∧
      ((∀ a s'', OfWaiters a → step s' a = some s'' → moves s' a = false) →
        ∀ t, s'.phase t = .idle ∨ Parked s'.phase s'.slot.notify t) := by
  have hstart : Consistent (start slotCount slotCapacity autoSpill initPolicy memory : State τ) :=
    start_consistent slotCount slotCapacity autoSpill initPolicy memory
  refine ⟨?_, fun bs s' hfull hrun' hok' => ?_⟩
  · have h := tally_potential Consistent State.pendingWakes notifies releases hrun hok hstart
      fun s a s' hi ho hs => ⟨step_consistent hi hs, step_notifies hi ho hs⟩
    have hzero : (start slotCount slotCapacity autoSpill initPolicy memory : State τ).pendingWakes = 0 := rfl
    omega
  · have hs : Consistent s := run_preserves Consistent (fun _ _ _ hi hs => step_consistent hi hs) hstart hrun
    have hempty : s.arena.bitmap.freeSlots = ∅ := by
      rw [Finset.eq_empty_iff_forall_notMem]
      intro slotIdx hm
      rw [AtomicBitmap.mem_freeSlots hs.sound.paddingClear, ← isFree_eq_bit, hfull slotIdx] at hm
      cases hm
    have hs' : Consistent s' := run_preserves Consistent (fun _ _ _ hi hs => step_consistent hi hs) hs hrun'
    refine ⟨?_, parked_of_no_move hs'⟩
    have h := tally_potential (fun s => Consistent s ∧ s.arena.bitmap.freeSlots = ∅) State.work moves
      (fun _ _ => false) hrun' hok' ⟨hs, hempty⟩ fun u a u' hi ho hu => by
        obtain ⟨hfull', hle⟩ := step_work hi.1 hi.2 ho.1 ho.2 hu
        exact ⟨⟨step_consistent hi.1 hu, hfull'⟩, hle⟩
    rw [tally_false] at h
    omega

def stolenRun : List (Action (Fin 2)) := [.allocate] ++ park 0 ++ [.free 0, .wake, .allocate]

def stolenState : State (Fin 2) := (run step oneSlot stolenRun).getD oneSlot

theorem stolenState_reached : run step oneSlot stolenRun = some stolenState := run_eq_some_getD (by decide +kernel)

def retryRun : List (Action (Fin 2)) := [.poll 0, .drop 0, .prepare 0, .tryAllocate 0, .poll 0]

def retryState : State (Fin 2) := (run step stolenState retryRun).getD stolenState

theorem retryState_reached : run step stolenState retryRun = some retryState := run_eq_some_getD (by decide +kernel)

theorem stolenState_full (slotIdx : Nat) : stolenState.arena.bitmap.isFree slotIdx = false := by
  have hsound := (reachable_served ⟨stolenRun, stolenState_reached⟩).consistent.sound
  have hcount : stolenState.arena.bitmap.slotCount = 1 := by decide +kernel
  rw [isFree_eq_bit, Bool.eq_false_iff]
  intro hset
  have hlt := hsound.paddingClear slotIdx hset
  obtain rfl : slotIdx = 0 := by omega
  exact absurd hset (by decide +kernel)

theorem no_wake_amplification_stolen :
    Meets step Unshared oneSlot stolenRun ∧
    tally step notifies oneSlot stolenRun ≤
      tally step releases oneSlot stolenRun + tally step cancels oneSlot stolenRun ∧
    tally step moves stolenState retryRun ≤ stolenState.work ∧ 0 < tally step moves stolenState retryRun := by
  have hok : Meets step Unshared oneSlot stolenRun := by decide +kernel
  have hok' : Meets step (fun s a => Unshared s a ∧ OfWaiters a) stolenState retryRun := by decide +kernel
  have h := no_wake_amplification 1 64 false .uninit (fun _ => 0) stolenRun stolenState stolenState_reached hok
  rw [show start 1 64 false .uninit (fun _ => 0) = oneSlot from rfl] at h
  exact ⟨hok, h.1, (h.2 retryRun retryState stolenState_full retryState_reached hok').1, by decide +kernel⟩

/-- Two tasks wait for the slot that the caller takes. The one that is woken
wakes the other when it drops its registration, and is woken by it in turn. -/
def pingPongRun : List (Action (Fin 2)) :=
  releasedRun ++ [.allocate, .poll 0, .drop 0, .prepare 0, .tryAllocate 0, .poll 1, .drop 1, .prepare 1, .tryAllocate 1]

def pingPongState : State (Fin 2) := (run step oneSlot pingPongRun).getD oneSlot

theorem pingPongState_reached : run step oneSlot pingPongRun = some pingPongState :=
  run_eq_some_getD (by decide +kernel)

theorem woken_drops_amplify :
    run step oneSlot pingPongRun = some pingPongState ∧ tally step notifies oneSlot pingPongRun = 3 ∧
    tally step releases oneSlot pingPongRun = 1 ∧ tally step cancels oneSlot pingPongRun = 0 ∧
    pingPongState.arena.bitmap.isFree 0 = false ∧ pingPongState.slot.notify.future 0 = .notified :=
  ⟨pingPongState_reached, by decide +kernel, by decide +kernel, by decide +kernel, by decide +kernel, by decide +kernel⟩

end ArenaAlligator.AsyncFixed
