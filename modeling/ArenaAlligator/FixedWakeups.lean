import ArenaAlligator.AsyncFixed

namespace ArenaAlligator.AsyncFixed

open Function AtomicBitmap Runs

variable {τ : Type} [DecidableEq τ]

def Parked (phase : τ → Phase) (n : Notify τ) (t : τ) : Prop :=
  (∃ r, phase t = .awaiting r) ∧ n.future t = .waiting

/-- A notification on its way to a retry: one that no poll has consumed, or one
that was polled by a task that has not yet dropped its registration. -/
def share (p : Phase) (f : Future) : Nat :=
  (decide (f = .notified)).toNat + match p with
    | .dropping _ => 1
    | _ => 0

variable [Fintype τ] {phase : τ → Phase} {n m : Notify τ} {free pending : Nat}

def shares (phase : τ → Phase) (n : Notify τ) : Nat := ∑ t, share (phase t) (n.future t)

/-- If anybody is parked, every free slot has a notification that is on its
way or a release that has still to call wake. -/
def Funded (free pending : Nat) (phase : τ → Phase) (n : Notify τ) : Prop :=
  ∀ t, Parked phase n t → free ≤ pending + shares phase n

theorem shares_notifyOne (h : n.Proper) (hw : n.waiting ≠ []) : shares phase n.notifyOne = shares phase n + 1 := by
  have hn := Notify.notifyOne_notified h
  generalize n.notifyOne = m at hn ⊢
  cases hn with
  | store he => exact absurd he hw
  | take i rest he hi =>
      have hsum := sum_change (M := Nat)
        (f := fun t => share (phase t) (({ n with waiting := rest }.setFuture i .notified).future t))
        (g := fun t => share (phase t) (n.future t)) i fun u hu => by rw [Notify.setFuture_of_ne _ hu]
      have hone : share (phase i) .notified = share (phase i) .waiting + 1 := by
        cases phase i <;> rfl
      simp only [Notify.setFuture_self, hi] at hsum
      change shares phase _ + _ = shares phase n + _ at hsum
      omega

theorem Funded.notifyOne (h : Funded free (pending + 1) phase n) (hn : n.Proper) :
    Funded free pending phase n.notifyOne := by
  rintro t ⟨hr, hf⟩
  have hf' : n.future t = .waiting := by
    rcases Notify.notifyOne_future hn t with he | ⟨he, -⟩
    · rw [← he, hf]
    · exact he
  have hne : n.waiting ≠ [] := List.ne_nil_of_mem ((hn.mem_iff t).mpr hf')
  have hle := h t ⟨hr, hf'⟩
  rw [shares_notifyOne hn hne]
  omega

theorem Funded.change (h : Funded free pending phase n) {t : τ} {p : Phase} (k : Nat)
    (hu : ∀ u, u ≠ t → m.future u = n.future u) (hpark : ¬Parked (update phase t p) m t)
    (hshare : share (phase t) (n.future t) ≤ share p (m.future t) + k) :
    Funded free (pending + k) (update phase t p) m := by
  rintro u hparked
  have hut : u ≠ t := by
    rintro rfl
    exact hpark hparked
  have hold := h u ⟨by simpa [hut] using hparked.1, by rw [← hu u hut]; exact hparked.2⟩
  have hsum := sum_change (M := Nat) (f := fun v => share (update phase t p v) (m.future v))
    (g := fun v => share (phase v) (n.future v)) t fun v hv => by rw [hu v hv, update_of_ne hv]
  rw [update_self] at hsum
  change shares (update phase t p) m + _ = shares phase n + _ at hsum
  omega

omit [Fintype τ] in
theorem not_parked {t : τ} {p : Phase} (hp : ∀ r, p ≠ .awaiting r) : ¬Parked (update phase t p) m t := by
  rintro ⟨⟨r, hr⟩, -⟩
  rw [update_self] at hr
  exact hp r hr

structure Served (s : State τ) : Prop where
  consistent : Consistent s
  funded : Funded s.arena.bitmap.freeSlots.card s.pendingWakes s.phase s.slot.notify

variable {s s' : State τ}

omit [DecidableEq τ] in
theorem Served.count_pos (h : Served s) {t : τ} (ht : Parked s.phase s.slot.notify t) : 0 < s.slot.count := by
  obtain ⟨⟨r, hr⟩, -⟩ := ht
  have hag := h.consistent.linked.agrees t
  rw [hr] at hag
  refine h.consistent.count_pos (t := t) ?_
  rw [hr, hag.1]
  rfl

/-- The drop of a registration: its notification goes to the next task in the
list. When it had none to give, nobody may be parked. -/
theorem Served.drop (h : Served s) {t : τ} {r : NotifyRegistration} (hr : (s.phase t).registration = some r)
    {p : Phase} (hp : ∀ r, p ≠ .awaiting r) (hle : share (s.phase t) (s.slot.notify.future t) ≤ 1)
    (hquiet : s.slot.notify.future t ≠ .notified → s.slot.renotifies r = false →
      ∀ u, Parked s.phase s.slot.notify u → share (s.phase t) (s.slot.notify.future t) = 0) :
    Funded s.arena.bitmap.freeSlots.card s.pendingWakes (update s.phase t p) (s.slot.drop t r).notify := by
  have hl := h.consistent.linked
  have hd := drop_dropped hl hr
  generalize (s.slot.drop t r).notify = m at hd ⊢
  cases hd with
  | quiet hf hn =>
      rintro u hu
      have hut : u ≠ t := by
        rintro rfl
        exact not_parked hp hu
      have hold : Parked s.phase s.slot.notify u :=
        ⟨by simpa [hut] using hu.1, by rw [← Notify.drop_of_ne _ hf hut]; exact hu.2⟩
      have hzero := hquiet hf hn u hold
      exact h.funded.change 0 (fun v hv => Notify.drop_of_ne _ hf hv) (not_parked hp) (by omega) u hu
  | pass hf =>
      have hout : s.slot.notify.future t ≠ .waiting := by
        rcases hf with ⟨hf, -⟩ | ⟨hf, -⟩ <;> rw [hf] <;> exact Future.noConfusion
      have hc := h.funded.change (m := s.slot.notify.setFuture t .init) (p := p) 1
        (fun v hv => Notify.setFuture_of_ne _ hv _) (not_parked hp) (by omega)
      exact hc.notifyOne (hl.proper.setFuture hout Future.noConfusion)

omit [DecidableEq τ] [Fintype τ] in
theorem share_of_ne {p : Phase} {f : Future} (hp : ∀ r, p ≠ .dropping r) (hf : f ≠ .notified) : share p f = 0 := by
  cases p with
  | dropping r => exact absurd rfl (hp r)
  | idle | starting | trying r | revoking r | leaving r | awaiting r => simp [share, hf]

omit [DecidableEq τ] [Fintype τ] in
theorem share_le_one {p : Phase} {f : Future} (h : p.Agrees f) : share p f ≤ 1 := by
  cases p with
  | dropping r => simp [share, h.2]
  | idle | starting | trying r | revoking r | leaving r | awaiting r => simp [share, Bool.toNat_le]

omit [DecidableEq τ] in
theorem Funded.mono {free' : Nat} (h : Funded free pending phase n) (hle : free' ≤ free) :
    Funded free' pending phase n := fun t ht => hle.trans (h t ht)

omit [DecidableEq τ] [Fintype τ] in
theorem allocate_freeSlots (h : s.arena.Sound) :
    s.allocate.2.arena.bitmap.freeSlots.card ≤ s.arena.bitmap.freeSlots.card ∧
    (s.allocate.1 = false → s.allocate.2.arena.bitmap.freeSlots = ∅) := by
  rcases ArenaInner.freeSlots_allocate h with ⟨-, hempty, herr⟩ | ⟨⟨buf, hok⟩, hcard⟩
  · simp [State.allocate, herr, hempty]
  · simp only [State.allocate, hok]
    exact ⟨by omega, fun he => by cases he⟩

theorem step_served {a : Action τ} (h : Served s) (hs : step s a = some s') : Served s' := by
  have hc := step_consistent h.consistent hs
  have hl := h.consistent.linked
  cases step_cases hs with
  | call t hp =>
      refine ⟨hc, h.funded.change 0 (fun _ _ => rfl) (not_parked fun r he => by cases he) ?_⟩
      rw [hp]
      exact le_rfl
  | prepare t hp =>
      refine ⟨hc, h.funded.change 0 (fun u hu => Notify.enable_of_ne _ hu) (not_parked fun r he => by cases he) ?_⟩
      have hag := hl.agrees t
      rw [hp] at hag ⊢
      rw [show s.slot.notify.future t = .init from hag]
      exact Nat.zero_le _
  | succeed t r hp ha =>
      obtain ⟨live, hs, -⟩ := allocate_frame s h.consistent.sound h.consistent.within
      obtain ⟨hle, -⟩ := allocate_freeSlots h.consistent.sound
      rw [hs] at hc hle ⊢
      refine ⟨hc, (h.funded.change 0 (fun _ _ => rfl) (not_parked fun r he => by cases he) ?_).mono hle⟩
      rw [hp]
      exact le_rfl
  | fail t r hp ha =>
      refine ⟨hc, fun u hu => ?_⟩
      change s.allocate.2.arena.bitmap.freeSlots.card ≤ _
      rw [(allocate_freeSlots h.consistent.sound).2 ha, Finset.card_empty]
      exact Nat.zero_le _
  | revoke t r hp =>
      refine ⟨hc, ?_⟩
      change Funded _ _ (update s.phase t _) (s.slot.uncount r).notify
      rw [FixedOrderSlot.uncount_notify]
      refine h.funded.change 0 (fun _ _ => rfl) (not_parked fun r he => by cases he) ?_
      rw [hp]
      exact le_rfl
  | ready t r hp hr =>
      refine ⟨hc, ?_⟩
      have hag := hl.agrees t
      change Funded _ _ (update s.phase t _) (FixedOrderSlot.uncount _ r).notify
      rw [FixedOrderSlot.uncount_notify]
      refine h.funded.change 0 (fun u hu => Notify.enable_of_ne _ hu) (not_parked fun r he => by cases he) ?_
      exact (share_le_one hag).trans (Nat.le_add_left 1 _)
  | pending t r hp hr =>
      have hag := hl.agrees t
      rw [hp] at hag
      rw [(Notify.poll_pending hag.2 hr).1]
      exact h
  | leave t r hp =>
      refine ⟨hc, h.drop (by rw [hp]; rfl) (fun r he => by cases he) (share_le_one (hl.agrees t)) fun hf _ u _ => ?_⟩
      rw [hp]
      exact share_of_ne (fun r he => by cases he) hf
  | again t r hp =>
      refine ⟨hc, h.drop (by rw [hp]; rfl) (fun r he => by cases he) (share_le_one (hl.agrees t)) fun _ hn u hu => ?_⟩
      -- A parked task is counted, so this registration would have notified.
      have hag := hl.agrees t
      rw [hp] at hag
      obtain ⟨rfl, -⟩ := hag
      have hpos := h.count_pos hu
      simp [FixedOrderSlot.renotifies, FixedOrderSlot.uncount] at hn
      omega
  | cancel t r hp =>
      refine ⟨hc, h.drop (by rw [hp]; rfl) (fun r he => by cases he) (share_le_one (hl.agrees t)) fun hf _ u _ => ?_⟩
      rw [hp]
      exact share_of_ne (fun r he => by cases he) hf
  | allocate =>
      obtain ⟨live, hs, -⟩ := allocate_frame s h.consistent.sound h.consistent.within
      obtain ⟨hle, -⟩ := allocate_freeSlots h.consistent.sound
      rw [hs] at hc hle ⊢
      exact ⟨hc, h.funded.mono hle⟩
  | free slotIdx hb =>
      refine ⟨hc, fun u hu => ?_⟩
      have hle := ArenaInner.freeSlots_release h.consistent.sound (h.consistent.within slotIdx hb)
      have hold := h.funded u hu
      change (s.arena.release slotIdx).bitmap.freeSlots.card ≤ s.pendingWakes + 1 + shares s.phase s.slot.notify
      omega
  | wake hw =>
      have hsplit : s.pendingWakes = s.pendingWakes - 1 + 1 := (Nat.sub_add_cancel hw).symm
      have hold := h.funded
      rw [hsplit] at hold
      refine ⟨hc, ?_⟩
      rw [FixedOrderSlot.wake]
      by_cases hpos : s.slot.count > 0
      · simp only [if_pos hpos]
        exact hold.notifyOne hl.proper
      · simp only [if_neg hpos]
        exact fun u hu => absurd (h.count_pos hu) hpos

omit [DecidableEq τ] in
theorem start_served (slotCount slotCapacity : Nat) (autoSpill : Bool) (initPolicy : InitPolicy) (memory : Memory) :
    Served (start slotCount slotCapacity autoSpill initPolicy memory : State τ) := by
  refine ⟨start_consistent slotCount slotCapacity autoSpill initPolicy memory, ?_⟩
  rintro t ⟨⟨r, hr⟩, -⟩
  cases hr

theorem reachable_served {slotCount slotCapacity : Nat} {autoSpill : Bool} {initPolicy : InitPolicy} {memory : Memory}
    (h : Reachable step (start slotCount slotCapacity autoSpill initPolicy memory) s) : Served s :=
  h.invariant Served (start_served slotCount slotCapacity autoSpill initPolicy memory)
    fun _ _ _ hi hs => step_served hi hs

/-- The task's registration was notified, and the task has not retried since. -/
def State.Unretried (s : State τ) (t : τ) : Prop :=
  s.slot.notify.future t = .notified ∨ ∃ r, s.phase t = .dropping r

omit [DecidableEq τ] in
theorem unretried_of_shares (h : 0 < shares s.phase s.slot.notify) : ∃ t, s.Unretried t := by
  by_contra hnone
  rw [not_exists] at hnone
  refine Nat.lt_irrefl 0 (lt_of_lt_of_eq h (Finset.sum_eq_zero fun t _ => ?_))
  have ht := hnone t
  rw [State.Unretried, not_or] at ht
  exact share_of_ne (fun r hr => ht.2 ⟨r, hr⟩) ht.1

/-- A free slot beside a parked task comes with a step that leads to a retry.
When that step is the notification of a task which got its slot without it,
the drop of the registration gives it to the next task in the list. -/
theorem no_lost_wakeup (slotCount slotCapacity : Nat) (autoSpill : Bool) (initPolicy : InitPolicy) (memory : Memory)
    (s : State τ) (hs : Reachable step (start slotCount slotCapacity autoSpill initPolicy memory) s) :
    (∀ slotIdx t, s.arena.bitmap.isFree slotIdx = true → Parked s.phase s.slot.notify t →
      0 < s.pendingWakes ∨ (∃ u, s.Unretried u) ∨ ∃ u r, s.phase u = .trying r) ∧
    (∀ t r u rest, s.phase t = .leaving r → s.slot.notify.future t = .notified → s.slot.notify.waiting = u :: rest →
      (s.slot.drop t r).notify.future u = .notified) ∧
    s.slot.count = (Finset.univ.filter fun t => (s.phase t).registered = true).card := by
  have h := reachable_served hs
  refine ⟨fun slotIdx t hfree ht => ?_, fun t r u rest hp hf hw => ?_, ?_⟩
  · rw [isFree_eq_bit, ← AtomicBitmap.mem_freeSlots h.consistent.sound.paddingClear] at hfree
    have hpos := Finset.card_pos.mpr ⟨slotIdx, hfree⟩
    have hle := h.funded t ht
    rcases Nat.eq_zero_or_pos s.pendingWakes with hzero | hpending
    · exact Or.inr (Or.inl (unretried_of_shares (by omega)))
    · exact Or.inl hpending
  · have hd := drop_dropped (t := t) (r := r) h.consistent.linked (by rw [hp]; rfl)
    generalize (s.slot.drop t r).notify = m at hd ⊢
    cases hd with
    | quiet hn => exact absurd hf hn
    | pass => simp [Notify.notifyOne, Notify.setFuture, hw]
  · rw [h.consistent.count, Finset.card_filter]
    refine Finset.sum_congr rfl fun t _ => ?_
    cases (s.phase t).registered <;> rfl

def oneSlot : State (Fin 2) := start 1 64 false .uninit fun _ => 0

def park (t : Fin 2) : List (Action (Fin 2)) := [.call t, .prepare t, .tryAllocate t, .poll t]

def releasedRun : List (Action (Fin 2)) := [.allocate] ++ park 0 ++ park 1 ++ [.free 0, .wake]

def releasedState : State (Fin 2) := (run step oneSlot releasedRun).getD oneSlot

theorem releasedState_reached : run step oneSlot releasedRun = some releasedState :=
  run_eq_some_getD (by decide +kernel)

theorem no_lost_wakeup_released :
    releasedState.arena.bitmap.isFree 0 = true ∧ releasedState.pendingWakes = 0 ∧
    Parked releasedState.phase releasedState.slot.notify 1 ∧
    (0 < releasedState.pendingWakes ∨ (∃ u, releasedState.Unretried u) ∨ ∃ u r, releasedState.phase u = .trying r) ∧
    releasedState.slot.count = 2 := by
  have hfree : releasedState.arena.bitmap.isFree 0 = true := by decide +kernel
  have hp : Parked releasedState.phase releasedState.slot.notify 1 :=
    ⟨⟨⟨true, false⟩, by decide +kernel⟩, by decide +kernel⟩
  have h := no_lost_wakeup 1 64 false .uninit (fun _ => 0) releasedState ⟨releasedRun, releasedState_reached⟩
  exact ⟨hfree, by decide +kernel, hp, h.1 0 1 hfree hp, by decide +kernel⟩

end ArenaAlligator.AsyncFixed
