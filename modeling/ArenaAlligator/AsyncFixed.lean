import ArenaAlligator.FixedArena
import ArenaAlligator.FixedWaiters
import ArenaAlligator.Runs
import Mathlib.Algebra.Order.BigOperators.Group.Finset

namespace ArenaAlligator.AsyncFixed

open Function AtomicBitmap Runs

inductive Phase
  | idle
  | starting
  | trying (r : NotifyRegistration)
  | revoking (r : NotifyRegistration)
  | leaving (r : NotifyRegistration)
  | awaiting (r : NotifyRegistration)
  | dropping (r : NotifyRegistration)
deriving DecidableEq

def Phase.registration : Phase → Option NotifyRegistration
  | trying r => some r
  | revoking r => some r
  | leaving r => some r
  | awaiting r => some r
  | dropping r => some r
  | idle | starting => none

/-- An async arena, the slots its callers hold, the releases that have freed
their slot and not yet called wake, and the tasks. -/
structure State (τ : Type) where
  arena : ArenaInner
  live : List Nat
  slot : FixedOrderSlot τ
  pendingWakes : Nat
  phase : τ → Phase

inductive Action (τ : Type)
  | call (t : τ)
  | prepare (t : τ)
  | tryAllocate (t : τ)
  | revoke (t : τ)
  | poll (t : τ)
  | drop (t : τ)
  | cancel (t : τ)
  | allocate
  | free (slotIdx : Nat)
  | wake
deriving DecidableEq

variable {τ : Type} [DecidableEq τ]

def State.setPhase (s : State τ) (t : τ) (p : Phase) : State τ := { s with phase := update s.phase t p }

def slotOf (buf : Buffer) : Option Nat :=
  match buf.allocation with
  | .fixed slotIdx => some slotIdx
  | .buddy _ _ => none

def State.allocate (s : State τ) : Bool × State τ :=
  let r := s.arena.allocate
  match r.1 with
  | .ok buf => (true, { s with arena := r.2, live := (slotOf buf).toList ++ s.live })
  | .error _ => (false, { s with arena := r.2 })

/-- The steps of the tasks, of synchronous callers, and of releases, which
free their slot in one step and call wake in another. -/
def step (s : State τ) : Action τ → Option (State τ)
  | .call t => if s.phase t = .idle then some (s.setPhase t .starting) else none
  | .prepare t =>
      match s.phase t with
      | .starting =>
          let v := s.slot.prepare t {}
          some ({ s with slot := v.1 }.setPhase t (.trying v.2))
      | _ => none
  | .tryAllocate t =>
      match s.phase t with
      | .trying r =>
          let a := s.allocate
          if a.1 then some (a.2.setPhase t (.revoking r)) else some (a.2.setPhase t (.awaiting r))
      | _ => none
  | .revoke t =>
      match s.phase t with
      | .revoking r =>
          let v := s.slot.revoke r
          some ({ s with slot := v.1 }.setPhase t (.leaving v.2))
      | _ => none
  | .poll t =>
      match s.phase t with
      | .awaiting r =>
          let v := s.slot.poll t r
          let s := { s with slot := v.2.1 }
          if v.1 then some (s.setPhase t (.dropping v.2.2)) else some s
      | _ => none
  | .drop t =>
      match s.phase t with
      | .leaving r => some ({ s with slot := s.slot.drop t r }.setPhase t .idle)
      | .dropping r => some ({ s with slot := s.slot.drop t r }.setPhase t .starting)
      | _ => none
  | .cancel t =>
      match s.phase t with
      | .awaiting r => some ({ s with slot := s.slot.drop t r }.setPhase t .idle)
      | _ => none
  | .allocate => some s.allocate.2
  | .free slotIdx =>
      if slotIdx ∈ s.live then
        some { s with
          arena := s.arena.release slotIdx
          live := s.live.erase slotIdx
          pendingWakes := s.pendingWakes + 1 }
      else none
  | .wake =>
      if s.pendingWakes > 0 then some { s with slot := s.slot.wake, pendingWakes := s.pendingWakes - 1 } else none

def start (slotCount slotCapacity : Nat) (autoSpill : Bool) (initPolicy : InitPolicy) (memory : Memory) :
    State τ where
  arena := ArenaInner.build slotCount slotCapacity autoSpill initPolicy memory
  live := []
  slot := {}
  pendingWakes := 0
  phase _ := .idle

inductive Step (s : State τ) : Action τ → State τ → Prop
  | call (t : τ) (hp : s.phase t = .idle) : Step s (.call t) (s.setPhase t .starting)
  | prepare (t : τ) (hp : s.phase t = .starting) :
      Step s (.prepare t) ({ s with slot := ⟨s.slot.notify.enable t, s.slot.count + 1⟩ }.setPhase t
        (.trying ⟨true, false⟩))
  | succeed (t : τ) (r : NotifyRegistration) (hp : s.phase t = .trying r) (ha : s.allocate.1 = true) :
      Step s (.tryAllocate t) (s.allocate.2.setPhase t (.revoking r))
  | fail (t : τ) (r : NotifyRegistration) (hp : s.phase t = .trying r) (ha : s.allocate.1 = false) :
      Step s (.tryAllocate t) (s.allocate.2.setPhase t (.awaiting r))
  | revoke (t : τ) (r : NotifyRegistration) (hp : s.phase t = .revoking r) :
      Step s (.revoke t) ({ s with slot := s.slot.uncount r }.setPhase t (.leaving ⟨false, false⟩))
  | ready (t : τ) (r : NotifyRegistration) (hp : s.phase t = .awaiting r) (hr : (s.slot.notify.poll t).1 = true) :
      Step s (.poll t) ({ s with
        slot := { s.slot with notify := (s.slot.notify.poll t).2 }.uncount r }.setPhase t (.dropping ⟨false, true⟩))
  | pending (t : τ) (r : NotifyRegistration) (hp : s.phase t = .awaiting r) (hr : (s.slot.notify.poll t).1 = false) :
      Step s (.poll t) { s with slot := { s.slot with notify := (s.slot.notify.poll t).2 } }
  | leave (t : τ) (r : NotifyRegistration) (hp : s.phase t = .leaving r) :
      Step s (.drop t) ({ s with slot := s.slot.drop t r }.setPhase t .idle)
  | again (t : τ) (r : NotifyRegistration) (hp : s.phase t = .dropping r) :
      Step s (.drop t) ({ s with slot := s.slot.drop t r }.setPhase t .starting)
  | cancel (t : τ) (r : NotifyRegistration) (hp : s.phase t = .awaiting r) :
      Step s (.cancel t) ({ s with slot := s.slot.drop t r }.setPhase t .idle)
  | allocate : Step s .allocate s.allocate.2
  | free (slotIdx : Nat) (hb : slotIdx ∈ s.live) :
      Step s (.free slotIdx) { s with
        arena := s.arena.release slotIdx
        live := s.live.erase slotIdx
        pendingWakes := s.pendingWakes + 1 }
  | wake (hw : 0 < s.pendingWakes) :
      Step s .wake { s with slot := s.slot.wake, pendingWakes := s.pendingWakes - 1 }

theorem step_cases {s s' : State τ} {a : Action τ} (h : step s a = some s') : Step s a s' := by
  cases a with
  | call t =>
      simp only [step] at h
      split at h
      next hp => cases h; exact .call t hp
      next => cases h
  | prepare t =>
      simp only [step] at h
      split at h
      next hp => cases h; exact .prepare t hp
      next => cases h
  | tryAllocate t =>
      simp only [step] at h
      split at h
      next r hp =>
        split at h
        next ha => cases h; exact .succeed t r hp ha
        next ha => cases h; exact .fail t r hp (Bool.eq_false_iff.mpr ha)
      next => cases h
  | revoke t =>
      simp only [step] at h
      split at h
      next r hp => cases h; exact .revoke t r hp
      next => cases h
  | poll t =>
      simp only [step, FixedOrderSlot.poll] at h
      split at h
      next r hp =>
        cases hr : (s.slot.notify.poll t).1 with
        | true => simp only [hr, if_true] at h; cases h; exact .ready t r hp hr
        | false => simp only [hr, if_false, Bool.false_eq_true] at h; cases h; exact .pending t r hp hr
      next => cases h
  | drop t =>
      simp only [step] at h
      split at h
      next r hp => cases h; exact .leave t r hp
      next r hp => cases h; exact .again t r hp
      next => cases h
  | cancel t =>
      simp only [step] at h
      split at h
      next r hp => cases h; exact .cancel t r hp
      next => cases h
  | allocate => cases h; exact .allocate
  | free slotIdx =>
      simp only [step] at h
      split at h
      next hb => cases h; exact .free slotIdx hb
      next => cases h
  | wake =>
      simp only [step] at h
      split at h
      next hw => cases h; exact .wake hw
      next => cases h

def Phase.Agrees : Phase → Future → Prop
  | idle, f => f = .init
  | starting, f => f = .init
  | trying r, f => r = ⟨true, false⟩ ∧ f ≠ .init
  | revoking r, f => r = ⟨true, false⟩ ∧ f ≠ .init
  | leaving r, f => r = ⟨false, false⟩ ∧ f ≠ .init
  | awaiting r, f => r = ⟨true, false⟩ ∧ f ≠ .init
  | dropping r, f => r = ⟨false, true⟩ ∧ f = .done

structure Linked (phase : τ → Phase) (n : Notify τ) : Prop where
  proper : n.Proper
  agrees : ∀ t, (phase t).Agrees (n.future t)

variable {phase : τ → Phase} {n m : Notify τ}

theorem Phase.Agrees.notified {p : Phase} (h : p.Agrees .waiting) : p.Agrees .notified := by
  cases p with
  | idle | starting => cases h
  | dropping r => cases h.2
  | trying r | revoking r | leaving r | awaiting r => exact ⟨h.1, Future.noConfusion⟩

theorem Phase.Agrees.done_of_woken {p : Phase} {f : Future} (h : p.Agrees f) {r : NotifyRegistration}
    (hr : p.registration = some r) (hw : r.woken = true) : f = .done := by
  cases p with
  | idle | starting => cases hr
  | dropping r' => exact h.2
  | trying r' | revoking r' | leaving r' | awaiting r' =>
      cases hr
      rw [h.1] at hw
      cases hw

theorem Linked.notifyOne (h : Linked phase n) : Linked phase n.notifyOne := by
  refine ⟨Notify.notifyOne_proper h.proper, fun t => ?_⟩
  rcases Notify.notifyOne_future h.proper t with hf | ⟨hw, hf⟩ <;> rw [hf]
  · exact h.agrees t
  · exact (hw ▸ h.agrees t).notified

theorem Linked.change (h : Linked phase n) {t : τ} {p : Phase} (hm : m.Proper)
    (hu : ∀ u, u ≠ t → m.future u = n.future u) (hp : p.Agrees (m.future t)) : Linked (update phase t p) m := by
  refine ⟨hm, fun u => ?_⟩
  by_cases hut : u = t
  · subst hut
    rwa [update_self]
  · rw [update_of_ne hut, hu u hut]
    exact h.agrees u

/-- What the drop of a registration does to the notifier: it takes the future
out, and passes a notification on when the future had one that nobody polled
or when the registration calls notify_one. -/
inductive Dropped (w : FixedOrderSlot τ) (t : τ) (r : NotifyRegistration) : Notify τ → Prop
  | quiet (hf : w.notify.future t ≠ .notified) (hr : w.renotifies r = false) : Dropped w t r (w.notify.drop t)
  | pass (hf : w.notify.future t = .notified ∧ r.woken = false ∨ w.notify.future t = .done ∧ w.renotifies r = true) :
      Dropped w t r (w.notify.setFuture t .init).notifyOne

theorem drop_dropped {w : FixedOrderSlot τ} {t : τ} {r : NotifyRegistration} (h : Linked phase w.notify)
    (hr : (phase t).registration = some r) : Dropped w t r (w.drop t r).notify := by
  have hnotify : (w.drop t r).notify = (if w.renotifies r then w.notify.notifyOne else w.notify).drop t := by
    simp only [FixedOrderSlot.drop, FixedOrderSlot.uncount_notify]
  have hdone := fun hw => (h.agrees t).done_of_woken hr hw
  rw [hnotify]
  cases hn : w.renotifies r with
  | true =>
      rw [FixedOrderSlot.renotifies, Bool.and_eq_true] at hn
      rw [if_pos rfl, Notify.notifyOne_drop_done h.proper (hdone hn.1)]
      exact .pass (Or.inr ⟨hdone hn.1, by rw [FixedOrderSlot.renotifies, Bool.and_eq_true]; exact hn⟩)
  | false =>
      rw [if_neg Bool.false_ne_true]
      by_cases hf : w.notify.future t = .notified
      · rw [Notify.drop_notified _ hf]
        refine .pass (Or.inl ⟨hf, Bool.eq_false_iff.mpr fun hw => ?_⟩)
        rw [hdone hw] at hf
        cases hf
      · exact .quiet hf hn

theorem Dropped.linked {w : FixedOrderSlot τ} {t : τ} {r : NotifyRegistration} (hd : Dropped w t r m)
    (h : Linked phase w.notify) {p : Phase} (hp : p.Agrees .init) : Linked (update phase t p) m := by
  cases hd with
  | quiet hf hr =>
      refine h.change (Notify.drop_proper h.proper t) (fun u hu => Notify.drop_of_ne _ hf hu) ?_
      rwa [Notify.drop_self _ hf]
  | pass hf =>
      have hout : w.notify.future t ≠ .waiting := by
        rcases hf with ⟨hf, -⟩ | ⟨hf, -⟩ <;> rw [hf] <;> exact Future.noConfusion
      refine (h.change (h.proper.setFuture hout Future.noConfusion)
        (fun u hu => Notify.setFuture_of_ne _ hu _) ?_).notifyOne
      rwa [Notify.setFuture_self]

def Phase.registered (p : Phase) : Bool := p.registration.any (·.registered)

variable [Fintype τ]

structure Consistent (s : State τ) : Prop where
  sound : s.arena.Sound
  within : ∀ slotIdx ∈ s.live, slotIdx < s.arena.slotCount
  linked : Linked s.phase s.slot.notify
  count : s.slot.count = ∑ t, (s.phase t).registered.toNat

variable {s s' : State τ}

theorem Consistent.change (h : Consistent s) {t : τ} {p : Phase} {w : FixedOrderSlot τ}
    (hl : Linked (update s.phase t p) w.notify)
    (hcount : w.count + (s.phase t).registered.toNat = s.slot.count + p.registered.toNat) :
    Consistent ({ s with slot := w }.setPhase t p) := by
  refine ⟨h.sound, h.within, hl, ?_⟩
  have hsum := sum_update (fun p => p.registered.toNat) s.phase t p
  have hold := h.count
  change w.count = ∑ u, (update s.phase t p u).registered.toNat
  omega

omit [DecidableEq τ] in
theorem Consistent.count_pos (h : Consistent s) {t : τ} (ht : (s.phase t).registered = true) : 0 < s.slot.count := by
  rw [h.count]
  refine lt_of_lt_of_le ?_ (Finset.single_le_sum (fun _ _ => Nat.zero_le _) (Finset.mem_univ t))
  rw [ht]
  exact Nat.one_pos

omit [DecidableEq τ] [Fintype τ] in
theorem uncount_count {w : FixedOrderSlot τ} {r : NotifyRegistration} (h : r.registered = true → 0 < w.count) :
    (w.uncount r).count + r.registered.toNat = w.count := by
  rw [FixedOrderSlot.uncount]
  cases hr : r.registered with
  | false => rfl
  | true =>
      have hpos := h hr
      simp only [if_true, countSub, if_neg (Nat.ne_of_gt hpos)]
      exact Nat.sub_add_cancel hpos

theorem Consistent.drop (h : Consistent s) {t : τ} {r : NotifyRegistration} (hr : (s.phase t).registration = some r)
    {p : Phase} (hp : p.Agrees .init) (hreg : p.registered = false) :
    Consistent ({ s with slot := s.slot.drop t r }.setPhase t p) := by
  refine h.change ((drop_dropped h.linked hr).linked h.linked hp) ?_
  have hreg' : (s.phase t).registered = r.registered := by rw [Phase.registered, hr]; rfl
  have hc := uncount_count (w := s.slot) (r := r) fun hrr => h.count_pos (by rw [hreg', hrr])
  rw [hreg, hreg']
  exact hc

omit [DecidableEq τ] [Fintype τ] in
theorem allocate_frame (s : State τ) (h : s.arena.Sound) (hw : ∀ slotIdx ∈ s.live, slotIdx < s.arena.slotCount) :
    ∃ live, s.allocate.2 = { s with arena := s.arena.allocate.2, live := live } ∧
      ∀ slotIdx ∈ live, slotIdx < s.arena.slotCount := by
  rcases ArenaInner.allocate_cases h.paddingClear with ⟨buf, slotIdx, hok, hbuf, hfree, -⟩ | ⟨herr, -, -⟩
  · refine ⟨slotIdx :: s.live, by simp [State.allocate, hok, slotOf, hbuf], fun x hx => ?_⟩
    rcases List.mem_cons.mp hx with rfl | hx
    · exact h.slotCount ▸ h.paddingClear x hfree
    · exact hw x hx
  · exact ⟨s.live, by simp [State.allocate, herr], hw⟩

omit [DecidableEq τ] in
theorem Consistent.allocate (h : Consistent s) : Consistent s.allocate.2 := by
  obtain ⟨live, hs, hw⟩ := allocate_frame s h.sound h.within
  rw [hs]
  refine ⟨ArenaInner.allocate_sound h.sound, fun x hx => ?_, h.linked, h.count⟩
  change x < s.arena.allocate.2.slotCount
  rw [ArenaInner.allocate_slotCount]
  exact hw x hx

theorem Consistent.setPhase (h : Consistent s) {t : τ} {p : Phase} (hp : p.Agrees (s.slot.notify.future t))
    (hreg : p.registered = (s.phase t).registered) : Consistent (s.setPhase t p) :=
  h.change (w := s.slot) (h.linked.change h.linked.proper (fun _ _ => rfl) hp) (by rw [hreg])

theorem step_consistent {a : Action τ} (h : Consistent s) (hs : step s a = some s') : Consistent s' := by
  cases step_cases hs with
  | call t hp =>
      have hag := h.linked.agrees t
      rw [hp] at hag
      exact h.setPhase hag (by rw [hp]; rfl)
  | prepare t hp =>
      refine h.change (h.linked.change (Notify.enable_proper h.linked.proper t) (fun u hu => Notify.enable_of_ne _ hu)
        ⟨rfl, ?_⟩) (by rw [hp]; rfl)
      rcases s.slot.notify.enable_self t with ⟨hf, -⟩ | ⟨hf, -⟩ <;> rw [hf] <;> exact Future.noConfusion
  | succeed t r hp ha | fail t r hp ha =>
      have hag := h.linked.agrees t
      obtain ⟨live, hs, -⟩ := allocate_frame s h.sound h.within
      have hc := h.allocate
      rw [hp] at hag
      rw [hs] at hc ⊢
      exact hc.setPhase hag (by rw [show _ = s.phase t from rfl, hp]; rfl)
  | revoke t r hp =>
      have hag := h.linked.agrees t
      rw [hp] at hag
      obtain ⟨rfl, hf⟩ := hag
      have hreg : (s.phase t).registered = true := by rw [hp]; rfl
      have hc := uncount_count (w := s.slot) (r := ⟨true, false⟩) fun _ => h.count_pos hreg
      refine h.change (h.linked.change h.linked.proper (fun _ _ => rfl) ⟨rfl, hf⟩) ?_
      rw [hreg]
      exact hc
  | ready t r hp hr =>
      have hag := h.linked.agrees t
      rw [hp] at hag
      obtain ⟨rfl, hf⟩ := hag
      have hreg : (s.phase t).registered = true := by rw [hp]; rfl
      have hc := uncount_count (w := { s.slot with notify := (s.slot.notify.poll t).2 }) (r := ⟨true, false⟩)
        fun _ => h.count_pos hreg
      refine h.change (h.linked.change (Notify.enable_proper h.linked.proper t) (fun u hu => Notify.enable_of_ne _ hu)
        ⟨rfl, ?_⟩) ?_
      · exact of_decide_eq_true hr
      · rw [hreg]
        exact hc
  | pending t r hp hr =>
      have hag := h.linked.agrees t
      rw [hp] at hag
      rw [(Notify.poll_pending hag.2 hr).1]
      exact h
  | leave t r hp => exact h.drop (by rw [hp]; rfl) rfl rfl
  | again t r hp => exact h.drop (by rw [hp]; rfl) rfl rfl
  | cancel t r hp => exact h.drop (by rw [hp]; rfl) rfl rfl
  | allocate => exact h.allocate
  | free slotIdx hb =>
      refine ⟨ArenaInner.release_sound h.sound (h.within slotIdx hb), fun x hx => ?_, h.linked, h.count⟩
      change x < (s.arena.release slotIdx).slotCount
      rw [ArenaInner.release_slotCount]
      exact h.within x (List.mem_of_mem_erase hx)
  | wake hw =>
      rw [FixedOrderSlot.wake]
      split
      · exact ⟨h.sound, h.within, h.linked.notifyOne, h.count⟩
      · exact ⟨h.sound, h.within, h.linked, h.count⟩

omit [DecidableEq τ] in
theorem start_consistent (slotCount slotCapacity : Nat) (autoSpill : Bool) (initPolicy : InitPolicy) (memory : Memory) :
    Consistent (start slotCount slotCapacity autoSpill initPolicy memory : State τ) := by
  refine ⟨ArenaInner.build_sound slotCount slotCapacity autoSpill initPolicy memory, ?_,
    ⟨Notify.new_proper, fun _ => rfl⟩, ?_⟩
  · intro x hx
    cases hx
  · exact (Finset.sum_eq_zero fun _ _ => rfl).symm

end ArenaAlligator.AsyncFixed
