import ArenaAlligator.BuddyStarvation

namespace ArenaAlligator.AsyncBuddy

open Function NotifyWaiters Runs

variable {τ : Type}

structure Hears (e : WaiterEntry) : Prop where
  live : e.state = .live → e.tx = true ∧ e.rx = true
  woken : e.state = .woken → ∃ f, e.channel = .sent f

theorem Hears.wake {e : WaiterEntry} (h : Hears e) (hl : e.state = .live) (f : Nat) : Hears (e.wake f) := by
  obtain ⟨htx, hrx⟩ := h.live hl
  refine ⟨fun hw => ?_, fun _ => ⟨f, ?_⟩⟩
  · cases hw
  · simp [WaiterEntry.wake, htx, hrx]

theorem Hears.revoke (e : WaiterEntry) : Hears e.revoke := by
  constructor <;> intro h <;> cases h

def Phase.unpolled : Phase → Option BuddyRegistration
  | trying _ r _ | awaiting _ r | revoking r | leaving r => some r
  | idle | starting _ _ | dropping _ _ => none

theorem Phase.registration_of_unpolled {p : Phase} {r : BuddyRegistration} (h : p.unpolled = some r) :
    p.registration = some r := by
  cases p with
  | trying | awaiting | revoking | leaving => exact h
  | _ => cases h

def Heard (w : NotifyWaiters) (phase : τ → Phase) : Prop :=
  ∀ t r, (phase t).unpolled = some r → Hears (w.entries r.entry)

variable [DecidableEq τ] {w w' : NotifyWaiters} {phase : τ → Phase} {g : BuddyGeometry} {s s' : State τ}

theorem Heard.move (h : Heard w phase) {t : τ} {p : Phase}
    (hw : ∀ u r, u ≠ t → (phase u).registration = some r → w'.entries r.entry = w.entries r.entry)
    (hp : ∀ r, p.unpolled = some r → Hears (w'.entries r.entry)) : Heard w' (update phase t p) := by
  intro u r hu
  by_cases hut : u = t
  · rw [hut, update_self] at hu
    exact hp r hu
  · rw [update_of_ne hut] at hu
    rw [hw u r hut (Phase.registration_of_unpolled hu)]
    exact h u r hu

theorem Heard.close (h : Heard w phase) (hl : Linked w phase) {t : τ} {r : BuddyRegistration}
    (hr : (phase t).registration = some r) (hw : Closes r.entry w w') {p : Phase}
    (hp : ∀ r', p.unpolled = some r' → Hears (w'.entries r'.entry)) : Heard w' (update phase t p) :=
  h.move (fun u r' hut hu => hw.entries r'.entry fun he => hut (hl.distinct u t r' r hu hr he)) hp

omit [DecidableEq τ] in
theorem Heard.wake (h : Heard w phase) {f : Nat} (hw : Wakes f w w') : Heard w' phase := by
  intro t r hr
  rcases hw.entries r.entry with he | ⟨hl, -, he⟩
  · rw [he]
    exact h t r hr
  · rw [he]
    exact (h t r hr).wake (of_decide_eq_true hl) f

theorem Heard.enroll (h : Heard w phase) (hl : Linked w phase) (t : τ) (order now : Nat) {p : Phase}
    (hp : p.unpolled = some (w.enroll order now).2) : Heard (w.enroll order now).1 (update phase t p) := by
  have hent (j : Nat) : (w.enroll order now).1.entries j =
      if j = w.created then { timestamp := now } else w.entries j := update_apply _ _ _ _
  refine h.move (fun u r _ hu => ?_) fun r hr => ?_
  · rw [hent, if_neg (Nat.ne_of_lt (hl.created u r hu))]
  · rw [hp] at hr
    cases hr
    rw [hent, enroll_snd, if_pos rfl]
    exact ⟨fun _ => ⟨rfl, rfl⟩, fun hw => by cases hw⟩

theorem revokeEntry_hears {r : BuddyRegistration} (h : Hears (w.entries r.entry)) :
    Hears ((w.revokeEntry r).entries r.entry) := by
  simp only [revokeEntry]
  split
  · change Hears (update w.entries r.entry _ r.entry)
    rw [update_self]
    exact .revoke _
  · exact h

theorem step_heard {a : Action τ} (hc : Consistent g s) (h : Heard s.waiters s.phase) (hs : step s a = some s') :
    Heard s'.waiters s'.phase := by
  have hquiet {t : τ} {p : Phase} (hp : ∀ r, p.unpolled = some r → (s.phase t).unpolled = some r) :
      Heard s.waiters (update s.phase t p) := h.move (fun _ _ _ _ => rfl) fun r hr => h t r (hp r hr)
  have halloc (len : Nat) : (s.allocate len).2.waiters = s.waiters ∧ (s.allocate len).2.phase = s.phase := by
    obtain ⟨live, he⟩ := allocate_frame s len
    rw [he]
    exact ⟨rfl, rfl⟩
  cases step_cases hs with
  | call t len order hp ho => exact hquiet fun r hr => by cases hr
  | refuse t len | allocate len => rwa [(halloc len).1, (halloc len).2]
  | prepare t now q owed hp => exact h.enroll hc.linked t q.order now rfl
  | succeed t q r owed b hp hb | fail t q r owed hp hb =>
      change Heard (s.allocate q.len).2.waiters (update (s.allocate q.len).2.phase t _)
      rw [(halloc q.len).1, (halloc q.len).2]
      exact hquiet fun r' hr' => by rw [hp]; exact hr'
  | revoke t r hp =>
      have hr : (s.phase t).registration = some r := by rw [hp]; rfl
      refine h.close hc.linked hr (revoke_closes hc.linked.filed (hc.registered hr)) fun r' hr' => ?_
      have hheard := h t r (by rw [hp]; rfl)
      cases hr'
      rw [NotifyWaiters.revoke]
      split
      · exact revokeEntry_hears hheard
      · exact hheard
  | ready t q r hp hready =>
      have hr : (s.phase t).registration = some r := by rw [hp]; rfl
      exact h.close hc.linked hr (poll_closes hc.linked.filed hready (fun hl => (hc.linked.queued t r hr hl).2.1)
        (hc.linked.silent r.entry)) fun r' hr' => by cases hr'
  | pending t => exact h
  | leave t r hp =>
      have hr : (s.phase t).registration = some r := by rw [hp]; rfl
      exact h.close hc.linked hr (drop_closes hc.linked.filed (hc.registered hr)) fun r' hr' => by cases hr'
  | again t q r hp =>
      have hr : (s.phase t).registration = some r := by rw [hp]; rfl
      exact h.close hc.linked hr (drop_closes hc.linked.filed (hc.registered hr)) fun r' hr' => by cases hr'
  | cancel t q r hp =>
      have hr : (s.phase t).registration = some r := by rw [hp]; rfl
      exact h.close hc.linked hr (drop_closes hc.linked.filed (hc.registered hr)) fun r' hr' => by cases hr'
  | release b hb => exact h.wake (buddyWake_wakes hc.linked.filed (s.arena.release b.order b.index).1).1

/-- The state with a history: whether a task's registration was woken before
the task last tried to allocate with it. -/
structure Watched (τ : Type) where
  state : State τ
  heard : τ → Bool

def note (s : Watched τ) : Action τ → τ → Bool
  | .prepare t _ => update s.heard t false
  | .tryAllocate t => update s.heard t ((s.state.phase t).registration.any fun r => s.state.waiters.isWoken r.entry)
  | _ => s.heard

def watch (s : Watched τ) (a : Action τ) : Option (Watched τ) :=
  (step s.state a).map fun s' => ⟨s', note s a⟩

def Phase.last : Phase → Option BuddyRegistration
  | awaiting _ r | leaving r => some r
  | idle | starting _ _ | trying _ _ _ | revoking _ | dropping _ _ => none

/-- The registration that a step drops although it was woken and its task has
not tried to allocate since. -/
def abandons (s : Watched τ) : Action τ → Option BuddyRegistration
  | .cancel t | .drop t =>
      (s.state.phase t).last.filter fun r => !s.heard t && s.state.waiters.isWoken r.entry
  | _ => none

def freedFor (w : NotifyWaiters) (r : BuddyRegistration) : Option Nat :=
  match (w.entries r.entry).channel with
  | .sent f => some f
  | _ => none

def wasted (s : Watched τ) (a : Action τ) : Bool := (abandons s a).isSome

/-- A wake is wasted and there is no live waiter that it could have been for. -/
def spared (s : Watched τ) (a : Action τ) : Bool :=
  (abandons s a).any fun r => (freedFor s.state.waiters r).any fun f =>
    (List.range (f + 1)).all fun o => !s.state.waiters.hasLive o

/-- A wake is wasted and the same step wakes a live waiter that it could have
been for. -/
def reissued (s : Watched τ) (a : Action τ) : Bool :=
  (abandons s a).any fun r => (freedFor s.state.waiters r).any fun f =>
    (watch s a).any fun s' => (List.range (f + 1)).any fun o =>
      (s.state.waiters.queue o).any fun i => s.state.waiters.isLive i && s'.state.waiters.isWoken i

/-- A wake is wasted only when no waiter is counted at an order it was for. The
counts are those between calls: prepare, revoke, drop, and release with its
wake are one step each. -/
def Unclaimed (s : Watched τ) (a : Action τ) : Prop :=
  ∀ r ∈ abandons s a, ∀ f ∈ freedFor s.state.waiters r, ∀ o ≤ f, (s.state.waiters.buddyOrders o).count = 0

instance (s : Watched τ) (a : Action τ) : Decidable (Unclaimed s a) :=
  inferInstanceAs (Decidable (∀ r ∈ abandons s a, ∀ f ∈ freedFor s.state.waiters r, ∀ o ≤ f,
    (s.state.waiters.buddyOrders o).count = 0))

def begin (g : BuddyGeometry) (autoSpill : Bool) (initPolicy : InitPolicy) (memory : Memory) : Watched τ :=
  ⟨start g autoSpill initPolicy memory, fun _ => false⟩

omit [DecidableEq τ] in
theorem abandons_eq_some {s : Watched τ} {a : Action τ} {r : BuddyRegistration} (h : abandons s a = some r) :
    ∃ t, (s.state.phase t).unpolled = some r ∧ s.state.waiters.isWoken r.entry = true := by
  have hlast {t : τ} (ht : (s.state.phase t).last.filter (fun r => !s.heard t && s.state.waiters.isWoken r.entry) =
      some r) : ∃ t, (s.state.phase t).unpolled = some r ∧ s.state.waiters.isWoken r.entry = true := by
    rw [Option.filter_eq_some_iff, Bool.and_eq_true] at ht
    obtain ⟨hr, -, hw⟩ := ht
    refine ⟨t, ?_, hw⟩
    cases hp : s.state.phase t with
    | awaiting | leaving => rw [hp] at hr; exact hr
    | _ => rw [hp] at hr; cases hr
  cases a with
  | cancel t | drop t => exact hlast h
  | _ => cases h

structure Attended (g : BuddyGeometry) (s : Watched τ) : Prop where
  consistent : Consistent g s.state
  heard : Heard s.state.waiters s.state.phase

omit [DecidableEq τ] in
theorem spared_of_unclaimed {s : Watched τ} {a : Action τ} (h : Attended g s) (hok : Unclaimed s a)
    (hw : wasted s a = true) : spared s a = true := by
  obtain ⟨r, hr⟩ := Option.isSome_iff_exists.mp hw
  obtain ⟨t, ht, hwoken⟩ := abandons_eq_some hr
  obtain ⟨f, hf⟩ := (h.heard t r ht).woken (of_decide_eq_true hwoken)
  have hfreed : freedFor s.state.waiters r = some f := by rw [freedFor, hf]
  rw [spared, hr, Option.any_some, hfreed, Option.any_some, List.all_eq_true]
  intro o ho
  have hzero := hok r hr f hfreed o (Nat.lt_succ_iff.mp (List.mem_range.mp ho))
  rw [Bool.not_eq_true', Bool.eq_false_iff]
  exact fun hlive => h.consistent.linked.filed.counted.hasLive_iff_count.mp hlive hzero

theorem watch_wasted {s s' : Watched τ} {a : Action τ} (h : Attended g s) (hok : Unclaimed s a)
    (hs : watch s a = some s') : Attended g s' ∧ (wasted s a).toNat + 0 ≤ 0 + (spared s a).toNat := by
  obtain ⟨v, hv, rfl⟩ := Option.map_eq_some_iff.mp hs
  refine ⟨⟨step_consistent h.consistent hv, step_heard h.consistent h.heard hv⟩, ?_⟩
  cases hw : wasted s a with
  | false => exact Nat.zero_le _
  | true =>
      rw [spared_of_unclaimed h hok hw]
      exact Nat.le_of_eq (Nat.add_comm _ _)

/-- Wakes of registrations that never retry are re-issued or were for nobody,
provided such a registration is dropped only when nobody is counted at the
orders of its wake. -/
theorem cancelled_wakes_accounted (g : BuddyGeometry) (autoSpill : Bool) (initPolicy : InitPolicy) (memory : Memory)
    (as : List (Action τ)) (s : Watched τ) (hr : run watch (begin g autoSpill initPolicy memory) as = some s)
    (hok : Meets watch Unclaimed (begin g autoSpill initPolicy memory) as) :
    tally watch wasted (begin g autoSpill initPolicy memory) as ≤
      tally watch reissued (begin g autoSpill initPolicy memory) as +
      tally watch spared (begin g autoSpill initPolicy memory) as := by
  have hpot := tally_potential (Attended g) (fun _ => 0) wasted spared hr hok
    ⟨start_consistent g autoSpill initPolicy memory, fun t r ht => by cases ht⟩
    fun s a s' h ha hs => watch_wasted h ha hs
  omega

def pairBegin : Watched (Fin 2) := begin pairGeometry false .uninit fun _ => 0

def aloneRun : List (Action (Fin 2)) :=
  [.allocate 512, .allocate 512] ++ park 0 1 ++ [.release ⟨0, 0⟩, .cancel 0]

def aloneState : Watched (Fin 2) := (run watch pairBegin aloneRun).getD pairBegin

theorem cancelled_wakes_accounted_alone :
    Meets watch Unclaimed pairBegin aloneRun ∧ tally watch wasted pairBegin aloneRun = 1 ∧
    1 ≤ tally watch reissued pairBegin aloneRun + tally watch spared pairBegin aloneRun := by
  have hr : run watch pairBegin aloneRun = some aloneState := run_eq_some_getD (by decide +kernel)
  have hok : Meets watch Unclaimed pairBegin aloneRun := by decide +kernel
  have hwasted : tally watch wasted pairBegin aloneRun = 1 := by decide +kernel
  have hle := cancelled_wakes_accounted pairGeometry false .uninit (fun _ => 0) aloneRun aloneState hr hok
  rw [show begin pairGeometry false .uninit (fun _ => 0) = pairBegin from rfl, hwasted] at hle
  exact ⟨hok, hwasted, hle⟩

/-- Two tasks wait, one is woken and then cancelled. -/
def orphanedRun : List (Action (Fin 2)) :=
  [.allocate 512, .allocate 512] ++ park 0 1 ++ park 1 2 ++ [.release ⟨0, 0⟩, .cancel 0]

def orphanedState : Watched (Fin 2) := (run watch pairBegin orphanedRun).getD pairBegin

/-- The wake is lost: the other task stays parked with a free block of its
order. -/
theorem cancelled_wake_not_reissued :
    run watch pairBegin orphanedRun = some orphanedState ∧ orphanedState.state.waiters.isLive 1 = true ∧
    orphanedState.state.arena.freeBit ⟨0, 0⟩ = true ∧
    ¬ tally watch wasted pairBegin orphanedRun ≤
      tally watch reissued pairBegin orphanedRun + tally watch spared pairBegin orphanedRun := by
  refine ⟨run_eq_some_getD (by decide +kernel), ?_⟩
  decide +kernel

end ArenaAlligator.AsyncBuddy
