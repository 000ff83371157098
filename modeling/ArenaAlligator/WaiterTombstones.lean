import ArenaAlligator.AsyncBuddy

namespace ArenaAlligator.AsyncBuddy

open Function NotifyWaiters Runs

def tombstones (w : NotifyWaiters) (o : Nat) : Nat := (w.queue o).countP fun i => !w.isLive i

theorem length_queue (w : NotifyWaiters) (o : Nat) :
    (w.queue o).length = (w.queue o).countP w.isLive + tombstones w o := by
  rw [tombstones, List.length_eq_countP_add_countP w.isLive]
  congr 2
  funext i
  cases w.isLive i <;> rfl

theorem tombstones_enroll {w : NotifyWaiters} (hw : w.Counted) (order now o : Nat) :
    tombstones (w.enroll order now).1 o = tombstones w o := by
  have hsame : ∀ i ∈ w.queue o, (w.enroll order now).1.isLive i = w.isLive i := by
    intro i hi
    rw [enroll_isLive, if_neg (Nat.ne_of_lt (hw.created o i hi))]
  have hold : (w.queue o).countP (fun i => !(w.enroll order now).1.isLive i) = tombstones w o :=
    List.countP_congr fun i hi => by rw [hsame i hi]
  rw [tombstones, enroll_queue]
  split
  · rw [List.countP_append, hold, List.countP_singleton, enroll_isLive, if_pos rfl]
    rfl
  · exact hold

variable {τ : Type} [Fintype τ] {g : BuddyGeometry} {s s' : State τ}

def outstanding (o : Nat) (s : State τ) : Nat :=
  (Finset.univ.filter fun t => (s.phase t).registration.any fun r => r.order = o).card

theorem live_le_outstanding (h : Linked s.waiters s.phase) (o : Nat) :
    (s.waiters.queue o).countP s.waiters.isLive ≤ outstanding o s := by
  have hnodup : ((s.waiters.queue o).filter s.waiters.isLive).Nodup :=
    ((h.filed.sorted o).imp Nat.ne_of_lt).filter _
  have hsub : ((s.waiters.queue o).filter s.waiters.isLive).toFinset ⊆
      (Finset.univ.filter fun t => (s.phase t).registration.any fun r => r.order = o).image
        fun t => ((s.phase t).registration.map BuddyRegistration.entry).getD 0 := by
    intro i hi
    rw [List.mem_toFinset, List.mem_filter] at hi
    obtain ⟨t, r, hr, he, ho⟩ := h.owned o i hi.1 hi.2
    refine Finset.mem_image.mpr ⟨t, Finset.mem_filter.mpr ⟨Finset.mem_univ t, ?_⟩, ?_⟩
    · rw [hr]
      exact decide_eq_true ho
    · rw [hr]
      exact he
  rw [List.countP_eq_length_filter, ← List.toFinset_card_of_nodup hnodup]
  exact (Finset.card_le_card hsub).trans Finset.card_image_le

variable [DecidableEq τ]

/-- What a step must not do: register at an order whose queue holds more
tombstones than one wake may pop. -/
def Swept (s : State τ) : Action τ → Prop
  | .prepare t _ => ∀ q ∈ (s.phase t).request,
      tombstones s.waiters (min q.order (s.waiters.numOrders - 1)) ≤ maxPopsPerWake
  | _ => True

instance (s : State τ) : (a : Action τ) → Decidable (Swept s a)
  | .prepare t _ => inferInstanceAs (Decidable (∀ q ∈ (s.phase t).request,
      tombstones s.waiters (min q.order (s.waiters.numOrders - 1)) ≤ maxPopsPerWake))
  | .call _ _ | .tryAllocate _ | .revoke _ | .poll _ | .drop _ | .cancel _ | .allocate _ | .release _ => isTrue trivial

/-- A queue grows only by a prepare, and then it is the tombstones before it
and live entries. -/
theorem step_queue {a : Action τ} (h : Consistent g s) (hok : Swept s a) (hs : step s a = some s') (o : Nat) :
    (s'.waiters.queue o).length ≤ (s.waiters.queue o).length ∨
    (s'.waiters.queue o).length ≤ outstanding o s' + maxPopsPerWake := by
  have hc := step_consistent h hs
  have halloc (len : Nat) : (s.allocate len).2.waiters = s.waiters := by
    obtain ⟨live, he⟩ := allocate_frame s len
    rw [he]
  have hclose {i : Nat} {w : NotifyWaiters} (hw : Closes i s.waiters w) :
      (w.queue o).length ≤ (s.waiters.queue o).length := Nat.le_of_eq (by rw [hw.queue])
  cases step_cases hs with
  | prepare t now q owed hp =>
      have hlive := live_le_outstanding hc.linked o
      by_cases ho : o = min q.order (s.waiters.numOrders - 1)
      · right
        have hdead := hok q (by rw [hp]; rfl)
        rw [← ho, ← tombstones_enroll h.linked.filed.counted q.order now] at hdead
        rw [length_queue]
        exact Nat.add_le_add hlive hdead
      · left
        change ((s.waiters.enroll q.order now).1.queue o).length ≤ _
        rw [enroll_queue, if_neg ho]
  | revoke t r hp =>
      have hr : (s.phase t).registration = some r := by rw [hp]; rfl
      exact Or.inl (hclose (revoke_closes h.linked.filed (h.registered hr)))
  | ready t q r hp hready =>
      have hr : (s.phase t).registration = some r := by rw [hp]; rfl
      exact Or.inl (hclose (poll_closes h.linked.filed hready (fun hl => (h.linked.queued t r hr hl).2.1)
        (h.linked.silent r.entry)))
  | leave t r hp =>
      have hr : (s.phase t).registration = some r := by rw [hp]; rfl
      exact Or.inl (hclose (drop_closes h.linked.filed (h.registered hr)))
  | again t q r hp =>
      have hr : (s.phase t).registration = some r := by rw [hp]; rfl
      exact Or.inl (hclose (drop_closes h.linked.filed (h.registered hr)))
  | cancel t q r hp =>
      have hr : (s.phase t).registration = some r := by rw [hp]; rfl
      exact Or.inl (hclose (drop_closes h.linked.filed (h.registered hr)))
  | call | pending => exact Or.inl (Nat.le_refl _)
  | refuse t len | allocate len => exact Or.inl (Nat.le_of_eq (by rw [halloc]))
  | succeed t q r owed b hp hb | fail t q r owed hp hb =>
      left
      change ((s.allocate q.len).2.waiters.queue o).length ≤ _
      rw [halloc]
  | release b hb =>
      exact Or.inl ((buddyWake_wakes h.linked.filed (s.arena.release b.order b.index).1).1.suffix o).length_le

/-- A queue is at most as long as the registrations there were at its order at
one time, and what one wake may pop, provided no registration was made at an
order with more tombstones than that. -/
theorem queue_length_bounded (g : BuddyGeometry) (autoSpill : Bool) (initPolicy : InitPolicy) (memory : Memory)
    (as : List (Action τ)) (s : State τ) (hr : run step (start g autoSpill initPolicy memory) as = some s)
    (hok : Meets step Swept (start g autoSpill initPolicy memory) as) (o : Nat) :
    (s.waiters.queue o).length ≤
      peak step (outstanding o) (start g autoSpill initPolicy memory) as + maxPopsPerWake := by
  have hle := le_peak_add (Consistent g) (outstanding o) (fun s => (s.waiters.queue o).length) maxPopsPerWake hr hok
    (start_consistent g autoSpill initPolicy memory) (b := 0) (Nat.zero_le _) fun s a s' h ha hs =>
      ⟨step_consistent h hs, step_queue h ha hs o⟩
  rwa [Nat.zero_max] at hle

def quickCall : List (Action (Fin 1)) :=
  [.call 0 512, .prepare 0 1, .tryAllocate 0, .revoke 0, .drop 0, .release ⟨0, 0⟩]

def loneStart : State (Fin 1) := start pairGeometry false .uninit fun _ => 0

def quickCalls (n : Nat) : List (Action (Fin 1)) := (List.replicate n quickCall).flatten

def afterCalls (n : Nat) : State (Fin 1) := (run step loneStart (quickCalls n)).getD loneStart

theorem queue_length_bounded_nine :
    Meets step Swept loneStart (quickCalls 9) ∧ ((afterCalls 9).waiters.queue 0).length = 9 ∧
    9 ≤ peak step (outstanding 0) loneStart (quickCalls 9) + maxPopsPerWake := by
  have hr : run step loneStart (quickCalls 9) = some (afterCalls 9) := run_eq_some_getD (by decide +kernel)
  have hok : Meets step Swept loneStart (quickCalls 9) := by decide +kernel
  have hlen : ((afterCalls 9).waiters.queue 0).length = 9 := by decide +kernel
  have hle := queue_length_bounded pairGeometry false .uninit (fun _ => 0) (quickCalls 9) (afterCalls 9) hr hok 0
  rw [hlen, show start pairGeometry false .uninit (fun _ => 0) = loneStart from rfl] at hle
  exact ⟨hok, hlen, hle⟩

/-- Calls that are served at once leave a tombstone each, and no wake visits
the order. -/
theorem tombstones_pile_up :
    run step loneStart (quickCalls 10) = some (afterCalls 10) ∧
    ¬ ((afterCalls 10).waiters.queue 0).length ≤
      peak step (outstanding 0) loneStart (quickCalls 10) + maxPopsPerWake :=
  ⟨run_eq_some_getD (by decide +kernel), by decide +kernel⟩

end ArenaAlligator.AsyncBuddy
