import ArenaAlligator.WaiterAccounting
import ArenaAlligator.WaiterQueues

namespace ArenaAlligator.WaiterThreads

open Function NotifyWaiters Runs

def Pc.stamps : Pc → Option Nat
  | prepareAdd r | prepareStamp r => some r.entry
  | _ => none

def Pc.counts : Pc → Option BuddyRegistration
  | prepareAdd r => some r
  | _ => none

def Pc.retracts (o : Nat) : Pc → Bool
  | revokeTake r _ | revokeSub r _ _ => r.order = o
  | _ => false

/-- What the loop of update_head_timestamp knows of its queue: the live
entries are still ahead of it, and at the end there are none. -/
def Pc.Scanned (w : NotifyWaiters) : Pc → Prop
  | wakeScan k _ scan => ∀ i ∈ w.queue k.order, w.isLive i = true → i ∈ scan
  | wakeStore k _ ts => ts = noWaitersTimestamp → ∀ i ∈ w.queue k.order, w.isLive i = false
  | _ => True

structure Calm (w w' : NotifyWaiters) : Prop where
  stamp : ∀ i, (w'.entries i).timestamp = (w.entries i).timestamp
  fewer : ∀ o, ∀ i ∈ w'.queue o, w'.isLive i = true → i ∈ w.queue o ∧ w.isLive i = true
  head : ∀ o, (w'.buddyOrders o).headTimestamp = noWaitersTimestamp →
    (w.buddyOrders o).headTimestamp = noWaitersTimestamp ∨ ∀ i ∈ w'.queue o, w'.isLive i = false

namespace Calm

variable {w w' w'' : NotifyWaiters}

theorem refl (w : NotifyWaiters) : Calm w w := ⟨fun _ => rfl, fun _ _ hi hl => ⟨hi, hl⟩, fun _ ho => Or.inl ho⟩

theorem trans (h : Calm w w') (h' : Calm w' w'') : Calm w w'' := by
  refine ⟨fun i => (h'.stamp i).trans (h.stamp i), fun o i hi hl => ?_, fun o ho => ?_⟩
  · obtain ⟨hi', hl'⟩ := h'.fewer o i hi hl
    exact h.fewer o i hi' hl'
  · rcases h'.head o ho with ho | ho
    · refine (h.head o ho).imp_right fun hdead i hi => ?_
      by_contra hl
      obtain ⟨hi', hl'⟩ := h'.fewer o i hi (Bool.eq_true_of_not_eq_false hl)
      exact Bool.false_ne_true ((hdead i hi').symm.trans hl')
    · exact Or.inr ho

theorem entry (w : NotifyWaiters) (i : Nat) {e : WaiterEntry} (hts : e.timestamp = (w.entries i).timestamp)
    (hlive : e.state = .live → (w.entries i).state = .live) : Calm w (w.setEntry i e) := by
  have hent (j : Nat) : (w.setEntry i e).entries j = if j = i then e else w.entries j := update_apply _ _ _ _
  refine ⟨fun j => ?_, fun o j hj hl => ⟨hj, ?_⟩, fun _ ho => Or.inl ho⟩
  · rw [hent]
    split
    next he => rw [he, hts]
    next => rfl
  · rw [isLive, hent, decide_eq_true_eq] at hl
    rw [isLive, decide_eq_true_eq]
    split at hl
    next he => exact he ▸ hlive hl
    next => exact hl

theorem slot (w : NotifyWaiters) (o : Nat) {slot : BuddyOrderSlot} (hq : ∀ i ∈ slot.queue, i ∈ w.queue o)
    (hh : slot.headTimestamp = noWaitersTimestamp →
      (w.buddyOrders o).headTimestamp = noWaitersTimestamp ∨ ∀ i ∈ slot.queue, w.isLive i = false) :
    Calm w (w.setSlot o slot) := by
  have hslot (o' : Nat) : (w.setSlot o slot).buddyOrders o' = if o' = o then slot else w.buddyOrders o' :=
    update_apply _ _ _ _
  refine ⟨fun _ => rfl, fun o' i hi hl => ⟨?_, hl⟩, fun o' ho => ?_⟩
  · rw [NotifyWaiters.queue, hslot] at hi
    split at hi
    next he => exact he ▸ hq i hi
    next => exact hi
  · rw [hslot] at ho
    rw [NotifyWaiters.queue, hslot]
    split at ho
    next he =>
      rw [if_pos he, he]
      exact hh ho
    next => exact Or.inl ho

end Calm

variable {τ : Type} {s s' v : State τ}

/-- The live entries of a queue show in the timestamp of their order, or the
prepare of one of them is about to store it. -/
structure Visible (s : State τ) : Prop where
  stamped : ∀ i, (s.waiters.entries i).timestamp ≠ noWaitersTimestamp
  shown : ∀ o, ∀ i ∈ s.waiters.queue o, s.waiters.isLive i = true →
    (s.waiters.buddyOrders o).headTimestamp ≠ noWaitersTimestamp ∨ ∃ t, (s.pc t).stamps = some i
  scanned : ∀ t, (s.pc t).Scanned s.waiters

theorem Pc.Scanned.fewer {p : Pc} {w w' : NotifyWaiters} (h : p.Scanned w)
    (hf : ∀ o, p.inside = some o → ∀ i ∈ w'.queue o, w'.isLive i = true → i ∈ w.queue o ∧ w.isLive i = true) :
    p.Scanned w' := by
  cases p with
  | wakeScan k i scan =>
      intro j hj hl
      obtain ⟨hj', hl'⟩ := hf k.order rfl j hj hl
      exact h j hj' hl'
  | wakeStore k i ts =>
      intro hts j hj
      by_contra hl
      obtain ⟨hj', hl'⟩ := hf k.order rfl j hj (Bool.eq_true_of_not_eq_false hl)
      exact Bool.false_ne_true ((h hts j hj').symm.trans hl')
  | _ => trivial

theorem Visible.calm (h : Visible s) (hw : Calm s.waiters v.waiters) (hpc : v.pc = s.pc) : Visible v := by
  refine ⟨fun i => ?_, fun o i hi hl => ?_, fun t => ?_⟩
  · rw [hw.stamp]
    exact h.stamped i
  · obtain ⟨hi', hl'⟩ := hw.fewer o i hi hl
    rw [hpc]
    refine (h.shown o i hi' hl').imp_left fun hne hno => ?_
    rcases hw.head o hno with ho | hdead
    · exact hne ho
    · exact Bool.false_ne_true ((hdead i hi).symm.trans hl)
  · rw [hpc]
    exact (h.scanned t).fewer fun o _ => hw.fewer o

variable [DecidableEq τ] {t : τ} {p : Pc}

theorem Visible.goto (h : Visible s)
    (hst : ∀ i, (s.pc t).stamps = some i → p.stamps = some i ∨
      ∀ o, i ∈ s.waiters.queue o → (s.waiters.buddyOrders o).headTimestamp ≠ noWaitersTimestamp)
    (hsc : p.Scanned s.waiters) : Visible (s.goto t p) := by
  refine ⟨h.stamped, fun o i hi hl => ?_, fun u => ?_⟩
  · rcases h.shown o i hi hl with hne | ⟨u, hu⟩
    · exact Or.inl hne
    · by_cases hut : u = t
      · rcases hst i (hut ▸ hu) with hp | hne
        · exact Or.inr ⟨t, by rw [goto_self, hp]⟩
        · exact Or.inl (hne o hi)
      · exact Or.inr ⟨u, by rw [goto_of_ne _ hut, hu]⟩
  · by_cases hut : u = t
    · rw [hut, goto_self]
      exact hsc
    · rw [goto_of_ne _ hut]
      exact h.scanned u

theorem Visible.quiet (h : Visible s) (hw : Calm s.waiters v.waiters) (hpc : v.pc = s.pc)
    (ht : (s.pc t).stamps = none) (hsc : p.Scanned v.waiters) : Visible (v.goto t p) := by
  refine (h.calm hw hpc).goto (fun i hi => ?_) hsc
  rw [hpc, ht] at hi
  cases hi

theorem Visible.push (h : Visible s) (hl : Locked s) {r : BuddyRegistration} (hp : s.pc t = .preparePush r)
    (hst : p.stamps = some r.entry) (hsc : ∀ w, p.Scanned w) (hw : v.waiters = pushBack s.waiters r.order r.entry)
    (hpc : v.pc = s.pc) : Visible (v.goto t p) := by
  have hqueue (o : Nat) := queue_pushBack s.waiters r.order r.entry o
  have hhead (o : Nat) : ((pushBack s.waiters r.order r.entry).buddyOrders o).headTimestamp =
      (s.waiters.buddyOrders o).headTimestamp := by
    simp only [pushBack, setSlot, update_apply]
    split
    next ho => rw [ho]
    next => rfl
  refine ⟨fun i => ?_, fun o i hi hlive => ?_, fun u => ?_⟩
  · change (v.waiters.entries i).timestamp ≠ _
    rw [hw]
    exact h.stamped i
  · change i ∈ v.waiters.queue o at hi
    change v.waiters.isLive i = true at hlive
    change (v.waiters.buddyOrders o).headTimestamp ≠ _ ∨ _
    rw [hw, hqueue] at hi
    rw [hw] at hlive ⊢
    have hold (hi : i ∈ s.waiters.queue o) :
        (s.waiters.buddyOrders o).headTimestamp ≠ noWaitersTimestamp ∨ ∃ u, ((v.goto t p).pc u).stamps = some i := by
      refine (h.shown o i hi hlive).imp_right fun hex => ?_
      obtain ⟨u, hu⟩ := hex
      refine ⟨u, ?_⟩
      rw [goto_of_ne, hpc, hu]
      rintro rfl
      rw [hp] at hu
      cases hu
    rw [hhead]
    split at hi
    next ho =>
      rcases List.mem_append.mp hi with hi | hi
      · exact hold (ho ▸ hi)
      · exact Or.inr ⟨t, by rw [goto_self, hst, List.mem_singleton.mp hi]⟩
    next => exact hold hi
  · change ((v.goto t p).pc u).Scanned v.waiters
    by_cases hut : u = t
    · rw [hut, goto_self]
      exact hsc _
    · rw [goto_of_ne _ hut, hpc, hw]
      refine (h.scanned u).fewer fun o ho i hi hlive => ?_
      rw [hqueue, if_neg] at hi
      · exact ⟨hi, hlive⟩
      · rintro rfl
        exact hut (hl.alone ho (by rw [hp]; rfl))

section Run

variable [Fintype τ]

omit [DecidableEq τ] in
theorem stamps_home (h : Books s) {i : Nat} (hi : (s.pc t).stamps = some i) :
    ∃ o, s.home i = some o ∧ (s.pc t).inside = some o := by
  have hok := h.ledger.ok t
  rw [State.roles] at hok
  cases hp : s.pc t with
  | prepareAdd r =>
      rw [hp] at hi hok
      cases hi
      exact ⟨r.order, hok.1, rfl⟩
  | prepareStamp r =>
      rw [hp] at hi hok
      cases hi
      exact ⟨r.order, hok.1, rfl⟩
  | _ =>
      rw [hp] at hi
      cases hi

omit [DecidableEq τ] in
theorem Locked.liveInHand_eq_zero (hl : Locked s) {o : Nat} (hin : (s.pc t).inside = some o)
    (ht : (s.pc t).hand = none) : liveInHand s o = 0 := by
  refine Finset.card_eq_zero.mpr (Finset.filter_eq_empty_iff.mpr fun u _ hu => ?_)
  obtain ⟨i, hi, -⟩ := handsLive_iff.mp hu
  rw [hl.alone (hand_inside hi) hin, ht] at hi
  cases hi

omit [DecidableEq τ] [Fintype τ] in
theorem wins_cases {o : Nat} (h : (s.roles t).wins o ≠ 0) : (s.pc t).retracts o = true ∨ (s.pc t).inside = some o := by
  rw [State.roles] at h
  cases hp : s.pc t with
  | revokeTake r d | revokeSub r d tx =>
      rw [hp] at h
      by_contra hne
      exact h (if_neg fun ho => hne (Or.inl (decide_eq_true ho)))
  | wakeSub k i =>
      rw [hp] at h
      by_contra hne
      exact h (if_neg fun ho => hne (Or.inr (congrArg some ho)))
  | wakeUnlock k won =>
      rw [hp] at h
      cases won <;> exact absurd rfl h
  | _ =>
      rw [hp] at h
      exact absurd rfl h

omit [DecidableEq τ] in
theorem Locked.decrements_eq_zero (hl : Locked s) {o : Nat} (hin : (s.pc t).inside = some o)
    (ht : (s.roles t).wins o = 0) (hno : ∀ u, (s.pc u).retracts o = false) : decrements s o = 0 := by
  refine Finset.sum_eq_zero fun u _ => ?_
  by_contra hu
  rcases wins_cases hu with hret | hinu
  · exact Bool.false_ne_true ((hno u).symm.trans hret)
  · exact hu (hl.alone hinu hin ▸ ht)

omit [DecidableEq τ] in
/-- A prepare that does not stamp its order finds it stamped, unless a revoke
is about to decrement. -/
theorem Visible.head_of_count (h : Visible s) (hs : Sound s) {r : BuddyRegistration} (hp : s.pc t = .prepareAdd r)
    (hcount : (s.waiters.buddyOrders r.order).count ≠ 0)
    (hsteady : (s.waiters.buddyOrders r.order).headTimestamp = noWaitersTimestamp →
      ∀ u, (s.pc u).retracts r.order = false) :
    (s.waiters.buddyOrders r.order).headTimestamp ≠ noWaitersTimestamp := by
  intro hno
  have hin : (s.pc t).inside = some r.order := by rw [hp]; rfl
  -- the only live entry of the queue is the one just pushed
  have honly : ∀ i ∈ s.waiters.queue r.order, s.waiters.isLive i = true → (i == r.entry) = true := by
    intro i hi hl
    obtain ⟨u, hu⟩ := (h.shown r.order i hi hl).resolve_left (not_not.mpr hno)
    obtain ⟨o, ho, hino⟩ := stamps_home hs.books hu
    have hor : o = r.order := Option.some.inj (ho.symm.trans (hs.books.ledger.queued r.order i hi))
    rw [hor] at hino
    rw [hs.locked.alone hino hin, hp] at hu
    cases hu
    exact beq_self_eq_true _
  have hqueued : liveQueued s r.order ≤ 1 :=
    (List.countP_mono_left honly).trans (List.nodup_iff_count_le_one.mp (hs.books.ledger.nodup r.order) r.entry)
  have hhand := hs.locked.liveInHand_eq_zero hin (by rw [hp]; rfl)
  have hwins := hs.locked.decrements_eq_zero hin (by rw [roles_of_pc hp]; rfl) (hsteady hno)
  have hadds : 1 ≤ ∑ u, (s.roles u).adds r.order := by
    have hone : (s.roles t).adds r.order = 1 := by rw [State.roles, hp]; exact if_pos rfl
    exact hone ▸ Finset.single_le_sum (fun u _ => Nat.zero_le ((s.roles u).adds r.order)) (Finset.mem_univ t)
  have heq := hs.books.ledger.count r.order
  rw [hs.books.liveHome_eq, hhand] at heq
  rw [decrements] at hwins
  omega

/-- What a step must not do: create a registration at the end of time, or
count a waiter at an unstamped order in the middle of a revoke there. -/
def Steady (s : State τ) : Action τ → Prop
  | .register _ now => now ≠ noWaitersTimestamp
  | .tick t => ∀ r ∈ (s.pc t).counts, (s.waiters.buddyOrders r.order).headTimestamp = noWaitersTimestamp →
      ∀ u, (s.pc u).retracts r.order = false
  | _ => True

instance (s : State τ) : (a : Action τ) → Decidable (Steady s a)
  | .register _ now => inferInstanceAs (Decidable (now ≠ noWaitersTimestamp))
  | .tick t => inferInstanceAs (Decidable (∀ r ∈ (s.pc t).counts,
      (s.waiters.buddyOrders r.order).headTimestamp = noWaitersTimestamp → ∀ u, (s.pc u).retracts r.order = false))
  | .prepare _ _ | .revoke _ _ | .poll _ | .drop _ _ | .wake _ _ => isTrue trivial

theorem nextScan_scanned {w : NotifyWaiters} (hts : ∀ i, (w.entries i).timestamp ≠ noWaitersTimestamp) {k : Wake}
    {i : Nat} {scan : List Nat} (h : (Pc.wakeScan k i scan).Scanned w) : (nextScan w k i scan).Scanned w := by
  cases scan with
  | nil =>
      intro _ j hj
      by_contra hl
      exact absurd (h j hj (Bool.eq_true_of_not_eq_false hl)) List.not_mem_nil
  | cons j rest =>
      rw [nextScan]
      split
      · exact fun hno => absurd hno (hts j)
      next hdead =>
        intro i hi hl
        refine (List.mem_cons.mp (h i hi hl)).resolve_left ?_
        rintro rfl
        exact hdead hl

theorem nextOrder_scanned (f : Nat) (orders : List Nat) (pops : Nat) (w : NotifyWaiters) :
    (nextOrder f orders pops).Scanned w :=
  nextOrder_rec (P := fun p => p.Scanned w) trivial (fun _ => trivial) f orders pops

theorem nextScore_scanned (w : NotifyWaiters) (f : Nat) (streak : BitVec 64) (order : Nat) (cs : List (Nat × Nat)) :
    (nextScore w f streak order cs).Scanned w :=
  nextScore_rec (P := fun p => p.Scanned w) trivial (fun _ => trivial) (fun _ _ _ _ => trivial) w f streak order cs

omit [Fintype τ] in
theorem finish_visible (h : Visible s) (hw : Calm s.waiters v.waiters) (hpc : v.pc = s.pc)
    (ht : (s.pc t).stamps = none) (r : BuddyRegistration) (d : Bool) : Visible (v.finish t r d) := by
  cases d with
  | true => exact h.quiet hw hpc ht trivial
  | false => exact h.quiet (v := { v with regs := update v.regs r.entry _ }) hw hpc ht trivial

theorem Visible.settle (h : Visible s) (hs : Books s) (hw : Calm s.waiters v.waiters) (hpc : v.pc = s.pc)
    (hq : ∀ o, v.waiters.queue o = s.waiters.queue o) {o i : Nat} (hi : (s.pc t).stamps = some i)
    (ho : s.home i = some o) (hhead : (v.waiters.buddyOrders o).headTimestamp ≠ noWaitersTimestamp)
    (hsc : p.Scanned v.waiters) : Visible (v.goto t p) := by
  refine (h.calm hw hpc).goto (fun j hj => Or.inr fun o' hj' => ?_) hsc
  rw [hpc, hi] at hj
  cases hj
  rw [hq] at hj'
  have hoo : o' = o := Option.some.inj ((hs.ledger.queued o' i hj').symm.trans ho)
  rw [hoo]
  exact hhead

theorem tick_visible (h : Visible s) (hs : Sound s) (hok : Steady s (.tick t)) (ht : Tick s t s') : Visible s' := by
  have hscan := h.scanned t
  have hrole := hs.books.ledger.ok t
  rw [State.roles] at hrole
  cases ht with
  | prepareLock r hp hfree => exact h.quiet (.refl _) rfl (by rw [hp]; rfl) trivial
  | preparePush r hp => exact h.push hs.locked hp rfl (fun _ => trivial) rfl rfl
  | prepareAdd r hp =>
      rw [hp] at hrole
      have hsteady := hok r (by rw [hp]; rfl)
      have hst : (s.pc t).stamps = some r.entry := by rw [hp]; rfl
      have hsame : SameEntries s.waiters (fetchAddCount s.waiters r.order) := sameEntries_slot _ _ _ rfl
      have hcalm : Calm s.waiters (fetchAddCount s.waiters r.order) := .slot _ _ (fun _ hi => hi) Or.inl
      split
      · refine (h.calm (v := { s with waiters := fetchAddCount s.waiters r.order }) hcalm rfl).goto
          (fun i hi => ?_) trivial
        exact Or.inl (hst.symm.trans hi)
      next hcount =>
        refine h.settle hs.books hcalm rfl hsame.queue hst hrole.1 ?_ trivial
        have hhead := h.head_of_count hs hp hcount hsteady
        simp only [fetchAddCount, setSlot, update_self]
        exact hhead
  | prepareStamp r hp =>
      rw [hp] at hrole
      have hst : (s.pc t).stamps = some r.entry := by rw [hp]; rfl
      have hsame (ts : Nat) : SameEntries s.waiters (storeTimestamp s.waiters r.order ts) := sameEntries_slot _ _ _ rfl
      refine h.settle hs.books (.slot _ _ (fun _ hi => hi) fun hno => ?_) rfl (hsame _).queue hst hrole.1 ?_ trivial
      · exact absurd hno (h.stamped r.entry)
      · simp only [storeTimestamp, setSlot, update_self]
        exact h.stamped r.entry
  | prepareUnlock r hp => exact h.quiet (.refl _) rfl (by rw [hp]; rfl) trivial
  | revokeWin r d hp => exact h.quiet (.entry _ _ rfl fun hl => by cases hl) rfl (by rw [hp]; rfl) trivial
  | revokeLose r d hp => exact finish_visible h (.refl _) rfl (by rw [hp]; rfl) r d
  | revokeTake r d hp => exact h.quiet (.entry _ _ rfl id) rfl (by rw [hp]; rfl) trivial
  | revokeSub r d tx hp =>
      have hsub : Calm s.waiters (fetchSubCount s.waiters r.order) := .slot _ _ (fun _ hi => hi) Or.inl
      refine finish_visible h ?_ (by rfl) (by rw [hp]; rfl) r d
      cases tx with
      | true => exact hsub.trans (.entry _ _ rfl id)
      | false => exact hsub
  | dropRx r hp =>
      refine h.quiet ?_ rfl (by rw [hp]; rfl) trivial
      change Calm s.waiters (if r.rx then s.waiters.dropRx r.entry else s.waiters)
      split
      · exact .entry _ _ rfl id
      · exact .refl _
  | scoreStreak f hp => exact h.quiet (.refl _) rfl (by rw [hp]; rfl) trivial
  | scoreCount f streak order cs hp =>
      refine h.quiet (.refl _) rfl (by rw [hp]; rfl) ?_
      split
      · exact nextScore_scanned _ _ _ _ _
      · trivial
  | scoreStamp f streak order count cs hp => exact h.quiet (.refl _) rfl (by rw [hp]; rfl) (nextScore_scanned _ _ _ _ _)
  | wakeLock k hp hfree => exact h.quiet (.refl _) rfl (by rw [hp]; rfl) trivial
  | pop k i queue hp hq =>
      exact h.quiet (.slot _ _ (fun j hj => hq ▸ List.mem_cons_of_mem i hj) Or.inl) rfl (by rw [hp]; rfl) trivial
  | popNone k hp => exact h.quiet (.refl _) rfl (by rw [hp]; rfl) trivial
  | wakeCheck k i hp => exact h.quiet (.refl _) rfl (by rw [hp]; rfl) (by split <;> trivial)
  | wakeWin k i hp => exact h.quiet (.entry _ _ rfl fun hl => by cases hl) rfl (by rw [hp]; rfl) trivial
  | wakeLose k i hp => exact h.quiet (.refl _) rfl (by rw [hp]; rfl) trivial
  | wakeSub k i hp =>
      have hsame : SameEntries s.waiters (fetchSubCount s.waiters k.order) := sameEntries_slot _ _ _ rfl
      refine h.quiet (.slot _ _ (fun _ hi => hi) Or.inl) rfl (by rw [hp]; rfl) fun j hj _ => ?_
      exact hsame.queue k.order ▸ hj
  | wakeScan k i scan hp =>
      rw [hp] at hscan
      exact h.quiet (.refl _) rfl (by rw [hp]; rfl) (nextScan_scanned h.stamped hscan)
  | wakeStore k i ts hp =>
      rw [hp] at hscan
      exact h.quiet (.slot _ _ (fun _ hi => hi) fun hno => Or.inr (hscan hno)) rfl (by rw [hp]; rfl) trivial
  | wakeUnlock k won hp =>
      refine h.quiet (.refl _) rfl (by rw [hp]; rfl) ?_
      cases won with
      | some i => trivial
      | none => exact nextOrder_scanned _ _ _ _
  | wakeTake k i hp => exact h.quiet (.entry _ _ rfl id) rfl (by rw [hp]; rfl) trivial
  | send k i tx hp => exact h.quiet (.entry _ _ rfl id) rfl (by rw [hp]; rfl) trivial
  | sendNone k i tx hp => exact h.quiet (.refl _) rfl (by rw [hp]; rfl) (nextOrder_scanned _ _ _ _)
  | streakLoad k hp => exact h.quiet (.refl _) rfl (by rw [hp]; rfl) trivial
  | streakStore k current hp =>
      refine h.quiet ?_ rfl (by rw [hp]; rfl) (nextOrder_scanned _ _ _ _)
      exact ⟨fun _ => rfl, fun _ _ hi hl => ⟨hi, hl⟩, fun _ ho => Or.inl ho⟩

omit [DecidableEq τ] in
theorem register_visible (h : Visible s) (hs : Books s) (order : Nat) {now : Nat} (hnow : now ≠ noWaitersTimestamp)
    (hw : v.waiters = (s.waiters.buddyRegister order now).1) (hpc : v.pc = s.pc) : Visible v := by
  have hent (j : Nat) : v.waiters.entries j =
      if j = s.waiters.created then { timestamp := now } else s.waiters.entries j := by
    rw [hw]
    exact update_apply _ _ _ _
  have hqueue (o : Nat) : v.waiters.queue o = s.waiters.queue o := by rw [hw]; rfl
  have hfewer (o i : Nat) (hi : i ∈ v.waiters.queue o) (hl : v.waiters.isLive i = true) :
      i ∈ s.waiters.queue o ∧ s.waiters.isLive i = true := by
    rw [hqueue] at hi
    have hlt := hs.ledger.lt_created (hs.ledger.queued o i hi)
    rw [isLive, hent, if_neg (Nat.ne_of_lt hlt)] at hl
    exact ⟨hi, hl⟩
  refine ⟨fun i => ?_, fun o i hi hl => ?_, fun t => ?_⟩
  · rw [hent]
    split
    · exact hnow
    · exact h.stamped i
  · obtain ⟨hi', hl'⟩ := hfewer o i hi hl
    rw [hpc, hw]
    exact h.shown o i hi' hl'
  · rw [hpc]
    exact (h.scanned t).fewer fun o _ => hfewer o

theorem step_visible {a : Action τ} (h : Visible s) (hs : Sound s) (hok : Steady s a) (ht : Step s a s') :
    Visible s' := by
  cases ht with
  | nothing => exact h
  | register order now => exact register_visible h hs.books order hok rfl rfl
  | prepare t i r hp | drop t i r hp | revoke t i r d a hp | wake t f hp =>
      exact h.quiet (.refl _) rfl (by rw [hp]; rfl) trivial
  | poll i r hr =>
      refine h.calm ?_ rfl
      change Calm s.waiters (s.waiters.poll r).2.1
      rw [NotifyWaiters.poll]
      split
      · split
        · exact .refl _
        · exact .entry _ _ rfl id
      · exact .refl _
  | tick t s' ht => exact tick_visible h hs hok ht

omit [DecidableEq τ] [Fintype τ] in
theorem start_visible (numOrders : Nat) : Visible (start numOrders : State τ) := by
  refine ⟨fun i => ?_, fun o i hi => ?_, fun t => trivial⟩
  · change 0 ≠ noWaitersTimestamp
    decide
  · cases hi

theorem run_visible {numOrders : Nat} {as : List (Action τ)} (hr : run step (start numOrders) as = some s)
    (hok : Meets step Steady (start numOrders) as) : Sound s ∧ Visible s := by
  refine run_preserves_of_meets (fun s => Sound s ∧ Visible s) (fun s a s' h hs ht => ?_)
    ⟨start_sound numOrders, start_visible numOrders⟩ hok hr
  exact ⟨step_sound h.1 ht, step_visible h.2 h.1 hs (step_cases ht)⟩

/-- With no operation in progress, an order with a live waiter in its queue is
a candidate for every block that could serve it, provided no prepare counted
itself at an unstamped order in the middle of a revoke there. -/
theorem live_waiters_stay_visible (numOrders : Nat) (as : List (Action τ)) (s : State τ)
    (hr : run step (start numOrders) as = some s) (hok : Meets step Steady (start numOrders) as)
    (hidle : ∀ t, s.pc t = .idle) (o i : Nat) (hi : i ∈ s.waiters.queue o) (hl : s.waiters.isLive i = true) :
    0 < (s.waiters.buddyOrders o).count ∧ (s.waiters.buddyOrders o).headTimestamp ≠ noWaitersTimestamp ∧
    ∀ f, o ≤ f → o ∈ (s.waiters.candidates f).map Prod.fst := by
  obtain ⟨hs, h⟩ := run_visible hr hok
  have hhead : (s.waiters.buddyOrders o).headTimestamp ≠ noWaitersTimestamp := by
    refine (h.shown o i hi hl).resolve_right fun ⟨t, ht⟩ => ?_
    rw [hidle t] at ht
    cases ht
  have hcount : 0 < (s.waiters.buddyOrders o).count := by
    have hadds : ∑ t, (s.roles t).adds o = 0 := Finset.sum_eq_zero fun t _ => by rw [State.roles, hidle t]; rfl
    have hqueued : 0 < liveQueued s o := List.countP_pos_iff.mpr ⟨i, hi, hl⟩
    have heq := hs.books.ledger.count o
    have hlive := hs.books.liveHome_eq o
    omega
  refine ⟨hcount, hhead, fun f hf => ?_⟩
  have hbound := hs.books.ledger.bounded i o (hs.books.ledger.queued o i hi)
  rw [candidates_fst, List.mem_filter, List.mem_range, candidate, if_neg (Nat.pos_iff_ne_zero.mp hcount), if_neg hhead]
  exact ⟨by omega, rfl⟩

end Run

def revokingRun : List (Action (Fin 2)) :=
  [.register 0 1, .register 0 2, .prepare 0 0] ++ List.replicate 5 (.tick 0) ++ [.prepare 0 1] ++
  List.replicate 4 (.tick 0) ++ [.revoke 1 1, .tick 1, .wake 0 0] ++ List.replicate 16 (.tick 0)

def shownRun : List (Action (Fin 2)) :=
  revokingRun ++ [.tick 1, .tick 1, .register 0 3, .prepare 0 2] ++ List.replicate 5 (.tick 0)

def shownState : State (Fin 2) := (run step (start 1) shownRun).getD (start 1)

theorem live_waiters_stay_visible_shown :
    Meets step Steady (start 1) shownRun ∧ (∀ t, shownState.pc t = .idle) ∧ shownState.waiters.queue 0 = [1, 2] ∧
    0 ∈ (shownState.waiters.candidates 0).map Prod.fst := by
  have hr : run step (start 1) shownRun = some shownState := run_eq_some_getD (by decide +kernel)
  have hok : Meets step Steady (start 1) shownRun := by decide +kernel
  have hidle : ∀ t, shownState.pc t = .idle := by decide +kernel
  have hq : shownState.waiters.queue 0 = [1, 2] := by decide +kernel
  obtain ⟨-, -, hc⟩ := live_waiters_stay_visible 1 shownRun shownState hr hok hidle 0 2 (by rw [hq]; decide)
    (by decide +kernel)
  exact ⟨hok, hidle, hq, hc 0 le_rfl⟩

/-- A third waiter prepares before the revoke of the second decrements the
count. -/
def hiddenRun : List (Action (Fin 2)) :=
  revokingRun ++ [.register 0 3, .prepare 0 2] ++ List.replicate 4 (.tick 0) ++ [.tick 1, .tick 1]

def hiddenState : State (Fin 2) := (run step (start 1) hiddenRun).getD (start 1)

theorem live_waiter_hidden :
    run step (start 1) hiddenRun = some hiddenState ∧ (∀ t, hiddenState.pc t = .idle) ∧
    hiddenState.waiters.queue 0 = [1, 2] ∧ hiddenState.waiters.isLive 2 = true ∧
    (hiddenState.waiters.buddyOrders 0).count = 1 ∧
    (hiddenState.waiters.buddyOrders 0).headTimestamp = noWaitersTimestamp ∧
    (hiddenState.waiters.candidates 0).map Prod.fst = [] := by
  refine ⟨run_eq_some_getD (by decide +kernel), ?_⟩
  decide +kernel

end ArenaAlligator.WaiterThreads
