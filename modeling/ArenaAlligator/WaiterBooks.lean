import ArenaAlligator.WaiterLedger

namespace ArenaAlligator.WaiterThreads

open Function NotifyWaiters Runs

variable {τ : Type} [DecidableEq τ]

def Pc.inside : Pc → Option Nat
  | preparePush r | prepareAdd r | prepareStamp r | prepareUnlock r => some r.order
  | wakePop k | wakeCheck k _ | wakeCas k _ | wakeSub k _ | wakeScan k _ _ | wakeStore k _ _ | wakeUnlock k _ =>
      some k.order
  | _ => none

def Locked (s : State τ) : Prop := ∀ o t, s.lock o = some t ↔ (s.pc t).inside = some o

@[simp] theorem goto_self (s : State τ) (t : τ) (p : Pc) : (s.goto t p).pc t = p := by simp [State.goto]

theorem goto_of_ne (s : State τ) {t u : τ} (h : u ≠ t) (p : Pc) : (s.goto t p).pc u = s.pc u := by
  simp [State.goto, h]

theorem nextOrder_inside (f : Nat) (orders : List Nat) (pops : Nat) : (nextOrder f orders pops).inside = none :=
  nextOrder_rec (P := fun p => p.inside = none) rfl (fun _ => rfl) f orders pops

theorem nextScore_inside (w : NotifyWaiters) (f : Nat) (streak : BitVec 64) (order : Nat) (cs : List (Nat × Nat)) :
    (nextScore w f streak order cs).inside = none :=
  nextScore_rec (P := fun p => p.inside = none) rfl (fun _ => rfl) (fun _ _ _ _ => rfl) w f streak order cs

variable {s s' : State τ}

theorem Locked.goto (h : Locked s) {t : τ} {p : Pc} (hp : p.inside = (s.pc t).inside) {v : State τ}
    (hlock : v.lock = s.lock) (hpc : v.pc = s.pc) : Locked (v.goto t p) := by
  intro o u
  change v.lock o = some u ↔ _
  rw [hlock, h o u]
  by_cases hu : u = t
  · rw [hu, goto_self, hp]
  · rw [goto_of_ne _ hu, hpc]

theorem Locked.take (h : Locked s) {t : τ} {o : Nat} {p : Pc} (hfree : s.lock o = none)
    (ht : (s.pc t).inside = none) (hp : p.inside = some o) :
    Locked ({ s with lock := update s.lock o (some t) }.goto t p) := by
  intro o' u
  change update s.lock o (some t) o' = some u ↔ _
  rw [update_apply]
  by_cases hu : u = t
  · rw [hu, goto_self, hp]
    split
    next ho => simp [ho]
    next ho =>
      have hout := h o' t
      rw [ht] at hout
      simp [hout, Ne.symm ho]
  · rw [goto_of_ne _ hu]
    split
    next ho =>
      have hout := h o u
      rw [hfree] at hout
      rw [ho]
      simp [Ne.symm hu, ← hout]
    next => exact h o' u

theorem Locked.release (h : Locked s) {t : τ} {o : Nat} {p : Pc} (ht : (s.pc t).inside = some o) (hp : p.inside = none)
    {v : State τ} (hlock : v.lock = update s.lock o none) (hpc : v.pc = s.pc) : Locked (v.goto t p) := by
  intro o' u
  change v.lock o' = some u ↔ _
  rw [hlock, update_apply]
  by_cases hu : u = t
  · rw [hu, goto_self, hp]
    split
    · simp
    next ho =>
      have hout := h o' t
      rw [ht] at hout
      simp [hout, Ne.symm ho]
  · rw [goto_of_ne _ hu, hpc]
    split
    next ho =>
      have hmine := (h o t).mpr ht
      have hout := h o u
      rw [hmine] at hout
      rw [ho]
      simp [← hout, Ne.symm hu]
    next => exact h o' u

theorem Locked.finish (h : Locked s) {t : τ} (ht : (s.pc t).inside = none) {v : State τ} (hlock : v.lock = s.lock)
    (hpc : v.pc = s.pc) (r : BuddyRegistration) (d : Bool) : Locked (v.finish t r d) := by
  cases d with
  | true => exact h.goto (by rw [ht]; rfl) hlock hpc
  | false => exact h.goto (v := { v with regs := update v.regs r.entry _ }) (by rw [ht]; rfl) hlock hpc

theorem tick_locked {t : τ} (h : Locked s) (hs : Tick s t s') : Locked s' := by
  cases hs with
  | prepareLock r hp hfree => exact h.take hfree (by rw [hp]; rfl) rfl
  | preparePush r hp => exact h.goto (by rw [hp]; rfl) rfl rfl
  | prepareAdd r hp => exact h.goto (by rw [hp]; split <;> rfl) rfl rfl
  | prepareStamp r hp => exact h.goto (by rw [hp]; rfl) rfl rfl
  | prepareUnlock r hp => exact h.release (by rw [hp]; rfl) rfl rfl rfl
  | revokeWin r d hp hl => exact h.goto (by rw [hp]; rfl) rfl rfl
  | revokeLose r d hp hl => exact h.finish (by rw [hp]; rfl) rfl rfl r d
  | revokeTake r d hp => exact h.goto (by rw [hp]; rfl) rfl rfl
  | revokeSub r d tx hp => exact h.finish (by rw [hp]; rfl) (by rfl) (by rfl) r d
  | dropRx r hp => exact h.goto (by rw [hp]; rfl) rfl rfl
  | scoreStreak f hp => exact h.goto (by rw [hp]; rfl) rfl rfl
  | scoreCount f streak order cs hp =>
      refine h.goto ?_ rfl rfl
      rw [hp]
      split
      · exact nextScore_inside _ _ _ _ _
      · rfl
  | scoreStamp f streak order count cs hp => exact h.goto (by rw [hp]; exact nextScore_inside _ _ _ _ _) rfl rfl
  | wakeLock k hp hfree => exact h.take hfree (by rw [hp]; rfl) rfl
  | pop k i queue hp hq => exact h.goto (by rw [hp]; rfl) rfl rfl
  | popNone k hp => exact h.goto (by rw [hp]; rfl) rfl rfl
  | wakeCheck k i hp => exact h.goto (by rw [hp]; split <;> rfl) rfl rfl
  | wakeWin k i hp hl => exact h.goto (by rw [hp]; rfl) rfl rfl
  | wakeLose k i hp hl => exact h.goto (by rw [hp]; rfl) rfl rfl
  | wakeSub k i hp => exact h.goto (by rw [hp]; rfl) rfl rfl
  | wakeScan k i scan hp =>
      refine h.goto ?_ rfl rfl
      rw [hp]
      cases scan with
      | nil => rfl
      | cons j rest => rw [nextScan]; split <;> rfl
  | wakeStore k i ts hp => exact h.goto (by rw [hp]; rfl) rfl rfl
  | wakeUnlock k won hp =>
      refine h.release (by rw [hp]; rfl) ?_ rfl rfl
      cases won with
      | some i => rfl
      | none => exact nextOrder_inside _ _ _
  | wakeTake k i hp => exact h.goto (by rw [hp]; rfl) rfl rfl
  | send k i tx hp => exact h.goto (by rw [hp]; rfl) rfl rfl
  | sendNone k i tx hp => exact h.goto (by rw [hp]; exact nextOrder_inside _ _ _) rfl rfl
  | streakLoad k hp => exact h.goto (by rw [hp]; rfl) rfl rfl
  | streakStore k current hp => exact h.goto (by rw [hp]; exact nextOrder_inside _ _ _) rfl rfl

theorem step_locked {a : Action τ} (h : Locked s) (hs : Step s a s') : Locked s' := by
  cases hs with
  | nothing => exact h
  | register | poll => exact h
  | prepare t i r hp | drop t i r hp | revoke t i r d a hp | wake t f hp => exact h.goto (by rw [hp]; rfl) rfl rfl
  | tick t s' ht => exact tick_locked h ht

def State.roles (s : State τ) (t : τ) : Role := (s.pc t).role

omit [DecidableEq τ] in
theorem roles_of_pc {s : State τ} {t : τ} {p : Pc} (hp : s.pc t = p) : s.roles t = p.role := congrArg Pc.role hp

theorem roles_goto (s : State τ) (t : τ) (p : Pc) : (s.goto t p).roles = update s.roles t p.role := by
  funext u
  by_cases hu : u = t
  · rw [hu, update_self, State.roles, goto_self]
  · rw [update_of_ne hu, State.roles, goto_of_ne _ hu, State.roles]

theorem nextOrder_role (f : Nat) (orders : List Nat) (pops : Nat) : (nextOrder f orders pops).role = .none :=
  nextOrder_rec (P := fun p => p.role = .none) rfl (fun _ => rfl) f orders pops

theorem nextScore_role (w : NotifyWaiters) (f : Nat) (streak : BitVec 64) (order : Nat) (cs : List (Nat × Nat)) :
    (nextScore w f streak order cs).role = .none :=
  nextScore_rec (P := fun p => p.role = .none) rfl (fun _ => rfl) (fun _ _ _ _ => rfl) w f streak order cs

theorem nextScan_role (w : NotifyWaiters) (k : Wake) (i : Nat) (scan : List Nat) :
    (nextScan w k i scan).role = .won k.order i := by
  cases scan with
  | nil => rfl
  | cons j rest =>
      rw [nextScan]
      split <;> rfl

theorem sameEntries_slot (w : NotifyWaiters) (o : Nat) (slot : BuddyOrderSlot) (hq : slot.queue = w.queue o) :
    SameEntries w (w.setSlot o slot) := by
  refine ⟨rfl, rfl, fun _ => rfl, fun _ => rfl, fun _ _ h => h, fun o' => ?_⟩
  simp only [NotifyWaiters.queue, setSlot, update_apply]
  split
  next ho => rw [hq, ho]; rfl
  next => rfl

theorem sameEntries_dropRx (w : NotifyWaiters) (i : Nat) : SameEntries w (w.dropRx i) := by
  have hent (j : Nat) : (w.dropRx i).entries j = if j = i then { w.entries i with rx := false } else w.entries j :=
    update_apply _ _ _ _
  refine ⟨rfl, rfl, fun j => ?_, fun j => ?_, fun j f hj => ?_, fun _ => rfl⟩
  · rw [hent]
    split
    next he => rw [he]
    next => rfl
  · rw [hent]
    split
    next he => rw [he]
    next => rfl
  · rw [hent] at hj
    split at hj
    next he => rw [he]; exact hj
    next => exact hj

theorem sameEntries_closed (w : NotifyWaiters) (i : Nat) : SameEntries w (setChannel w i .closed) := by
  have hent := fun j => setChannel_entries w i j .closed
  refine ⟨rfl, rfl, fun j => (hent j).1, fun j => (hent j).2.1, fun j f hj => ?_, fun _ => rfl⟩
  rw [(hent j).2.2] at hj
  split at hj
  · cases hj
  · exact hj

theorem SameEntries.trans {w w' w'' : NotifyWaiters} (h : SameEntries w w') (h' : SameEntries w' w'') :
    SameEntries w w'' :=
  ⟨h'.created.trans h.created, h'.numOrders.trans h.numOrders, fun i => (h'.state i).trans (h.state i),
    fun i => (h'.tx i).trans (h.tx i), fun i f hi => h.sent i f (h'.sent i f hi),
    fun o => (h'.queue o).trans (h.queue o)⟩

theorem count_setSlot (w : NotifyWaiters) (o : Nat) (slot : BuddyOrderSlot) (o' : Nat) :
    ((w.setSlot o slot).buddyOrders o').count = if o' = o then slot.count else (w.buddyOrders o').count := by
  simp only [setSlot, update_apply]
  split <;> rfl

theorem count_fetchAdd (w : NotifyWaiters) (o o' : Nat) :
    ((fetchAddCount w o).buddyOrders o').count = (w.buddyOrders o').count + if o = o' then 1 else 0 := by
  rw [fetchAddCount, count_setSlot]
  split
  next ho => rw [if_pos ho.symm, ho]
  next ho => rw [if_neg (Ne.symm ho)]; rfl

theorem count_fetchSub (w : NotifyWaiters) {o : Nat} (hpos : 0 < (w.buddyOrders o).count) (o' : Nat) :
    ((fetchSubCount w o).buddyOrders o').count + (if o = o' then 1 else 0) = (w.buddyOrders o').count := by
  rw [fetchSubCount, count_setSlot, countSub, if_neg (Nat.pos_iff_ne_zero.mp hpos)]
  split
  next ho =>
    rw [if_pos ho.symm, ho]
    exact Nat.sub_add_cancel hpos
  next ho => rw [if_neg (Ne.symm ho)]; rfl

theorem count_storeTimestamp (w : NotifyWaiters) (o ts o' : Nat) :
    ((storeTimestamp w o ts).buddyOrders o').count = (w.buddyOrders o').count := by
  rw [storeTimestamp, count_setSlot]
  split
  next ho => rw [ho]
  next => rfl

theorem fits_update {w : NotifyWaiters} {home : Nat → Option Nat} {regs : Nat → Option BuddyRegistration}
    (h : ∀ i r, regs i = some r → Fits w home r) {e : Nat} {q : Option BuddyRegistration}
    (hr : ∀ r, q = some r → Fits w home r) (i : Nat) (r : BuddyRegistration) (hi : update regs e q i = some r) :
    Fits w home r := by
  rw [update_apply] at hi
  split at hi
  · exact hr r hi
  · exact h i r hi

section Books

variable [Fintype τ]

theorem Ledger.move {w w' : NotifyWaiters} {home : Nat → Option Nat} {regs regs' : Nat → Option BuddyRegistration}
    {roles : τ → Role} {t : τ} {ρ : Role} (h : Ledger w home regs roles) (hw : SameEntries w w')
    (hregs : ∀ i r, regs' i = some r → Fits w home r) (hok : ρ.Ok w home) (hρ : ρ.holds = none)
    (ht : (roles t).holds = none) (htakes : ρ.takes = (roles t).takes ∨ ρ.takes = none)
    (hcount : ∀ o, (w'.buddyOrders o).count + ρ.adds o + (roles t).wins o =
      (w.buddyOrders o).count + (roles t).adds o + ρ.wins o) : Ledger w' home regs' (update roles t ρ) := by
  refine h.shift hw hregs hok (Or.inr hρ) (fun o i he => ?_) htakes hcount
  rw [he] at ht
  cases ht

structure Books (s : State τ) : Prop where
  kept : Kept s.waiters.created s.regs s.roles
  ledger : Ledger s.waiters s.home s.regs s.roles

variable {t : τ} {p : Pc} {v : State τ}

theorem Books.of_goto (hpc : v.pc = s.pc) (hk : Kept v.waiters.created v.regs (update s.roles t p.role))
    (hl : Ledger v.waiters v.home v.regs (update s.roles t p.role)) : Books (v.goto t p) := by
  have hroles : (v.goto t p).roles = update s.roles t p.role := by
    rw [roles_goto]
    congr 1
    funext u
    rw [State.roles, State.roles, hpc]
  exact ⟨hroles ▸ hk, hroles ▸ hl⟩

theorem Books.quiet (h : Books s) (hpc : v.pc = s.pc) (hregs : v.regs = s.regs) (hhome : v.home = s.home)
    (hw : SameEntries s.waiters v.waiters)
    (hcount : ∀ o, (v.waiters.buddyOrders o).count = (s.waiters.buddyOrders o).count) (hp : p.role = s.roles t) :
    Books (v.goto t p) := by
  have hsame : update s.roles t p.role = s.roles := by rw [hp, update_eq_self]
  refine .of_goto hpc ?_ ?_ <;> rw [hsame, hregs]
  · exact hw.created ▸ h.kept
  · rw [hhome]
    exact h.ledger.recast hw hcount h.ledger.fits

theorem Books.idle (h : Books s) (ht : s.roles t = .none) (hp : p.role = .none) : Books (s.goto t p) :=
  h.quiet rfl rfl rfl (.refl _) (fun _ => rfl) (hp.trans ht.symm)

theorem Books.finish (h : Books s) {r : BuddyRegistration} (ht : (s.roles t).keeps = some r.entry)
    (hfits : Fits s.waiters s.home { r with registered := false }) (hpc : v.pc = s.pc) (hregs : v.regs = s.regs)
    (hhome : v.home = s.home) (hw : SameEntries s.waiters v.waiters) (hholds : (s.roles t).holds = none)
    (hcount : ∀ o, (v.waiters.buddyOrders o).count + (s.roles t).wins o =
      (s.waiters.buddyOrders o).count + (s.roles t).adds o) (d : Bool) : Books (v.finish t r d) := by
  cases d with
  | true =>
      refine .of_goto hpc ?_ ?_ <;> rw [hregs]
      · exact hw.created ▸ h.kept.same (Or.inl ht.symm)
      · rw [hhome]
        exact h.ledger.move hw h.ledger.fits trivial rfl hholds (Or.inr rfl) hcount
  | false =>
      refine .of_goto (v := { v with regs := update v.regs r.entry (some { r with registered := false }) }) hpc
        ?_ ?_ <;> simp only [hregs]
      · exact hw.created ▸ h.kept.give ht rfl rfl
      · rw [hhome]
        refine h.ledger.move hw (fits_update h.ledger.fits ?_) trivial rfl hholds (Or.inr rfl) hcount
        rintro _ ⟨⟩
        exact hfits

theorem Books.letGo (h : Books s) {k : Wake} {i : Nat} {q : Pc} (hq : s.pc t = q) (ht : q.role = .holding k.order i)
    (hdead : (s.waiters.entries i).state ≠ .live) (hp : p.role = .none) : Books (s.goto t p) := by
  have hrole : s.roles t = .holding k.order i := by rw [State.roles, hq, ht]
  refine .of_goto rfl ?_ ?_ <;> rw [hp]
  · exact h.kept.same (Or.inr rfl)
  · refine h.ledger.shift (.refl _) h.ledger.fits trivial (Or.inr rfl) (fun o j he _ => ?_) (Or.inr rfl)
      fun o => by rw [hrole]; rfl
    rw [hrole] at he
    cases he
    exact hdead

omit [Fintype τ] [DecidableEq τ] in
theorem Locked.alone (h : Locked s) {u : τ} {o : Nat} (ht : (s.pc t).inside = some o) (hu : (s.pc u).inside = some o) :
    t = u := by
  have hlock := (h o t).mpr ht
  rw [(h o u).mpr hu] at hlock
  exact (Option.some.inj hlock).symm

omit [Fintype τ] [DecidableEq τ] in
theorem inside_of_adding {r : BuddyRegistration} (h : s.roles t = .adding r) : (s.pc t).inside = some r.order := by
  rw [State.roles] at h
  generalize s.pc t = p at h
  cases p with
  | prepareAdd r' => cases h; rfl
  | wakeUnlock k won => cases won <;> cases h
  | _ => cases h

omit [Fintype τ] [DecidableEq τ] in
theorem adding_of_adds {ρ : Role} {o : Nat} (h : ρ.adds o ≠ 0) : ∃ r, ρ = .adding r ∧ r.order = o ∧ ρ.adds o = 1 := by
  cases ρ with
  | adding r =>
      rw [Role.adds] at h ⊢
      split at h
      next ho => exact ⟨r, rfl, ho, by rw [if_pos ho]⟩
      next => exact absurd rfl h
  | _ => exact absurd rfl h

omit [DecidableEq τ] in
/-- The queue mutex leaves room for one prepare between its push and its
increment, and the entry pushed is live until then. -/
theorem Books.adds_le (h : Books s) (hl : Locked s) (o : Nat) :
    ∑ t, (s.roles t).adds o ≤ liveHome s.waiters s.home o := by
  by_cases hall : ∀ t, (s.roles t).adds o = 0
  · rw [Finset.sum_eq_zero fun t _ => hall t]
    exact Nat.zero_le _
  · obtain ⟨t, ht⟩ := not_forall.mp hall
    obtain ⟨r, hr, ho, hone⟩ := adding_of_adds ht
    have hsum : ∑ u, (s.roles u).adds o = (s.roles t).adds o := by
      refine Finset.sum_eq_single t (fun u _ hut => ?_) fun hout => absurd (Finset.mem_univ t) hout
      by_contra hu
      obtain ⟨r', hr', ho', -⟩ := adding_of_adds hu
      exact hut (hl.alone (ho' ▸ inside_of_adding hr') (ho ▸ inside_of_adding hr))
    have hok := h.ledger.ok t
    rw [hr] at hok
    rw [hsum, hone]
    exact Finset.card_pos.mpr ⟨r.entry, Finset.mem_filter.mpr
      ⟨Finset.mem_range.mpr (h.ledger.lt_created hok.1), hok.2.2.2, ho ▸ hok.1⟩⟩

omit [DecidableEq τ] in
/-- Whoever is about to decrement a count finds it positive. -/
theorem Books.count_pos (h : Books s) (hl : Locked s) {o : Nat} (ht : (s.roles t).wins o = 1) :
    0 < (s.waiters.buddyOrders o).count := by
  have hadds := h.adds_le hl o
  have hcount := h.ledger.count o
  have hwins : 1 ≤ ∑ u, (s.roles u).wins o :=
    ht ▸ Finset.single_le_sum (fun u _ => Nat.zero_le ((s.roles u).wins o)) (Finset.mem_univ t)
  omega

theorem tick_books (h : Books s) (hl : Locked s) (hs : Tick s t s') : Books s' := by
  have hok := h.ledger.ok t
  rw [State.roles] at hok
  cases hs with
  | prepareLock r hp hfree => exact h.quiet rfl rfl rfl (.refl _) (fun _ => rfl) (roles_of_pc hp).symm
  | preparePush r hp =>
      have ht : s.roles t = .pushing r := roles_of_pc hp
      exact .of_goto rfl (h.kept.same (Or.inl (by rw [ht]; rfl))) (h.ledger.push h.kept ht)
  | prepareAdd r hp =>
      have ht : s.roles t = .adding r := roles_of_pc hp
      rw [hp] at hok
      have hrole : (if (s.waiters.buddyOrders r.order).count = 0 then Pc.prepareStamp r else .prepareUnlock r).role =
          .added r := by split <;> rfl
      refine .of_goto rfl ?_ ?_ <;> rw [hrole]
      · exact h.kept.same (Or.inl (by rw [ht]; rfl))
      · refine h.ledger.move (sameEntries_slot _ _ _ rfl) h.ledger.fits ⟨hok.1, hok.2.1⟩ rfl (by rw [ht]; rfl)
          (Or.inr rfl) fun o => ?_
        rw [ht, count_fetchAdd]
        rfl
  | prepareStamp r hp =>
      exact h.quiet rfl rfl rfl (sameEntries_slot _ _ _ rfl) (count_storeTimestamp _ _ _) (roles_of_pc hp).symm
  | prepareUnlock r hp =>
      have ht : s.roles t = .added r := roles_of_pc hp
      rw [hp] at hok
      refine .of_goto rfl (h.kept.give (by rw [ht]; rfl) rfl rfl) ?_
      refine h.ledger.move (.refl _) (fits_update h.ledger.fits ?_) trivial rfl (by rw [ht]; rfl) (Or.inr rfl)
        fun o => by rw [ht]; rfl
      rintro _ ⟨⟩
      exact h.ledger.fits_of_home hok.1 hok.2
  | revokeWin r d hp hlive =>
      have ht : s.roles t = .revoking r := roles_of_pc hp
      rw [hp] at hok
      have hkeeps : (s.roles t).keeps = some r.entry := by rw [ht]; rfl
      have hstate : (s.waiters.entries r.entry).state = .live := of_decide_eq_true hlive
      refine .of_goto rfl (h.kept.same (Or.inl (by rw [ht]; rfl))) ?_
      refine h.ledger.cas hstate hok.1 EntryState.noConfusion ⟨hok.1, hok.2, ?_, ?_⟩ (fun u r' hut hu he => ?_) rfl
        (fun o i he => by rw [ht] at he; cases he) rfl fun o => by rw [ht]; exact ⟨rfl, rfl, rfl, rfl⟩
      · rw [(storeState_entries _ _ _ _).1, if_pos rfl]
      · rw [(storeState_entries _ _ _ _).2.1]
        exact h.ledger.sender r.entry hstate
      · exact hut (h.kept.apart u t r.entry (by rw [hu, ← he]; rfl) hkeeps)
  | revokeLose r d hp hlive =>
      have ht : s.roles t = .revoking r := roles_of_pc hp
      rw [hp] at hok
      refine h.finish (by rw [ht]; rfl) ?_ rfl rfl rfl (.refl _) (by rw [ht]; rfl) (fun o => by rw [ht]; rfl) d
      exact h.ledger.fits_of_home hok.1 hok.2
  | revokeTake r d hp =>
      have ht : s.roles t = .revoked r := roles_of_pc hp
      rw [hp] at hok
      refine .of_goto rfl (h.kept.same (Or.inl (by rw [ht]; rfl))) ?_
      refine h.ledger.take (by rw [ht]; rfl) ⟨hok.1, hok.2.1, ?_⟩ rfl (by rw [ht]; rfl) rfl
        fun o => by rw [ht]; exact ⟨rfl, rfl⟩
      rw [(takeTx_entries _ _ _).1]
      exact hok.2.2.1
  | revokeSub r d tx hp =>
      have ht : s.roles t = .uncounting r := roles_of_pc hp
      rw [hp] at hok
      have hpos := h.count_pos hl (o := r.order) (t := t) (by rw [ht]; exact if_pos rfl)
      have hsub : SameEntries s.waiters (fetchSubCount s.waiters r.order) := sameEntries_slot _ _ _ rfl
      have hsame : SameEntries s.waiters (if tx then setChannel (fetchSubCount s.waiters r.order) r.entry .closed
          else fetchSubCount s.waiters r.order) := by
        split
        · exact hsub.trans (sameEntries_closed _ _)
        · exact hsub
      refine h.finish (by rw [ht]; rfl) ?_ (by rfl) (by rfl) (by rfl) hsame (by rw [ht]; rfl) (fun o => ?_) d
      · exact h.ledger.fits_of_home hok.1 hok.2.1
      · rw [ht, ← count_fetchSub s.waiters hpos o]
        cases tx <;> rfl
  | dropRx r hp =>
      have ht : s.roles t = .dropping r := roles_of_pc hp
      have hsame : SameEntries s.waiters (if r.rx then s.waiters.dropRx r.entry else s.waiters) := by
        split
        · exact sameEntries_dropRx _ _
        · exact .refl _
      refine .of_goto rfl ?_ (h.ledger.move hsame h.ledger.fits trivial rfl (by rw [ht]; rfl) (Or.inr rfl) fun o => ?_)
      · exact hsame.created ▸ h.kept.same (Or.inr rfl)
      · rw [ht]
        cases r.rx <;> rfl
  | scoreStreak f hp => exact h.idle (roles_of_pc hp) rfl
  | scoreCount f streak order cs hp =>
      refine h.idle (roles_of_pc hp) ?_
      split
      · exact nextScore_role _ _ _ _ _
      · rfl
  | scoreStamp f streak order count cs hp =>
      exact h.idle (roles_of_pc hp) (nextScore_role _ _ _ _ _)
  | wakeLock k hp hfree => exact h.quiet rfl rfl rfl (.refl _) (fun _ => rfl) (roles_of_pc hp).symm
  | pop k i queue hp hq =>
      refine .of_goto rfl (h.kept.same (Or.inr rfl)) ?_
      refine h.ledger.pop hq (roles_of_pc hp) fun u r hu ho => ?_
      have hut := hl.alone (ho ▸ inside_of_adding hu) (show (s.pc t).inside = some k.order by rw [hp]; rfl)
      rw [hut, State.roles, hp] at hu
      cases hu
  | popNone k hp => exact h.idle (roles_of_pc hp) rfl
  | wakeCheck k i hp =>
      split
      · exact h.quiet rfl rfl rfl (.refl _) (fun _ => rfl) (roles_of_pc hp).symm
      next hlive => exact h.letGo hp rfl (fun hs => hlive (decide_eq_true hs)) rfl
  | wakeLose k i hp hlive =>
      exact h.letGo hp rfl (fun hs => Bool.false_ne_true (hlive.symm.trans (decide_eq_true hs))) rfl
  | wakeWin k i hp hlive =>
      have ht : s.roles t = .holding k.order i := roles_of_pc hp
      rw [hp] at hok
      have hstate : (s.waiters.entries i).state = .live := of_decide_eq_true hlive
      refine .of_goto rfl (h.kept.same (Or.inr rfl)) ?_
      refine h.ledger.cas hstate hok.1 EntryState.noConfusion ⟨hok.1, ?_, ?_⟩ (fun u r hut hu he => ?_) rfl
        (fun o j he => by rw [ht] at he; cases he; rfl) rfl fun o => by rw [ht]; exact ⟨rfl, rfl, rfl, rfl⟩
      · rw [(storeState_entries _ _ _ _).1, if_pos rfl]
      · rw [(storeState_entries _ _ _ _).2.1]
        exact h.ledger.sender i hstate
      · have hadding := h.ledger.ok u
        rw [hu] at hadding
        have ho : r.order = k.order := Option.some.inj (hadding.1.symm.trans (he ▸ hok.1))
        exact hok.2 (ho ▸ he ▸ hadding.2.2.1)
  | wakeSub k i hp =>
      have ht : s.roles t = .winning k.order i := roles_of_pc hp
      rw [hp] at hok
      have hpos := h.count_pos hl (o := k.order) (t := t) (by rw [ht]; exact if_pos rfl)
      refine .of_goto rfl (h.kept.same (Or.inr rfl)) ?_
      refine h.ledger.move (sameEntries_slot _ _ _ rfl) h.ledger.fits hok rfl (by rw [ht]; rfl)
        (Or.inl (by rw [ht]; rfl)) fun o => ?_
      rw [ht, ← count_fetchSub s.waiters hpos o]
      rfl
  | wakeScan k i scan hp =>
      exact h.quiet rfl rfl rfl (.refl _) (fun _ => rfl) (by rw [nextScan_role, State.roles, hp]; rfl)
  | wakeStore k i ts hp =>
      exact h.quiet rfl rfl rfl (sameEntries_slot _ _ _ rfl) (count_storeTimestamp _ _ _) (roles_of_pc hp).symm
  | wakeUnlock k won hp =>
      refine h.quiet rfl rfl rfl (.refl _) (fun _ => rfl) ?_
      rw [State.roles, hp]
      cases won with
      | some i => rfl
      | none => exact nextOrder_role _ _ _
  | wakeTake k i hp =>
      have ht : s.roles t = .won k.order i := roles_of_pc hp
      rw [hp] at hok
      refine .of_goto rfl (h.kept.same (Or.inr rfl)) ?_
      refine h.ledger.take (by rw [ht]; rfl) ⟨hok.1, ?_⟩ rfl (by rw [ht]; rfl) rfl fun o => by rw [ht]; exact ⟨rfl, rfl⟩
      rw [(takeTx_entries _ _ _).1]
      exact hok.2.1
  | send k i tx hp =>
      exact .of_goto rfl (h.kept.same (Or.inr rfl)) (h.ledger.send (roles_of_pc hp) k.freedOrder)
  | sendNone k i tx hp =>
      have ht : s.roles t = .sending k.order i := roles_of_pc hp
      refine .of_goto rfl ?_ ?_ <;> rw [nextOrder_role]
      · exact h.kept.same (Or.inr rfl)
      · exact h.ledger.move (.refl _) h.ledger.fits trivial rfl (by rw [ht]; rfl) (Or.inr rfl) fun o => by rw [ht]; rfl
  | streakLoad k hp => exact h.idle (roles_of_pc hp) rfl
  | streakStore k current hp =>
      refine h.quiet rfl rfl rfl ?_ (fun _ => rfl) (by rw [nextOrder_role, State.roles, hp]; rfl)
      exact ⟨rfl, rfl, fun _ => rfl, fun _ => rfl, fun _ _ hf => hf, fun _ => rfl⟩

omit [DecidableEq τ] in
theorem poll_books (h : Books s) {i : Nat} {r : BuddyRegistration} (hr : s.regs i = some r) :
    Books { s with waiters := (s.waiters.poll r).2.1, regs := update s.regs i (some (s.waiters.poll r).2.2) } := by
  have hfits := h.ledger.fits i r hr
  have hentry := h.kept.entry i r hr
  rw [NotifyWaiters.poll]
  split
  · split
    · exact ⟨h.kept.replace hr hentry, h.ledger.recast (.refl _) (fun _ => rfl)
        (fits_update h.ledger.fits fun _ he => by cases he; exact hfits)⟩
    · exact ⟨h.kept.replace hr hentry, h.ledger.recast (sameEntries_dropRx _ _) (fun _ => rfl)
        (fits_update h.ledger.fits fun _ he => by cases he; exact ⟨hfits.1, hfits.2.1, fun hreg => by cases hreg⟩)⟩
  · exact ⟨h.kept.replace hr hentry, h.ledger.recast (.refl _) (fun _ => rfl)
      (fits_update h.ledger.fits fun _ he => by cases he; exact hfits)⟩

theorem Books.begin (h : Books s) {i : Nat} {r : BuddyRegistration} (hp : s.pc t = .idle) (hr : s.regs i = some r)
    {ρ : Role} (hρ : p.role = ρ) (hkeeps : ρ.keeps = some r.entry) (hok : ρ.Ok s.waiters s.home)
    (hholds : ρ.holds = none) (htakes : ρ.takes = none) (hcount : ∀ o, ρ.adds o = 0 ∧ ρ.wins o = 0) :
    Books ({ s with regs := update s.regs i none }.goto t p) := by
  have ht : s.roles t = .none := roles_of_pc hp
  refine .of_goto rfl (h.kept.take hr (by rw [hρ, hkeeps, h.kept.entry i r hr])) ?_
  rw [hρ]
  refine h.ledger.move (.refl _) (fits_update h.ledger.fits fun _ he => by cases he) hok hholds (by rw [ht]; rfl)
    (Or.inr htakes) fun o => ?_
  rw [ht, (hcount o).1, (hcount o).2]
  rfl

theorem step_books {a : Action τ} (h : Books s) (hl : Locked s) (hs : Step s a s') : Books s' := by
  cases hs with
  | nothing => exact h
  | register order now => exact ⟨h.kept.register rfl, h.ledger.register order now⟩
  | prepare t i r hp hr hpending =>
      have hfits := h.ledger.fits i r hr
      exact h.begin hp hr rfl rfl ⟨hfits.1, hfits.2.1 hpending⟩ rfl rfl fun _ => ⟨rfl, rfl⟩
  | revoke t i r d a hp hr hreg =>
      obtain ⟨-, hpend, hhome⟩ := h.ledger.fits i r hr
      refine h.begin hp hr rfl rfl ⟨hhome hreg, ?_⟩ rfl rfl fun _ => ⟨rfl, rfl⟩
      by_contra hp'
      rw [hpend (Bool.eq_true_of_not_eq_false hp')] at hhome
      cases hhome hreg
  | drop t i r hp hr => exact h.begin hp hr rfl rfl trivial rfl rfl fun _ => ⟨rfl, rfl⟩
  | poll i r hr => exact poll_books h hr
  | wake t f hp => exact h.idle (roles_of_pc hp) rfl
  | tick t s' ht => exact tick_books h hl ht

omit [DecidableEq τ] in
theorem start_books (numOrders : Nat) : Books (start numOrders : State τ) := by
  refine ⟨⟨fun i r hr => ?_, fun i r hr => ?_, fun t i hi => ?_, fun t u i hi => ?_⟩, ?_⟩
  · cases hr
  · cases hr
  · cases hi
  · cases hi
  · refine ⟨fun i r hr => ?_, fun _ _ => rfl, fun i o hi => ?_, fun _ _ => rfl, fun _ _ => rfl, fun i f hi => ?_,
      fun _ => List.nodup_nil, fun o i hi => ?_, fun i o _ hi => ?_, fun _ => trivial, fun t u i hi => ?_,
      fun t u i hi => ?_, fun o => ?_⟩
    · cases hr
    · cases hi
    · cases hi
    · cases hi
    · cases hi
    · cases hi
    · cases hi
    · have hnone : ∀ t : τ, ((start numOrders : State τ).roles t).adds o = 0 ∧
        ((start numOrders : State τ).roles t).wins o = 0 := fun t => ⟨rfl, rfl⟩
      rw [Finset.sum_eq_zero fun t _ => (hnone t).1, Finset.sum_eq_zero fun t _ => (hnone t).2]
      rfl

structure Sound (s : State τ) : Prop where
  locked : Locked s
  books : Books s

theorem step_sound {a : Action τ} (h : Sound s) (hs : step s a = some s') : Sound s' :=
  ⟨step_locked h.locked (step_cases hs), step_books h.books h.locked (step_cases hs)⟩

omit [DecidableEq τ] in
theorem start_sound (numOrders : Nat) : Sound (start numOrders : State τ) := by
  refine ⟨fun o t => ⟨fun h => ?_, fun h => ?_⟩, start_books numOrders⟩ <;> cases h

theorem run_sound {numOrders : Nat} {as : List (Action τ)} (hr : run step (start numOrders) as = some s) : Sound s :=
  run_preserves Sound (fun _ _ _ h hs => step_sound h hs) (start_sound numOrders) hr

end Books

end ArenaAlligator.WaiterThreads
