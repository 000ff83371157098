import ArenaAlligator.Runs
import ArenaAlligator.WaiterThreads
import Mathlib.Algebra.Order.BigOperators.Group.Finset

namespace ArenaAlligator.WaiterThreads

open Function NotifyWaiters Runs

/-- What a thread has in hand: a registration, an entry it took from a queue,
or an entry it won. -/
inductive Role
  | none
  | pushing (r : BuddyRegistration)
  | adding (r : BuddyRegistration)
  | added (r : BuddyRegistration)
  | revoking (r : BuddyRegistration)
  | revoked (r : BuddyRegistration)
  | uncounting (r : BuddyRegistration)
  | dropping (r : BuddyRegistration)
  | holding (order i : Nat)
  | winning (order i : Nat)
  | won (order i : Nat)
  | sending (order i : Nat)

def Pc.role : Pc → Role
  | prepareLock r | preparePush r => .pushing r
  | prepareAdd r => .adding r
  | prepareStamp r | prepareUnlock r => .added r
  | revokeCas r _ => .revoking r
  | revokeTake r _ => .revoked r
  | revokeSub r _ _ => .uncounting r
  | dropRx r => .dropping r
  | wakeCheck k i | wakeCas k i => .holding k.order i
  | wakeSub k i => .winning k.order i
  | wakeScan k i _ | wakeStore k i _ | wakeUnlock k (some i) | wakeTake k i => .won k.order i
  | wakeSend k i _ => .sending k.order i
  | idle | scoreStreak _ | scoreCount _ _ _ _ | scoreStamp _ _ _ _ _ | wakeLock _ | wakePop _ | wakeUnlock _ none
  | streakLoad _ | streakStore _ _ => .none

namespace Role

def keeps : Role → Option Nat
  | pushing r | adding r | added r | revoking r | revoked r | uncounting r | dropping r => some r.entry
  | _ => Option.none

def takes : Role → Option Nat
  | revoked r => some r.entry
  | winning _ i | won _ i => some i
  | _ => Option.none

def holds : Role → Option Nat
  | holding _ i => some i
  | _ => Option.none

def adds (o : Nat) : Role → Nat
  | adding r => if r.order = o then 1 else 0
  | _ => 0

def wins (o : Nat) : Role → Nat
  | revoked r | uncounting r => if r.order = o then 1 else 0
  | winning order _ => if order = o then 1 else 0
  | _ => 0

def Ok (w : NotifyWaiters) (home : Nat → Option Nat) : Role → Prop
  | pushing r => r.order ≤ w.numOrders - 1 ∧ home r.entry = Option.none
  | adding r => home r.entry = some r.order ∧ r.pendingEntry = false ∧ r.entry ∈ w.queue r.order ∧
      (w.entries r.entry).state = .live
  | added r | revoking r => home r.entry = some r.order ∧ r.pendingEntry = false
  | revoked r => home r.entry = some r.order ∧ r.pendingEntry = false ∧ (w.entries r.entry).state = .revoked ∧
      (w.entries r.entry).tx = true
  | uncounting r => home r.entry = some r.order ∧ r.pendingEntry = false ∧ (w.entries r.entry).state = .revoked
  | holding o i => home i = some o ∧ i ∉ w.queue o
  | winning o i | won o i => home i = some o ∧ (w.entries i).state = .woken ∧ (w.entries i).tx = true
  | sending o i => home i = some o ∧ (w.entries i).state = .woken
  | none | dropping _ => True

variable {ρ : Role} {w w' : NotifyWaiters} {home : Nat → Option Nat}

theorem Ok.congr (h : ρ.Ok w home) (hn : w'.numOrders = w.numOrders) (hq : ∀ o, w'.queue o = w.queue o)
    (he : ∀ i, home i ≠ Option.none →
      (w'.entries i).state = (w.entries i).state ∧ (w'.entries i).tx = (w.entries i).tx) : ρ.Ok w' home := by
  have hsome {i o : Nat} (hi : home i = some o) := he i (by rw [hi]; exact Option.some_ne_none o)
  cases ρ with
  | none | dropping r => trivial
  | pushing r => exact ⟨hn ▸ h.1, h.2⟩
  | added r | revoking r => exact h
  | adding r => exact ⟨h.1, h.2.1, by rw [hq]; exact h.2.2.1, by rw [(hsome h.1).1]; exact h.2.2.2⟩
  | revoked r => exact ⟨h.1, h.2.1, by rw [(hsome h.1).1]; exact h.2.2.1, by rw [(hsome h.1).2]; exact h.2.2.2⟩
  | uncounting r => exact ⟨h.1, h.2.1, by rw [(hsome h.1).1]; exact h.2.2⟩
  | holding o i => exact ⟨h.1, by rw [hq]; exact h.2⟩
  | winning o i | won o i => exact ⟨h.1, by rw [(hsome h.1).1]; exact h.2.1, by rw [(hsome h.1).2]; exact h.2.2⟩
  | sending o i => exact ⟨h.1, by rw [(hsome h.1).1]; exact h.2⟩

end Role

theorem storeState_entries (w : NotifyWaiters) (i j : Nat) (st : EntryState) :
    ((storeState w i st).entries j).state = (if j = i then st else (w.entries j).state) ∧
    ((storeState w i st).entries j).tx = (w.entries j).tx ∧
    ((storeState w i st).entries j).channel = (w.entries j).channel := by
  simp only [storeState, setEntry, update_apply]
  split
  next h => rw [h]; exact ⟨rfl, rfl, rfl⟩
  next => exact ⟨rfl, rfl, rfl⟩

theorem takeTx_entries (w : NotifyWaiters) (i j : Nat) :
    ((takeTx w i).entries j).state = (w.entries j).state ∧
    ((takeTx w i).entries j).tx = (if j = i then false else (w.entries j).tx) ∧
    ((takeTx w i).entries j).channel = (w.entries j).channel := by
  simp only [takeTx, setEntry, update_apply]
  split
  next h => rw [h]; exact ⟨rfl, rfl, rfl⟩
  next => exact ⟨rfl, rfl, rfl⟩

theorem queue_setQueue (w : NotifyWaiters) (o : Nat) (queue : List Nat) (o' : Nat) :
    (setQueue w o queue).queue o' = if o' = o then queue else w.queue o' := by
  simp only [setQueue, NotifyWaiters.queue, setSlot, update_apply]
  split <;> rfl

theorem queue_pushBack (w : NotifyWaiters) (o i o' : Nat) :
    (pushBack w o i).queue o' = if o' = o then w.queue o ++ [i] else w.queue o' :=
  queue_setQueue w o (w.queue o ++ [i]) o'

namespace Role

variable {ρ : Role} {w w' : NotifyWaiters} {home : Nat → Option Nat} {i : Nat}

/-- A compare-exchange concerns only the roles that know its entry is live. -/
theorem Ok.cas (h : ρ.Ok w home) (hl : (w.entries i).state = .live) (hadd : ∀ r, ρ = adding r → r.entry ≠ i)
    (st : EntryState) : ρ.Ok (storeState w i st) home := by
  have hstate {j : Nat} {s : EntryState} (hj : (w.entries j).state = s) (hs : s ≠ .live) :
      ((storeState w i st).entries j).state = s := by
    rw [(storeState_entries w i j st).1, if_neg, hj]
    rintro rfl
    exact hs (hj.symm.trans hl)
  have htx {j : Nat} (hj : (w.entries j).tx = true) : ((storeState w i st).entries j).tx = true := by
    rw [(storeState_entries w i j st).2.1, hj]
  cases ρ with
  | none | dropping r => trivial
  | pushing r | added r | revoking r => exact h
  | holding o j => exact h
  | adding r =>
      refine ⟨h.1, h.2.1, h.2.2.1, ?_⟩
      rw [(storeState_entries w i r.entry st).1, if_neg (hadd r rfl)]
      exact h.2.2.2
  | revoked r => exact ⟨h.1, h.2.1, hstate h.2.2.1 EntryState.noConfusion, htx h.2.2.2⟩
  | uncounting r => exact ⟨h.1, h.2.1, hstate h.2.2 EntryState.noConfusion⟩
  | winning o j | won o j => exact ⟨h.1, hstate h.2.1 EntryState.noConfusion, htx h.2.2⟩
  | sending o j => exact ⟨h.1, hstate h.2 EntryState.noConfusion⟩

theorem Ok.take (h : ρ.Ok w home) (hne : ρ.takes ≠ some i) : ρ.Ok (takeTx w i) home := by
  have hstate {j : Nat} {s : EntryState} (hj : (w.entries j).state = s) : ((takeTx w i).entries j).state = s := by
    rw [(takeTx_entries w i j).1, hj]
  have htx {j : Nat} (hj : (w.entries j).tx = true) (hij : j ≠ i) : ((takeTx w i).entries j).tx = true := by
    rw [(takeTx_entries w i j).2.1, if_neg hij, hj]
  have hji {j : Nat} (hj : ρ.takes = some j) : j ≠ i := by
    rintro rfl
    exact hne hj
  cases ρ with
  | none | dropping r => trivial
  | pushing r | added r | revoking r => exact h
  | holding o j => exact h
  | adding r => exact ⟨h.1, h.2.1, h.2.2.1, hstate h.2.2.2⟩
  | revoked r => exact ⟨h.1, h.2.1, hstate h.2.2.1, htx h.2.2.2 (hji rfl)⟩
  | uncounting r => exact ⟨h.1, h.2.1, hstate h.2.2⟩
  | winning o j | won o j => exact ⟨h.1, hstate h.2.1, htx h.2.2 (hji rfl)⟩
  | sending o j => exact ⟨h.1, hstate h.2⟩

theorem Ok.push (h : ρ.Ok w home) (hi : home i = Option.none) (hne : ρ.keeps ≠ some i) (o : Nat) :
    ρ.Ok (pushBack w o i) (update home i (some o)) := by
  have hhome {j o' : Nat} (hj : home j = some o') : j ≠ i ∧ update home i (some o) j = some o' := by
    have hji : j ≠ i := by
      rintro rfl
      rw [hi] at hj
      cases hj
    exact ⟨hji, by rw [update_of_ne hji, hj]⟩
  cases ρ with
  | none | dropping r => trivial
  | pushing r =>
      refine ⟨h.1, ?_⟩
      rw [update_of_ne (fun he => hne (congrArg some he))]
      exact h.2
  | added r | revoking r => exact ⟨(hhome h.1).2, h.2⟩
  | adding r =>
      refine ⟨(hhome h.1).2, h.2.1, ?_, h.2.2.2⟩
      rw [queue_pushBack]
      split
      next ho => exact List.mem_append_left _ (ho ▸ h.2.2.1)
      next => exact h.2.2.1
  | revoked r | uncounting r => exact ⟨(hhome h.1).2, h.2⟩
  | holding o' j =>
      refine ⟨(hhome h.1).2, ?_⟩
      rw [queue_pushBack]
      split
      next ho =>
        rw [List.mem_append, List.mem_singleton, not_or]
        exact ⟨ho ▸ h.2, (hhome h.1).1⟩
      next => exact h.2
  | winning o' j | won o' j | sending o' j => exact ⟨(hhome h.1).2, h.2⟩

theorem Ok.pop (h : ρ.Ok w home) {o : Nat} {queue : List Nat} (hq : w.queue o = i :: queue)
    (hadd : ∀ r, ρ = adding r → r.order ≠ o) : ρ.Ok (setQueue w o queue) home := by
  cases ρ with
  | none | dropping r => trivial
  | pushing r | added r | revoking r | revoked r | uncounting r => exact h
  | adding r =>
      refine ⟨h.1, h.2.1, ?_, h.2.2.2⟩
      rw [queue_setQueue, if_neg (hadd r rfl)]
      exact h.2.2.1
  | holding o' j =>
      refine ⟨h.1, ?_⟩
      rw [queue_setQueue]
      split
      next ho =>
        have hnot := h.2
        rw [ho, hq] at hnot
        exact fun hm => hnot (List.mem_cons_of_mem i hm)
      next => exact h.2
  | winning o' j | won o' j | sending o' j => exact h

end Role

variable {τ : Type} [DecidableEq τ]

/-- Every registration is in one place: with nobody, or with one thread. -/
structure Kept (created : Nat) (regs : Nat → Option BuddyRegistration) (roles : τ → Role) : Prop where
  entry : ∀ i r, regs i = some r → r.entry = i
  bound : ∀ i r, regs i = some r → i < created
  held : ∀ t i, (roles t).keeps = some i → i < created ∧ regs i = none
  apart : ∀ t u i, (roles t).keeps = some i → (roles u).keeps = some i → t = u

variable {created : Nat} {regs : Nat → Option BuddyRegistration} {roles : τ → Role} {t : τ} {ρ : Role}

theorem update_keeps {u : τ} {i : Nat} (h : (update roles t ρ u).keeps = some i) :
    u = t ∧ ρ.keeps = some i ∨ u ≠ t ∧ (roles u).keeps = some i := by
  by_cases hut : u = t
  · rw [hut, update_self] at h
    exact Or.inl ⟨hut, h⟩
  · rw [update_of_ne hut] at h
    exact Or.inr ⟨hut, h⟩

theorem Kept.same (h : Kept created regs roles) (hk : ρ.keeps = (roles t).keeps ∨ ρ.keeps = none) :
    Kept created regs (update roles t ρ) := by
  have hold {u : τ} {i : Nat} (hu : (update roles t ρ u).keeps = some i) : (roles u).keeps = some i := by
    rcases update_keeps hu with ⟨rfl, hi⟩ | ⟨-, hi⟩
    · rcases hk with hk | hk
      · rw [← hk, hi]
      · rw [hk] at hi
        cases hi
    · exact hi
  exact ⟨h.entry, h.bound, fun u i hu => h.held u i (hold hu), fun u v i hu hv => h.apart u v i (hold hu) (hold hv)⟩

theorem Kept.take (h : Kept created regs roles) {i : Nat} {r : BuddyRegistration} (hr : regs i = some r)
    (hρ : ρ.keeps = some i) : Kept created (update regs i none) (update roles t ρ) := by
  have hfree (u : τ) (hu : (roles u).keeps = some i) : False := by
    have hn := (h.held u i hu).2
    rw [hr] at hn
    cases hn
  have hregs {j : Nat} {r' : BuddyRegistration} (hj : update regs i none j = some r') : regs j = some r' := by
    rw [update_apply] at hj
    split at hj
    · cases hj
    · exact hj
  refine ⟨fun j r' hj => h.entry j r' (hregs hj), fun j r' hj => h.bound j r' (hregs hj), fun u j hu => ?_,
    fun u v j hu hv => ?_⟩
  · rcases update_keeps hu with ⟨-, hj⟩ | ⟨-, hj⟩
    · rw [hρ] at hj
      cases hj
      exact ⟨h.bound i r hr, update_self _ _ _⟩
    · obtain ⟨hlt, hn⟩ := h.held u j hj
      refine ⟨hlt, ?_⟩
      rw [update_apply]
      split
      · rfl
      · exact hn
  · rcases update_keeps hu with ⟨hut, hj⟩ | ⟨-, hj⟩ <;> rcases update_keeps hv with ⟨hvt, hj'⟩ | ⟨-, hj'⟩
    · exact hut.trans hvt.symm
    · rw [hρ] at hj
      cases hj
      exact (hfree v hj').elim
    · rw [hρ] at hj'
      cases hj'
      exact (hfree u hj).elim
    · exact h.apart u v j hj hj'

omit [DecidableEq τ] in
theorem Kept.file (h : Kept created regs roles) {i m : Nat} {r : BuddyRegistration} (hr : r.entry = i) (hi : i < m)
    (hm : created ≤ m) {j : Nat} {r' : BuddyRegistration} (hj : update regs i (some r) j = some r') :
    r'.entry = j ∧ j < m := by
  rw [update_apply] at hj
  split at hj
  next he =>
    cases hj
    exact ⟨hr.trans he.symm, he ▸ hi⟩
  next => exact ⟨h.entry j r' hj, (h.bound j r' hj).trans_le hm⟩

theorem Kept.give (h : Kept created regs roles) {i : Nat} (ht : (roles t).keeps = some i) (hρ : ρ.keeps = none)
    {r : BuddyRegistration} (hr : r.entry = i) : Kept created (update regs i (some r)) (update roles t ρ) := by
  obtain ⟨hlt, -⟩ := h.held t i ht
  refine ⟨fun j r' hj => (h.file hr hlt le_rfl hj).1, fun j r' hj => (h.file hr hlt le_rfl hj).2, fun u j hu => ?_,
    (h.same (Or.inr hρ)).apart⟩
  rcases update_keeps hu with ⟨-, hj⟩ | ⟨hut, hj⟩
  · rw [hρ] at hj
    cases hj
  · obtain ⟨hlt', hn⟩ := h.held u j hj
    refine ⟨hlt', ?_⟩
    rw [update_of_ne, hn]
    rintro rfl
    exact hut (h.apart u t j hj ht)

omit [DecidableEq τ] in
theorem Kept.replace (h : Kept created regs roles) {i : Nat} {r r' : BuddyRegistration} (hr : regs i = some r)
    (hr' : r'.entry = i) : Kept created (update regs i (some r')) roles := by
  have hi := h.bound i r hr
  refine ⟨fun j r'' hj => (h.file hr' hi le_rfl hj).1, fun j r'' hj => (h.file hr' hi le_rfl hj).2, fun u j hu => ?_,
    h.apart⟩
  obtain ⟨hlt, hn⟩ := h.held u j hu
  refine ⟨hlt, ?_⟩
  rw [update_of_ne, hn]
  rintro rfl
  rw [hr] at hn
  cases hn

omit [DecidableEq τ] in
theorem Kept.register (h : Kept created regs roles) {r : BuddyRegistration} (hr : r.entry = created) :
    Kept (created + 1) (update regs created (some r)) roles := by
  have hlt := Nat.lt_succ_self created
  refine ⟨fun j r' hj => (h.file hr hlt hlt.le hj).1, fun j r' hj => (h.file hr hlt hlt.le hj).2, fun u j hu => ?_,
    h.apart⟩
  obtain ⟨hold, hn⟩ := h.held u j hu
  exact ⟨hold.trans hlt, by rw [update_of_ne hold.ne, hn]⟩

def Fits (w : NotifyWaiters) (home : Nat → Option Nat) (r : BuddyRegistration) : Prop :=
  r.order ≤ w.numOrders - 1 ∧ (r.pendingEntry = true → home r.entry = none) ∧
    (r.registered = true → home r.entry = some r.order)

def liveHome (w : NotifyWaiters) (home : Nat → Option Nat) (o : Nat) : Nat :=
  ((Finset.range w.created).filter fun i => (w.entries i).state = .live ∧ home i = some o).card

structure Ledger [Fintype τ] (w : NotifyWaiters) (home : Nat → Option Nat) (regs : Nat → Option BuddyRegistration)
    (roles : τ → Role) : Prop where
  fits : ∀ i r, regs i = some r → Fits w home r
  fresh : ∀ i, w.created ≤ i → home i = none
  bounded : ∀ i o, home i = some o → o ≤ w.numOrders - 1
  blank : ∀ i, home i = none → (w.entries i).state = .live
  sender : ∀ i, (w.entries i).state = .live → (w.entries i).tx = true
  sent : ∀ i f, (w.entries i).channel = .sent f → (w.entries i).state = .woken
  nodup : ∀ o, (w.queue o).Nodup
  queued : ∀ o, ∀ i ∈ w.queue o, home i = some o
  placed : ∀ i o, (w.entries i).state = .live → home i = some o → i ∈ w.queue o ∨ ∃ t, roles t = .holding o i
  ok : ∀ t, (roles t).Ok w home
  holds : ∀ t u i, (roles t).holds = some i → (roles u).holds = some i → t = u
  takes : ∀ t u i, (roles t).takes = some i → (roles u).takes = some i → t = u
  count : ∀ o, (w.buddyOrders o).count + ∑ t, (roles t).adds o = liveHome w home o + ∑ t, (roles t).wins o

structure SameEntries (w w' : NotifyWaiters) : Prop where
  created : w'.created = w.created
  numOrders : w'.numOrders = w.numOrders
  state : ∀ i, (w'.entries i).state = (w.entries i).state
  tx : ∀ i, (w'.entries i).tx = (w.entries i).tx
  sent : ∀ i f, (w'.entries i).channel = .sent f → (w.entries i).channel = .sent f
  queue : ∀ o, w'.queue o = w.queue o

theorem SameEntries.refl (w : NotifyWaiters) : SameEntries w w :=
  ⟨rfl, rfl, fun _ => rfl, fun _ => rfl, fun _ _ h => h, fun _ => rfl⟩

variable [Fintype τ] {w w' : NotifyWaiters} {home : Nat → Option Nat} {regs' : Nat → Option BuddyRegistration}

theorem liveHome_congr (hc : w'.created = w.created) (hs : ∀ i, (w'.entries i).state = (w.entries i).state) (o : Nat) :
    liveHome w' home o = liveHome w home o := by
  simp only [liveHome, hc, hs]

omit [Fintype τ] in
theorem update_same {i : Nat} {f : Role → Option Nat} {u : τ} (hρ : f ρ = f (roles t) ∨ f ρ = none)
    (h : f (update roles t ρ u) = some i) : f (roles u) = some i := by
  by_cases hut : u = t
  · rw [hut, update_self] at h
    rcases hρ with hρ | hρ
    · rw [hut, ← hρ, h]
    · rw [hρ] at h
      cases h
  · rwa [update_of_ne hut] at h

omit [Fintype τ] in
theorem update_ok (hok : ρ.Ok w' home) (h : ∀ u, u ≠ t → (roles u).Ok w' home) (u : τ) :
    (update roles t ρ u).Ok w' home := by
  by_cases hut : u = t
  · rw [hut, update_self]
    exact hok
  · rw [update_of_ne hut]
    exact h u hut

omit [DecidableEq τ] in
theorem Ledger.carry {roles' : τ → Role} (h : Ledger w home regs roles) (hw : SameEntries w w')
    (hregs : ∀ i r, regs' i = some r → Fits w home r) (hok : ∀ u, (roles' u).Ok w home)
    (hplaced : ∀ i o u, (w.entries i).state = .live → roles u = .holding o i → roles' u = .holding o i)
    (hholds : ∀ u v i, (roles' u).holds = some i → (roles' v).holds = some i → u = v)
    (htakes : ∀ u v i, (roles' u).takes = some i → (roles' v).takes = some i → u = v)
    (hcount : ∀ o, (w'.buddyOrders o).count + ∑ u, (roles' u).adds o =
      liveHome w home o + ∑ u, (roles' u).wins o) :
    Ledger w' home regs' roles' where
  fits := fun i r hr => by
    obtain ⟨ho, hpend, hreg⟩ := hregs i r hr
    exact ⟨hw.numOrders ▸ ho, hpend, hreg⟩
  fresh := fun i hi => h.fresh i (hw.created ▸ hi)
  bounded := fun i o hi => hw.numOrders ▸ h.bounded i o hi
  blank := fun i hi => by
    rw [hw.state]
    exact h.blank i hi
  sender := fun i hi => by
    rw [hw.state] at hi
    rw [hw.tx]
    exact h.sender i hi
  sent := fun i f hi => by
    rw [hw.state]
    exact h.sent i f (hw.sent i f hi)
  nodup := fun o => by
    rw [hw.queue]
    exact h.nodup o
  queued := fun o i hi => by
    rw [hw.queue] at hi
    exact h.queued o i hi
  placed := fun i o hi ho => by
    rw [hw.state] at hi
    rw [hw.queue]
    exact (h.placed i o hi ho).imp_right fun ⟨u, hu⟩ => ⟨u, hplaced i o u hi hu⟩
  ok := fun u => (hok u).congr hw.numOrders hw.queue fun i _ => ⟨hw.state i, hw.tx i⟩
  holds := hholds
  takes := htakes
  count := fun o => by
    rw [liveHome_congr hw.created hw.state]
    exact hcount o

theorem Ledger.shift (h : Ledger w home regs roles) (hw : SameEntries w w')
    (hregs : ∀ i r, regs' i = some r → Fits w home r) (hok : ρ.Ok w home)
    (hholds : ρ.holds = (roles t).holds ∨ ρ.holds = none)
    (hskip : ∀ o i, roles t = .holding o i → ρ ≠ .holding o i → (w.entries i).state ≠ .live)
    (htakes : ρ.takes = (roles t).takes ∨ ρ.takes = none)
    (hcount : ∀ o, (w'.buddyOrders o).count + ρ.adds o + (roles t).wins o =
      (w.buddyOrders o).count + (roles t).adds o + ρ.wins o) :
    Ledger w' home regs' (update roles t ρ) := by
  apply h.carry hw hregs (update_ok hok fun u _ => h.ok u)
  · intro i o u hi hu
    by_cases hut : u = t
    · subst hut
      rw [update_self]
      by_contra hne
      exact hskip o i hu hne hi
    · rw [update_of_ne hut, hu]
  · exact fun u v i hu hv => h.holds u v i (update_same hholds hu) (update_same hholds hv)
  · exact fun u v i hu hv => h.takes u v i (update_same htakes hu) (update_same htakes hv)
  · intro o
    have hadds := sum_update (Role.adds o) roles t ρ
    have hwins := sum_update (Role.wins o) roles t ρ
    have hold := h.count o
    have hnew := hcount o
    omega

omit [Fintype τ] in
theorem update_fresh {i : Nat} {f : Role → Option Nat} (hρ : f ρ = some i) (hi : ∀ u, f (roles u) ≠ some i)
    (h : ∀ u v j, f (roles u) = some j → f (roles v) = some j → u = v) (u v : τ) (j : Nat)
    (hu : f (update roles t ρ u) = some j) (hv : f (update roles t ρ v) = some j) : u = v := by
  by_cases hut : u = t <;> by_cases hvt : v = t
  · exact hut.trans hvt.symm
  · rw [hut, update_self, hρ] at hu
    cases hu
    rw [update_of_ne hvt] at hv
    exact absurd hv (hi v)
  · rw [hvt, update_self, hρ] at hv
    cases hv
    rw [update_of_ne hut] at hu
    exact absurd hu (hi u)
  · rw [update_of_ne hut] at hu
    rw [update_of_ne hvt] at hv
    exact h u v j hu hv

omit [DecidableEq τ] in
theorem Ledger.lt_created (h : Ledger w home regs roles) {i o : Nat} (hi : home i = some o) : i < w.created := by
  by_contra hge
  rw [h.fresh i (Nat.le_of_not_lt hge)] at hi
  cases hi

omit [DecidableEq τ] in
theorem Ledger.fits_of_home (h : Ledger w home regs roles) {r : BuddyRegistration} (hhome : home r.entry = some r.order)
    (hpend : r.pendingEntry = false) : Fits w home r :=
  ⟨h.bounded r.entry r.order hhome, fun hp => (Bool.false_ne_true (hpend.symm.trans hp)).elim, fun _ => hhome⟩

omit [DecidableEq τ] in
theorem liveHome_storeState (h : Ledger w home regs roles) {i o' : Nat} (hi : (w.entries i).state = .live)
    (ho : home i = some o') {st : EntryState} (hst : st ≠ .live) (o : Nat) :
    liveHome (storeState w i st) home o + (if o' = o then 1 else 0) = liveHome w home o := by
  have hmem (j : Nat) : j ∈ (Finset.range w.created).filter (fun j =>
      ((storeState w i st).entries j).state = .live ∧ home j = some o) ↔
      j ≠ i ∧ j ∈ (Finset.range w.created).filter fun j => (w.entries j).state = .live ∧ home j = some o := by
    rw [Finset.mem_filter, Finset.mem_filter, (storeState_entries w i j st).1]
    split
    next he => simp [he, hst]
    next he => simp [he]
  have herase : (Finset.range w.created).filter (fun j =>
      ((storeState w i st).entries j).state = .live ∧ home j = some o) =
      ((Finset.range w.created).filter fun j => (w.entries j).state = .live ∧ home j = some o).erase i := by
    ext j
    rw [hmem, Finset.mem_erase]
  change (Finset.filter _ (Finset.range w.created)).card + _ = _
  rw [herase, liveHome]
  split
  next he => exact Finset.card_erase_add_one (Finset.mem_filter.mpr
      ⟨Finset.mem_range.mpr (h.lt_created ho), hi, he ▸ ho⟩)
  next he =>
    rw [Finset.erase_eq_of_notMem, Nat.add_zero]
    rw [Finset.mem_filter, ho]
    simp [he]

/-- A compare-exchange takes a live entry out of circulation. -/
theorem Ledger.cas (h : Ledger w home regs roles) {i o : Nat} (hi : (w.entries i).state = .live) (ho : home i = some o)
    {st : EntryState} (hst : st ≠ .live) (hok : ρ.Ok (storeState w i st) home)
    (hadd : ∀ u r, u ≠ t → roles u = .adding r → r.entry ≠ i) (hholds : ρ.holds = none)
    (hold : ∀ o' j, roles t = .holding o' j → j = i) (htakes : ρ.takes = some i)
    (hcount : ∀ o', ρ.adds o' = 0 ∧ (roles t).adds o' = 0 ∧ (roles t).wins o' = 0 ∧
      ρ.wins o' = if o = o' then 1 else 0) :
    Ledger (storeState w i st) home regs (update roles t ρ) where
  fits := h.fits
  fresh := h.fresh
  bounded := h.bounded
  blank := fun j hj => by
    rw [(storeState_entries w i j st).1, if_neg]
    · exact h.blank j hj
    · rintro rfl
      rw [ho] at hj
      cases hj
  sender := fun j hj => by
    rw [(storeState_entries w i j st).1] at hj
    rw [(storeState_entries w i j st).2.1]
    split at hj
    · exact absurd hj hst
    · exact h.sender j hj
  sent := fun j f hj => by
    rw [(storeState_entries w i j st).2.2] at hj
    have hwoken := h.sent j f hj
    rw [(storeState_entries w i j st).1, if_neg, hwoken]
    rintro rfl
    rw [hi] at hwoken
    cases hwoken
  nodup := h.nodup
  queued := h.queued
  placed := fun j o' hj hjo => by
    rw [(storeState_entries w i j st).1] at hj
    split at hj
    · exact absurd hj hst
    next hne =>
      refine (h.placed j o' hj hjo).imp_right fun ⟨u, hu⟩ => ⟨u, ?_⟩
      rw [update_of_ne, hu]
      rintro rfl
      exact hne (hold o' j hu)
  ok := update_ok hok fun u hut => (h.ok u).cas hi (fun r hr => hadd u r hut hr) st
  holds := fun u v j hu hv => h.holds u v j (update_same (Or.inr hholds) hu) (update_same (Or.inr hholds) hv)
  takes := by
    refine update_fresh htakes (fun u hu => ?_) h.takes
    have hou := h.ok u
    generalize roles u = ρ' at hu hou
    cases ρ' with
    | revoked r =>
        cases hu
        rw [hou.2.2.1] at hi
        cases hi
    | winning o' j | won o' j =>
        cases hu
        rw [hou.2.1] at hi
        cases hi
    | _ => cases hu
  count := fun o' => by
    have hadds := sum_update (Role.adds o') roles t ρ
    have hwins := sum_update (Role.wins o') roles t ρ
    have hlive := liveHome_storeState h hi ho hst o'
    have heq := h.count o'
    obtain ⟨h₁, h₂, h₃, h₄⟩ := hcount o'
    change (w.buddyOrders o').count + _ = _
    omega

theorem Ledger.take (h : Ledger w home regs roles) {i : Nat} (ht : (roles t).takes = some i)
    (hok : ρ.Ok (takeTx w i) home) (hholds : ρ.holds = none) (hold : (roles t).holds = none) (htakes : ρ.takes = none)
    (hcount : ∀ o, ρ.adds o = (roles t).adds o ∧ ρ.wins o = (roles t).wins o) :
    Ledger (takeTx w i) home regs (update roles t ρ) where
  fits := h.fits
  fresh := h.fresh
  bounded := h.bounded
  blank := fun j hj => by
    rw [(takeTx_entries w i j).1]
    exact h.blank j hj
  sender := fun j hj => by
    rw [(takeTx_entries w i j).1] at hj
    rw [(takeTx_entries w i j).2.1, if_neg]
    · exact h.sender j hj
    · rintro rfl
      have hot := h.ok t
      generalize roles t = ρ' at ht hot
      cases ρ' with
      | revoked r =>
          cases ht
          rw [hot.2.2.1] at hj
          cases hj
      | winning o' j | won o' j =>
          cases ht
          rw [hot.2.1] at hj
          cases hj
      | _ => cases ht
  sent := fun j f hj => by
    rw [(takeTx_entries w i j).2.2] at hj
    rw [(takeTx_entries w i j).1]
    exact h.sent j f hj
  nodup := h.nodup
  queued := h.queued
  placed := fun j o hj hjo => by
    rw [(takeTx_entries w i j).1] at hj
    refine (h.placed j o hj hjo).imp_right fun ⟨u, hu⟩ => ⟨u, ?_⟩
    rw [update_of_ne, hu]
    rintro rfl
    rw [hu] at hold
    cases hold
  ok := update_ok hok fun u hut => (h.ok u).take fun hu => hut (h.takes u t i hu ht)
  holds := fun u v j hu hv => h.holds u v j (update_same (Or.inr hholds) hu) (update_same (Or.inr hholds) hv)
  takes := fun u v j hu hv => h.takes u v j (update_same (Or.inr htakes) hu) (update_same (Or.inr htakes) hv)
  count := fun o => by
    have hadds := sum_update (Role.adds o) roles t ρ
    have hwins := sum_update (Role.wins o) roles t ρ
    have heq := h.count o
    obtain ⟨h₁, h₂⟩ := hcount o
    have hlive : liveHome (takeTx w i) home o = liveHome w home o := by
      refine liveHome_congr ?_ ?_ o
      · rfl
      · exact fun j => (takeTx_entries w i j).1
    change (w.buddyOrders o).count + _ = _
    omega

theorem Ledger.pop (h : Ledger w home regs roles) {i o : Nat} {queue : List Nat} (hq : w.queue o = i :: queue)
    (ht : roles t = .none) (hadd : ∀ u r, roles u = .adding r → r.order ≠ o) :
    Ledger (setQueue w o queue) home regs (update roles t (.holding o i)) where
  fits := h.fits
  fresh := h.fresh
  bounded := h.bounded
  blank := h.blank
  sender := h.sender
  sent := h.sent
  nodup := fun o' => by
    rw [queue_setQueue]
    split
    · have hnd := h.nodup o
      rw [hq, List.nodup_cons] at hnd
      exact hnd.2
    · exact h.nodup o'
  queued := fun o' j hj => by
    rw [queue_setQueue] at hj
    split at hj
    next ho => exact ho ▸ h.queued o j (hq ▸ List.mem_cons_of_mem i hj)
    next => exact h.queued o' j hj
  placed := fun j o' hj hjo => by
    rcases h.placed j o' hj hjo with hm | ⟨u, hu⟩
    · rw [queue_setQueue]
      split
      next ho =>
        rw [ho, hq] at hm
        rcases List.mem_cons.mp hm with rfl | hm
        · exact Or.inr ⟨t, by rw [update_self, ho]⟩
        · exact Or.inl hm
      next => exact Or.inl hm
    · refine Or.inr ⟨u, ?_⟩
      rw [update_of_ne, hu]
      rintro rfl
      rw [ht] at hu
      cases hu
  ok := by
    have hmem : i ∈ w.queue o := hq ▸ List.mem_cons_self
    have hnd := h.nodup o
    rw [hq, List.nodup_cons] at hnd
    refine update_ok ⟨h.queued o i hmem, ?_⟩ fun u _ => (h.ok u).pop hq (hadd u)
    rw [queue_setQueue, if_pos rfl]
    exact hnd.1
  holds := by
    refine update_fresh (f := Role.holds) rfl (fun u hu => ?_) h.holds
    have hou := h.ok u
    generalize roles u = ρ' at hu hou
    cases ρ' with
    | holding o' j =>
        cases hu
        have hmem : i ∈ w.queue o := hq ▸ List.mem_cons_self
        have hoo : o' = o := Option.some.inj (hou.1.symm.trans (h.queued o i hmem))
        exact hou.2 (hoo ▸ hmem)
    | _ => cases hu
  takes := fun u v j hu hv =>
    h.takes u v j (update_same (f := Role.takes) (Or.inr rfl) hu) (update_same (f := Role.takes) (Or.inr rfl) hv)
  count := fun o' => by
    have hadds := sum_update (Role.adds o') roles t (.holding o i)
    have hwins := sum_update (Role.wins o') roles t (.holding o i)
    have heq := h.count o'
    have hcount : ((setQueue w o queue).buddyOrders o').count = (w.buddyOrders o').count := by
      simp only [setQueue, setSlot, update_apply]
      split
      next ho => rw [ho]
      next => rfl
    rw [ht] at hadds hwins
    have hlive : liveHome (setQueue w o queue) home o' = liveHome w home o' := rfl
    have hzero : (Role.holding o i).adds o' = 0 ∧ (Role.holding o i).wins o' = 0 ∧ Role.none.adds o' = 0 ∧
      Role.none.wins o' = 0 := ⟨rfl, rfl, rfl, rfl⟩
    omega

omit [DecidableEq τ] in
theorem liveHome_push (h : Ledger w home regs roles) {i : Nat} (hi : home i = none) (hlt : i < w.created) (o' o : Nat) :
    liveHome (pushBack w o' i) (update home i (some o')) o = liveHome w home o + if o' = o then 1 else 0 := by
  have hmem (j : Nat) : j ∈ (Finset.range w.created).filter (fun j =>
      ((pushBack w o' i).entries j).state = .live ∧ update home i (some o') j = some o) ↔
      j = i ∧ o' = o ∨ j ∈ (Finset.range w.created).filter fun j => (w.entries j).state = .live ∧ home j = some o := by
    rw [Finset.mem_filter, Finset.mem_filter, update_apply, Finset.mem_range]
    change j < w.created ∧ (w.entries j).state = .live ∧ _ ↔ _
    by_cases hj : j = i
    · subst hj
      simp [hi, hlt, h.blank j hi]
    · simp [hj]
  change (Finset.filter _ (Finset.range w.created)).card = (Finset.filter _ (Finset.range w.created)).card + _
  split
  next ho =>
    rw [← Finset.card_insert_of_notMem (a := i)]
    · congr 1
      ext j
      rw [hmem, Finset.mem_insert]
      simp [ho]
    · rw [Finset.mem_filter, hi]
      simp
  next ho =>
    rw [Nat.add_zero]
    congr 1
    ext j
    rw [hmem]
    simp [ho]

theorem Ledger.push (h : Ledger w home regs roles) (hk : Kept w.created regs roles) {r : BuddyRegistration}
    (ht : roles t = .pushing r) :
    Ledger (pushBack w r.order r.entry) (update home r.entry (some r.order)) regs
      (update roles t (.adding { r with pendingEntry := false })) := by
  have hkeeps : (roles t).keeps = some r.entry := by rw [ht]; rfl
  obtain ⟨hlt, hregs⟩ := hk.held t r.entry hkeeps
  obtain ⟨hbound, hnone⟩ : r.order ≤ w.numOrders - 1 ∧ home r.entry = none := by
    have hot := h.ok t
    rwa [ht] at hot
  have hhome {j o : Nat} (hj : home j = some o) : update home r.entry (some r.order) j = some o := by
    rw [update_of_ne, hj]
    rintro rfl
    rw [hnone] at hj
    cases hj
  have hcases {j o : Nat} (hj : update home r.entry (some r.order) j = some o) :
      j = r.entry ∧ o = r.order ∨ home j = some o := by
    rw [update_apply] at hj
    split at hj
    next he => exact Or.inl ⟨he, (Option.some.inj hj).symm⟩
    next => exact Or.inr hj
  refine ⟨fun i r' hr' => ?_, fun i hi => ?_, fun i o hi => ?_, fun i hi => ?_, h.sender, h.sent, fun o => ?_,
    fun o i hi => ?_, fun i o hi ho => ?_, ?_, ?_, ?_, fun o => ?_⟩
  · obtain ⟨ho, hpend, hreg⟩ := h.fits i r' hr'
    have hne : r'.entry ≠ r.entry := by
      rw [hk.entry i r' hr']
      rintro rfl
      rw [hregs] at hr'
      cases hr'
    exact ⟨ho, fun hp => by rw [update_of_ne hne]; exact hpend hp, fun hp => by rw [update_of_ne hne]; exact hreg hp⟩
  · change w.created ≤ i at hi
    rw [update_of_ne (by omega)]
    exact h.fresh i hi
  · rcases hcases hi with ⟨-, rfl⟩ | hi
    · exact hbound
    · exact h.bounded i o hi
  · rw [update_apply] at hi
    split at hi
    · cases hi
    · exact h.blank i hi
  · rw [queue_pushBack]
    split
    · refine List.nodup_append.mpr ⟨h.nodup r.order, List.nodup_singleton _, fun a ha b hb hab => ?_⟩
      rw [List.mem_singleton] at hb
      have hq := h.queued r.order a ha
      rw [hab, hb, hnone] at hq
      cases hq
    · exact h.nodup o
  · rw [queue_pushBack] at hi
    split at hi
    next ho =>
      rcases List.mem_append.mp hi with hi | hi
      · exact hhome (ho ▸ h.queued r.order i hi)
      · rw [List.mem_singleton.mp hi, update_self, ho]
    next => exact hhome (h.queued o i hi)
  · rw [queue_pushBack]
    rcases hcases ho with ⟨rfl, rfl⟩ | ho
    · rw [if_pos rfl]
      exact Or.inl (List.mem_append_right _ List.mem_cons_self)
    · rcases h.placed i o hi ho with hm | ⟨u, hu⟩
      · left
        split
        next he => exact List.mem_append_left _ (he ▸ hm)
        next => exact hm
      · refine Or.inr ⟨u, ?_⟩
        rw [update_of_ne, hu]
        rintro rfl
        rw [ht] at hu
        cases hu
  · refine update_ok ⟨update_self _ _ _, rfl, ?_, h.blank r.entry hnone⟩ fun u hut =>
      (h.ok u).push hnone (fun hu => hut (hk.apart u t r.entry hu hkeeps)) r.order
    rw [queue_pushBack, if_pos rfl]
    exact List.mem_append_right _ List.mem_cons_self
  · exact fun u v j hu hv =>
      h.holds u v j (update_same (f := Role.holds) (Or.inr rfl) hu) (update_same (f := Role.holds) (Or.inr rfl) hv)
  · exact fun u v j hu hv =>
      h.takes u v j (update_same (f := Role.takes) (Or.inr rfl) hu) (update_same (f := Role.takes) (Or.inr rfl) hv)
  · have hadds := sum_update (Role.adds o) roles t (.adding { r with pendingEntry := false })
    have hwins := sum_update (Role.wins o) roles t (.adding { r with pendingEntry := false })
    have heq := h.count o
    have hcount : ((pushBack w r.order r.entry).buddyOrders o).count = (w.buddyOrders o).count := by
      simp only [pushBack, setSlot, update_apply]
      split
      next ho => rw [ho]
      next => rfl
    rw [ht] at hadds hwins
    have hone : (Role.adding { r with pendingEntry := false }).adds o = if r.order = o then 1 else 0 := rfl
    have hzero : (Role.adding { r with pendingEntry := false }).wins o = 0 ∧ (Role.pushing r).adds o = 0 ∧
      (Role.pushing r).wins o = 0 := ⟨rfl, rfl, rfl⟩
    rw [hcount, liveHome_push h hnone hlt]
    omega

omit [DecidableEq τ] in
theorem Ledger.recast (h : Ledger w home regs roles) (hw : SameEntries w w')
    (hcount : ∀ o, (w'.buddyOrders o).count = (w.buddyOrders o).count)
    (hregs : ∀ i r, regs' i = some r → Fits w home r) : Ledger w' home regs' roles := by
  apply h.carry hw hregs h.ok (fun _ _ _ _ hu => hu) h.holds h.takes
  intro o
  rw [hcount]
  exact h.count o

omit [DecidableEq τ] in
theorem Ledger.register (h : Ledger w home regs roles) (order now : Nat) :
    Ledger (w.buddyRegister order now).1 home (update regs w.created (some (w.buddyRegister order now).2)) roles := by
  have hnone := h.fresh w.created le_rfl
  have hent (j : Nat) :
      (w.buddyRegister order now).1.entries j = if j = w.created then { timestamp := now } else w.entries j :=
    update_apply _ _ _ _
  have hlive : ∀ o, liveHome (w.buddyRegister order now).1 home o = liveHome w home o := by
    intro o
    change (Finset.filter _ (Finset.range (w.created + 1))).card = (Finset.filter _ (Finset.range w.created)).card
    congr 1
    ext j
    rw [Finset.mem_filter, Finset.mem_filter, Finset.mem_range, Finset.mem_range, hent]
    by_cases hj : j = w.created
    · simp [hj, hnone]
    · rw [if_neg hj]
      exact and_congr_left fun _ => by omega
  have hfresh : ∀ i, w.created + 1 ≤ i → home i = none := fun i hi => h.fresh i (by omega)
  refine ⟨fun i r hr => ?_, hfresh, h.bounded, fun i hi => ?_, fun i hi => ?_, fun i f hi => ?_, h.nodup, h.queued,
    fun i o hi ho => ?_, fun u => ?_, h.holds, h.takes, fun o => ?_⟩
  · rw [update_apply] at hr
    split at hr
    · cases hr
      exact ⟨min_le_right _ _, fun _ => hnone, fun hreg => by cases hreg⟩
    · exact h.fits i r hr
  · rw [hent]
    split
    · rfl
    · exact h.blank i hi
  · rw [hent] at hi ⊢
    split
    · rfl
    next hne =>
      rw [if_neg hne] at hi
      exact h.sender i hi
  · rw [hent] at hi ⊢
    split at hi
    · cases hi
    next hne =>
      rw [if_neg hne]
      exact h.sent i f hi
  · rw [hent, if_neg] at hi
    · exact h.placed i o hi ho
    · rintro rfl
      rw [hnone] at ho
      cases ho
  · refine (h.ok u).congr rfl (fun _ => rfl) fun i hi => ?_
    rw [hent, if_neg]
    · exact ⟨rfl, rfl⟩
    · rintro rfl
      exact hi hnone
  · rw [hlive]
    exact h.count o

theorem setChannel_entries (w : NotifyWaiters) (i j : Nat) (c : Channel) :
    ((setChannel w i c).entries j).state = (w.entries j).state ∧ ((setChannel w i c).entries j).tx = (w.entries j).tx ∧
    ((setChannel w i c).entries j).channel = if j = i then c else (w.entries j).channel := by
  simp only [setChannel, setEntry, update_apply]
  split
  next h => rw [h]; exact ⟨rfl, rfl, rfl⟩
  next => exact ⟨rfl, rfl, rfl⟩

theorem Ledger.send (h : Ledger w home regs roles) {o i : Nat} (ht : roles t = .sending o i) (f : Nat) :
    Ledger (setChannel w i (.sent f)) home regs (update roles t .none) := by
  have hwoken : (w.entries i).state = .woken := by
    have hot := h.ok t
    rw [ht] at hot
    exact hot.2
  have hent := fun j => setChannel_entries w i j (.sent f)
  have hsame : SameEntries w w := .refl w
  have hidle := h.shift (t := t) (ρ := .none) hsame h.fits trivial (Or.inr rfl)
    (fun o i he => by rw [ht] at he; cases he) (Or.inr rfl) (fun o => by rw [ht]; rfl)
  refine ⟨hidle.fits, hidle.fresh, hidle.bounded, fun j hj => ?_, fun j hj => ?_, fun j g hj => ?_, hidle.nodup,
    hidle.queued, fun j o hj ho => ?_, fun u => ?_, hidle.holds, hidle.takes, fun o => ?_⟩
  · rw [(hent j).1]
    exact h.blank j hj
  · rw [(hent j).1] at hj
    rw [(hent j).2.1]
    exact h.sender j hj
  · rw [(hent j).2.2] at hj
    rw [(hent j).1]
    split at hj
    next he => rw [he, hwoken]
    next => exact h.sent j g hj
  · rw [(hent j).1] at hj
    exact hidle.placed j o hj ho
  · exact (hidle.ok u).congr rfl (fun _ => rfl) fun j _ => ⟨(hent j).1, (hent j).2.1⟩
  · have hlive : liveHome (setChannel w i (.sent f)) home o = liveHome w home o := by
      refine liveHome_congr ?_ ?_ o
      · rfl
      · exact fun j => (hent j).1
    rw [hlive]
    exact hidle.count o

end ArenaAlligator.WaiterThreads
