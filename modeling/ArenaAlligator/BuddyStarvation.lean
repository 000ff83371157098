import ArenaAlligator.AsyncBuddy
import ArenaAlligator.BuddyLevels

namespace ArenaAlligator.AsyncBuddy

open Function AlignedBlocks BuddyArenaInner Runs

variable {τ : Type} [DecidableEq τ]

def State.owes (s : State τ) (t : τ) : Bool :=
  match s.phase t with
  | .starting _ owed => owed
  | .trying _ r owed => owed || s.waiters.isWoken r.entry
  | .awaiting _ r => s.waiters.isWoken r.entry
  | .dropping _ _ => true
  | .idle | .revoking _ | .leaving _ => false

def Phase.unrevoked : Phase → Option BuddyRegistration
  | revoking r => some r
  | _ => none

/-- A wake with this freed order leaves no waiter behind that it should have
reached: below the freed order there is at most one live entry per order, the
streak ban and the pop bound do not cut the wake short, and no live entry
belongs to a task that is already served. -/
structure Suffices (s : State τ) (f : Nat) : Prop where
  single : ∀ o < f, (s.waiters.queue o).countP s.waiters.isLive ≤ 1
  notBanned : s.waiters.NotBanned f
  withinBound : s.waiters.WithinBound f
  unserved : ∀ t, ∀ r ∈ (s.phase t).unrevoked, s.waiters.isLive r.entry = true → f < r.order

/-- Lengths do not make next_power_of_two wrap, the clock is below its
sentinel, a woken task is cancelled only when nobody waits at its order, and
every release is enough for the waiters it could serve. -/
def Unhurt (s : State τ) : Action τ → Prop
  | .call _ len => len ≤ 2 ^ 63
  | .prepare _ now => now ≠ noWaitersTimestamp
  | .cancel t => ∀ r ∈ (s.phase t).registration, s.waiters.isWoken r.entry = true → s.waiters.hasLive r.order = false
  | .release b => Suffices s (settle s.arena.freeBit (s.arena.maxOrder - b.order) b).order
  | _ => True

instance (s : State τ) (f : Nat) [Fintype τ] : Decidable (Suffices s f) :=
  decidable_of_iff ((∀ o < f, (s.waiters.queue o).countP s.waiters.isLive ≤ 1) ∧
      s.waiters.NotBanned f ∧ s.waiters.WithinBound f ∧
      ∀ t, ∀ r ∈ (s.phase t).unrevoked, s.waiters.isLive r.entry = true → f < r.order)
    ⟨fun ⟨h₁, h₂, h₃, h₄⟩ => ⟨h₁, h₂, h₃, h₄⟩, fun ⟨h₁, h₂, h₃, h₄⟩ => ⟨h₁, h₂, h₃, h₄⟩⟩

instance (s : State τ) [Fintype τ] : (a : Action τ) → Decidable (Unhurt s a)
  | .call _ len => inferInstanceAs (Decidable (len ≤ 2 ^ 63))
  | .prepare _ now => inferInstanceAs (Decidable (now ≠ noWaitersTimestamp))
  | .cancel t => inferInstanceAs (Decidable (∀ r ∈ (s.phase t).registration,
      s.waiters.isWoken r.entry = true → s.waiters.hasLive r.order = false))
  | .release b => inferInstanceAs (Decidable (Suffices s (settle s.arena.freeBit (s.arena.maxOrder - b.order) b).order))
  | .tryAllocate _ | .revoke _ | .poll _ | .drop _ | .allocate _ => isTrue trivial

/-- A task before its retry, whose registration is live and older than the
given one: the next wake of the order goes to it. -/
def State.ahead (s : State τ) (r : BuddyRegistration) (u : τ) : Bool :=
  match s.phase u with
  | .trying _ r' _ => s.waiters.isLive r'.entry && decide (r'.entry < r.entry)
  | _ => false

/-- The task owes a retry at the order of the registration, and that retry is
not the one the next wake of the order is for. -/
def State.helps (s : State τ) (r : BuddyRegistration) (u : τ) : Bool :=
  s.owes u && decide ((s.phase u).request.map Request.order = some r.order) && !s.ahead r u

def State.helpers [Fintype τ] (s : State τ) (r : BuddyRegistration) : Finset τ :=
  Finset.univ.filter fun u => s.helps r u = true

/-- Free memory for a parked task is no larger than its order and matched by
tasks that owe a retry at that order. -/
structure Enough [Fintype τ] (s : State τ) (r : BuddyRegistration) : Prop where
  below : ∀ c : Block, s.arena.freeBit c = true → c.order ≤ r.order
  matched : s.arena.freeAt r.order ≤ (s.helpers r).card

structure Fed [Fintype τ] (g : BuddyGeometry) (s : State τ) : Prop where
  consistent : Consistent g s
  stamped : s.waiters.Stamped
  headed : s.waiters.Headed
  within : ∀ t q, (s.phase t).request = some q → q.order ≤ g.maxOrder
  gone : ∀ t r, s.phase t = .leaving r ∨ (∃ q, s.phase t = .dropping q r) → s.waiters.isLive r.entry = false
  enough : ∀ t q r, s.phase t = .awaiting q r → s.waiters.isLive r.entry = true → Enough s r

variable {g : BuddyGeometry} {s : State τ}

theorem isLive_congr {w w' : NotifyWaiters} {i : Nat} (h : w'.entries i = w.entries i) :
    w'.isLive i = w.isLive i ∧ w'.isWoken i = w.isWoken i := by
  rw [NotifyWaiters.isLive, NotifyWaiters.isWoken, h]
  exact ⟨rfl, rfl⟩

omit [DecidableEq τ] in
theorem helps_congr (s s' : State τ) {v : τ} (hp : s'.phase v = s.phase v)
    (he : ∀ r, (s.phase v).registration = some r → s'.waiters.entries r.entry = s.waiters.entries r.entry)
    (r : BuddyRegistration) : s'.helps r v = s.helps r v := by
  rw [State.helps, State.helps, State.owes, State.owes, State.ahead, State.ahead, hp]
  cases hv : s.phase v with
  | trying q r' owed =>
      obtain ⟨hl, hw⟩ := isLive_congr (he r' (by rw [hv]; rfl))
      simp only [hl, hw]
  | awaiting q r' =>
      obtain ⟨hl, hw⟩ := isLive_congr (he r' (by rw [hv]; rfl))
      simp only [hw]
  | _ => rfl

omit [DecidableEq τ] in
theorem helps_order {t : τ} {q : Request} {r : BuddyRegistration} (hq : (s.phase t).request = some q)
    (h : s.helps r t = true) : q.order = r.order := by
  rw [State.helps, Bool.and_eq_true, Bool.and_eq_true, decide_eq_true_eq, hq] at h
  exact Option.some.inj h.1.2

variable [Fintype τ]

theorem Fed.enough_of_move (h : Fed g s) {t : τ} {p : Phase} {w : NotifyWaiters}
    (he : ∀ u r, u ≠ t → (s.phase u).registration = some r → w.entries r.entry = s.waiters.entries r.entry)
    (hp : ∀ q r, p ≠ .awaiting q r)
    (hh : ∀ u q r, s.phase u = .awaiting q r → s.waiters.isLive r.entry = true → s.helps r t = true →
      ({ s with waiters := w }.setPhase t p).helps r t = true)
    (u : τ) (q : Request) (r : BuddyRegistration) (hu : ({ s with waiters := w }.setPhase t p).phase u = .awaiting q r)
    (hl : w.isLive r.entry = true) : Enough ({ s with waiters := w }.setPhase t p) r := by
  have hut : u ≠ t := by
    rintro rfl
    rw [setPhase_self] at hu
    exact hp q r hu
  have hu' : s.phase u = .awaiting q r := by rwa [setPhase_of_ne _ hut] at hu
  have hl' : s.waiters.isLive r.entry = true := by
    rw [← (isLive_congr (he u r hut (by rw [hu']; rfl))).1]
    exact hl
  have hold := h.enough u q r hu' hl'
  refine ⟨hold.below, hold.matched.trans (Finset.card_le_card fun v hv => ?_)⟩
  rw [State.helpers, Finset.mem_filter] at hv ⊢
  refine ⟨Finset.mem_univ v, ?_⟩
  by_cases hvt : v = t
  · subst hvt
    exact hh u q r hu' hl' hv.2
  · rw [helps_congr s _ (setPhase_of_ne { s with waiters := w } hvt p) (fun r' hr' => he v r' hvt hr')]
    exact hv.2

/-- The parts of the invariant that follow from those of the state before,
when the step of a task leaves the arena alone. -/
theorem Fed.move (h : Fed g s) {t : τ} {p : Phase} {w : NotifyWaiters}
    (hc : Consistent g ({ s with waiters := w }.setPhase t p)) (hstamp : w.Stamped) (hhead : w.Headed)
    (he : ∀ u r, u ≠ t → (s.phase u).registration = some r → w.entries r.entry = s.waiters.entries r.entry)
    (hq : ∀ q, p.request = some q → q.order ≤ g.maxOrder)
    (hgone : ∀ r, p = .leaving r ∨ (∃ q, p = .dropping q r) → w.isLive r.entry = false)
    (hp : ∀ q r, p ≠ .awaiting q r)
    (hh : ∀ u q r, s.phase u = .awaiting q r → s.waiters.isLive r.entry = true → s.helps r t = true →
      ({ s with waiters := w }.setPhase t p).helps r t = true) : Fed g ({ s with waiters := w }.setPhase t p) := by
  refine ⟨hc, hstamp, hhead, fun u q hu => ?_, fun u r hu => ?_, h.enough_of_move he hp hh⟩
  · by_cases hut : u = t
    · subst hut
      rw [setPhase_self] at hu
      exact hq q hu
    · rw [setPhase_of_ne _ hut] at hu
      exact h.within u q hu
  · by_cases hut : u = t
    · subst hut
      rw [setPhase_self] at hu
      exact hgone r hu
    · rw [setPhase_of_ne _ hut] at hu
      change w.isLive r.entry = false
      have hr : (s.phase u).registration = some r := by
        rcases hu with hu | ⟨q, hu⟩
        · exact congrArg Phase.registration hu
        · exact congrArg Phase.registration hu
      rw [(isLive_congr (he u r hut hr)).1]
      exact h.gone u r hu

omit [DecidableEq τ] in
theorem Fed.entries_of_closes (h : Fed g s) {t : τ} {r : BuddyRegistration} {w : NotifyWaiters}
    (hr : (s.phase t).registration = some r) (hw : NotifyWaiters.Closes r.entry s.waiters w) (u : τ)
    (r' : BuddyRegistration) (hut : u ≠ t) (hr' : (s.phase u).registration = some r') :
    w.entries r'.entry = s.waiters.entries r'.entry :=
  hw.entries _ fun he => hut (h.consistent.linked.distinct u t r' r hr' hr he)

theorem drop_headed {w : NotifyWaiters} (hs : w.Stamped) (hh : w.Headed) (r : BuddyRegistration) :
    (w.drop r).Stamped ∧ (w.drop r).Headed := by
  have hrev : (if r.registered then w.revokeEntry r else w).Stamped ∧
      (if r.registered then w.revokeEntry r else w).Headed := by
    split
    · exact NotifyWaiters.revokeEntry_headed hs hh r
    · exact ⟨hs, hh⟩
  simp only [NotifyWaiters.drop]
  split
  · exact ⟨NotifyWaiters.dropRx_stamped hrev.1 r.entry, NotifyWaiters.dropRx_headed hrev.2 r.entry⟩
  · exact hrev

theorem Fed.call (h : Fed g s) {t : τ} {len order : Nat} (hp : s.phase t = .idle) (hlen : len ≤ 2 ^ 63)
    (ho : s.arena.orderForRequest len = some order)
    (hc : Consistent g (s.setPhase t (.starting ⟨len, order⟩ false))) :
    Fed g (s.setPhase t (.starting ⟨len, order⟩ false)) := by
  refine h.move (w := s.waiters) hc h.stamped h.headed (fun _ _ _ _ => rfl) ?_ ?_ ?_ ?_
  · rintro q ⟨⟩
    rw [← h.consistent.balanced.geometry]
    exact orderForRequest_le s.arena hlen ho
  · rintro r (he | ⟨q, he⟩) <;> cases he
  · intro q r he
    cases he
  · intro u q r hu hl hh
    simp [State.helps, State.owes, hp] at hh

theorem Fed.prepare (h : Fed g s) {t : τ} {now : Nat} {q : Request} {owed : Bool} (hp : s.phase t = .starting q owed)
    (hn : now ≠ noWaitersTimestamp)
    (hc : Consistent g ({ s with waiters := (s.waiters.enroll q.order now).1 }.setPhase t
      (.trying q (s.waiters.enroll q.order now).2 owed))) :
    Fed g ({ s with waiters := (s.waiters.enroll q.order now).1 }.setPhase t
      (.trying q (s.waiters.enroll q.order now).2 owed)) := by
  have hstamp := NotifyWaiters.enroll_stamped h.stamped q.order hn
  have hhead := NotifyWaiters.enroll_headed h.consistent.linked.filed.counted h.headed q.order hn
  refine h.move hc hstamp hhead (fun u r hu hr => ?_) ?_ ?_ ?_ ?_
  · exact update_of_ne (h.consistent.linked.created u r hr).ne _ _
  · rintro q' ⟨⟩
    exact h.within t q (by rw [hp]; rfl)
  · rintro r (he | ⟨q, he⟩) <;> cases he
  · intro q' r he
    cases he
  · intro u q' r hu hl hh
    have hlt : r.entry < s.waiters.created := h.consistent.linked.created u r (by rw [hu]; rfl)
    have howed : owed = true ∧ q.order = r.order := by
      simpa [State.helps, State.owes, State.ahead, hp, Phase.request] using hh
    have hnot : ¬(s.waiters.created < r.entry) := by omega
    simp [State.helps, State.owes, State.ahead, Phase.request, howed, NotifyWaiters.enroll_snd, hnot]

theorem Fed.close (h : Fed g s) {t : τ} {r : BuddyRegistration} {w : NotifyWaiters} {p : Phase}
    (hc : Consistent g ({ s with waiters := w }.setPhase t p)) (hr : (s.phase t).registration = some r)
    (hw : NotifyWaiters.Closes r.entry s.waiters w) (hhead : w.Stamped ∧ w.Headed)
    (hq : p.request = none ∨ p.request = (s.phase t).request)
    (hreg : ∀ r', p.registration = some r' → r'.entry = r.entry) (hp : ∀ q r, p ≠ .awaiting q r)
    (hh : ∀ u q r, s.phase u = .awaiting q r → s.waiters.isLive r.entry = true → s.helps r t = true →
      ({ s with waiters := w }.setPhase t p).helps r t = true) : Fed g ({ s with waiters := w }.setPhase t p) := by
  refine h.move hc hhead.1 hhead.2 (h.entries_of_closes hr hw) (fun q he => ?_) (fun r' he => ?_) hp hh
  · rcases hq with hq | hq
    · rw [hq] at he
      cases he
    · exact h.within t q (hq ▸ he)
  · have hr' : p.registration = some r' := by
      rcases he with rfl | ⟨q, rfl⟩
      · rfl
      · rfl
    rw [hreg r' hr', hw.isLive]
    simp

omit [DecidableEq τ] in
theorem Fed.hasLive (h : Fed g s) {u : τ} {q : Request} {r : BuddyRegistration} (hu : s.phase u = .awaiting q r)
    (hl : s.waiters.isLive r.entry = true) : s.waiters.hasLive r.order = true :=
  NotifyWaiters.hasLive_iff.mpr ⟨r.entry, (h.consistent.registered (by rw [hu]; rfl) hl).2, hl⟩

omit [DecidableEq τ] in
theorem Fed.order_eq (h : Fed g s) {t : τ} {q : Request} {r : BuddyRegistration}
    (hq : (s.phase t).request = some q) (hr : (s.phase t).registration = some r) : r.order = q.order := by
  rw [(h.consistent.fits t).order q r hq hr, maxOrder, h.consistent.balanced.geometry]
  exact min_eq_left (h.within t q hq)

theorem Fed.revoke (h : Fed g s) {t : τ} {r : BuddyRegistration} (hp : s.phase t = .revoking r)
    (hc : Consistent g ({ s with waiters := (s.waiters.revoke r).1 }.setPhase t (.leaving (s.waiters.revoke r).2))) :
    Fed g ({ s with waiters := (s.waiters.revoke r).1 }.setPhase t (.leaving (s.waiters.revoke r).2)) := by
  have hr : (s.phase t).registration = some r := by rw [hp]; rfl
  have hw := NotifyWaiters.revoke_closes h.consistent.linked.filed (h.consistent.registered hr)
  refine h.close hc hr hw ?_ (Or.inl rfl) ?_ (fun q r he => by cases he) fun u q r' hu hl hh => ?_
  · rw [NotifyWaiters.revoke]
    split
    · exact NotifyWaiters.revokeEntry_headed h.stamped h.headed r
    · exact ⟨h.stamped, h.headed⟩
  · rintro r' ⟨⟩
    rw [NotifyWaiters.revoke]
    split <;> rfl
  · simp [State.helps, State.owes, hp] at hh

theorem Fed.ready (h : Fed g s) {t : τ} {q : Request} {r : BuddyRegistration} (hp : s.phase t = .awaiting q r)
    (hready : (s.waiters.poll r).1 = true)
    (hc : Consistent g ({ s with waiters := (s.waiters.poll r).2.1 }.setPhase t (.dropping q (s.waiters.poll r).2.2))) :
    Fed g ({ s with waiters := (s.waiters.poll r).2.1 }.setPhase t (.dropping q (s.waiters.poll r).2.2)) := by
  have hr : (s.phase t).registration = some r := by rw [hp]; rfl
  have hw := NotifyWaiters.poll_closes h.consistent.linked.filed hready
    (fun hl => (h.consistent.linked.queued t r hr hl).2.1) (h.consistent.linked.silent r.entry)
  refine h.close hc hr hw ?_ (Or.inr (by rw [hp]; rfl)) ?_ (fun q r he => by cases he) fun u q' r' hu hl hh => ?_
  · rw [NotifyWaiters.poll]
    split
    · split
      · exact ⟨h.stamped, h.headed⟩
      · exact ⟨NotifyWaiters.dropRx_stamped h.stamped r.entry, NotifyWaiters.dropRx_headed h.headed r.entry⟩
    · exact ⟨h.stamped, h.headed⟩
  · rintro r' ⟨⟩
    rw [NotifyWaiters.poll]
    split
    · split <;> rfl
    · rfl
  · have horder := helps_order (by rw [hp]; rfl) hh
    simp [State.helps, State.owes, State.ahead, Phase.request, horder]

theorem Fed.drop (h : Fed g s) {t : τ} {r : BuddyRegistration} (hr : (s.phase t).registration = some r) {p : Phase}
    (hc : Consistent g ({ s with waiters := s.waiters.drop r }.setPhase t p))
    (hq : p.request = none ∨ p.request = (s.phase t).request) (hreg : p.registration = none)
    (hh : ∀ u q r', s.phase u = .awaiting q r' → s.waiters.isLive r'.entry = true → s.helps r' t = true →
      ({ s with waiters := s.waiters.drop r }.setPhase t p).helps r' t = true) :
    Fed g ({ s with waiters := s.waiters.drop r }.setPhase t p) := by
  have hw := NotifyWaiters.drop_closes h.consistent.linked.filed (h.consistent.registered hr)
  refine h.close hc hr hw (drop_headed h.stamped h.headed r) hq ?_ ?_ hh
  · intro r' he
    rw [hreg] at he
    cases he
  · rintro q r rfl
    cases hreg

theorem Fed.cancel (h : Fed g s) {t : τ} {q : Request} {r : BuddyRegistration} (hp : s.phase t = .awaiting q r)
    (hok : Unhurt s (.cancel t)) (hc : Consistent g ({ s with waiters := s.waiters.drop r }.setPhase t .idle)) :
    Fed g ({ s with waiters := s.waiters.drop r }.setPhase t .idle) := by
  have hr : (s.phase t).registration = some r := by rw [hp]; rfl
  refine h.drop hr hc (Or.inl rfl) rfl fun u q' r' hu hl hh => ?_
  have hand : s.waiters.isWoken r.entry = true ∧ q.order = r'.order := by
    simpa [State.helps, State.owes, State.ahead, hp, Phase.request] using hh
  have hnone := hok r hr hand.1
  rw [h.order_eq (by rw [hp]; rfl) hr, hand.2, h.hasLive hu hl] at hnone
  cases hnone

omit [DecidableEq τ] in
theorem Enough.allocate_below (h : Consistent g s) {r : BuddyRegistration} (hr : Enough s r) (len : Nat) :
    (∀ c : Block, (s.arena.allocate len).2.freeBit c = true → c.order ≤ r.order) ∧
    (s.arena.allocate len).2.freeAt r.order ≤ s.arena.freeAt r.order := by
  have hs := h.balanced.sound
  have hs' : (s.arena.allocate len).2.Sound := by
    rcases allocate_cases h.balanced len with ⟨_, _, -, -, -, hb⟩ | ⟨_, -, -, -, hb⟩ <;> exact hb.sound
  exact ⟨fun c hc => (allocate_shrinks hs len hr.below hc).1,
    freeAt_le hs hs' fun c hc hf => (allocate_shrinks hs len hr.below hf).2 hc⟩

omit [DecidableEq τ] in
theorem Fed.allocate (h : Fed g s) (len : Nat) : Fed g (s.allocate len).2 := by
  have hc := h.consistent.allocate len
  obtain ⟨live, hs⟩ := allocate_frame s len
  rw [hs] at hc ⊢
  refine ⟨hc, h.stamped, h.headed, h.within, h.gone, fun t q r ht hl => ?_⟩
  have hr := h.enough t q r ht hl
  obtain ⟨hbelow, hle⟩ := hr.allocate_below h.consistent len
  exact ⟨hbelow, hle.trans hr.matched⟩

theorem Fed.tried (h : Fed g s) {t : τ} {q : Request} {r : BuddyRegistration} {owed : Bool}
    (hp : s.phase t = .trying q r owed) {p : Phase} (hc : Consistent g ((s.allocate q.len).2.setPhase t p))
    (hreg : p = .revoking r ∨ p = .awaiting q r)
    (henough : ∀ u q' r', u ≠ t → s.phase u = .awaiting q' r' → s.waiters.isLive r'.entry = true →
      s.helps r' t = true → (s.arena.allocate q.len).2.freeAt r'.order < (s.helpers r').card)
    (hself : ∀ q' r', p = .awaiting q' r' → s.waiters.isLive r'.entry = true →
      Enough ((s.allocate q.len).2.setPhase t p) r') :
    Fed g ((s.allocate q.len).2.setPhase t p) := by
  obtain ⟨live, hs⟩ := allocate_frame s q.len
  rw [hs] at hc hself ⊢
  refine ⟨hc, h.stamped, h.headed, fun u q' hu => ?_, fun u r' hu => ?_, fun u q' r' hu hl => ?_⟩
  · by_cases hut : u = t
    · subst hut
      rw [setPhase_self] at hu
      rcases hreg with rfl | rfl
      · cases hu
      · exact h.within u q' (by rw [hp]; exact hu)
    · rw [setPhase_of_ne _ hut] at hu
      exact h.within u q' hu
  · by_cases hut : u = t
    · subst hut
      rw [setPhase_self] at hu
      rcases hreg with rfl | rfl <;> rcases hu with hu | ⟨_, hu⟩ <;> cases hu
    · rw [setPhase_of_ne _ hut] at hu
      exact h.gone u r' hu
  · by_cases hut : u = t
    · subst hut
      rw [setPhase_self] at hu
      exact hself q' r' hu hl
    · rw [setPhase_of_ne _ hut] at hu
      have hr := h.enough u q' r' hu hl
      obtain ⟨hbelow, hle⟩ := hr.allocate_below h.consistent q.len
      refine ⟨hbelow, ?_⟩
      have hsub : (s.helpers r').erase t ⊆
          (State.setPhase { s with arena := (s.arena.allocate q.len).2, live := live } t p).helpers r' := by
        intro v hv
        rw [Finset.mem_erase, State.helpers, Finset.mem_filter] at hv
        rw [State.helpers, Finset.mem_filter]
        refine ⟨Finset.mem_univ v, ?_⟩
        exact (helps_congr s _ (setPhase_of_ne { s with arena := (s.arena.allocate q.len).2, live := live } hv.1 p)
          (fun _ _ => rfl) r').trans hv.2.2
      have hcard := Finset.card_le_card hsub
      by_cases hh : s.helps r' t = true
      · have hlt := henough u q' r' hut hu hl hh
        rw [Finset.card_erase_of_mem (by rw [State.helpers, Finset.mem_filter]; exact ⟨Finset.mem_univ t, hh⟩)] at hcard
        change (s.arena.allocate q.len).2.freeAt r'.order ≤ _
        omega
      · rw [Finset.erase_eq_of_notMem (by rw [State.helpers, Finset.mem_filter]; exact fun hm => hh hm.2)] at hcard
        exact (hle.trans hr.matched).trans hcard

theorem Fed.succeed (h : Fed g s) {t : τ} {q : Request} {r : BuddyRegistration} {owed : Bool} {b : Block}
    (hp : s.phase t = .trying q r owed) (hb : (s.allocate q.len).1 = some b)
    (hc : Consistent g ((s.allocate q.len).2.setPhase t (.revoking r))) :
    Fed g ((s.allocate q.len).2.setPhase t (.revoking r)) := by
  have hs := h.consistent.balanced.sound
  have ht : s.arena.orderForRequest q.len = some q.order := (h.consistent.fits t).asked q (by rw [hp]; rfl)
  refine h.tried hp hc (Or.inl rfl) (fun u q' r' hut hu hl hh => ?_) (fun q' r' he => by cases he)
  have hr := h.enough u q' r' hu hl
  have horder := helps_order (by rw [hp]; rfl) hh
  rcases allocate_cases h.consistent.balanced q.len with ⟨buf, _, hbuf, -, -, hbal⟩ | ⟨_, -, hnone, -, -⟩
  · -- The block taken is of the task's own order, since no free one is larger.
    obtain ⟨x, hx, hfree, htaken⟩ := allocate_takes ht hbuf
    have hxo : x.order = r'.order := le_antisymm (hr.below x hfree) (horder ▸ hx)
    have hgone : (s.arena.allocate q.len).2.freeBit x = false := by rw [htaken x le_rfl, update_self]
    have hless : ∀ c : Block, c.order = r'.order → (s.arena.allocate q.len).2.freeBit c = true →
        s.arena.freeBit c = true := fun c hco hcf => (allocate_shrinks hs q.len hr.below hcf).2 hco
    exact (freeAt_lt hs hbal.sound hless hxo hfree hgone).trans_le hr.matched
  · rw [hnone] at hb
    cases hb

theorem Fed.fail (h : Fed g s) {t : τ} {q : Request} {r : BuddyRegistration} {owed : Bool}
    (hp : s.phase t = .trying q r owed) (hb : (s.allocate q.len).1 = none)
    (hc : Consistent g ((s.allocate q.len).2.setPhase t (.awaiting q r))) :
    Fed g ((s.allocate q.len).2.setPhase t (.awaiting q r)) := by
  have hs := h.consistent.balanced.sound
  have ht : s.arena.orderForRequest q.len = some q.order := (h.consistent.fits t).asked q (by rw [hp]; rfl)
  rcases allocate_cases h.consistent.balanced q.len with ⟨_, _, -, hsome, -, -⟩ | ⟨e, herr, -, -, hbal⟩
  · rw [hsome] at hb
    cases hb
  obtain ⟨hsame, hnone⟩ := allocate_refuses hs ht herr
  rw [← hsame] at hnone
  have hzero : (s.arena.allocate q.len).2.freeAt q.order = 0 :=
    freeAt_eq_zero hbal.sound fun c hco => hnone c (le_of_eq hco.symm)
  refine h.tried hp hc (Or.inr rfl) (fun u q' r' hut hu hl hh => ?_) fun q' r' he hl => ?_
  · rw [← helps_order (by rw [hp]; rfl) hh, hzero, Finset.card_pos]
    exact ⟨t, by rw [State.helpers, Finset.mem_filter]; exact ⟨Finset.mem_univ t, hh⟩⟩
  · cases he
    have hro : r.order = q.order := h.order_eq (by rw [hp]; rfl) (by rw [hp]; rfl)
    obtain ⟨live, hframe⟩ := allocate_frame s q.len
    rw [hframe]
    refine ⟨fun c hcf => ?_, ?_⟩
    · by_contra hgt
      have hoff := hnone c (by omega)
      rw [show (s.arena.allocate q.len).2.freeBit c = true from hcf] at hoff
      cases hoff
    · change (s.arena.allocate q.len).2.freeAt r.order ≤ _
      rw [hro, hzero]
      exact Nat.zero_le _

theorem find?_of_countP_le_one {l : List Nat} {p : Nat → Bool} (hl : l.countP p ≤ 1) {x : Nat} (hx : x ∈ l)
    (hp : p x = true) : l.find? p = some x := by
  obtain ⟨i, hi⟩ := Option.isSome_iff_exists.mp (List.find?_isSome.mpr ⟨x, hx, hp⟩)
  obtain ⟨hpi, as, bs, rfl, has⟩ := List.find?_eq_some_iff_append.mp hi
  rw [hi]
  rcases List.mem_append.mp hx with hxa | hxb
  · exact absurd (has x hxa) (by simp [hp])
  · rcases List.mem_cons.mp hxb with rfl | hxb
    · rfl
    · have hpos := List.countP_pos_iff.mpr ⟨x, hxb, hp⟩
      rw [List.countP_append, List.countP_cons_of_pos hpi] at hl
      omega

theorem find?_le {l : List Nat} (hl : l.Pairwise (· < ·)) {p : Nat → Bool} {i x : Nat} (hi : l.find? p = some i)
    (hx : x ∈ l) (hp : p x = true) : i ≤ x := by
  obtain ⟨-, as, bs, rfl, has⟩ := List.find?_eq_some_iff_append.mp hi
  rw [List.pairwise_append, List.pairwise_cons] at hl
  rcases List.mem_append.mp hx with hxa | hxb
  · exact absurd (has x hxa) (by simp [hp])
  · rcases List.mem_cons.mp hxb with rfl | hxb
    · exact le_rfl
    · exact (hl.2.1.1 x hxb).le

section Wake

variable {s' : State τ} {f : Nat}

omit [DecidableEq τ] [Fintype τ] in
theorem helps_wake (s s' : State τ) (hp : s'.phase = s.phase) (hw : NotifyWaiters.Wakes f s.waiters s'.waiters)
    {r : BuddyRegistration} {v : τ} (hv : s.helps r v = true) : s'.helps r v = true := by
  have hwoken {i : Nat} (hi : s.waiters.isWoken i = true) : s'.waiters.isWoken i = true := by
    rcases hw.entries i with he | ⟨hl, -, -⟩
    · rw [(isLive_congr he).2]
      exact hi
    · simp only [NotifyWaiters.isLive, NotifyWaiters.isWoken, decide_eq_true_eq] at hl hi
      rw [hl] at hi
      cases hi
  simp only [State.helps, State.owes, State.ahead, hp, Bool.and_eq_true, Bool.not_eq_true'] at hv ⊢
  obtain ⟨⟨howes, horder⟩, hahead⟩ := hv
  refine ⟨⟨?_, horder⟩, ?_⟩
  · cases hph : s.phase v with
    | trying q r' owed =>
        rw [hph] at howes
        exact Bool.or_eq_true_iff.mpr ((Bool.or_eq_true_iff.mp howes).imp_right hwoken)
    | awaiting q r' =>
        rw [hph] at howes
        exact hwoken howes
    | dropping q r' => rfl
    | _ =>
        rw [hph] at howes
        exact howes
  · cases hph : s.phase v with
    | trying q r' owed =>
        simp only [hph] at hahead ⊢
        cases hl : s'.waiters.isLive r'.entry with
        | false => rfl
        | true =>
            rw [hw.isLive hl] at hahead
            exact hahead
    | _ => rfl

omit [DecidableEq τ] in
theorem Fed.woken_helps (h : Fed g s) (hp : s'.phase = s.phase) (hw : NotifyWaiters.Wakes f s.waiters s'.waiters)
    {v : τ} {rv r : BuddyRegistration} (hv : (s.phase v).registration = some rv) (hun : (s.phase v).unrevoked = none)
    (hl : s.waiters.isLive rv.entry = true) (hl' : s'.waiters.isLive rv.entry = false) (ho : rv.order = r.order)
    (hlt : rv.entry < r.entry) : s.helps r v = false ∧ s'.helps r v = true := by
  have hnot : s.waiters.isWoken rv.entry = false := by
    simp only [NotifyWaiters.isLive, NotifyWaiters.isWoken, decide_eq_true_eq, decide_eq_false_iff_not] at hl ⊢
    rw [hl]
    exact EntryState.noConfusion
  have hwoken : s'.waiters.isWoken rv.entry = true := by
    rcases hw.entries rv.entry with he | ⟨-, -, he⟩
    · rw [(isLive_congr he).1, hl] at hl'
      cases hl'
    · rw [NotifyWaiters.isWoken, he]
      rfl
  cases hph : s.phase v with
  | idle =>
      rw [hph] at hv
      cases hv
  | starting q owed =>
      rw [hph] at hv
      cases hv
  | trying q r' owed =>
      rw [hph] at hv
      cases hv
      have hq := h.order_eq (t := v) (q := q) (r := rv) (by rw [hph]; rfl) (by rw [hph]; rfl)
      simp [State.helps, State.owes, State.ahead, hp, hph, hl, hl', hlt, hwoken, Phase.request, ← ho, hq]
  | revoking r' =>
      rw [hph] at hun
      cases hun
  | leaving r' =>
      rw [hph] at hv
      cases hv
      rw [h.gone v rv (Or.inl hph)] at hl
      cases hl
  | awaiting q r' =>
      rw [hph] at hv
      cases hv
      have hq := h.order_eq (t := v) (q := q) (r := rv) (by rw [hph]; rfl) (by rw [hph]; rfl)
      simp [State.helps, State.owes, State.ahead, hp, hph, hnot, hwoken, Phase.request, ← ho, hq]
  | dropping q r' =>
      rw [hph] at hv
      cases hv
      rw [h.gone v rv (Or.inr ⟨q, hph⟩)] at hl
      cases hl

omit [DecidableEq τ] in
theorem Suffices.le_order (hs : Suffices s f) (h : Fed g s) (hf : f < s.waiters.numOrders) {u : τ}
    {r : BuddyRegistration} (hu : (s.phase u).registration = some r) (hl : s.waiters.isLive r.entry = true)
    (hl' : (s.waiters.buddyWake f).isLive r.entry = true) : f ≤ r.order := by
  by_contra hlt
  rw [Nat.not_le] at hlt
  have hmem := (h.consistent.registered hu hl).2
  have hfirst := find?_of_countP_le_one (hs.single r.order hlt) hmem hl
  rw [NotifyWaiters.buddyWake_served h.consistent.linked.filed.counted h.headed hf hs.notBanned hs.withinBound hlt.le
    hfirst] at hl'
  cases hl'

omit [DecidableEq τ] in
/-- At the freed order itself the wake makes one more task owe a retry. -/
theorem Suffices.card_lt (hs : Suffices s f) (s' : State τ) (h : Fed g s) (hf : f < s.waiters.numOrders)
    (hp : s'.phase = s.phase) (hw : s'.waiters = s.waiters.buddyWake f) {u : τ} {r : BuddyRegistration}
    (hu : (s.phase u).registration = some r) (hl' : s'.waiters.isLive r.entry = true) (ho : r.order = f) :
    (s.helpers r).card < (s'.helpers r).card := by
  have hwake := (NotifyWaiters.buddyWake_wakes h.consistent.linked.filed f).1
  rw [← hw] at hwake
  have hl := hwake.isLive hl'
  have hmem := (h.consistent.registered hu hl).2
  obtain ⟨e, he⟩ := Option.isSome_iff_exists.mp (List.find?_isSome.mpr ⟨r.entry, hmem, hl⟩)
  have helive : s.waiters.isLive e = true := List.find?_some he
  have hdead : s'.waiters.isLive e = false := by
    rw [hw]
    exact NotifyWaiters.buddyWake_served h.consistent.linked.filed.counted h.headed hf hs.notBanned hs.withinBound
      ho.le he
  have hne : e ≠ r.entry := by
    rintro rfl
    rw [hdead] at hl'
    cases hl'
  have hlt : e < r.entry := lt_of_le_of_ne (find?_le (h.consistent.linked.filed.sorted r.order) he hmem hl) hne
  obtain ⟨v, rv, hv, rfl, hvo⟩ := h.consistent.linked.owned r.order e (List.mem_of_find?_eq_some he) helive
  have hun : (s.phase v).unrevoked = none := by
    rw [Option.eq_none_iff_forall_not_mem]
    intro r' hr'
    cases hph : s.phase v with
    | revoking r'' =>
        rw [hph] at hr' hv
        cases hr'
        cases hv
        have hbad := hs.unserved v rv (by rw [hph]; rfl) helive
        omega
    | _ =>
        rw [hph] at hr'
        cases hr'
  obtain ⟨hbefore, hafter⟩ := h.woken_helps hp hwake hv hun helive hdead hvo hlt
  refine Finset.card_lt_card (Finset.ssubset_iff_of_subset (fun x hx => ?_) |>.mpr ⟨v, ?_, ?_⟩)
  · rw [State.helpers, Finset.mem_filter] at hx ⊢
    exact ⟨hx.1, helps_wake s s' hp hwake hx.2⟩
  · rw [State.helpers, Finset.mem_filter]
    exact ⟨Finset.mem_univ v, hafter⟩
  · rw [State.helpers, Finset.mem_filter, hbefore]
    simp

end Wake

omit [DecidableEq τ] in
theorem Fed.release (h : Fed g s) {b : Block} (hb : b ∈ s.live) (hok : Unhurt s (.release b))
    (hc : Consistent g { s with
      arena := (s.arena.release b.order b.index).2
      live := s.live.erase b
      waiters := s.waiters.buddyWake (s.arena.release b.order b.index).1 }) :
    Fed g { s with
      arena := (s.arena.release b.order b.index).2
      live := s.live.erase b
      waiters := s.waiters.buddyWake (s.arena.release b.order b.index).1 } := by
  have hbal : s.arena.Balanced g (b ::ₘ (s.live.erase b : Multiset Block)) := by
    rw [Multiset.cons_coe, ← Multiset.coe_eq_coe.mpr (List.perm_cons_erase hb)]
    exact h.consistent.balanced
  have hsuf : Suffices s (s.arena.release b.order b.index).1 := by
    rw [release_settles]
    exact hok
  obtain ⟨hmax, x, hpub⟩ := release_publishes hbal
  have hs' := hc.balanced.sound
  generalize hrel : s.arena.release b.order b.index = rel at hc hsuf hmax hpub hs' ⊢
  obtain ⟨f, arena⟩ := rel
  simp only at hc hsuf hmax hpub hs' ⊢
  have hf : f < s.waiters.numOrders := by
    rw [h.consistent.numOrders, ← h.consistent.balanced.geometry]
    exact Nat.lt_succ_of_le hmax
  have hwake := (NotifyWaiters.buddyWake_wakes h.consistent.linked.filed f).1
  have hstamp := hwake.stamped h.stamped
  have hhead := NotifyWaiters.buddyWake_headed h.stamped.dated h.headed f
  refine ⟨hc, hstamp, hhead, h.within, fun u r hu => ?_, fun u q r hu hl' => ?_⟩
  · cases hl : (s.waiters.buddyWake f).isLive r.entry with
    | false => rfl
    | true =>
        exact absurd (hwake.isLive hl) (by simp [h.gone u r hu])
  · have hreg : (s.phase u).registration = some r := congrArg Phase.registration hu
    have hl := hwake.isLive hl'
    have hr := h.enough u q r hu hl
    have hle := hsuf.le_order h hf hreg hl hl'
    have hfree {c : Block} (hco : f ≤ c.order) (hne : c ≠ ⟨f, x⟩) (hcf : arena.freeBit c = true) :
        s.arena.freeBit c = true := by
      rwa [hpub c hco, update_of_ne hne] at hcf
    refine ⟨fun c hcf => ?_, ?_⟩
    · rcases Nat.lt_or_ge c.order f with hlt | hge
      · exact (hlt.trans_le hle).le
      · by_cases hcx : c = ⟨f, x⟩
        · rw [hcx]
          exact hle
        · exact hr.below c (hfree hge hcx hcf)
    · rcases Nat.lt_or_eq_of_le hle with hlt | heq
      -- only at the freed order is there one free block more, and there one more task owes a retry
      · have hfewer := freeAt_le (o := r.order) h.consistent.balanced.sound hs' fun c hco hcf =>
          hfree (by omega) (by rintro rfl; exact absurd hco (Nat.ne_of_lt hlt)) hcf
        refine hfewer.trans (hr.matched.trans (Finset.card_le_card fun v hv => ?_))
        rw [State.helpers, Finset.mem_filter] at hv ⊢
        exact ⟨hv.1, helps_wake s { s with arena := arena, live := s.live.erase b, waiters := s.waiters.buddyWake f }
          rfl hwake hv.2⟩
      · have hmore := freeAt_le_succ (o := r.order) h.consistent.balanced.sound hs' ⟨f, x⟩ fun c hco hne hcf =>
          hfree (by omega) hne hcf
        have hcard := hsuf.card_lt
          { s with arena := arena, live := s.live.erase b, waiters := s.waiters.buddyWake f } h hf rfl rfl hreg hl'
          heq.symm
        have hmatched := hr.matched
        change arena.freeAt r.order ≤ _
        omega

theorem step_fed {s' : State τ} {a : Action τ} (h : Fed g s) (hok : Unhurt s a) (hs : step s a = some s') :
    Fed g s' := by
  have hc := step_consistent h.consistent hs
  cases step_cases hs with
  | call t len order hp ho => exact h.call hp hok ho hc
  | refuse t len => exact h.allocate len
  | prepare t now q owed hp => exact h.prepare hp hok hc
  | succeed t q r owed b hp hb => exact h.succeed hp hb hc
  | fail t q r owed hp hb => exact h.fail hp hb hc
  | revoke t r hp => exact h.revoke hp hc
  | ready t q r hp hready => exact h.ready hp hready hc
  | pending t => exact h
  | leave t r hp =>
      refine h.drop (by rw [hp]; rfl) hc (Or.inl rfl) rfl fun u q r' hu hl hh => ?_
      simp [State.helps, State.owes, hp] at hh
  | again t q r hp =>
      refine h.drop (by rw [hp]; rfl) hc (Or.inr (by rw [hp]; rfl)) rfl fun u q' r' hu hl hh => ?_
      simp [State.helps, State.owes, State.ahead, Phase.request, helps_order (q := q) (by rw [hp]; rfl) hh]
  | cancel t q r hp => exact h.cancel hp hok hc
  | allocate len => exact h.allocate len
  | release b hb => exact h.release hb hok hc

omit [DecidableEq τ] in
theorem start_fed (g : BuddyGeometry) (autoSpill : Bool) (initPolicy : InitPolicy) (memory : Memory) :
    Fed g (start g autoSpill initPolicy memory : State τ) := by
  refine ⟨start_consistent g autoSpill initPolicy memory, fun i => ?_, fun o ho => ?_, ?_, ?_, ?_⟩
  · change 0 ≠ noWaitersTimestamp
    decide
  · cases ho
  · rintro t q ⟨⟩
  · rintro t r (ht | ⟨q, ht⟩) <;> cases ht
  · rintro t q r ⟨⟩

/-- When no woken task has still to retry, a parked task whose entry is live
has no free block of its order or above. -/
theorem no_starved_waiter (g : BuddyGeometry) (autoSpill : Bool) (initPolicy : InitPolicy) (memory : Memory)
    (as : List (Action τ)) (s : State τ) (hrun : run step (start g autoSpill initPolicy memory) as = some s)
    (hok : Meets step Unhurt (start g autoSpill initPolicy memory) as) (hretried : ∀ t, s.owes t = false)
    (t : τ) (q : Request) (r : BuddyRegistration) (hp : s.phase t = .awaiting q r)
    (hl : s.waiters.isLive r.entry = true) (b : Block) (hb : r.order ≤ b.order) : s.arena.freeBit b = false := by
  have h : Fed g s := run_preserves_of_meets (Fed g) (fun _ _ _ hi ho hs => step_fed hi ho hs)
    (start_fed g autoSpill initPolicy memory) hok hrun
  obtain ⟨hbelow, hmatched⟩ := h.enough t q r hp hl
  have hnone : s.helpers r = ∅ := by
    rw [State.helpers, Finset.filter_eq_empty_iff]
    intro u _
    simp [State.helps, hretried u]
  rw [hnone, Finset.card_empty] at hmatched
  rw [Bool.eq_false_iff]
  intro hfree
  have hbo : b.order = r.order := le_antisymm (hbelow b hfree) hb
  have hmem := (mem_freeAt h.consistent.balanced.sound).mpr ⟨hfree, hbo⟩
  have hpos : 0 < s.arena.freeAt r.order := Finset.card_pos.mpr ⟨b, hmem⟩
  omega

def park (t : Fin 2) (now : Nat) : List (Action (Fin 2)) := [.call t 512, .prepare t now, .tryAllocate t, .poll t]

def retry (t : Fin 2) (now : Nat) : List (Action (Fin 2)) :=
  [.poll t, .drop t, .prepare t now, .tryAllocate t, .revoke t, .drop t]

def servedRun : List (Action (Fin 2)) :=
  [.allocate 512, .allocate 512] ++ park 0 1 ++ park 1 2 ++ [.release ⟨0, 0⟩] ++ retry 0 3

def servedState : State (Fin 2) := (run step pairStart servedRun).getD pairStart

theorem servedState_reached : run step pairStart servedRun = some servedState :=
  run_eq_some_getD (by decide +kernel)

theorem no_starved_waiter_served :
    Meets step Unhurt pairStart servedRun ∧ (∀ t, servedState.owes t = false) ∧
    servedState.phase 1 = .awaiting ⟨512, 0⟩ ⟨1, 0, true, false, true⟩ ∧
    ∀ b, servedState.arena.freeBit b = false := by
  have hok : Meets step Unhurt pairStart servedRun := by decide +kernel
  have hretried : ∀ t, servedState.owes t = false := by decide +kernel
  have hp : servedState.phase 1 = .awaiting ⟨512, 0⟩ ⟨1, 0, true, false, true⟩ := by decide +kernel
  exact ⟨hok, hretried, hp, fun b => no_starved_waiter pairGeometry false .uninit (fun _ => 0) servedRun servedState
    servedState_reached hok hretried 1 ⟨512, 0⟩ ⟨1, 0, true, false, true⟩ hp (by decide +kernel) b (Nat.zero_le _)⟩

/-- Two tasks wait for a small block, and a block of twice that size is
released. -/
def starvedRun : List (Action (Fin 2)) :=
  [.allocate 1024] ++ park 0 1 ++ park 1 2 ++ [.release ⟨1, 0⟩] ++ retry 0 3

def starvedState : State (Fin 2) := (run step pairStart starvedRun).getD pairStart

theorem starvedState_reached : run step pairStart starvedRun = some starvedState :=
  run_eq_some_getD (by decide +kernel)

/-- The wake goes to the first task alone, and the half it does not need is
published without another wake. -/
theorem second_waiter_starves :
    Reachable step pairStart starvedState ∧ (∀ t, starvedState.owes t = false) ∧
    starvedState.phase 1 = .awaiting ⟨512, 0⟩ ⟨1, 0, true, false, true⟩ ∧
    starvedState.waiters.isLive 1 = true ∧ starvedState.arena.isBlockFree 0 1 = true :=
  ⟨⟨starvedRun, starvedState_reached⟩, by decide +kernel, by decide +kernel, by decide +kernel, by decide +kernel⟩

end ArenaAlligator.AsyncBuddy
