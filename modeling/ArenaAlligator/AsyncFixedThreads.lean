import ArenaAlligator.FixedThreads
import ArenaAlligator.FixedWaiters

namespace ArenaAlligator.AsyncFixedThreads

open Function AtomicBitmap Runs

inductive DropPc
  | subCount
  | loadCount
  | notifyOne
  | future
deriving DecidableEq

/-- What a task does after the drop of its registration. A cancelled task is
gone. -/
inductive After
  | ret (slotIdx : Nat)
  | retry
  | gone
deriving DecidableEq

/-- Where a thread is. The steps of allocate and release of the arena are those
of FixedThreads; the end of release is the wake of the registered waiters. A
task in allocate_async has a registration. -/
inductive Pc
  | sync (p : FixedThreads.Pc)
  | wakeLoad
  | wakeNotify
  | enable
  | addCount (r : NotifyRegistration)
  | trying (r : NotifyRegistration) (p : FixedThreads.Pc)
  | revoke (r : NotifyRegistration) (slotIdx : Nat)
  | awaiting (r : NotifyRegistration)
  | polled (r : NotifyRegistration)
  | drop (d : DropPc) (r : NotifyRegistration) (k : After)
deriving DecidableEq

def enter (a : ArenaInner) : FixedThreads.Pc := if a.bitmap.slotCount = 0 then .recordFailure else .addCursor

/-- How a call of allocate or release goes on. After the last counter of
release the waiters are woken. -/
def goOn (p q : FixedThreads.Pc) : Pc := if p = .subBytesLive then .wakeLoad else .sync q

def tried (r : NotifyRegistration) : FixedThreads.Pc → Pc
  | .idle => .awaiting r
  | .handOut slotIdx => .revoke r slotIdx
  | p => .trying r p

def dropWoken (r : NotifyRegistration) (k : After) : Pc :=
  if r.woken then .drop .loadCount r k else .drop .future r k

def dropFrom (r : NotifyRegistration) (k : After) : Pc :=
  if r.registered then .drop .subCount r k else dropWoken r k

def After.land : After → Pc
  | retry => .enable
  | ret _ | gone => .sync .idle

def After.slots : After → List Nat
  | ret slotIdx => [slotIdx]
  | retry | gone => []

structure State (τ : Type) where
  arena : ArenaInner
  live : List Nat
  slot : FixedOrderSlot τ
  pc : τ → Pc

inductive Action (τ : Type)
  | allocate (t : τ)
  | release (t : τ) (slotIdx : Nat)
  | allocateAsync (t : τ)
  | cancel (t : τ)
  | tick (t : τ)
deriving DecidableEq

variable {τ : Type} [DecidableEq τ]

def State.goto (s : State τ) (t : τ) (p : Pc) : State τ := { s with pc := update s.pc t p }

def State.setNotify (s : State τ) (n : Notify τ) : State τ := { s with slot := { s.slot with notify := n } }

/-- The next operation of a thread. A task at its await point polls. -/
def tick (s : State τ) (t : τ) : Option (State τ) :=
  match s.pc t with
  | .sync .idle => none
  | .sync (.handOut slotIdx) => some ({ s with live := slotIdx :: s.live }.goto t (.sync .idle))
  | .sync p =>
      let v := FixedThreads.advance s.arena p
      some ({ s with arena := v.1 }.goto t (goOn p v.2))
  | .wakeLoad => some (s.goto t (if s.slot.count > 0 then .wakeNotify else .sync .idle))
  | .wakeNotify => some ((s.setNotify s.slot.notify.notifyOne).goto t (.sync .idle))
  | .enable => some ((s.setNotify (s.slot.notify.enable t)).goto t (.addCount {}))
  | .addCount r =>
      if r.registered then some (s.goto t (.trying r (enter s.arena)))
      else
        some ({ s with slot := { s.slot with count := s.slot.count + 1 } }.goto t
          (.trying { r with registered := true } (enter s.arena)))
  | .trying r p =>
      let v := FixedThreads.advance s.arena p
      some ({ s with arena := v.1 }.goto t (tried r v.2))
  | .revoke r slotIdx =>
      some ({ s with slot := s.slot.uncount r }.goto t
        (dropFrom { r with registered := false, woken := false } (.ret slotIdx)))
  | .awaiting r =>
      let v := s.slot.notify.poll t
      some ((s.setNotify v.2).goto t (if v.1 then .polled r else .awaiting r))
  | .polled r =>
      some ({ s with slot := s.slot.uncount r }.goto t (dropFrom { r with registered := false, woken := true } .retry))
  | .drop .subCount r k => some ({ s with slot := s.slot.uncount r }.goto t (dropWoken r k))
  | .drop .loadCount r k => some (s.goto t (.drop (if s.slot.count > 0 then .notifyOne else .future) r k))
  | .drop .notifyOne r k => some ((s.setNotify s.slot.notify.notifyOne).goto t (.drop .future r k))
  | .drop .future _ k =>
      some (({ s with live := k.slots ++ s.live }.setNotify (s.slot.notify.drop t)).goto t k.land)

/-- Calls start in an idle thread. Every atomic operation, and every operation
on the notifier, which has a lock of its own, is one step. A task can be
cancelled at its await point only. -/
def step (s : State τ) : Action τ → Option (State τ)
  | .allocate t => if s.pc t = .sync .idle then some (s.goto t (.sync (enter s.arena))) else none
  | .release t slotIdx =>
      if s.pc t = .sync .idle ∧ slotIdx ∈ s.live then
        some ({ s with live := s.live.erase slotIdx }.goto t (.sync (.scrub slotIdx)))
      else none
  | .allocateAsync t => if s.pc t = .sync .idle then some (s.goto t .enable) else none
  | .cancel t =>
      match s.pc t with
      | .awaiting r => some (s.goto t (dropFrom r .gone))
      | _ => none
  | .tick t => tick s t

def start (inner : ArenaInner) : State τ := ⟨inner, [], {}, fun _ => .sync .idle⟩

inductive Step (s : State τ) : Action τ → State τ → Prop
  | allocate (t : τ) (hp : s.pc t = .sync .idle) : Step s (.allocate t) (s.goto t (.sync (enter s.arena)))
  | release (t : τ) (slotIdx : Nat) (hp : s.pc t = .sync .idle) (hlive : slotIdx ∈ s.live) :
      Step s (.release t slotIdx) ({ s with live := s.live.erase slotIdx }.goto t (.sync (.scrub slotIdx)))
  | allocateAsync (t : τ) (hp : s.pc t = .sync .idle) : Step s (.allocateAsync t) (s.goto t .enable)
  | cancel (t : τ) (r : NotifyRegistration) (hp : s.pc t = .awaiting r) :
      Step s (.cancel t) (s.goto t (dropFrom r .gone))
  | handOut (t : τ) (slotIdx : Nat) (hp : s.pc t = .sync (.handOut slotIdx)) :
      Step s (.tick t) ({ s with live := slotIdx :: s.live }.goto t (.sync .idle))
  | sync (t : τ) (p : FixedThreads.Pc) (hp : s.pc t = .sync p) (hidle : p ≠ .idle)
      (hret : ∀ slotIdx, p ≠ .handOut slotIdx) :
      Step s (.tick t) ({ s with arena := (FixedThreads.advance s.arena p).1 }.goto t
        (goOn p (FixedThreads.advance s.arena p).2))
  | wakeSkip (t : τ) (hp : s.pc t = .wakeLoad) (hcount : s.slot.count = 0) :
      Step s (.tick t) (s.goto t (.sync .idle))
  | wakeLoad (t : τ) (hp : s.pc t = .wakeLoad) (hcount : 0 < s.slot.count) : Step s (.tick t) (s.goto t .wakeNotify)
  | wakeNotify (t : τ) (hp : s.pc t = .wakeNotify) :
      Step s (.tick t) ((s.setNotify s.slot.notify.notifyOne).goto t (.sync .idle))
  | enable (t : τ) (hp : s.pc t = .enable) :
      Step s (.tick t) ((s.setNotify (s.slot.notify.enable t)).goto t (.addCount {}))
  | addCount (t : τ) (r : NotifyRegistration) (hp : s.pc t = .addCount r) (hr : r.registered = false) :
      Step s (.tick t) ({ s with slot := { s.slot with count := s.slot.count + 1 } }.goto t
        (.trying { r with registered := true } (enter s.arena)))
  | addCountSkip (t : τ) (r : NotifyRegistration) (hp : s.pc t = .addCount r) (hr : r.registered = true) :
      Step s (.tick t) (s.goto t (.trying r (enter s.arena)))
  | trying (t : τ) (r : NotifyRegistration) (p : FixedThreads.Pc) (hp : s.pc t = .trying r p) :
      Step s (.tick t) ({ s with arena := (FixedThreads.advance s.arena p).1 }.goto t
        (tried r (FixedThreads.advance s.arena p).2))
  | revoke (t : τ) (r : NotifyRegistration) (slotIdx : Nat) (hp : s.pc t = .revoke r slotIdx) :
      Step s (.tick t) ({ s with slot := s.slot.uncount r }.goto t (.drop .future ⟨false, false⟩ (.ret slotIdx)))
  | pending (t : τ) (r : NotifyRegistration) (hp : s.pc t = .awaiting r) (hr : (s.slot.notify.poll t).1 = false) :
      Step s (.tick t) ((s.setNotify (s.slot.notify.poll t).2).goto t (.awaiting r))
  | ready (t : τ) (r : NotifyRegistration) (hp : s.pc t = .awaiting r) (hr : (s.slot.notify.poll t).1 = true) :
      Step s (.tick t) ((s.setNotify (s.slot.notify.poll t).2).goto t (.polled r))
  | polled (t : τ) (r : NotifyRegistration) (hp : s.pc t = .polled r) :
      Step s (.tick t) ({ s with slot := s.slot.uncount r }.goto t (.drop .loadCount ⟨false, true⟩ .retry))
  | dropCount (t : τ) (r : NotifyRegistration) (k : After) (hp : s.pc t = .drop .subCount r k) :
      Step s (.tick t) ({ s with slot := s.slot.uncount r }.goto t (dropWoken r k))
  | dropSkip (t : τ) (r : NotifyRegistration) (k : After) (hp : s.pc t = .drop .loadCount r k)
      (hcount : s.slot.count = 0) : Step s (.tick t) (s.goto t (.drop .future r k))
  | dropLoad (t : τ) (r : NotifyRegistration) (k : After) (hp : s.pc t = .drop .loadCount r k)
      (hcount : 0 < s.slot.count) : Step s (.tick t) (s.goto t (.drop .notifyOne r k))
  | dropNotify (t : τ) (r : NotifyRegistration) (k : After) (hp : s.pc t = .drop .notifyOne r k) :
      Step s (.tick t) ((s.setNotify s.slot.notify.notifyOne).goto t (.drop .future r k))
  | dropFuture (t : τ) (r : NotifyRegistration) (k : After) (hp : s.pc t = .drop .future r k) :
      Step s (.tick t) (({ s with live := k.slots ++ s.live }.setNotify (s.slot.notify.drop t)).goto t k.land)

theorem tick_cases {s s' : State τ} {t : τ} (h : tick s t = some s') : Step s (.tick t) s' := by
  unfold tick at h
  split at h
  next => cases h
  next slotIdx hp => cases h; exact .handOut t slotIdx hp
  next p hidle hret hp => cases h; exact .sync t p hp hidle fun slotIdx he => hret slotIdx he
  next hp =>
    cases h
    split
    next hcount => exact .wakeLoad t hp hcount
    next hcount => exact .wakeSkip t hp (Nat.eq_zero_of_not_pos hcount)
  next hp => cases h; exact .wakeNotify t hp
  next hp => cases h; exact .enable t hp
  next r hp =>
    split at h
    next hr => cases h; exact .addCountSkip t r hp hr
    next hr => cases h; exact .addCount t r hp (Bool.eq_false_iff.mpr hr)
  next r p hp => cases h; exact .trying t r p hp
  next r slotIdx hp => cases h; exact .revoke t r slotIdx hp
  next r hp =>
    cases h
    cases hr : (s.slot.notify.poll t).1 with
    | true => exact .ready t r hp hr
    | false => exact .pending t r hp hr
  next r hp => cases h; exact .polled t r hp
  next r k hp => cases h; exact .dropCount t r k hp
  next r k hp =>
    cases h
    split
    next hcount => exact .dropLoad t r k hp hcount
    next hcount => exact .dropSkip t r k hp (Nat.eq_zero_of_not_pos hcount)
  next r k hp => cases h; exact .dropNotify t r k hp
  next r k hp => cases h; exact .dropFuture t r k hp

theorem step_cases {s s' : State τ} {a : Action τ} (h : step s a = some s') : Step s a s' := by
  cases a with
  | allocate t =>
      simp only [step, Option.ite_none_right_eq_some, Option.some.injEq] at h
      obtain ⟨hp, rfl⟩ := h
      exact .allocate t hp
  | release t slotIdx =>
      simp only [step, Option.ite_none_right_eq_some, Option.some.injEq] at h
      obtain ⟨⟨hp, hlive⟩, rfl⟩ := h
      exact .release t slotIdx hp hlive
  | allocateAsync t =>
      simp only [step, Option.ite_none_right_eq_some, Option.some.injEq] at h
      obtain ⟨hp, rfl⟩ := h
      exact .allocateAsync t hp
  | cancel t =>
      simp only [step] at h
      split at h
      next r hp => cases h; exact .cancel t r hp
      next => cases h
  | tick t => exact tick_cases h

/-- The thread as FixedThreads sees it. A task that has got its slot holds it
until allocate_async returns. -/
def Pc.coarse : Pc → FixedThreads.Pc
  | sync p => p
  | trying _ p => p
  | revoke _ slotIdx => .handOut slotIdx
  | drop _ _ (.ret slotIdx) => .handOut slotIdx
  | wakeLoad | wakeNotify | enable | addCount _ | awaiting _ | polled _ | drop _ _ .retry | drop _ _ .gone => .idle

def coarse (s : State τ) : FixedThreads.State τ := ⟨s.arena, s.live, fun t => (s.pc t).coarse⟩

variable {a : ArenaInner} {live : List Nat} {slot : FixedOrderSlot τ} {pc : τ → Pc} {t : τ} {p : Pc}

theorem coarse_goto :
    coarse ⟨a, live, slot, update pc t p⟩ = ⟨a, live, update (fun u => (pc u).coarse) t p.coarse⟩ := by
  simp only [coarse, FixedThreads.State.mk.injEq, true_and]
  funext u
  exact apply_update (fun _ => Pc.coarse) pc t p u

theorem coarse_stay (h : (pc t).coarse = p.coarse) :
    coarse ⟨a, live, slot, update pc t p⟩ = ⟨a, live, fun u => (pc u).coarse⟩ := by
  rw [coarse_goto, ← h, update_eq_self]

@[simp] theorem coarse_tried (r : NotifyRegistration) (p : FixedThreads.Pc) : (tried r p).coarse = p := by
  cases p <;> rfl

theorem coarse_goOn (a : ArenaInner) (p : FixedThreads.Pc) :
    (goOn p (FixedThreads.advance a p).2).coarse = (FixedThreads.advance a p).2 := by
  unfold goOn
  split
  next hp => rw [hp]; rfl
  next => rfl

theorem coarse_dropWoken (r : NotifyRegistration) (k : After) :
    (dropWoken r k).coarse = (Pc.drop .future r k).coarse := by
  unfold dropWoken
  split <;> cases k <;> rfl

theorem coarse_dropFrom (r : NotifyRegistration) (k : After) :
    (dropFrom r k).coarse = (Pc.drop .future r k).coarse := by
  unfold dropFrom
  split
  · cases k <;> rfl
  · exact coarse_dropWoken r k

theorem coarse_tick {s : State τ} {q : FixedThreads.Pc} (hq : (s.pc t).coarse = q) (hidle : q ≠ .idle)
    (hret : ∀ slotIdx, q ≠ .handOut slotIdx) (hp : p.coarse = (FixedThreads.advance s.arena q).2) :
    FixedThreads.step (coarse s) (.tick t) =
      some (coarse ({ s with arena := (FixedThreads.advance s.arena q).1 }.goto t p)) := by
  subst hq
  simp only [FixedThreads.step]
  split
  next he => exact absurd he hidle
  next slotIdx he => exact absurd he (hret slotIdx)
  next => exact congrArg some (hp ▸ coarse_goto).symm

theorem coarse_handOut {s : State τ} {slotIdx : Nat} (hq : (s.pc t).coarse = .handOut slotIdx) (hp : p.coarse = .idle) :
    FixedThreads.step (coarse s) (.tick t) = some (coarse ⟨s.arena, slotIdx :: s.live, slot, update s.pc t p⟩) := by
  rw [coarse_goto, hp]
  simp only [FixedThreads.step, coarse, hq]

theorem coarse_enter {s : State τ} (hq : (s.pc t).coarse = .idle) (hp : p.coarse = enter s.arena) :
    FixedThreads.step (coarse s) (.allocate t) = some (coarse ⟨s.arena, s.live, slot, update s.pc t p⟩) := by
  rw [coarse_goto, hp]
  simp only [FixedThreads.step, coarse, hq, if_true]
  rfl

/-- Every step is one of FixedThreads or none. -/
theorem step_coarse {s s' : State τ} {x : Action τ} (h : step s x = some s') :
    coarse s' = coarse s ∨ ∃ y, FixedThreads.step (coarse s) y = some (coarse s') := by
  cases step_cases h with
  | allocate t hp => exact Or.inr ⟨.allocate t, coarse_enter (by rw [hp]; rfl) rfl⟩
  | release t slotIdx hp hlive =>
      refine Or.inr ⟨.release t slotIdx, ?_⟩
      rw [State.goto, coarse_goto]
      have hidle : (coarse s).pc t = .idle := congrArg Pc.coarse hp
      simp only [FixedThreads.step, hidle, true_and]
      exact if_pos hlive
  | handOut t slotIdx hp => exact Or.inr ⟨.tick t, coarse_handOut (by rw [hp]; rfl) rfl⟩
  | sync t p hp hidle hret =>
      exact Or.inr ⟨.tick t, coarse_tick (by rw [hp]; rfl) hidle hret (coarse_goOn s.arena p)⟩
  | addCount t r hp hr | addCountSkip t r hp hr =>
      exact Or.inr ⟨.allocate t, coarse_enter (by rw [hp]; rfl) rfl⟩
  | trying t r p hp =>
      have hq : (s.pc t).coarse = p := by rw [hp]; rfl
      by_cases hidle : p = .idle
      · subst hidle
        exact Or.inl (coarse_stay (hq.trans (coarse_tried r _).symm))
      by_cases hret : ∃ slotIdx, p = .handOut slotIdx
      · obtain ⟨slotIdx, rfl⟩ := hret
        exact Or.inl (coarse_stay (hq.trans (coarse_tried r _).symm))
      · exact Or.inr ⟨.tick t, coarse_tick hq hidle (not_exists.mp hret) (coarse_tried r _)⟩
  | dropFuture t r k hp =>
      cases k with
      | ret slotIdx => exact Or.inr ⟨.tick t, coarse_handOut (by rw [hp]; rfl) rfl⟩
      | retry | gone => exact Or.inl (coarse_stay ((congrArg Pc.coarse hp).trans rfl))
  | cancel t r hp => exact Or.inl (coarse_stay ((congrArg Pc.coarse hp).trans (coarse_dropFrom r .gone).symm))
  | dropCount t r k hp =>
      refine Or.inl (coarse_stay ((congrArg Pc.coarse hp).trans ?_))
      rw [coarse_dropWoken]
      cases k <;> rfl
  | dropSkip t r k hp | dropLoad t r k hp | dropNotify t r k hp =>
      refine Or.inl (coarse_stay ((congrArg Pc.coarse hp).trans ?_))
      cases k <;> rfl
  | allocateAsync t hp | wakeSkip t hp | wakeLoad t hp | wakeNotify t hp | enable t hp | revoke t r slotIdx hp
  | pending t r hp | ready t r hp | polled t r hp =>
      exact Or.inl (coarse_stay ((congrArg Pc.coarse hp).trans rfl))

end ArenaAlligator.AsyncFixedThreads
