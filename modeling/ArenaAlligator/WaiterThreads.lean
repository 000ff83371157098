import ArenaAlligator.Runs
import ArenaAlligator.Waiters

namespace ArenaAlligator.WaiterThreads

open Function NotifyWaiters Runs

structure Wake where
  freedOrder : Nat
  order : Nat
  rest : List Nat
  pops : Nat
deriving DecidableEq

/-- The next atomic operation of a thread. Between the lock and the unlock of
an order the thread holds that order's queue mutex. -/
inductive Pc
  | idle
  | prepareLock (r : BuddyRegistration)
  | preparePush (r : BuddyRegistration)
  | prepareAdd (r : BuddyRegistration)
  | prepareStamp (r : BuddyRegistration)
  | prepareUnlock (r : BuddyRegistration)
  | revokeCas (r : BuddyRegistration) (dropped : Bool)
  | revokeTake (r : BuddyRegistration) (dropped : Bool)
  | revokeSub (r : BuddyRegistration) (dropped : Bool) (tx : Bool)
  | dropRx (r : BuddyRegistration)
  | scoreStreak (freedOrder : Nat)
  | scoreCount (freedOrder : Nat) (streak : BitVec 64) (order : Nat) (candidates : List (Nat × Nat))
  | scoreStamp (freedOrder : Nat) (streak : BitVec 64) (order count : Nat) (candidates : List (Nat × Nat))
  | wakeLock (k : Wake)
  | wakePop (k : Wake)
  | wakeCheck (k : Wake) (i : Nat)
  | wakeCas (k : Wake) (i : Nat)
  | wakeSub (k : Wake) (i : Nat)
  | wakeScan (k : Wake) (i : Nat) (scan : List Nat)
  | wakeStore (k : Wake) (i : Nat) (ts : Nat)
  | wakeUnlock (k : Wake) (won : Option Nat)
  | wakeTake (k : Wake) (i : Nat)
  | wakeSend (k : Wake) (i : Nat) (tx : Bool)
  | streakLoad (k : Wake)
  | streakStore (k : Wake) (current : BitVec 64)
deriving DecidableEq

/-- The waiters, the holders of the queue mutexes, the registrations that no
thread is working on, and the threads. The field home is history: the order
at which a prepare has pushed an entry. -/
structure State (τ : Type) where
  waiters : NotifyWaiters
  lock : Nat → Option τ
  regs : Nat → Option BuddyRegistration
  home : Nat → Option Nat
  pc : τ → Pc

inductive Action (τ : Type)
  | register (order now : Nat)
  | prepare (t : τ) (i : Nat)
  | revoke (t : τ) (i : Nat)
  | poll (i : Nat)
  | drop (t : τ) (i : Nat)
  | wake (t : τ) (freedOrder : Nat)
  | tick (t : τ)
deriving DecidableEq

def pushBack (w : NotifyWaiters) (order i : Nat) : NotifyWaiters :=
  w.setSlot order { w.buddyOrders order with queue := w.queue order ++ [i] }

def setQueue (w : NotifyWaiters) (order : Nat) (queue : List Nat) : NotifyWaiters :=
  w.setSlot order { w.buddyOrders order with queue := queue }

def fetchAddCount (w : NotifyWaiters) (order : Nat) : NotifyWaiters :=
  w.setSlot order { w.buddyOrders order with count := (w.buddyOrders order).count + 1 }

def fetchSubCount (w : NotifyWaiters) (order : Nat) : NotifyWaiters :=
  w.setSlot order { w.buddyOrders order with count := countSub (w.buddyOrders order).count }

def storeTimestamp (w : NotifyWaiters) (order ts : Nat) : NotifyWaiters :=
  w.setSlot order { w.buddyOrders order with headTimestamp := ts }

def storeState (w : NotifyWaiters) (i : Nat) (state : EntryState) : NotifyWaiters :=
  w.setEntry i { w.entries i with state := state }

def takeTx (w : NotifyWaiters) (i : Nat) : NotifyWaiters := w.setEntry i { w.entries i with tx := false }

def setChannel (w : NotifyWaiters) (i : Nat) (c : Channel) : NotifyWaiters :=
  w.setEntry i { w.entries i with channel := c }

variable {τ : Type} [DecidableEq τ]

def State.goto (s : State τ) (t : τ) (p : Pc) : State τ := { s with pc := update s.pc t p }

def nextOrder (freedOrder : Nat) (orders : List Nat) (pops : Nat) : Pc :=
  match orders with
  | [] => .idle
  | order :: rest => if pops ≥ maxPopsPerWake then .idle else .wakeLock ⟨freedOrder, order, rest, pops⟩

def nextScore (w : NotifyWaiters) (freedOrder : Nat) (streak : BitVec 64) (order : Nat)
    (candidates : List (Nat × Nat)) : Pc :=
  if order < min freedOrder (w.numOrders - 1) then .scoreCount freedOrder streak (order + 1) candidates
  else nextOrder freedOrder (rank streak candidates) 0

theorem nextOrder_rec {P : Pc → Prop} (hidle : P .idle) (hlock : ∀ k, P (.wakeLock k)) (f : Nat) (orders : List Nat)
    (pops : Nat) : P (nextOrder f orders pops) := by
  cases orders with
  | nil => exact hidle
  | cons order rest =>
      simp only [nextOrder]
      split
      · exact hidle
      · exact hlock _

theorem nextScore_rec {P : Pc → Prop} (hidle : P .idle) (hlock : ∀ k, P (.wakeLock k))
    (hscore : ∀ f streak order cs, P (.scoreCount f streak order cs)) (w : NotifyWaiters) (f : Nat)
    (streak : BitVec 64) (order : Nat) (cs : List (Nat × Nat)) : P (nextScore w f streak order cs) := by
  rw [nextScore]
  split
  · exact hscore _ _ _ _
  · exact nextOrder_rec hidle hlock _ _ _

def nextScan (w : NotifyWaiters) (k : Wake) (i : Nat) : List Nat → Pc
  | [] => .wakeStore k i noWaitersTimestamp
  | j :: rest => if w.isLive j then .wakeStore k i (w.entries j).timestamp else .wakeScan k i rest

def afterUnlock (k : Wake) : Option Nat → Pc
  | some i => .wakeTake k i
  | none => nextOrder k.freedOrder k.rest k.pops

def State.finish (s : State τ) (t : τ) (r : BuddyRegistration) (dropped : Bool) : State τ :=
  if dropped then s.goto t (.dropRx r)
  else { s with regs := update s.regs r.entry (some { r with registered := false }) }.goto t .idle

def State.acquire (s : State τ) (t : τ) (order : Nat) (p : Pc) : Option (State τ) :=
  if s.lock order = none then some ({ s with lock := update s.lock order (some t) }.goto t p) else none

/-- One atomic operation of a thread. The sender that revoke takes is dropped
after the decrement; the channel is then still the thread's own. -/
def advance (s : State τ) (t : τ) : Option (State τ) :=
  let w := s.waiters
  match s.pc t with
  | .idle => none
  | .prepareLock r => s.acquire t r.order (.preparePush r)
  | .preparePush r =>
      some ({ s with waiters := pushBack w r.order r.entry, home := update s.home r.entry (some r.order) }.goto t
        (.prepareAdd { r with pendingEntry := false }))
  | .prepareAdd r =>
      some ({ s with waiters := fetchAddCount w r.order }.goto t
        (if (w.buddyOrders r.order).count = 0 then .prepareStamp r else .prepareUnlock r))
  | .prepareStamp r =>
      some ({ s with waiters := storeTimestamp w r.order (w.entries r.entry).timestamp }.goto t (.prepareUnlock r))
  | .prepareUnlock r =>
      some ({ s with
        lock := update s.lock r.order none
        regs := update s.regs r.entry (some { r with registered := true }) }.goto t .idle)
  | .revokeCas r dropped =>
      if w.isLive r.entry then
        some ({ s with waiters := storeState w r.entry .revoked }.goto t (.revokeTake r dropped))
      else some (s.finish t r dropped)
  | .revokeTake r dropped =>
      some ({ s with waiters := takeTx w r.entry }.goto t (.revokeSub r dropped (w.entries r.entry).tx))
  | .revokeSub r dropped tx =>
      let w := fetchSubCount w r.order
      some ({ s with waiters := if tx then setChannel w r.entry .closed else w }.finish t r dropped)
  | .dropRx r => some ({ s with waiters := if r.rx then w.dropRx r.entry else w }.goto t .idle)
  | .scoreStreak f => some (s.goto t (.scoreCount f w.streakState 0 []))
  | .scoreCount f streak order candidates =>
      let count := (w.buddyOrders order).count
      some (s.goto t (if count = 0 then nextScore w f streak order candidates
        else .scoreStamp f streak order count candidates))
  | .scoreStamp f streak order count candidates =>
      let ts := (w.buddyOrders order).headTimestamp
      some (s.goto t (nextScore w f streak order (if ts = noWaitersTimestamp then candidates
        else candidates ++ [(order, effectiveAge order count ts)])))
  | .wakeLock k => s.acquire t k.order (.wakePop k)
  | .wakePop k =>
      match w.queue k.order with
      | i :: queue =>
          if k.pops < maxPopsPerWake then
            some ({ s with waiters := setQueue w k.order queue }.goto t (.wakeCheck { k with pops := k.pops + 1 } i))
          else some (s.goto t (.wakeUnlock k none))
      | [] => some (s.goto t (.wakeUnlock k none))
  | .wakeCheck k i => some (s.goto t (if w.isLive i then .wakeCas k i else .wakePop k))
  | .wakeCas k i =>
      if w.isLive i then some ({ s with waiters := storeState w i .woken }.goto t (.wakeSub k i))
      else some (s.goto t (.wakePop k))
  | .wakeSub k i =>
      some ({ s with waiters := fetchSubCount w k.order }.goto t (.wakeScan k i (w.queue k.order)))
  | .wakeScan k i scan => some (s.goto t (nextScan w k i scan))
  | .wakeStore k i ts =>
      some ({ s with waiters := storeTimestamp w k.order ts }.goto t (.wakeUnlock k (some i)))
  | .wakeUnlock k won =>
      some ({ s with lock := update s.lock k.order none }.goto t (afterUnlock k won))
  | .wakeTake k i => some ({ s with waiters := takeTx w i }.goto t (.wakeSend k i (w.entries i).tx))
  | .wakeSend k i tx =>
      if tx && (w.entries i).rx then
        some ({ s with waiters := setChannel w i (.sent k.freedOrder) }.goto t (.streakLoad k))
      else some (s.goto t (nextOrder k.freedOrder k.rest k.pops))
  | .streakLoad k => some (s.goto t (.streakStore k w.streakState))
  | .streakStore k current =>
      some ({ s with waiters := { w with streakState := nextStreak current k.order } }.goto t
        (nextOrder k.freedOrder k.rest k.pops))

/-- A thread that calls an operation of a registration has it to itself until
the operation returns. An operation that has nothing to do returns at once. -/
def step (s : State τ) : Action τ → Option (State τ)
  | .register order now =>
      let v := s.waiters.buddyRegister order now
      some { s with waiters := v.1, regs := update s.regs v.2.entry (some v.2) }
  | .prepare t i =>
      match s.pc t, s.regs i with
      | .idle, some r =>
          if !r.registered && r.pendingEntry then
            some ({ s with regs := update s.regs i none }.goto t (.prepareLock r))
          else some s
      | _, _ => none
  | .revoke t i =>
      match s.pc t, s.regs i with
      | .idle, some r =>
          if r.registered then some ({ s with regs := update s.regs i none }.goto t (.revokeCas r false)) else some s
      | _, _ => none
  | .poll i =>
      match s.regs i with
      | some r =>
          let v := s.waiters.poll r
          some { s with waiters := v.2.1, regs := update s.regs i (some v.2.2) }
      | none => none
  | .drop t i =>
      match s.pc t, s.regs i with
      | .idle, some r =>
          some ({ s with regs := update s.regs i none }.goto t (if r.registered then .revokeCas r true else .dropRx r))
      | _, _ => none
  | .wake t f => if s.pc t = .idle then some (s.goto t (.scoreStreak f)) else none
  | .tick t => advance s t

def start (numOrders : Nat) : State τ where
  waiters := NotifyWaiters.new numOrders
  lock _ := none
  regs _ := none
  home _ := none
  pc _ := .idle

inductive Tick (s : State τ) (t : τ) : State τ → Prop
  | prepareLock (r : BuddyRegistration) (hp : s.pc t = .prepareLock r) (hfree : s.lock r.order = none) :
      Tick s t ({ s with lock := update s.lock r.order (some t) }.goto t (.preparePush r))
  | preparePush (r : BuddyRegistration) (hp : s.pc t = .preparePush r) :
      Tick s t ({ s with
        waiters := pushBack s.waiters r.order r.entry
        home := update s.home r.entry (some r.order) }.goto t (.prepareAdd { r with pendingEntry := false }))
  | prepareAdd (r : BuddyRegistration) (hp : s.pc t = .prepareAdd r) :
      Tick s t ({ s with waiters := fetchAddCount s.waiters r.order }.goto t
        (if (s.waiters.buddyOrders r.order).count = 0 then .prepareStamp r else .prepareUnlock r))
  | prepareStamp (r : BuddyRegistration) (hp : s.pc t = .prepareStamp r) :
      Tick s t ({ s with
        waiters := storeTimestamp s.waiters r.order (s.waiters.entries r.entry).timestamp }.goto t (.prepareUnlock r))
  | prepareUnlock (r : BuddyRegistration) (hp : s.pc t = .prepareUnlock r) :
      Tick s t ({ s with
        lock := update s.lock r.order none
        regs := update s.regs r.entry (some { r with registered := true }) }.goto t .idle)
  | revokeWin (r : BuddyRegistration) (d : Bool) (hp : s.pc t = .revokeCas r d) (hl : s.waiters.isLive r.entry = true) :
      Tick s t ({ s with waiters := storeState s.waiters r.entry .revoked }.goto t (.revokeTake r d))
  | revokeLose (r : BuddyRegistration) (d : Bool) (hp : s.pc t = .revokeCas r d)
      (hl : s.waiters.isLive r.entry = false) : Tick s t (s.finish t r d)
  | revokeTake (r : BuddyRegistration) (d : Bool) (hp : s.pc t = .revokeTake r d) :
      Tick s t ({ s with waiters := takeTx s.waiters r.entry }.goto t
        (.revokeSub r d (s.waiters.entries r.entry).tx))
  | revokeSub (r : BuddyRegistration) (d tx : Bool) (hp : s.pc t = .revokeSub r d tx) :
      Tick s t ({ s with
        waiters := if tx then setChannel (fetchSubCount s.waiters r.order) r.entry .closed
          else fetchSubCount s.waiters r.order }.finish t r d)
  | dropRx (r : BuddyRegistration) (hp : s.pc t = .dropRx r) :
      Tick s t ({ s with waiters := if r.rx then s.waiters.dropRx r.entry else s.waiters }.goto t .idle)
  | scoreStreak (f : Nat) (hp : s.pc t = .scoreStreak f) :
      Tick s t (s.goto t (.scoreCount f s.waiters.streakState 0 []))
  | scoreCount (f : Nat) (streak : BitVec 64) (order : Nat) (cs : List (Nat × Nat))
      (hp : s.pc t = .scoreCount f streak order cs) :
      Tick s t (s.goto t (if (s.waiters.buddyOrders order).count = 0 then nextScore s.waiters f streak order cs
        else .scoreStamp f streak order (s.waiters.buddyOrders order).count cs))
  | scoreStamp (f : Nat) (streak : BitVec 64) (order count : Nat) (cs : List (Nat × Nat))
      (hp : s.pc t = .scoreStamp f streak order count cs) :
      Tick s t (s.goto t (nextScore s.waiters f streak order
        (if (s.waiters.buddyOrders order).headTimestamp = noWaitersTimestamp then cs
          else cs ++ [(order, effectiveAge order count (s.waiters.buddyOrders order).headTimestamp)])))
  | wakeLock (k : Wake) (hp : s.pc t = .wakeLock k) (hfree : s.lock k.order = none) :
      Tick s t ({ s with lock := update s.lock k.order (some t) }.goto t (.wakePop k))
  | pop (k : Wake) (i : Nat) (queue : List Nat) (hp : s.pc t = .wakePop k) (hq : s.waiters.queue k.order = i :: queue) :
      Tick s t ({ s with waiters := setQueue s.waiters k.order queue }.goto t
        (.wakeCheck { k with pops := k.pops + 1 } i))
  | popNone (k : Wake) (hp : s.pc t = .wakePop k) : Tick s t (s.goto t (.wakeUnlock k none))
  | wakeCheck (k : Wake) (i : Nat) (hp : s.pc t = .wakeCheck k i) :
      Tick s t (s.goto t (if s.waiters.isLive i then .wakeCas k i else .wakePop k))
  | wakeWin (k : Wake) (i : Nat) (hp : s.pc t = .wakeCas k i) (hl : s.waiters.isLive i = true) :
      Tick s t ({ s with waiters := storeState s.waiters i .woken }.goto t (.wakeSub k i))
  | wakeLose (k : Wake) (i : Nat) (hp : s.pc t = .wakeCas k i) (hl : s.waiters.isLive i = false) :
      Tick s t (s.goto t (.wakePop k))
  | wakeSub (k : Wake) (i : Nat) (hp : s.pc t = .wakeSub k i) :
      Tick s t ({ s with waiters := fetchSubCount s.waiters k.order }.goto t
        (.wakeScan k i (s.waiters.queue k.order)))
  | wakeScan (k : Wake) (i : Nat) (scan : List Nat) (hp : s.pc t = .wakeScan k i scan) :
      Tick s t (s.goto t (nextScan s.waiters k i scan))
  | wakeStore (k : Wake) (i ts : Nat) (hp : s.pc t = .wakeStore k i ts) :
      Tick s t ({ s with waiters := storeTimestamp s.waiters k.order ts }.goto t (.wakeUnlock k (some i)))
  | wakeUnlock (k : Wake) (won : Option Nat) (hp : s.pc t = .wakeUnlock k won) :
      Tick s t ({ s with lock := update s.lock k.order none }.goto t (afterUnlock k won))
  | wakeTake (k : Wake) (i : Nat) (hp : s.pc t = .wakeTake k i) :
      Tick s t ({ s with waiters := takeTx s.waiters i }.goto t (.wakeSend k i (s.waiters.entries i).tx))
  | send (k : Wake) (i : Nat) (tx : Bool) (hp : s.pc t = .wakeSend k i tx) :
      Tick s t ({ s with waiters := setChannel s.waiters i (.sent k.freedOrder) }.goto t (.streakLoad k))
  | sendNone (k : Wake) (i : Nat) (tx : Bool) (hp : s.pc t = .wakeSend k i tx) :
      Tick s t (s.goto t (nextOrder k.freedOrder k.rest k.pops))
  | streakLoad (k : Wake) (hp : s.pc t = .streakLoad k) :
      Tick s t (s.goto t (.streakStore k s.waiters.streakState))
  | streakStore (k : Wake) (current : BitVec 64) (hp : s.pc t = .streakStore k current) :
      Tick s t ({ s with waiters := { s.waiters with streakState := nextStreak current k.order } }.goto t
        (nextOrder k.freedOrder k.rest k.pops))

theorem acquire_eq {s s' : State τ} {t : τ} {order : Nat} {p : Pc} (h : s.acquire t order p = some s') :
    s.lock order = none ∧ s' = { s with lock := update s.lock order (some t) }.goto t p := by
  rw [State.acquire] at h
  split at h
  next hfree => exact ⟨hfree, (Option.some.inj h).symm⟩
  next => cases h

theorem advance_tick {s s' : State τ} {t : τ} (h : advance s t = some s') : Tick s t s' := by
  cases hp : s.pc t with
  | idle => simp only [advance, hp] at h; cases h
  | prepareLock r =>
      simp only [advance, hp] at h
      obtain ⟨hfree, rfl⟩ := acquire_eq h
      exact .prepareLock r hp hfree
  | preparePush r => simp only [advance, hp] at h; cases h; exact .preparePush r hp
  | prepareAdd r => simp only [advance, hp] at h; cases h; exact .prepareAdd r hp
  | prepareStamp r => simp only [advance, hp] at h; cases h; exact .prepareStamp r hp
  | prepareUnlock r => simp only [advance, hp] at h; cases h; exact .prepareUnlock r hp
  | revokeCas r d =>
      simp only [advance, hp] at h
      split at h
      next hl => cases h; exact .revokeWin r d hp hl
      next hl => cases h; exact .revokeLose r d hp (Bool.eq_false_iff.mpr hl)
  | revokeTake r d => simp only [advance, hp] at h; cases h; exact .revokeTake r d hp
  | revokeSub r d tx => simp only [advance, hp] at h; cases h; exact .revokeSub r d tx hp
  | dropRx r => simp only [advance, hp] at h; cases h; exact .dropRx r hp
  | scoreStreak f => simp only [advance, hp] at h; cases h; exact .scoreStreak f hp
  | scoreCount f streak order cs => simp only [advance, hp] at h; cases h; exact .scoreCount f streak order cs hp
  | scoreStamp f streak order count cs =>
      simp only [advance, hp] at h; cases h; exact .scoreStamp f streak order count cs hp
  | wakeLock k =>
      simp only [advance, hp] at h
      obtain ⟨hfree, rfl⟩ := acquire_eq h
      exact .wakeLock k hp hfree
  | wakePop k =>
      simp only [advance, hp] at h
      split at h
      next i queue hq =>
        split at h
        · cases h; exact .pop k i queue hp hq
        · cases h; exact .popNone k hp
      next => cases h; exact .popNone k hp
  | wakeCheck k i => simp only [advance, hp] at h; cases h; exact .wakeCheck k i hp
  | wakeCas k i =>
      simp only [advance, hp] at h
      split at h
      next hl => cases h; exact .wakeWin k i hp hl
      next hl => cases h; exact .wakeLose k i hp (Bool.eq_false_iff.mpr hl)
  | wakeSub k i => simp only [advance, hp] at h; cases h; exact .wakeSub k i hp
  | wakeScan k i scan => simp only [advance, hp] at h; cases h; exact .wakeScan k i scan hp
  | wakeStore k i ts => simp only [advance, hp] at h; cases h; exact .wakeStore k i ts hp
  | wakeUnlock k won => simp only [advance, hp] at h; cases h; exact .wakeUnlock k won hp
  | wakeTake k i => simp only [advance, hp] at h; cases h; exact .wakeTake k i hp
  | wakeSend k i tx =>
      simp only [advance, hp] at h
      split at h
      · cases h; exact .send k i tx hp
      · cases h; exact .sendNone k i tx hp
  | streakLoad k => simp only [advance, hp] at h; cases h; exact .streakLoad k hp
  | streakStore k current => simp only [advance, hp] at h; cases h; exact .streakStore k current hp

inductive Step (s : State τ) : Action τ → State τ → Prop
  | register (order now : Nat) :
      Step s (.register order now) { s with
        waiters := (s.waiters.buddyRegister order now).1
        regs := update s.regs s.waiters.created (some (s.waiters.buddyRegister order now).2) }
  | nothing (a : Action τ) : Step s a s
  | prepare (t : τ) (i : Nat) (r : BuddyRegistration) (hp : s.pc t = .idle) (hr : s.regs i = some r)
      (hpending : r.pendingEntry = true) :
      Step s (.prepare t i) ({ s with regs := update s.regs i none }.goto t (.prepareLock r))
  | revoke (t : τ) (i : Nat) (r : BuddyRegistration) (d : Bool) (a : Action τ) (hp : s.pc t = .idle)
      (hr : s.regs i = some r) (hreg : r.registered = true) :
      Step s a ({ s with regs := update s.regs i none }.goto t (.revokeCas r d))
  | drop (t : τ) (i : Nat) (r : BuddyRegistration) (hp : s.pc t = .idle) (hr : s.regs i = some r) :
      Step s (.drop t i) ({ s with regs := update s.regs i none }.goto t (.dropRx r))
  | poll (i : Nat) (r : BuddyRegistration) (hr : s.regs i = some r) :
      Step s (.poll i) { s with
        waiters := (s.waiters.poll r).2.1
        regs := update s.regs i (some (s.waiters.poll r).2.2) }
  | wake (t : τ) (f : Nat) (hp : s.pc t = .idle) : Step s (.wake t f) (s.goto t (.scoreStreak f))
  | tick (t : τ) (s' : State τ) (h : Tick s t s') : Step s (.tick t) s'

theorem step_cases {s s' : State τ} {a : Action τ} (h : step s a = some s') : Step s a s' := by
  cases a with
  | register order now => cases h; exact .register order now
  | prepare t i =>
      simp only [step] at h
      split at h
      next r hp hr =>
        split at h
        next hc =>
          rw [Bool.and_eq_true] at hc
          cases h
          exact .prepare t i r hp hr hc.2
        next => cases h; exact .nothing _
      next => cases h
  | revoke t i =>
      simp only [step] at h
      split at h
      next r hp hr =>
        split at h
        next hreg => cases h; exact .revoke t i r false _ hp hr hreg
        next => cases h; exact .nothing _
      next => cases h
  | poll i =>
      simp only [step] at h
      split at h
      next r hr => cases h; exact .poll i r hr
      next => cases h
  | drop t i =>
      simp only [step] at h
      split at h
      next r hp hr =>
        cases h
        cases hreg : r.registered with
        | true => exact .revoke t i r true _ hp hr hreg
        | false => exact .drop t i r hp hr
      next => cases h
  | wake t f =>
      simp only [step] at h
      split at h
      next hp => cases h; exact .wake t f hp
      next => cases h
  | tick t => exact .tick t s' (advance_tick h)

end ArenaAlligator.WaiterThreads
