import ArenaAlligator.BuddyRuns
import ArenaAlligator.WaiterQueues

namespace ArenaAlligator.AsyncBuddy

open Function AlignedBlocks BuddyArenaInner BuddyRuns Runs

/-- A request, with the order that allocate_async registers it at. -/
structure Request where
  len : Nat
  order : Nat
deriving DecidableEq

/-- Where a task is in allocate_with_buddy_waiter. The flag owed tells that
the task was woken in its last round and has not retried since. -/
inductive Phase
  | idle
  | starting (q : Request) (owed : Bool)
  | trying (q : Request) (r : BuddyRegistration) (owed : Bool)
  | revoking (r : BuddyRegistration)
  | leaving (r : BuddyRegistration)
  | awaiting (q : Request) (r : BuddyRegistration)
  | dropping (q : Request) (r : BuddyRegistration)
deriving DecidableEq

def Phase.registration : Phase → Option BuddyRegistration
  | trying _ r _ => some r
  | revoking r => some r
  | leaving r => some r
  | awaiting _ r => some r
  | dropping _ r => some r
  | idle | starting _ _ => none

variable {τ : Type} [DecidableEq τ]

/-- An async arena, the blocks its callers hold, and its tasks. -/
structure State (τ : Type) where
  arena : BuddyArenaInner
  live : List Block
  waiters : NotifyWaiters
  phase : τ → Phase

inductive Action (τ : Type)
  | call (t : τ) (len : Nat)
  | prepare (t : τ) (now : Nat)
  | tryAllocate (t : τ)
  | revoke (t : τ)
  | poll (t : τ)
  | drop (t : τ)
  | cancel (t : τ)
  | allocate (len : Nat)
  | release (b : Block)
deriving DecidableEq

def State.setPhase (s : State τ) (t : τ) (p : Phase) : State τ := { s with phase := update s.phase t p }

@[simp] theorem setPhase_self (s : State τ) (t : τ) (p : Phase) : (s.setPhase t p).phase t = p := by
  simp [State.setPhase]

theorem setPhase_of_ne (s : State τ) {t u : τ} (h : u ≠ t) (p : Phase) : (s.setPhase t p).phase u = s.phase u := by
  simp [State.setPhase, h]

def State.allocate (s : State τ) (len : Nat) : Option Block × State τ :=
  let r := s.arena.allocate len
  match r.1 with
  | .ok buf => (blockOf buf, { s with arena := r.2, live := (blockOf buf).toList ++ s.live })
  | .error _ => (none, { s with arena := r.2 })

omit [DecidableEq τ] in
theorem allocate_frame (s : State τ) (len : Nat) :
    ∃ live, (s.allocate len).2 = { s with arena := (s.arena.allocate len).2, live := live } := by
  simp only [State.allocate]
  split
  · exact ⟨_, rfl⟩
  · exact ⟨_, rfl⟩

/-- The steps of the tasks, of synchronous callers and of releases. A request
that no block can serve returns at once, without a registration. The drop of a
registration ends a round of the loop, or the call; a task is cancelled at its
await point by dropping the registration there. -/
def step (s : State τ) : Action τ → Option (State τ)
  | .call t len =>
      if s.phase t = .idle ∧ 0 < len ∧ len ≤ usizeMax then
        match s.arena.orderForRequest len with
        | some order => some (s.setPhase t (.starting ⟨len, order⟩ false))
        | none => some (s.allocate len).2
      else none
  | .prepare t now =>
      match s.phase t with
      | .starting q owed =>
          let r := s.waiters.enroll q.order now
          some ({ s with waiters := r.1 }.setPhase t (.trying q r.2 owed))
      | _ => none
  | .tryAllocate t =>
      match s.phase t with
      | .trying q r _ =>
          let a := s.allocate q.len
          match a.1 with
          | some _ => some (a.2.setPhase t (.revoking r))
          | none => some (a.2.setPhase t (.awaiting q r))
      | _ => none
  | .revoke t =>
      match s.phase t with
      | .revoking r =>
          let v := s.waiters.revoke r
          some ({ s with waiters := v.1 }.setPhase t (.leaving v.2))
      | _ => none
  | .poll t =>
      match s.phase t with
      | .awaiting q r =>
          let v := s.waiters.poll r
          if v.1 then some ({ s with waiters := v.2.1 }.setPhase t (.dropping q v.2.2)) else some s
      | _ => none
  | .drop t =>
      match s.phase t with
      | .leaving r => some ({ s with waiters := s.waiters.drop r }.setPhase t .idle)
      | .dropping q r => some ({ s with waiters := s.waiters.drop r }.setPhase t (.starting q true))
      | _ => none
  | .cancel t =>
      match s.phase t with
      | .awaiting _ r => some ({ s with waiters := s.waiters.drop r }.setPhase t .idle)
      | _ => none
  | .allocate len => if 0 < len ∧ len ≤ usizeMax then some (s.allocate len).2 else none
  | .release b =>
      if b ∈ s.live then
        let r := s.arena.release b.order b.index
        some { s with arena := r.2, live := s.live.erase b, waiters := s.waiters.buddyWake r.1 }
      else none

def start (g : BuddyGeometry) (autoSpill : Bool) (initPolicy : InitPolicy) (memory : Memory) : State τ where
  arena := build g autoSpill initPolicy memory
  live := []
  waiters := NotifyWaiters.new (g.maxOrder + 1)
  phase _ := .idle

def pairStart : State (Fin 2) := start pairGeometry false .uninit fun _ => 0

inductive Step (s : State τ) : Action τ → State τ → Prop
  | call (t : τ) (len order : Nat) (hp : s.phase t = .idle) (ho : s.arena.orderForRequest len = some order) :
      Step s (.call t len) (s.setPhase t (.starting ⟨len, order⟩ false))
  | refuse (t : τ) (len : Nat) : Step s (.call t len) (s.allocate len).2
  | prepare (t : τ) (now : Nat) (q : Request) (owed : Bool) (hp : s.phase t = .starting q owed) :
      Step s (.prepare t now) ({ s with waiters := (s.waiters.enroll q.order now).1 }.setPhase t
        (.trying q (s.waiters.enroll q.order now).2 owed))
  | succeed (t : τ) (q : Request) (r : BuddyRegistration) (owed : Bool) (b : Block)
      (hp : s.phase t = .trying q r owed) (hb : (s.allocate q.len).1 = some b) :
      Step s (.tryAllocate t) ((s.allocate q.len).2.setPhase t (.revoking r))
  | fail (t : τ) (q : Request) (r : BuddyRegistration) (owed : Bool) (hp : s.phase t = .trying q r owed)
      (hb : (s.allocate q.len).1 = none) : Step s (.tryAllocate t) ((s.allocate q.len).2.setPhase t (.awaiting q r))
  | revoke (t : τ) (r : BuddyRegistration) (hp : s.phase t = .revoking r) :
      Step s (.revoke t) ({ s with waiters := (s.waiters.revoke r).1 }.setPhase t (.leaving (s.waiters.revoke r).2))
  | ready (t : τ) (q : Request) (r : BuddyRegistration) (hp : s.phase t = .awaiting q r)
      (hr : (s.waiters.poll r).1 = true) :
      Step s (.poll t) ({ s with waiters := (s.waiters.poll r).2.1 }.setPhase t (.dropping q (s.waiters.poll r).2.2))
  | pending (t : τ) : Step s (.poll t) s
  | leave (t : τ) (r : BuddyRegistration) (hp : s.phase t = .leaving r) :
      Step s (.drop t) ({ s with waiters := s.waiters.drop r }.setPhase t .idle)
  | again (t : τ) (q : Request) (r : BuddyRegistration) (hp : s.phase t = .dropping q r) :
      Step s (.drop t) ({ s with waiters := s.waiters.drop r }.setPhase t (.starting q true))
  | cancel (t : τ) (q : Request) (r : BuddyRegistration) (hp : s.phase t = .awaiting q r) :
      Step s (.cancel t) ({ s with waiters := s.waiters.drop r }.setPhase t .idle)
  | allocate (len : Nat) : Step s (.allocate len) (s.allocate len).2
  | release (b : Block) (hb : b ∈ s.live) :
      Step s (.release b) { s with
        arena := (s.arena.release b.order b.index).2
        live := s.live.erase b
        waiters := s.waiters.buddyWake (s.arena.release b.order b.index).1 }

theorem step_cases {s s' : State τ} {a : Action τ} (h : step s a = some s') : Step s a s' := by
  cases a with
  | call t len =>
      simp only [step] at h
      split at h
      next hc =>
        split at h
        next order ho => cases h; exact .call t len order hc.1 ho
        next => cases h; exact .refuse t len
      next => cases h
  | prepare t now =>
      simp only [step] at h
      split at h
      next q owed hp => cases h; exact .prepare t now q owed hp
      next => cases h
  | tryAllocate t =>
      simp only [step] at h
      split at h
      next q r owed hp =>
        split at h
        next b hb => cases h; exact .succeed t q r owed b hp hb
        next hb => cases h; exact .fail t q r owed hp hb
      next => cases h
  | revoke t =>
      simp only [step] at h
      split at h
      next r hp => cases h; exact .revoke t r hp
      next => cases h
  | poll t =>
      simp only [step] at h
      split at h
      next q r hp =>
        split at h
        next hr => cases h; exact .ready t q r hp hr
        next => cases h; exact .pending t
      next => cases h
  | drop t =>
      simp only [step] at h
      split at h
      next r hp => cases h; exact .leave t r hp
      next q r hp => cases h; exact .again t q r hp
      next => cases h
  | cancel t =>
      simp only [step] at h
      split at h
      next q r hp => cases h; exact .cancel t q r hp
      next => cases h
  | allocate len =>
      simp only [step] at h
      split at h
      next => cases h; exact .allocate len
      next => cases h
  | release b =>
      simp only [step] at h
      split at h
      next hb => cases h; exact .release b hb
      next => cases h

/-- Every task has an entry of its own; a live entry of a task is in the queue
of its order, and a live entry in a queue has a task. -/
structure Linked (w : NotifyWaiters) (phase : τ → Phase) : Prop where
  filed : w.Filed
  created : ∀ t r, (phase t).registration = some r → r.entry < w.created
  distinct : ∀ t u r r', (phase t).registration = some r → (phase u).registration = some r' →
    r.entry = r'.entry → t = u
  queued : ∀ t r, (phase t).registration = some r → w.isLive r.entry = true →
    r.registered = true ∧ r.rx = true ∧ r.entry ∈ w.queue r.order
  owned : ∀ o, ∀ i ∈ w.queue o, w.isLive i = true →
    ∃ t r, (phase t).registration = some r ∧ r.entry = i ∧ r.order = o
  silent : ∀ i, w.isLive i = true → (w.entries i).channel = .empty

variable {w w' : NotifyWaiters} {phase : τ → Phase}

theorem Linked.rephase (h : Linked w phase) {t : τ} {p : Phase}
    (hp : p.registration = (phase t).registration) : Linked w (update phase t p) := by
  have hreg (u : τ) : (update phase t p u).registration = (phase u).registration := by
    rw [update_apply]
    split
    next hu => rw [hu, hp]
    next => rfl
  exact ⟨h.filed, by simpa only [hreg] using h.created, by simpa only [hreg] using h.distinct,
    by simpa only [hreg] using h.queued, by simpa only [hreg] using h.owned, h.silent⟩

omit [DecidableEq τ] in
theorem Linked.wake (h : Linked w phase) {f : Nat} (hw : NotifyWaiters.Wakes f w w') (hf : w'.Filed) :
    Linked w' phase where
  filed := hf
  created := fun t r hr => by
    rw [hw.created]
    exact h.created t r hr
  distinct := h.distinct
  queued := fun t r hr hl => by
    obtain ⟨hreg, hrx, hm⟩ := h.queued t r hr (hw.isLive hl)
    exact ⟨hreg, hrx, hw.kept r.order r.entry hm hl⟩
  owned := fun o i hi hl => h.owned o i ((hw.suffix o).subset hi) (hw.isLive hl)
  silent := fun i hl => by
    rcases hw.entries i with he | ⟨-, -, he⟩
    · rw [he]
      exact h.silent i (hw.isLive hl)
    · rw [NotifyWaiters.isLive, he] at hl
      exact absurd hl (by simp [WaiterEntry.wake])

theorem Linked.close (h : Linked w phase) {t : τ} {r : BuddyRegistration} (hr : (phase t).registration = some r)
    (hw : NotifyWaiters.Closes r.entry w w') {p : Phase}
    (hp : ∀ r', p.registration = some r' → r'.entry = r.entry) : Linked w' (update phase t p) := by
  have hlive {j : Nat} (hj : w'.isLive j = true) : w.isLive j = true ∧ j ≠ r.entry := by
    simpa [hw.isLive] using hj
  have hreg (u : τ) (r' : BuddyRegistration) (hu : (update phase t p u).registration = some r') :
      ∃ r'', (phase u).registration = some r'' ∧ r''.entry = r'.entry ∧ (u ≠ t → r'' = r') := by
    by_cases hut : u = t
    · subst hut
      rw [update_self] at hu
      exact ⟨r, hr, (hp r' hu).symm, fun hne => absurd rfl hne⟩
    · rw [update_of_ne hut] at hu
      exact ⟨r', hu, rfl, fun _ => rfl⟩
  refine ⟨hw.filed, fun u r' hu => ?_, fun u v r₁ r₂ hu hv he => ?_, fun u r' hu hj => ?_, fun o i hi hj => ?_,
    fun i hi => ?_⟩
  · obtain ⟨r'', hu', he, -⟩ := hreg u r' hu
    rw [hw.created, ← he]
    exact h.created u r'' hu'
  · obtain ⟨r₁', hu', he₁, -⟩ := hreg u r₁ hu
    obtain ⟨r₂', hv', he₂, -⟩ := hreg v r₂ hv
    exact h.distinct u v r₁' r₂' hu' hv' (by rw [he₁, he₂, he])
  · obtain ⟨hold, hne⟩ := hlive hj
    obtain ⟨r'', hu', he, hsame⟩ := hreg u r' hu
    have hut : u ≠ t := by
      rintro rfl
      rw [hr] at hu'
      cases hu'
      exact hne he.symm
    rw [hw.queue]
    rw [hsame hut] at hu'
    exact h.queued u r' hu' hold
  · obtain ⟨hold, hne⟩ := hlive hj
    rw [hw.queue] at hi
    obtain ⟨u, r', hu, he, ho⟩ := h.owned o i hi hold
    have hut : u ≠ t := by
      rintro rfl
      rw [hr] at hu
      cases hu
      exact hne he.symm
    exact ⟨u, r', by rw [update_of_ne hut]; exact hu, he, ho⟩
  · rw [hw.entries i (hlive hi).2]
    exact h.silent i (hlive hi).1

theorem Linked.enroll (h : Linked w phase) {t : τ} (ht : (phase t).registration = none) (order now : Nat) {p : Phase}
    (hp : p.registration = some (w.enroll order now).2) : Linked (w.enroll order now).1 (update phase t p) := by
  have hreg (u : τ) (r : BuddyRegistration) (hu : (update phase t p u).registration = some r) :
      u = t ∧ r = (w.enroll order now).2 ∨ u ≠ t ∧ (phase u).registration = some r := by
    by_cases hut : u = t
    · rw [hut, update_self, hp, Option.some.injEq] at hu
      exact Or.inl ⟨hut, hu.symm⟩
    · rw [update_of_ne hut] at hu
      exact Or.inr ⟨hut, hu⟩
  have hlive {j : Nat} (hj : j < w.created) : (w.enroll order now).1.isLive j = w.isLive j := by
    rw [NotifyWaiters.enroll_isLive, if_neg (by omega)]
  have hmem {o i : Nat} (hi : i ∈ w.queue o) : i ∈ (w.enroll order now).1.queue o := by
    rw [NotifyWaiters.enroll_queue]
    split
    · exact List.mem_append_left _ hi
    · exact hi
  refine ⟨NotifyWaiters.enroll_filed h.filed order now, fun u r hu => ?_, fun u v r₁ r₂ hu hv he => ?_,
    fun u r hu hl => ?_, fun o i hi hl => ?_, fun i hl => ?_⟩
  · rcases hreg u r hu with ⟨-, rfl⟩ | ⟨-, hu⟩
    · exact Nat.lt_succ_self _
    · exact Nat.lt_succ_of_lt (h.created u r hu)
  · rcases hreg u r₁ hu with ⟨hut, rfl⟩ | ⟨-, hu'⟩ <;> rcases hreg v r₂ hv with ⟨hvt, rfl⟩ | ⟨-, hv'⟩
    · exact hut.trans hvt.symm
    · exact absurd (h.created v r₂ hv') (by rw [← he]; exact lt_irrefl _)
    · exact absurd (h.created u r₁ hu') (by rw [he]; exact lt_irrefl _)
    · exact h.distinct u v r₁ r₂ hu' hv' he
  · rcases hreg u r hu with ⟨-, rfl⟩ | ⟨-, hu⟩
    · refine ⟨rfl, rfl, ?_⟩
      rw [NotifyWaiters.enroll_snd, NotifyWaiters.enroll_queue, if_pos rfl]
      exact List.mem_append_right _ List.mem_cons_self
    · rw [hlive (h.created u r hu)] at hl
      obtain ⟨hr, hx, hm⟩ := h.queued u r hu hl
      exact ⟨hr, hx, hmem hm⟩
  · have hcase : i ∈ w.queue o ∨ i = w.created ∧ o = min order (w.numOrders - 1) := by
      rw [NotifyWaiters.enroll_queue] at hi
      split at hi
      next ho => exact (List.mem_append.mp hi).imp_right fun hm => ⟨List.mem_singleton.mp hm, ho⟩
      next => exact Or.inl hi
    rcases hcase with hi | ⟨rfl, rfl⟩
    · rw [hlive (h.filed.created o i hi)] at hl
      obtain ⟨u, r, hu, he, ho⟩ := h.owned o i hi hl
      have hut : u ≠ t := by
        rintro rfl
        rw [ht] at hu
        cases hu
      exact ⟨u, r, by rw [update_of_ne hut]; exact hu, he, ho⟩
    · exact ⟨t, _, by rw [update_self]; exact hp, rfl, rfl⟩
  · by_cases hi : i = w.created
    · rw [hi]
      exact congrArg WaiterEntry.channel (update_self w.created { timestamp := now } w.entries)
    · have hsame : (w.enroll order now).1.entries i = w.entries i := update_of_ne hi _ _
      rw [hsame]
      rw [NotifyWaiters.enroll_isLive, if_neg hi] at hl
      exact h.silent i hl

def Phase.request : Phase → Option Request
  | starting q _ => some q
  | trying q _ _ => some q
  | awaiting q _ => some q
  | dropping q _ => some q
  | idle | revoking _ | leaving _ => none

structure Phase.Fits (a : BuddyArenaInner) (p : Phase) : Prop where
  asked : ∀ q, p.request = some q → a.orderForRequest q.len = some q.order
  order : ∀ q r, p.request = some q → p.registration = some r → r.order = min q.order a.maxOrder

structure Consistent (g : BuddyGeometry) (s : State τ) : Prop where
  balanced : s.arena.Balanced g s.live
  linked : Linked s.waiters s.phase
  numOrders : s.waiters.numOrders = g.maxOrder + 1
  fits : ∀ t, (s.phase t).Fits s.arena

variable {g : BuddyGeometry} {s s' : State τ}

theorem Phase.Fits.congr {a c : BuddyArenaInner} {p : Phase} (h : p.Fits a) (hg : c.geometry = a.geometry) :
    p.Fits c := by
  have ho (len : Nat) : c.orderForRequest len = a.orderForRequest len := by
    rw [orderForRequest, hg]
    rfl
  have hm : c.maxOrder = a.maxOrder := congrArg BuddyGeometry.maxOrder hg
  exact ⟨by simpa only [ho] using h.asked, by simpa only [hm] using h.order⟩

theorem fits_update {a : BuddyArenaInner} (h : ∀ t, (phase t).Fits a) {t : τ} {p : Phase} (hp : p.Fits a) (u : τ) :
    (update phase t p u).Fits a := by
  rw [update_apply]
  split
  · exact hp
  · exact h u

theorem fits_of_request_none {a : BuddyArenaInner} {p : Phase} (h : p.request = none) : p.Fits a :=
  ⟨fun q hq => (by rw [h] at hq; cases hq), fun q r hq => (by rw [h] at hq; cases hq)⟩

omit [DecidableEq τ] in
theorem allocate_cases (h : s.arena.Balanced g s.live) (len : Nat) :
    (∃ buf b, (s.arena.allocate len).1 = .ok buf ∧ (s.allocate len).1 = some b ∧
      (s.allocate len).2 = { s with arena := (s.arena.allocate len).2, live := b :: s.live } ∧
      (s.arena.allocate len).2.Balanced g (b :: s.live : List Block)) ∨
    (∃ e, (s.arena.allocate len).1 = .error e ∧ (s.allocate len).1 = none ∧
      (s.allocate len).2 = { s with arena := (s.arena.allocate len).2 } ∧
      (s.arena.allocate len).2.Balanced g s.live) := by
  obtain ⟨hok, herr⟩ := allocate_balanced h len
  cases hr : (s.arena.allocate len).1 with
  | ok buf =>
      obtain ⟨b, hb, hbal⟩ := hok buf hr
      exact Or.inl ⟨buf, b, rfl, by simp [State.allocate, hr, hb], by simp [State.allocate, hr, hb], hbal⟩
  | error e => exact Or.inr ⟨e, rfl, by simp [State.allocate, hr], by simp [State.allocate, hr], herr e hr⟩

omit [DecidableEq τ] in
theorem Consistent.allocate (h : Consistent g s) (len : Nat) : Consistent g (s.allocate len).2 := by
  have hfit {a : BuddyArenaInner} {m : Multiset Block} (ha : a.Balanced g m) (t : τ) : (s.phase t).Fits a :=
    (h.fits t).congr (ha.geometry.trans h.balanced.geometry.symm)
  rcases allocate_cases h.balanced len with ⟨buf, b, -, -, hs, hbal⟩ | ⟨e, -, -, hs, hbal⟩ <;> rw [hs]
  · exact ⟨hbal, h.linked, h.numOrders, hfit hbal⟩
  · exact ⟨hbal, h.linked, h.numOrders, hfit hbal⟩

theorem Consistent.setPhase (h : Consistent g s) {t : τ} {p : Phase}
    (hp : p.registration = (s.phase t).registration) (hf : p.Fits s.arena) : Consistent g (s.setPhase t p) :=
  ⟨h.balanced, h.linked.rephase hp, h.numOrders, fits_update h.fits hf⟩

theorem Consistent.close (h : Consistent g s) {t : τ} {r : BuddyRegistration} {w : NotifyWaiters}
    (hr : (s.phase t).registration = some r) (hw : NotifyWaiters.Closes r.entry s.waiters w) {p : Phase}
    (hp : ∀ r', p.registration = some r' → r'.entry = r.entry) (hf : p.Fits s.arena) :
    Consistent g ({ s with waiters := w }.setPhase t p) :=
  ⟨h.balanced, h.linked.close hr hw hp, hw.numOrders.trans h.numOrders, fits_update h.fits hf⟩

omit [DecidableEq τ] in
theorem Consistent.registered (h : Consistent g s) {t : τ} {r : BuddyRegistration}
    (hr : (s.phase t).registration = some r) (hl : s.waiters.isLive r.entry = true) :
    r.registered = true ∧ r.entry ∈ s.waiters.queue r.order :=
  ⟨(h.linked.queued t r hr hl).1, (h.linked.queued t r hr hl).2.2⟩

theorem step_consistent {a : Action τ} (h : Consistent g s) (hs : step s a = some s') : Consistent g s' := by
  cases step_cases hs with
  | call t len order hp ho =>
      refine h.setPhase (by rw [hp]; rfl) ⟨?_, ?_⟩
      · rintro q ⟨⟩
        exact ho
      · intro q r _ hr
        cases hr
  | refuse t len => exact h.allocate len
  | prepare t now q owed hp =>
      have hfit := h.fits t
      rw [hp] at hfit
      refine ⟨h.balanced, h.linked.enroll (by rw [hp]; rfl) q.order now rfl, h.numOrders, fits_update h.fits ⟨?_, ?_⟩⟩
      · rintro q' ⟨⟩
        exact hfit.asked q rfl
      · rintro q' r ⟨⟩ ⟨⟩
        change min q.order (s.waiters.numOrders - 1) = min q.order s.arena.maxOrder
        rw [h.numOrders, maxOrder, h.balanced.geometry, Nat.add_sub_cancel]
  | succeed t q r owed b hp hb =>
      have hph : (s.allocate q.len).2.phase t = .trying q r owed := by
        obtain ⟨live, hs⟩ := allocate_frame s q.len
        rw [hs]
        exact hp
      exact (h.allocate q.len).setPhase (by rw [hph]; rfl) (fits_of_request_none rfl)
  | fail t q r owed hp hb =>
      have hc := h.allocate q.len
      have hph : (s.allocate q.len).2.phase t = .trying q r owed := by
        obtain ⟨live, hs⟩ := allocate_frame s q.len
        rw [hs]
        exact hp
      have hfit := hc.fits t
      rw [hph] at hfit
      exact hc.setPhase (by rw [hph]; rfl) ⟨hfit.asked, hfit.order⟩
  | revoke t r hp =>
      have hr : (s.phase t).registration = some r := by rw [hp]; rfl
      refine h.close hr (NotifyWaiters.revoke_closes h.linked.filed (h.registered hr)) ?_ (fits_of_request_none rfl)
      rintro r' ⟨⟩
      rw [NotifyWaiters.revoke]
      split <;> rfl
  | ready t q r hp hready =>
      have hr : (s.phase t).registration = some r := by rw [hp]; rfl
      have hfit := h.fits t
      rw [hp] at hfit
      have hsnd : (s.waiters.poll r).2.2.entry = r.entry ∧ (s.waiters.poll r).2.2.order = r.order := by
        rw [NotifyWaiters.poll]
        split
        · split <;> exact ⟨rfl, rfl⟩
        · exact ⟨rfl, rfl⟩
      refine h.close hr (NotifyWaiters.poll_closes h.linked.filed hready
        (fun hl => (h.linked.queued t r hr hl).2.1) (h.linked.silent r.entry)) ?_ ⟨hfit.asked, ?_⟩
      · rintro r' ⟨⟩
        exact hsnd.1
      · rintro q' r' ⟨⟩ ⟨⟩
        rw [hsnd.2]
        exact hfit.order q r rfl rfl
  | pending t => exact h
  | leave t r hp =>
      have hr : (s.phase t).registration = some r := by rw [hp]; rfl
      exact h.close hr (NotifyWaiters.drop_closes h.linked.filed (h.registered hr)) (fun r' he => by cases he)
        (fits_of_request_none rfl)
  | again t q r hp =>
      have hr : (s.phase t).registration = some r := by rw [hp]; rfl
      have hfit := h.fits t
      rw [hp] at hfit
      exact h.close hr (NotifyWaiters.drop_closes h.linked.filed (h.registered hr)) (fun r' he => by cases he)
        ⟨hfit.asked, fun q r _ he => by cases he⟩
  | cancel t q r hp =>
      have hr : (s.phase t).registration = some r := by rw [hp]; rfl
      exact h.close hr (NotifyWaiters.drop_closes h.linked.filed (h.registered hr)) (fun r' he => by cases he)
        (fits_of_request_none rfl)
  | allocate len => exact h.allocate len
  | release b hb =>
      have hbal : s.arena.Balanced g (b ::ₘ (s.live.erase b : Multiset Block)) := by
        rw [Multiset.cons_coe, ← Multiset.coe_eq_coe.mpr (List.perm_cons_erase hb)]
        exact h.balanced
      have hrel := release_balanced hbal
      obtain ⟨hw, hf⟩ := NotifyWaiters.buddyWake_wakes h.linked.filed (s.arena.release b.order b.index).1
      exact ⟨hrel, h.linked.wake hw hf, hw.numOrders.trans h.numOrders, fun t =>
        (h.fits t).congr (hrel.geometry.trans h.balanced.geometry.symm)⟩

omit [DecidableEq τ] in
theorem start_consistent (g : BuddyGeometry) (autoSpill : Bool) (initPolicy : InitPolicy) (memory : Memory) :
    Consistent g (start g autoSpill initPolicy memory : State τ) := by
  refine ⟨build_balanced g autoSpill initPolicy memory, ⟨NotifyWaiters.new_filed _, ?_, ?_, ?_, ?_, fun _ _ => rfl⟩,
    rfl, fun t => fits_of_request_none rfl⟩
  · intro t r hr
    cases hr
  · intro t u r r' hr
    cases hr
  · intro t r hr
    cases hr
  · intro o i hi
    exact absurd hi List.not_mem_nil

end ArenaAlligator.AsyncBuddy
