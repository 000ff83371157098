import ArenaAlligator.BuddyOwnership
import ArenaAlligator.FixedThreads
import ArenaAlligator.MetricsRuns
import Mathlib.Algebra.Order.BigOperators.Group.Finset

namespace ArenaAlligator.BuddyThreads

open Function AlignedBlocks AlignedBlocks.Block BuddyArenaInner Runs BlockOwnership Usize

/-- The block of an operation whose bytes are in bytes_live. They are taken out
before the block can be claimed again. -/
def Pc.booked : Pc → Option Block
  | handOut b => some b
  | addFrees b => some b
  | subBytesLive b => some b
  | _ => none

theorem booked_of_passing {p : Pc} (h : p.passing = true) : p.booked = none := by
  cases p with
  | handOut b | addFrees b | subBytesLive b => cases h
  | _ => rfl

theorem bag_booked_le (p : Pc) : bag p.booked ≤ bag p.held := by
  cases p with
  | handOut b | addFrees b | subBytesLive b => exact le_rfl
  | _ => exact Multiset.zero_le _

inductive Booking (a : BuddyArenaInner) (p : Pc) (r : BuddyArenaInner × Pc) : Prop
  | quiet (hbytes : r.1.metrics.bytesLive = a.metrics.bytesLive) (hbooked : r.2.booked = p.booked)
  | add (b : Block) (hbytes : r.1.metrics.bytesLive = fetchAdd a.metrics.bytesLive (a.blockSize b.order))
      (hp : p.booked = none) (hbooked : r.2.booked = some b)
  | sub (b : Block) (hbytes : r.1.metrics.bytesLive = fetchSub a.metrics.bytesLive (a.blockSize b.order))
      (hp : p.booked = some b) (hbooked : r.2.booked = none)

structure Counting (a : BuddyArenaInner) (p : Pc) (r : BuddyArenaInner × Pc) : Prop where
  reserved : r.1.metrics.bytesReserved = a.metrics.bytesReserved
  booking : Booking a p r

theorem Counting.of_metrics {a c : BuddyArenaInner} {p q : Pc} (hmetrics : c.metrics = a.metrics)
    (hbooked : q.booked = p.booked) : Counting a p (c, q) :=
  ⟨congrArg MetricsState.bytesReserved hmetrics, .quiet (congrArg MetricsState.bytesLive hmetrics) hbooked⟩

theorem Counting.passing {a c : BuddyArenaInner} {p q : Pc} (hmetrics : c.metrics = a.metrics)
    (hp : p.booked = none) (hq : q.passing = true) : Counting a p (c, q) :=
  .of_metrics hmetrics ((booked_of_passing hq).trans hp.symm)

theorem advance_counting (a : BuddyArenaInner) (p : Pc) : Counting a p (advance a p) := by
  cases p with
  | addBytesLive b => exact ⟨rfl, .add b rfl rfl rfl⟩
  | subBytesLive b => exact ⟨rfl, .sub b rfl rfl rfl⟩
  | loadSummary target =>
      exact .passing rfl rfl (passing_of_searching (nextOrder_searching _ _ (afterPass_searching _ _ _) _))
  | addCursor s =>
      simp only [advance]
      split
      · exact .passing rfl rfl (passing_of_searching (next_searching a s))
      · exact .passing rfl rfl (passing_of_searching (visit_searching a s _ _))
  | loadWord s start i =>
      simp only [advance]
      split
      · exact .passing rfl rfl (passing_of_searching (visit_searching a s _ _))
      · exact ⟨rfl, .quiet rfl rfl⟩
  | claimBit s start i bit =>
      simp only [advance]
      split
      · exact .passing rfl rfl (checkWord_passing _ _ _ _)
      · exact .passing rfl rfl rfl
  | anyFree order wordIdx k =>
      simp only [advance]
      split
      · exact .passing rfl rfl (resume_passing k)
      · exact .passing rfl rfl (checkWord_passing _ _ _ _)
  | clearSummary order k => exact .passing rfl rfl (resume_passing k)
  | splitFree target child idx steps => exact .passing rfl rfl (splitNext_passing _ _ _)
  | zeroBlock b => exact .of_metrics (zeroOnAllocate_metrics a b.order b.index) rfl
  | scrub b => exact .of_metrics (scrubOnRelease_metrics a b.order b.index) rfl
  | claimBuddy b =>
      simp only [advance]
      split
      · split
        · exact .passing rfl rfl (checkWord_passing _ _ _ _)
        · exact ⟨rfl, .quiet rfl rfl⟩
      · exact ⟨rfl, .quiet rfl rfl⟩
  | idle | splitSummary | recordSplits | addAllocationsOk | handOut | recordFailure | addFrees | recordCoalesce
  | publishSummary | publish => exact ⟨rfl, .quiet rfl rfl⟩

variable {τ : Type} [DecidableEq τ] [Fintype τ] {g : BuddyGeometry}

/-- The blocks whose bytes are in bytes_live: what is live, and one for each
operation between its own update and the end or the beginning of its call. -/
def counted (s : State τ) : Multiset Block := s.live + ∑ t, bag (s.pc t).booked

def bytesOf (a : BuddyArenaInner) (m : Multiset Block) : Nat := (m.map fun b => a.blockSize b.order).sum

omit [DecidableEq τ] in
theorem Owning.bytesOf_le {s : State τ} (h : Owning g s) : bytesOf s.arena (counted s) ≤ g.totalSize := by
  have hbooked : ∑ t, bag (s.pc t).booked ≤ ∑ t, bag (s.pc t).held :=
    Finset.sum_le_sum fun t _ => bag_booked_le (s.pc t)
  have hle : counted s ≤ (owners s).all := by
    rw [Owners.all, add_assoc]
    exact (add_le_add_right hbooked _).trans (Multiset.le_add_left _ _)
  obtain ⟨rest, hrest⟩ := Multiset.le_iff_exists_add.mp hle
  have hsum := h.sum_all
  rw [hrest, Multiset.map_add, Multiset.sum_add] at hsum
  rw [bytesOf]
  omega

structure Counted (g : BuddyGeometry) (s : State τ) : Prop where
  owning : Owning g s
  reserved : s.arena.metrics.bytesReserved = g.totalSize
  bytesLive : s.arena.metrics.bytesLive = bytesOf s.arena (counted s)

theorem counted_update (a : BuddyArenaInner) (live : List Block) (pc : τ → Pc) (t : τ) (p : Pc) :
    counted ⟨a, live, update pc t p⟩ + bag (pc t).booked = live + ∑ u, bag (pc u).booked + bag p.booked := by
  have hsum := sum_update (fun q => bag q.booked) pc t p
  rw [counted, add_assoc, hsum, add_assoc]

theorem bytesOf_congr {a c : BuddyArenaInner} (hg : c.geometry = a.geometry) (m : Multiset Block) :
    bytesOf c m = bytesOf a m := by
  simp only [bytesOf, blockSize, hg]

theorem bytesOf_add (a : BuddyArenaInner) (m k : Multiset Block) : bytesOf a (m + k) = bytesOf a m + bytesOf a k := by
  rw [bytesOf, Multiset.map_add, Multiset.sum_add]
  rfl

theorem bytesOf_singleton (a : BuddyArenaInner) (b : Block) : bytesOf a {b} = a.blockSize b.order := by
  simp [bytesOf]

/-- An atomic operation keeps the counter exact: what it adds fits the arena,
and what it takes away had been added. -/
theorem Counted.advance {s : State τ} {t : τ} {r : BuddyArenaInner × Pc} (h : Counted g s)
    (hcount : Counting s.arena (s.pc t) r)
    (ho : Owning g { s with arena := r.1, pc := update s.pc t r.2 }) :
    Counted g { s with arena := r.1, pc := update s.pc t r.2 } := by
  have hg : r.1.geometry = s.arena.geometry := ho.geometry.trans h.owning.geometry.symm
  have hmove := counted_update r.1 s.live s.pc t r.2
  have hlt : bytesOf r.1 (counted { s with arena := r.1, pc := update s.pc t r.2 }) < 2 ^ usizeBits :=
    ho.bytesOf_le.trans_lt g.totalSize_lt
  refine ⟨ho, hcount.reserved.trans h.reserved, ?_⟩
  rw [bytesOf_congr hg] at hlt ⊢
  cases hcount.booking with
  | quiet hbytes hbooked =>
      rw [hbooked] at hmove
      rw [add_right_cancel hmove]
      exact hbytes.trans h.bytesLive
  | add b hbytes hp hbooked =>
      rw [hp, hbooked, bag_none, add_zero] at hmove
      rw [hmove, bag_some, bytesOf_add, bytesOf_singleton] at hlt ⊢
      rw [hbytes, h.bytesLive, fetchAdd]
      exact Nat.mod_eq_of_lt hlt
  | sub b hbytes hp hbooked =>
      rw [hp, hbooked, bag_none, bag_some, add_zero] at hmove
      have hbefore : bytesOf s.arena (counted s) < 2 ^ usizeBits := h.owning.bytesOf_le.trans_lt g.totalSize_lt
      have hsplit : bytesOf s.arena (counted s) = _ := congrArg (bytesOf s.arena) hmove.symm
      rw [bytesOf_add, bytesOf_singleton, Nat.add_comm] at hsplit
      rw [hsplit] at hbefore
      rw [hbytes, h.bytesLive, hsplit]
      exact fetchSub_add _ _ hbefore

omit [DecidableEq τ] in
theorem Counted.regroup {s : State τ} {live : List Block} {pc : τ → Pc} (h : Counted g s)
    (ho : Owning g ⟨s.arena, live, pc⟩) (hcounted : counted ⟨s.arena, live, pc⟩ = counted s) :
    Counted g ⟨s.arena, live, pc⟩ := by
  refine ⟨ho, h.reserved, ?_⟩
  rw [hcounted]
  exact h.bytesLive

theorem step_counted {s s' : State τ} {x : Action τ} (h : Counted g s) (hs : step s x = some s') : Counted g s' := by
  have ho := step_owning h.owning hs
  cases step_cases hs with
  | allocate t len p hidle hp =>
      have hmove := counted_update s.arena s.live s.pc t p
      have hbooked : p.booked = (s.pc t).booked := by
        rw [hidle]
        rcases hp with rfl | ⟨target, rfl⟩ <;> rfl
      rw [hbooked] at hmove
      exact h.regroup ho (add_right_cancel hmove)
  | release t b hidle hb =>
      have hmove := counted_update s.arena (s.live.erase b) s.pc t (.addFrees b)
      rw [hidle] at hmove
      change counted _ + 0 = _ + _ + {b} at hmove
      refine h.regroup ho ?_
      calc counted _ = (s.live.erase b : Multiset Block) + ∑ u, bag (s.pc u).booked + {b} := by rw [← hmove, add_zero]
        _ = {b} + (s.live : Multiset Block).erase b + ∑ u, bag (s.pc u).booked := by rw [Multiset.coe_erase]; abel
        _ = counted s := by rw [Multiset.singleton_add, Multiset.cons_erase hb]; rfl
  | handOut t b hpc =>
      have hmove := counted_update s.arena (b :: s.live) s.pc t .idle
      rw [hpc] at hmove
      change counted _ + {b} = _ + _ + 0 at hmove
      refine h.regroup ho (add_right_cancel (b := {b}) ?_)
      calc counted _ + {b} = ((b :: s.live : List Block) : Multiset Block) + ∑ u, bag (s.pc u).booked := by
            rw [hmove, add_zero]
        _ = {b} + s.live + ∑ u, bag (s.pc u).booked := by rw [← Multiset.cons_coe, Multiset.singleton_add]
        _ = counted s + {b} := by rw [counted]; abel
  | advance t hidle hret => exact h.advance (advance_counting s.arena (s.pc t)) ho

omit [DecidableEq τ] in
theorem start_counted (g : BuddyGeometry) (autoSpill : Bool) (initPolicy : InitPolicy) (memory : Memory) :
    Counted g (start g autoSpill initPolicy memory : State τ) := by
  refine ⟨start_owning g autoSpill initPolicy memory, rfl, ?_⟩
  have hnone : counted (start g autoSpill initPolicy memory : State τ) = 0 := by
    simp [counted, start, Pc.booked]
  rw [hnone]
  rfl

end ArenaAlligator.BuddyThreads

namespace ArenaAlligator.FixedThreads

open Function AtomicBitmap BitmapRefinement Runs Usize

def Pc.counted : Pc → Nat
  | handOut _ | scrub _ | free _ | addFrees | subBytesLive => 1
  | _ => 0

def Pc.unbooked : Pc → Nat
  | zeroSlot _ | addAllocationsOk _ | addBytesLive _ => 1
  | _ => 0

/-- The operation has set its slot free and not yet taken its bytes away. -/
def Pc.overdue : Pc → Nat
  | addFrees | subBytesLive => 1
  | _ => 0

def Pc.adds : Pc → Bool
  | addBytesLive _ => true
  | _ => false

theorem counted_add_unbooked (p : Pc) : p.counted + p.unbooked = p.held.card + p.overdue := by
  cases p <;> rfl

inductive Booking (a : ArenaInner) (p : Pc) (r : ArenaInner × Pc) : Prop
  | quiet (hbytes : r.1.metrics.bytesLive = a.metrics.bytesLive) (hcounted : r.2.counted = p.counted)
  | add (hbytes : r.1.metrics.bytesLive = fetchAdd a.metrics.bytesLive a.slotCapacity) (hp : p.adds = true)
      (hcounted : r.2.counted = p.counted + 1)
  | sub (hbytes : r.1.metrics.bytesLive = fetchSub a.metrics.bytesLive a.slotCapacity)
      (hcounted : p.counted = r.2.counted + 1)

structure Counting (a : ArenaInner) (p : Pc) (r : ArenaInner × Pc) : Prop where
  reserved : r.1.metrics.bytesReserved = a.metrics.bytesReserved
  booking : Booking a p r

theorem Counting.of_metrics {a c : ArenaInner} {p q : Pc} (hmetrics : c.metrics = a.metrics)
    (hcounted : q.counted = p.counted) : Counting a p (c, q) :=
  ⟨congrArg MetricsState.bytesReserved hmetrics, .quiet (congrArg MetricsState.bytesLive hmetrics) hcounted⟩

theorem resume_counted (q : SlotThreads.Pc) (e : SlotThreads.Effect) : (resume q e).counted = 0 := by
  cases q <;> cases e <;> rfl

theorem advance_counting (a : ArenaInner) (p : Pc) : Counting a p (advance a p) := by
  cases p with
  | addBytesLive slotIdx => exact ⟨rfl, .add rfl rfl rfl⟩
  | subBytesLive => exact ⟨rfl, .sub rfl rfl⟩
  | addCursor | loadWord | claimBit => exact ⟨rfl, .quiet rfl (resume_counted _ _)⟩
  | zeroSlot slotIdx => exact .of_metrics (a.zeroOnAllocate_metrics slotIdx) rfl
  | scrub slotIdx => exact .of_metrics (a.scrubOnRelease_metrics slotIdx) rfl
  | idle | recordFailure | addAllocationsOk | handOut | free | addFrees => exact ⟨rfl, .quiet rfl rfl⟩

variable {τ : Type} [DecidableEq τ] [Fintype τ]

/-- When a thread adds its bytes, fewer releases are overdue than there are
free slots and slots whose bytes are still to be added. -/
def Room (s : State τ) : Action τ → Prop
  | .tick t => (s.pc t).adds = true →
      ∑ u, (s.pc u).overdue < s.arena.bitmap.freeCount + ∑ u, (s.pc u).unbooked
  | _ => True

instance (s : State τ) (x : Action τ) : Decidable (Room s x) :=
  match x with
  | .tick t => inferInstanceAs (Decidable ((s.pc t).adds = true →
      ∑ u, (s.pc u).overdue < s.arena.bitmap.freeCount + ∑ u, (s.pc u).unbooked))
  | .allocate _ => isTrue trivial
  | .release _ _ => isTrue trivial

def counted (s : State τ) : Nat := s.live.length + ∑ t, (s.pc t).counted

variable {n c : Nat} {s s' : State τ}

omit [DecidableEq τ] in
theorem Owning.card (h : Owning n c s) :
    counted s + ∑ t, (s.pc t).unbooked + s.arena.bitmap.freeCount = n + ∑ t, (s.pc t).overdue := by
  have hcard := congrArg Multiset.card h.slots
  rw [Multiset.card_add, Multiset.card_add, Multiset.coe_card, Multiset.card_sum, Multiset.card_range,
    Finset.card_val, ← freeCount_eq_card h.sound.paddingClear] at hcard
  have hsum : ∑ t, (s.pc t).counted + ∑ t, (s.pc t).unbooked =
      ∑ t, (s.pc t).held.card + ∑ t, (s.pc t).overdue := by
    rw [← Finset.sum_add_distrib, ← Finset.sum_add_distrib]
    exact Finset.sum_congr rfl fun t _ => counted_add_unbooked (s.pc t)
  rw [counted]
  omega

structure Counted (n c : Nat) (s : State τ) : Prop where
  owning : Owning n c s
  fits : n * c ≤ usizeMax
  reserved : s.arena.metrics.bytesReserved = n * c
  counted_le : counted s ≤ n
  bytesLive : s.arena.metrics.bytesLive = counted s * c

theorem counted_update (a : ArenaInner) (live : List Nat) (pc : τ → Pc) (t : τ) (p : Pc) :
    counted ⟨a, live, update pc t p⟩ + (pc t).counted = live.length + ∑ u, (pc u).counted + p.counted := by
  have hsum := sum_update Pc.counted pc t p
  rw [counted, add_assoc, hsum, add_assoc]

omit [DecidableEq τ] in
theorem Counted.lt (h : Counted n c s) {k : Nat} (hk : k ≤ n) : k * c < 2 ^ usizeBits :=
  Nat.lt_of_le_pred (by decide) ((Nat.mul_le_mul_right c hk).trans h.fits)

theorem Counted.advance {t : τ} {r : ArenaInner × Pc} (h : Counted n c s) (hroom : Room s (.tick t))
    (hcount : Counting s.arena (s.pc t) r) (ho : Owning n c { s with arena := r.1, pc := update s.pc t r.2 }) :
    Counted n c { s with arena := r.1, pc := update s.pc t r.2 } := by
  have hmove : counted { s with arena := r.1, pc := update s.pc t r.2 } + (s.pc t).counted =
      counted s + r.2.counted := counted_update r.1 s.live s.pc t r.2
  have hle := h.counted_le
  have hreserved := hcount.reserved.trans h.reserved
  cases hcount.booking with
  | quiet hbytes hcounted =>
      rw [hcounted] at hmove
      have hsame := Nat.add_right_cancel hmove
      refine ⟨ho, h.fits, hreserved, hsame.trans_le hle, ?_⟩
      rw [hsame]
      exact hbytes.trans h.bytesLive
  | add hbytes hp hcounted =>
      have hcard := h.owning.card
      have hfree := hroom hp
      have hmore : counted { s with arena := r.1, pc := update s.pc t r.2 } = counted s + 1 := by omega
      have hfits : counted s + 1 ≤ n := by omega
      refine ⟨ho, h.fits, hreserved, hmore.trans_le hfits, ?_⟩
      rw [hmore, Nat.succ_mul]
      have hlt := h.lt hfits
      rw [Nat.succ_mul] at hlt
      change r.1.metrics.bytesLive = _
      rw [hbytes, h.bytesLive, h.owning.slotCapacity, fetchAdd]
      exact Nat.mod_eq_of_lt hlt
  | sub hbytes hcounted =>
      have hless : counted s = counted { s with arena := r.1, pc := update s.pc t r.2 } + 1 := by omega
      refine ⟨ho, h.fits, hreserved, by omega, ?_⟩
      have hlt := h.lt hle
      rw [hless, Nat.succ_mul, Nat.add_comm] at hlt
      change r.1.metrics.bytesLive = _
      rw [hbytes, h.bytesLive, h.owning.slotCapacity, hless, Nat.succ_mul, Nat.add_comm]
      exact fetchSub_add _ _ hlt

omit [DecidableEq τ] in
theorem Counted.regroup {live : List Nat} {pc : τ → Pc} (h : Counted n c s) (ho : Owning n c ⟨s.arena, live, pc⟩)
    (hcounted : counted ⟨s.arena, live, pc⟩ = counted s) : Counted n c ⟨s.arena, live, pc⟩ := by
  refine ⟨ho, h.fits, h.reserved, hcounted.trans_le h.counted_le, ?_⟩
  rw [hcounted]
  exact h.bytesLive

theorem step_counted {x : Action τ} (h : Counted n c s) (hroom : Room s x) (hs : step s x = some s') :
    Counted n c s' := by
  have ho := step_owning h.owning hs
  cases step_cases hs with
  | allocate t p hidle hp =>
      have hmove := counted_update s.arena s.live s.pc t p
      have hcounted : p.counted = (s.pc t).counted := by
        rw [hidle]
        rcases hp with rfl | rfl <;> rfl
      rw [hcounted] at hmove
      exact h.regroup ho (Nat.add_right_cancel hmove)
  | release t slotIdx hidle hlive =>
      have hmove := counted_update s.arena (s.live.erase slotIdx) s.pc t (.scrub slotIdx)
      have hlength := List.length_erase_add_one hlive
      rw [hidle] at hmove
      change counted _ + 0 = _ + _ + 1 at hmove
      refine h.regroup ho (hmove.trans ?_)
      rw [counted, ← hlength, Nat.add_right_comm]
  | handOut t slotIdx hpc =>
      have hmove := counted_update s.arena (slotIdx :: s.live) s.pc t .idle
      rw [hpc] at hmove
      change counted _ + 1 = s.live.length + 1 + _ + 0 at hmove
      refine h.regroup ho (Nat.add_right_cancel (hmove.trans ?_))
      rw [counted, Nat.add_zero, Nat.add_right_comm]
  | advance t hidle hret => exact h.advance hroom (advance_counting s.arena (s.pc t)) ho

omit [DecidableEq τ] in
theorem start_counted {n c : Nat} (autoSpill : Bool) (initPolicy : InitPolicy) (memory : Memory)
    (hfits : n * c ≤ usizeMax) : Counted n c (start (.build n c autoSpill initPolicy memory) : State τ) := by
  have hnone : counted (start (.build n c autoSpill initPolicy memory) : State τ) = 0 := by
    simp [counted, start, Pc.counted]
  refine ⟨start_owning n c autoSpill initPolicy memory, hfits, rfl, hnone.trans_le (Nat.zero_le n), ?_⟩
  rw [hnone, Nat.zero_mul]
  rfl

end ArenaAlligator.FixedThreads

namespace ArenaAlligator.LiveBytes

open Lifecycle MetricsRuns Runs

section Builders

variable {τ : Type} [Fintype τ] {b : Builder} {memory : Memory} {initPolicy : InitPolicy}

theorem buddy_counted {inner : BuddyArenaInner} (h : b.arena initPolicy memory = .buddy inner) :
    BuddyThreads.Counted inner.geometry (⟨inner, [], fun _ => .idle⟩ : BuddyThreads.State τ) := by
  cases b with
  | fixed | rawFixed => cases h
  | buddy g autoSpill =>
      cases h
      exact BuddyThreads.start_counted g autoSpill initPolicy memory
  | rawBuddy g len =>
      cases h
      exact BuddyThreads.start_counted g false initPolicy memory

theorem fixed_counted {inner : ArenaInner} (hb : Accepted memory b) (h : b.arena initPolicy memory = .fixed inner) :
    FixedThreads.Counted inner.slotCount inner.slotCapacity (FixedThreads.start inner : FixedThreads.State τ) := by
  cases hb with
  | fixed hbuild =>
      have hlayout := buildInner_layout hbuild
      cases h
      exact FixedThreads.start_counted _ initPolicy memory (hlayout.bytes_le.trans hlayout.len_le)
  | rawFixed hbuild =>
      have hlayout := raw_build_layout hbuild
      cases h
      exact FixedThreads.start_counted false initPolicy memory (hlayout.bytes_le.trans hlayout.len_le)
  | buddy | rawBuddy => cases h

end Builders

variable {τ : Type} [DecidableEq τ] [Fintype τ]

/-- Under concurrency bytes_live is exact for what is live and in flight and
stays within the reservation: always in a buddy arena, and in a fixed arena as
long as every thread that adds its bytes finds room for them. -/
theorem live_bytes_within_reserved (b : Builder) (initPolicy : InitPolicy) (memory : Memory)
    (hb : Accepted memory b) :
    (∀ inner, b.arena initPolicy memory = .buddy inner →
      ∀ s : BuddyThreads.State τ, Reachable BuddyThreads.step ⟨inner, [], fun _ => .idle⟩ s →
        s.arena.metrics.bytesLive = BuddyThreads.bytesOf s.arena (BuddyThreads.counted s) ∧
        s.arena.metrics.bytesLive ≤ s.arena.metrics.bytesReserved) ∧
    (∀ inner, b.arena initPolicy memory = .fixed inner →
      ∀ (as : List (FixedThreads.Action τ)) (s : FixedThreads.State τ),
        run FixedThreads.step (FixedThreads.start inner) as = some s →
        Meets FixedThreads.step FixedThreads.Room (FixedThreads.start inner) as →
        s.arena.metrics.bytesLive = FixedThreads.counted s * s.arena.slotCapacity ∧
        s.arena.metrics.bytesLive ≤ s.arena.metrics.bytesReserved) := by
  constructor
  · intro inner hinner s hreach
    have hs := hreach.invariant (BuddyThreads.Counted inner.geometry) (buddy_counted hinner) fun _ _ _ h hstep =>
      BuddyThreads.step_counted h hstep
    refine ⟨hs.bytesLive, ?_⟩
    rw [hs.bytesLive, hs.reserved]
    exact hs.owning.bytesOf_le
  · intro inner hinner as s hrun hroom
    have hs := run_preserves_of_meets (FixedThreads.Counted inner.slotCount inner.slotCapacity)
      (fun _ _ _ h hok hstep => FixedThreads.step_counted h hok hstep) (fixed_counted hb hinner) hroom hrun
    refine ⟨by rw [hs.bytesLive, hs.owning.slotCapacity], ?_⟩
    rw [hs.bytesLive, hs.reserved]
    exact Nat.mul_le_mul_right _ hs.counted_le

def loneInner : ArenaInner := .build 1 1 false .uninit fun _ => 0

/-- One thread allocates the only slot and releases it. Before it takes its
bytes away, another thread claims the slot. -/
def reclaimed : List (FixedThreads.Action (Fin 2)) :=
  .allocate 0 :: List.replicate 7 (.tick 0) ++ [.release 0 0, .tick 0, .tick 0, .allocate 1] ++
    List.replicate 5 (.tick 1)

def settled : List (FixedThreads.Action (Fin 2)) := reclaimed ++ [.tick 0, .tick 0, .tick 1]

def settledState : FixedThreads.State (Fin 2) :=
  (run FixedThreads.step (FixedThreads.start loneInner) settled).getD (FixedThreads.start loneInner)

theorem settledState_reached : run FixedThreads.step (FixedThreads.start loneInner) settled = some settledState :=
  run_eq_some_getD (by decide +kernel)

theorem live_bytes_within_reserved_lone :
    Accepted (fun _ => 0) loneSlot ∧ loneSlot.arena .uninit (fun _ => 0) = .fixed loneInner ∧
    Meets FixedThreads.step FixedThreads.Room (FixedThreads.start loneInner : FixedThreads.State (Fin 2)) settled ∧
    settledState.arena.metrics.bytesLive = 1 ∧
    settledState.arena.metrics.bytesLive ≤ settledState.arena.metrics.bytesReserved := by
  have hroom : Meets FixedThreads.step FixedThreads.Room
      (FixedThreads.start loneInner : FixedThreads.State (Fin 2)) settled := by
    decide +kernel
  obtain ⟨-, hfixed⟩ :=
    live_bytes_within_reserved (τ := Fin 2) loneSlot .uninit (fun _ => 0) loneSlot_accepted
  refine ⟨loneSlot_accepted, rfl, hroom, by decide +kernel, ?_⟩
  exact (hfixed loneInner rfl settled settledState settledState_reached hroom).2

def reclaimedState : FixedThreads.State (Fin 2) :=
  (run FixedThreads.step (FixedThreads.start loneInner) (reclaimed ++ [.tick 1])).getD (FixedThreads.start loneInner)

theorem reclaimedState_reached :
    run FixedThreads.step (FixedThreads.start loneInner) (reclaimed ++ [.tick 1]) = some reclaimedState :=
  run_eq_some_getD (by decide +kernel)

/-- The other thread adds its bytes first, and more bytes are live than there
are. -/
theorem reclaimed_slot_counted_twice :
    Accepted (fun _ => 0) loneSlot ∧ loneSlot.arena .uninit (fun _ => 0) = .fixed loneInner ∧
    Reachable FixedThreads.step (FixedThreads.start loneInner) reclaimedState ∧
    reclaimedState.arena.metrics.bytesReserved = 1 ∧ reclaimedState.arena.metrics.bytesLive = 2 :=
  ⟨loneSlot_accepted, rfl, ⟨_, reclaimedState_reached⟩, by decide +kernel, by decide +kernel⟩

end ArenaAlligator.LiveBytes
