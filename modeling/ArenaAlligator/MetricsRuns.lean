import ArenaAlligator.SlotLayout
import ArenaAlligator.SpillCounts
import ArenaAlligator.ZeroPolicy

namespace ArenaAlligator.MetricsRuns

open BuddyArenaInner Lifecycle MetricsAccounts ReleasedOnce SpillCounts UnitOwnership Usize ZeroPolicy

theorem booked_ownSteps {k : AllocationKind} {offset size made : Nat} {live : Multiset AllocationKind}
    {y z : Store × Bool} (hsteps : OwnSteps k offset size y z) (h : Booked y.1.arena (due k y.2 + live) made) :
    Booked z.1.arena (due k z.2 + live) made := by
  induction hsteps with
  | refl => exact h
  | tail _ hstep ih =>
      cases hstep with
      | store houtside => exact ih.setMemory _
      | recordSpill => exact ih.recordSpill
      | recordFrozen => exact ih.recordFrozen
      | release hrelease =>
          have hlive : due k true + live = live := zero_add live
          rw [hlive]
          exact ih.release (Store.release_eq_some hrelease).1

/-- Totals behind the two counters: what spilled was released, and what
spilled, was frozen or is still plain was allocated. -/
def Marked (a : ArenaRef) (slots : List Slot) : Prop :=
  ∃ spilled frozen, a.metrics.spills = spilled % 2 ^ usizeBits ∧ a.metrics.frozen = frozen % 2 ^ usizeBits ∧
    spilled ≤ slots.countP (fun slot => !slot.holder.reads) ∧
    spilled + frozen + slots.countP (fun slot => plain slot.holder) ≤ slots.length

variable {w w' : World}

theorem Marked.handOut {n : Nat} (h : Marked w.arena w.slots) (hout : HandedOut w n w') :
    Marked w'.arena w'.slots := by
  obtain ⟨spilled, frozen, hs, hf, hfreed, hmade⟩ := h
  cases hout with
  | idle => exact ⟨spilled, frozen, hs, hf, hfreed, hmade⟩
  | refused he =>
      have hmetrics := MetricsAccounts.allocate_error_metrics he
      exact ⟨spilled, frozen, by rw [hmetrics]; exact hs, by rw [hmetrics]; exact hf, hfreed, hmade⟩
  | served hhandles hbuf hcoherent hreads hkeeps =>
      obtain ⟨splits, hmetrics⟩ := allocate_ok_metrics (Prod.ext hbuf rfl)
      refine ⟨spilled, frozen, ?_, ?_, ?_, ?_⟩
      · change (w.arena.allocate n).2.metrics.spills = _
        rw [hmetrics]
        exact hs
      · change (w.arena.allocate n).2.metrics.frozen = _
        rw [hmetrics]
        exact hf
      · simp only [World.addSlot, List.countP_append]
        omega
      · simp only [World.addSlot, List.countP_append, List.countP_singleton, List.length_append, List.length_singleton]
        split <;> omega

theorem toNat_le_toNat {p q : Bool} (h : p = true → q = true) : p.toNat ≤ q.toNat := by
  cases p with
  | false => exact Nat.zero_le _
  | true => rw [h rfl]

theorem Marked.own {id : Nat} {slot : Slot} {r : Moved} (h : Marked w.arena w.slots) (hslot : w.slots[id]? = some slot)
    (hnoted : Noted w.arena.metrics slot.holder r.store.arena.metrics r.holder)
    (hacted : Acted w.arena slot.allocation slot.holder r) :
    Marked r.store.arena (w.slots.set id ⟨slot.allocation, r.holder⟩) := by
  obtain ⟨spilled, frozen, hs, hf, hfreed, hmade⟩ := h
  have hmono := toNat_le_toNat hacted.steps.releases.2
  have hunread := countP_set_add hslot (fun slot => !slot.holder.reads) ⟨slot.allocation, r.holder⟩
  have hplains := countP_set_add hslot (fun slot => plain slot.holder) ⟨slot.allocation, r.holder⟩
  simp only at hmono hunread hplains
  cases hnoted with
  | quiet hs' hf' hplain =>
      have hle := toNat_le_toNat hplain
      refine ⟨spilled, frozen, hs'.trans hs, hf'.trans hf, by omega, ?_⟩
      rw [List.length_set]
      omega
  | spill hs' hf' hplain hreads =>
      have hafter : plain r.holder = false := Bool.eq_false_iff.mpr fun h => by
        rw [reads_of_plain h] at hreads
        cases hreads
      rw [hreads, reads_of_plain hplain] at hunread
      rw [hplain, hafter] at hplains
      simp only [Bool.not_true, Bool.not_false, Bool.toNat_true, Bool.toNat_false] at hunread hplains
      refine ⟨spilled + 1, frozen, by rw [hs', hs, fetchAdd_mod], hf'.trans hf, by omega, ?_⟩
      rw [List.length_set]
      omega
  | freeze hs' hf' hplain hfrozen =>
      rw [hplain, hfrozen] at hplains
      simp only [Bool.toNat_true, Bool.toNat_false] at hplains
      refine ⟨spilled, frozen + 1, hs'.trans hs, by rw [hf', hf, fetchAdd_mod], by omega, ?_⟩
      rw [List.length_set]
      omega

structure Ledger (w : World) : Prop where
  booked : Booked w.arena (liveOf w.slots) w.slots.length
  marked : Marked w.arena w.slots

theorem booked_handOut {n : Nat} (h : Booked w.arena (liveOf w.slots) w.slots.length) (hout : HandedOut w n w') :
    Booked w'.arena (liveOf w'.slots) w'.slots.length := by
  cases hout with
  | idle => exact h
  | refused he => exact h.allocate_error he
  | served hhandles hbuf hcoherent hreads =>
      rw [liveOf_addSlot _ hreads, World.addSlot, List.length_append]
      exact h.allocate_ok (Prod.ext hbuf rfl)

theorem Ledger.stepped {bc : BytesCrate} (h : Ledger w) (hstep : Stepped bc w w') : Ledger w' := by
  cases hstep with
  | quiet harena hslots =>
      constructor
      · rw [harena, hslots]
        exact h.booked
      · rw [harena, hslots]
        exact h.marked
  | out hout => exact ⟨booked_handOut h.booked hout, h.marked.handOut hout⟩
  | own hslot hr hacted =>
      obtain ⟨rest, hlive, hset⟩ := liveOf_set hslot
      obtain ⟨hslots, harena⟩ := settle_slots w _ _ _
      have hbooked := h.booked
      rw [hlive] at hbooked
      constructor
      · rw [hslots, harena, hset, List.length_set]
        exact booked_ownSteps hacted.steps hbooked
      · rw [hslots, harena]
        exact h.marked.own hslot (act_noted bc hr) hacted

/-- What a builder can return. -/
inductive Accepted (memory : Memory) : Builder → Prop
  | fixed {b : FixedArenaBuilder} {inner : ArenaInner} {len : Nat} (h : b.buildInner memory = .ok (inner, len)) :
      Accepted memory (.fixed inner.slotCount inner.slotCapacity inner.autoSpill)
  | rawFixed {b : RawBackedFixedArenaBuilder} {inner : ArenaInner} {len : Nat} (h : b.build memory = .ok (inner, len)) :
      Accepted memory (.rawFixed inner.slotCount inner.slotCapacity len)
  | buddy (g : BuddyGeometry) (autoSpill : Bool) : Accepted memory (.buddy g autoSpill)
  | rawBuddy (g : BuddyGeometry) (len : Nat) : Accepted memory (.rawBuddy g len)

variable {memory : Memory}

theorem booked_fixed {inner : ArenaInner} {alignment len : Nat} (h : SoundLayout inner alignment len) (autoSpill : Bool)
    (initPolicy : InitPolicy) :
    Booked (.fixed (.build inner.slotCount inner.slotCapacity autoSpill initPolicy memory)) 0 0 where
  kept := ⟨ArenaInner.build_sound _ _ _ _ _, 0, rfl, Multiset.nodup_zero, fun _ h => absurd h (Multiset.notMem_zero _)⟩
  unit_pos := h.capacity_pos
  fits := h.bytes_le.trans h.len_le
  reserved := rfl
  card_le := le_rfl
  allocationsOk := rfl
  frees := rfl
  bytesLive := rfl
  levelled := trivial

theorem capacity_buddy (inner : BuddyArenaInner) : capacity (.buddy inner) = inner.geometry.totalSize := by
  rw [inner.geometry.totalSize_eq, capacity, unitCount, unitSize, blocksAtOrder, Nat.sub_zero, Nat.shiftLeft_eq,
    Nat.shiftLeft_eq, one_mul, Nat.mul_comm]
  rfl

theorem minBlockSize_pos (g : BuddyGeometry) : 0 < g.minBlockSize := by
  obtain ⟨k, hk⟩ := g.minBlockSize_pow
  rw [hk]
  exact Nat.two_pow_pos k

theorem booked_buddy (g : BuddyGeometry) (autoSpill : Bool) (initPolicy : InitPolicy) :
    Booked (.buddy (.build g autoSpill initPolicy memory)) 0 0 where
  kept := ⟨0, rfl, BuddyRuns.build_balanced g autoSpill initPolicy memory⟩
  unit_pos := minBlockSize_pos g
  fits := by rw [capacity_buddy]; exact Nat.le_pred_of_lt g.totalSize_lt
  reserved := (capacity_buddy (.build g autoSpill initPolicy memory)).symm
  card_le := le_rfl
  allocationsOk := rfl
  frees := rfl
  bytesLive := rfl
  levelled := build_accounted g autoSpill initPolicy memory

theorem Accepted.booked {b : Builder} (h : Accepted memory b) (initPolicy : InitPolicy) :
    Booked (b.arena initPolicy memory) 0 0 := by
  cases h with
  | fixed h => exact booked_fixed (buildInner_layout h) _ initPolicy
  | rawFixed h => exact booked_fixed (raw_build_layout h) false initPolicy
  | buddy g autoSpill => exact booked_buddy g autoSpill initPolicy
  | rawBuddy g len => exact booked_buddy g false initPolicy

theorem Ledger.build {b : Builder} (h : Accepted memory b) (ptr : Nat) (initPolicy : InitPolicy) :
    Ledger (b.build ptr initPolicy memory) := by
  refine ⟨h.booked initPolicy, 0, 0, ?_, ?_, le_rfl, le_rfl⟩
  · cases b <;> rfl
  · cases b <;> rfl

theorem card_liveOf (slots : List Slot) :
    (liveOf slots).card + slots.countP (fun slot => !slot.holder.reads) = slots.length := by
  induction slots with
  | nil => rfl
  | cons slot slots ih =>
      have hcons : liveOf (slot :: slots) = due slot.allocation (!slot.holder.reads) + liveOf slots := by simp [liveOf]
      rw [hcons, Multiset.card_add, List.countP_cons, List.length_cons]
      cases slot.holder.reads <;> simp [due] <;> omega

theorem card_freeBlocks {inner : BuddyArenaInner} (h : Kept (.buddy inner) 0) : inner.freeBlocks.card = 1 := by
  obtain ⟨blocks, hlive, hbal⟩ := h
  obtain rfl := Multiset.map_eq_zero.mp hlive.symm
  have hbuilt := BuddyRuns.build_balanced inner.geometry false .uninit fun _ => 0
  rw [BuddyRuns.Balanced.freeBlocks_eq hbal hbuilt, build_freeBlocks, Finset.card_singleton]

/-- The conservation law of splits and merges, for counters that wrap. -/
theorem Accounted.difference {inner : BuddyArenaInner} {n : Nat} (h : inner.Accounted n)
    (hlt : n + inner.freeBlocks.card < 2 ^ usizeBits) :
    fetchAdd (fetchSub inner.metrics.splits inner.metrics.coalesces) 1 = n + inner.freeBlocks.card := by
  obtain ⟨splits, coalesces, hs, hc, hsum⟩ := h
  rw [hs, hc]
  simp only [fetchAdd, fetchSub, usizeBits] at hlt ⊢
  omega

theorem Booked.card_lt {a : ArenaRef} {live : Multiset AllocationKind} {made : Nat} (h : Booked a live made) :
    live.card < 2 ^ usizeBits := by
  have hunits : unitCount a ≤ capacity a := Nat.le_mul_of_pos_right _ h.unit_pos
  exact Nat.lt_of_le_pred (by decide) (((Kept.card_le h.kept).trans hunits).trans h.fits)

theorem card_blocks_lt {inner : BuddyArenaInner} {live : Multiset AllocationKind} (h : Kept (.buddy inner) live) :
    live.card + inner.freeBlocks.card < 2 ^ usizeBits := by
  obtain ⟨blocks, rfl, hbal⟩ := h
  have hcard := card_tiles_le hbal.tiles
  have hlt : 2 ^ inner.maxOrder < 2 ^ usizeBits :=
    Nat.pow_lt_pow_right (by decide) inner.geometry.maxOrder_lt
  rw [Multiset.card_add, Finset.card_val] at hcard
  rw [Multiset.card_map]
  omega

def oneByte : NonZeroUsize where
  get := 1
  pos := Nat.one_pos
  le_max := by decide

def loneConfig : BuildConfig where
  alignment := 1
  autoSpill := false
  initPolicy := .uninit
  alignment_le := by decide

def loneSlot : Builder := .fixed 1 1 false

theorem loneSlot_accepted : Accepted (fun _ => 0) loneSlot :=
  .fixed (b := .withSlotCapacity oneByte oneByte loneConfig) rfl

def plainBytes : BytesCrate where
  bytesMut := ⟨0, fun _ => 0⟩
  emptySliceKeeps := false

def loneWorld : World := loneSlot.build 4096 .uninit fun _ => 0

def frozenOnce : List Action := [.allocate 1, .own 0 .freeze, .own 0 (.dropBytes 0)]

/-- At every point of every run: allocations less frees are the live ones and
their full sizes are the live bytes, within what is reserved; splits less
merges account for all blocks. The counters of events wrap, so spills and
freezes are bounded by frees and allocations until 2^64 of these. -/
theorem metrics_account_exactly (bc : BytesCrate) (b : Builder) (ptr : Nat) (initPolicy : InitPolicy) (memory : Memory)
    (hb : Accepted memory b) (acts : List Action) :
    ∃ w, run bc (b.build ptr initPolicy memory) acts = some w ∧
      fetchSub w.arena.metrics.allocationsOk w.arena.metrics.frees = (liveOf w.slots).card ∧
      w.arena.metrics.bytesLive = bytes w.arena (liveOf w.slots) ∧
      w.arena.metrics.bytesLive ≤ w.arena.metrics.bytesReserved ∧
      (w.slots.length < 2 ^ usizeBits →
        w.arena.metrics.frees + (liveOf w.slots).card = w.arena.metrics.allocationsOk ∧
        w.arena.metrics.spills ≤ w.arena.metrics.frees ∧
        w.arena.metrics.frozen + w.arena.metrics.spills ≤ w.arena.metrics.allocationsOk) ∧
      ∀ inner, w.arena = .buddy inner →
        fetchAdd (fetchSub inner.metrics.splits inner.metrics.coalesces) 1 =
          (liveOf w.slots).card + inner.freeBlocks.card ∧
        (liveOf w.slots = 0 → inner.metrics.splits = inner.metrics.coalesces) := by
  obtain ⟨w, hrun, hbooked, hmarked⟩ := (Sound.build b ptr initPolicy memory).run_invariant bc Ledger
    (fun _ _ => Ledger.stepped) (Ledger.build hb ptr initPolicy) acts
  have hfrees : w.slots.length - (liveOf w.slots).card + (liveOf w.slots).card = w.slots.length :=
    Nat.sub_add_cancel hbooked.card_le
  refine ⟨w, hrun, ?_, hbooked.bytesLive, ?_, fun hfew => ?_, ?_⟩
  · have hdiff := fetchSub_mod (x := w.slots.length - (liveOf w.slots).card) (Booked.card_lt hbooked)
    rw [hfrees] at hdiff
    rw [hbooked.allocationsOk, hbooked.frees, hdiff]
  · rw [hbooked.bytesLive, hbooked.reserved]
    exact Kept.bytes_le hbooked.kept
  · obtain ⟨spilled, frozen, hs, hf, hfreed, hmade⟩ := hmarked
    have hcard := card_liveOf w.slots
    rw [hbooked.allocationsOk, hbooked.frees, hs, hf, Nat.mod_eq_of_lt hfew, Nat.mod_eq_of_lt (by omega),
      Nat.mod_eq_of_lt (by omega), Nat.mod_eq_of_lt (by omega)]
    omega
  · intro inner hinner
    have hkept := hbooked.kept
    have hlevel := hbooked.levelled
    rw [hinner] at hkept hlevel
    refine ⟨Accounted.difference hlevel (card_blocks_lt hkept), fun hnone => ?_⟩
    obtain ⟨splits, coalesces, hs, hc, hsum⟩ := hlevel
    rw [hnone] at hkept hsum
    rw [card_freeBlocks hkept, Multiset.card_zero] at hsum
    rw [hs, hc, Nat.succ.inj hsum]

def heldAgain : List Action := frozenOnce ++ [.allocate 1]

theorem metrics_account_exactly_lone :
    Accepted (fun _ => 0) loneSlot ∧
    ∃ w, run plainBytes (loneSlot.build 4096 .uninit fun _ => 0) heldAgain = some w ∧
      (liveOf w.slots).card = 1 ∧ w.arena.metrics.bytesLive = 1 ∧ w.arena.metrics.allocationsOk = 2 ∧
      w.arena.metrics.bytesLive = bytes w.arena (liveOf w.slots) ∧
      w.arena.metrics.bytesLive ≤ w.arena.metrics.bytesReserved ∧
      w.arena.metrics.frees + (liveOf w.slots).card = w.arena.metrics.allocationsOk ∧
      w.arena.metrics.frozen + w.arena.metrics.spills ≤ w.arena.metrics.allocationsOk := by
  obtain ⟨w, hrun, -, hbytes, hle, hfew, -⟩ :=
    metrics_account_exactly plainBytes loneSlot 4096 .uninit (fun _ => 0) loneSlot_accepted heldAgain
  have hw : w = (run plainBytes loneWorld heldAgain).getD loneWorld := by
    rw [loneWorld, hrun]
    rfl
  have hlive : (liveOf w.slots).card = 1 ∧ w.arena.metrics.bytesLive = 1 ∧ w.arena.metrics.allocationsOk = 2 ∧
      w.slots.length < 2 ^ usizeBits := by
    rw [hw]
    decide +kernel
  obtain ⟨hfrees, -, hmade⟩ := hfew hlive.2.2.2
  exact ⟨loneSlot_accepted, w, hrun, hlive.1, hlive.2.1, hlive.2.2.1, hbytes, hle, hfrees, hmade⟩

/-- Allocations that are dropped at once, with the identities from id on. -/
def churn : Nat → Nat → List Action
  | _, 0 => []
  | id, n + 1 => .allocate 1 :: .own id .drop :: churn (id + 1) n

def slotFree (slotIdx : Nat) : ArenaRef → Bool
  | .fixed inner => inner.bitmap.bit slotIdx
  | .buddy _ => false

structure Idle (w : World) (made : Nat) : Prop where
  kept : Kept w.arena 0
  free : ∃ slotIdx, slotFree slotIdx w.arena = true
  handles : w.handles ≠ 0
  slots : w.slots.length = made
  allocationsOk : w.arena.metrics.allocationsOk = made % 2 ^ usizeBits
  marks : w.arena.metrics.frozen = 1 ∧ w.arena.metrics.spills = 0

theorem allocate_of_free {a : ArenaRef} (hkept : Kept a 0) {slotIdx : Nat} (hfree : slotFree slotIdx a = true)
    (len : Nat) : ∃ buf c j, a.allocate len = (.ok buf, c) ∧ buf.allocation = .fixed j := by
  cases a with
  | fixed inner =>
      rcases ArenaInner.allocate_cases hkept.1.paddingClear with ⟨buf, j, hok, hj, -⟩ | ⟨-, hfull, -⟩
      · exact ⟨buf, _, j, Prod.ext hok rfl, hj⟩
      · rw [slotFree, hfull] at hfree
        cases hfree
  | buddy inner => cases hfree

theorem release_slotFree {a c : ArenaRef} {j : Nat} (hkept : Kept a (.fixed j ::ₘ 0))
    (hc : a.release (.fixed j) = some c) : slotFree j c = true := by
  cases a with
  | fixed inner =>
      cases hc
      obtain ⟨hsound, slots, hlive, -, hslots⟩ := hkept
      obtain ⟨i, hi, hkind, -⟩ := (Multiset.map_eq_cons _ _ _ _).mpr hlive.symm
      cases hkind
      rw [slotFree, ArenaInner.release_bit hsound (hslots j hi).1, Function.update_self]
  | buddy inner => cases hc

theorem settle_handles (w : World) (id : Nat) (k : AllocationKind) (r : Moved) :
    (w.settle id k r).handles = w.handles := by
  simp only [World.settle, World.dropRef]
  split
  · split <;> rfl
  · rfl

theorem Idle.round (bc : BytesCrate) {made : Nat} (h : Idle w made) :
    ∃ w', run bc w [.allocate 1, .own made .drop] = some w' ∧ Idle w' (made + 1) := by
  obtain ⟨slotIdx, hfree⟩ := h.free
  obtain ⟨buf, c, j, hok, hj⟩ := allocate_of_free h.kept hfree 1
  obtain ⟨hserves, -, -, hreleased, -⟩ := ArenaRef.allocate_fresh hok
  obtain ⟨d, hd⟩ := hserves.release
  have hkept := (h.kept.allocate_ok hok).1
  obtain ⟨splits, hallocated⟩ := allocate_ok_metrics hok
  obtain ⟨coalesces, hfreed⟩ := release_metrics hd
  let v : World := World.addSlot { w with arena := c } buf.allocation (.buffer buf)
  let r : Moved := ⟨⟨d, [buf.allocation]⟩, .gone, true⟩
  have hfirst : step bc w (.allocate 1) = some v := by
    simp only [Lifecycle.step, if_neg h.handles, hok]
    rfl
  have hslot : v.slots[made]? = some ⟨buf.allocation, .buffer buf⟩ := by
    rw [← h.slots]
    exact List.getElem?_concat_length
  have hdrop : buf.drop ⟨c, []⟩ = some ⟨d, [buf.allocation]⟩ := by
    rw [Buffer.drop, hreleased, Store.release, hd]
    rfl
  have hsecond : step bc v (.own made .drop) = some (v.settle made buf.allocation r) := by
    simp only [Lifecycle.step, hslot, Holder.act, actBuffer]
    rw [show v.arena = c from rfl, hdrop]
    rfl
  refine ⟨v.settle made buf.allocation r, by simp only [run, hfirst, hsecond, Option.bind_some], ?_⟩
  obtain ⟨hslots, harena⟩ := settle_slots v made buf.allocation r
  constructor
  · rw [harena]
    exact hkept.release hd
  · rw [hj] at hkept hd
    exact ⟨j, by rw [harena]; exact release_slotFree hkept hd⟩
  · rw [settle_handles]
    exact h.handles
  · rw [hslots, List.length_set, ← h.slots]
    exact List.length_append
  · rw [harena, hfreed, ← fetchAdd_mod, ← h.allocationsOk]
    exact congrArg MetricsState.allocationsOk hallocated
  · rw [harena, hfreed]
    exact ⟨(congrArg MetricsState.frozen hallocated).trans h.marks.1,
      (congrArg MetricsState.spills hallocated).trans h.marks.2⟩

theorem run_append {bc : BytesCrate} {v w : World} {xs : List Action} (h : run bc v xs = some w) (ys : List Action) :
    run bc v (xs ++ ys) = run bc w ys := by
  induction xs generalizing v with
  | nil =>
      cases h
      rfl
  | cons x xs ih =>
      obtain ⟨u, hu, hrest⟩ := Option.bind_eq_some_iff.mp h
      rw [List.cons_append, run, hu]
      exact ih hrest

theorem Idle.churn (bc : BytesCrate) {made : Nat} (h : Idle w made) (n : Nat) :
    ∃ w', run bc w (churn made n) = some w' ∧ Idle w' (made + n) := by
  induction n generalizing w made with
  | zero => exact ⟨w, rfl, h⟩
  | succ n ih =>
      obtain ⟨v, hv, hidle⟩ := h.round bc
      obtain ⟨w', hrun, hidle'⟩ := ih hidle
      rw [Nat.add_right_comm] at hidle'
      exact ⟨w', (run_append hv (MetricsRuns.churn (made + 1) n)).trans hrun, hidle'⟩

theorem idle_frozenOnce : ∃ w, run plainBytes loneWorld frozenOnce = some w ∧ Idle w 1 := by
  obtain ⟨w, hrun, hbooked, -⟩ := (Sound.build loneSlot 4096 .uninit fun _ => 0).run_invariant plainBytes Ledger
    (fun _ _ => Ledger.stepped) (Ledger.build loneSlot_accepted 4096 .uninit) frozenOnce
  have hw : w = (run plainBytes loneWorld frozenOnce).getD loneWorld := by
    rw [loneWorld, hrun]
    rfl
  have hlive : liveOf w.slots = 0 := by
    rw [hw]
    decide +kernel
  rw [hlive] at hbooked
  refine ⟨w, hrun, hbooked.kept, ⟨0, ?_⟩, ?_, ?_, ?_, ?_⟩ <;>
    rw [hw] <;>
    decide +kernel

/-- One freeze, and allocations until their counter is back at 0: more has been
frozen than allocated. -/
theorem frozen_beyond_allocations :
    Accepted (fun _ => 0) loneSlot ∧
    ∃ w, run plainBytes (loneSlot.build 4096 .uninit fun _ => 0) (frozenOnce ++ churn 1 (2 ^ usizeBits - 1)) = some w ∧
      ¬w.arena.metrics.frozen + w.arena.metrics.spills ≤ w.arena.metrics.allocationsOk := by
  obtain ⟨v, hv, hidle⟩ := idle_frozenOnce
  obtain ⟨w, hw, hidle'⟩ := hidle.churn plainBytes (2 ^ usizeBits - 1)
  refine ⟨loneSlot_accepted, w, (run_append hv _).trans hw, ?_⟩
  rw [hidle'.allocationsOk, hidle'.marks.1, hidle'.marks.2]
  decide

end ArenaAlligator.MetricsRuns
