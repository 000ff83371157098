import Mathlib.Data.UInt
import ArenaAlligator.BitmapRanges
import ArenaAlligator.ReleasedOnce
import ArenaAlligator.ScrubbedUnits
import ArenaAlligator.UnitOwnership

namespace ArenaAlligator.ZeroPolicy

open ScrubbedUnits UnitOwnership AtomicBitmap BuddyArenaInner Lifecycle ReleasedOnce

def initPolicy : ArenaRef → InitPolicy
  | .fixed inner => inner.initPolicy
  | .buddy inner => inner.initPolicy

def zeroedBitmap : ArenaRef → Option AtomicBitmap
  | .fixed inner => inner.zeroedBitmap
  | .buddy inner => inner.zeroedBitmap

structure Backed (a c : ArenaRef) (z : AtomicBitmap) (m : Memory) : Prop where
  policy : initPolicy c = initPolicy a
  size : unitSize c = unitSize a
  count : unitCount c = unitCount a
  zeroed : zeroedBitmap c = some z
  memory : c.memory = m

variable {a c : ArenaRef} {k : AllocationKind} {z : AtomicBitmap} {len : Nat} {buf : Buffer}

theorem backed_buddy {x y : BuddyArenaInner} (h : SameBacking x y) (hz : x.zeroedBitmap = some z) :
    Backed (.buddy x) (.buddy y) z x.memory :=
  ⟨h.initPolicy, congrArg BuddyGeometry.minBlockSize h.geometry,
    congrArg (fun g : BuddyGeometry => blocksAtOrder g.maxOrder 0) h.geometry, h.zeroedBitmap.trans hz, h.memory⟩

theorem allocate_error_backed (hz : zeroedBitmap a = some z) {e : AllocError} (h : (a.allocate len).1 = .error e) :
    Backed a (a.allocate len).2 z a.memory := by
  cases a with
  | fixed inner =>
      cases hr : inner.bitmap.tryAlloc.1 with
      | none =>
          simp only [ArenaRef.allocate, ArenaInner.allocate, hr]
          exact ⟨rfl, rfl, rfl, hz, rfl⟩
      | some slotIdx =>
          rw [ArenaRef.allocate, ArenaInner.allocate_of_some hr] at h
          cases h
  | buddy inner => exact backed_buddy (allocate_error_backing h) hz

theorem allocate_ok_backed (hpolicy : initPolicy a = .zero) (hz : zeroedBitmap a = some z)
    (h : a.allocate len = (.ok buf, c)) :
    Backed a c z
      (if z.allSetInRange (span buf.allocation).1 (span buf.allocation).2 then a.memory
        else zeroizeRegion a.memory (a.block buf.allocation).1 (a.block buf.allocation).2) := by
  cases ArenaRef.allocated h with
  | fixed inner slotIdx =>
      have heq :=
        ArenaInner.zeroOnAllocate_eq (a := { inner with bitmap := inner.bitmap.tryAlloc.2 }) hpolicy hz slotIdx
      rw [ArenaInner.handOut, heq]
      exact ⟨rfl, rfl, rfl, hz, rfl⟩
  | buddy inner t o i =>
      have hcarved := inner.carved_backing t o i
      have heq :=
        zeroOnAllocate_eq (hcarved.initPolicy.trans hpolicy) (hcarved.zeroedBitmap.trans hz) t (i * 2 ^ (o - t))
      have hback := backed_buddy hcarved hz
      rw [handOut, heq, ← ArenaRef.block_buddy hcarved.geometry]
      refine ⟨hback.policy, hback.size, hback.count, hback.zeroed, ?_⟩
      change ite _ _ _ = ite _ _ _
      rw [hcarved.memory]
      rfl

theorem release_backed (hpolicy : initPolicy a = .zero) (hz : zeroedBitmap a = some z) (h : a.release k = some c) :
    Backed a c (z.setRange (span k).1 (span k).2) (zeroizeRegion a.memory (a.block k).1 (a.block k).2) := by
  cases ArenaRef.released h with
  | fixed inner slotIdx =>
      rw [ArenaInner.release, ArenaInner.scrubOnRelease_eq hpolicy hz]
      exact ⟨rfl, rfl, rfl, rfl, rfl⟩
  | buddy inner order blockIdx =>
      have hback := inner.release_backing order blockIdx
      rw [scrubOnRelease_eq hpolicy hz] at hback
      obtain ⟨hpol, hsize, hcount, hzeroed, hmemory⟩ := backed_buddy hback rfl
      exact ⟨hpol, hsize, hcount, hzeroed, hmemory⟩

theorem zeroOn_zeroizeRegion (m : Memory) (offset size : Nat) :
    ZeroOn (zeroizeRegion m offset size) offset (offset + size) :=
  fun _ hlo hhi => if_pos ⟨hlo, hhi⟩

theorem zeroizeRegion_outside (m : Memory) {offset size i : Nat} (h : i < offset ∨ offset + size ≤ i) :
    zeroizeRegion m offset size i = m i :=
  if_neg (by omega)

/-- An arena with policy Zero and the allocations that have not been released:
a unit that is marked and not owned is zero. -/
structure Zeroing (a : ArenaRef) (live : Multiset AllocationKind) : Prop where
  kept : Kept a live
  policy : initPolicy a = .zero
  clean : ∃ z, zeroedBitmap a = some z ∧ z.slotCount = unitCount a ∧
    Clean (unitSize a) (fun u => z.bit u = true) (OwnedBy live) a.memory

variable {live : Multiset AllocationKind}

theorem block_end (h : a.Serves k) (hlt : (span k).1 < (span k).2) :
    (a.block k).1 = (span k).1 * unitSize a ∧ (a.block k).1 + (a.block k).2 = (span k).2 * unitSize a := by
  rw [block_eq_span h]
  refine ⟨rfl, ?_⟩
  simp only
  rw [← Nat.add_mul, Nat.add_sub_cancel' hlt.le]

theorem Zeroing.allocate_error (h : Zeroing a live) {e : AllocError} (he : (a.allocate len).1 = .error e) :
    Zeroing (a.allocate len).2 live := by
  obtain ⟨z, hz, hcount, hclean⟩ := h.clean
  have hback := allocate_error_backed hz he
  refine ⟨h.kept.allocate_error he, hback.policy.trans h.policy, z, hback.zeroed, hcount.trans hback.count.symm, ?_⟩
  rw [hback.size, hback.memory]
  exact hclean

/-- Every byte of the block that is handed out is zero. -/
theorem Zeroing.allocate_ok (h : Zeroing a live) (hbuf : a.allocate len = (.ok buf, c)) :
    Zeroing c (buf.allocation ::ₘ live) ∧
      ZeroOn c.memory (c.block buf.allocation).1 ((c.block buf.allocation).1 + (c.block buf.allocation).2) := by
  obtain ⟨z, hz, hcount, hclean⟩ := h.clean
  obtain ⟨hkept, hfree⟩ := h.kept.allocate_ok hbuf
  have hback := allocate_ok_backed h.policy hz hbuf
  obtain ⟨hserves, hlt, -⟩ := hkept.span_le (Multiset.mem_cons_self _ live)
  have hblock : c.block = a.block := by
    rw [← a.allocate_block len, hbuf]
  obtain ⟨hstart, hend⟩ := block_end hserves hlt
  rw [hback.size] at hstart hend
  have hzero : ZeroOn c.memory ((span buf.allocation).1 * unitSize a) ((span buf.allocation).2 * unitSize a) := by
    rw [hback.memory]
    split_ifs with hall
    · rw [allSetInRange_iff hlt] at hall
      exact hclean.zeroOn fun u hlo hhi => ⟨hall u hlo hhi, hfree u hlo hhi⟩
    · rw [← hstart, ← hend, ← hblock]
      exact zeroOn_zeroizeRegion _ _ _
  have hout : ∀ i, i < (span buf.allocation).1 * unitSize a ∨ (span buf.allocation).2 * unitSize a ≤ i →
      c.memory i = a.memory i := by
    intro i hi
    rw [hback.memory]
    split_ifs with hall
    · rfl
    · rw [← hstart, ← hend, hblock] at hi
      exact zeroizeRegion_outside _ hi
  refine ⟨⟨hkept, hback.policy.trans h.policy, z, hback.zeroed, hcount.trans hback.count.symm, ?_⟩, ?_⟩
  · rw [hback.size]
    refine (hclean.own fun u hu => ownedBy_cons.mpr (Or.inr hu)).store ?_ hout
    exact fun u hlo hhi => ownedBy_cons.mpr (Or.inl ⟨hlo, hhi⟩)
  · rw [hend, hstart]
    exact hzero

theorem Zeroing.release (h : Zeroing a (k ::ₘ live)) (hc : a.release k = some c) : Zeroing c live := by
  obtain ⟨z, hz, hcount, hclean⟩ := h.clean
  have hback := release_backed h.policy hz hc
  obtain ⟨hserves, hlt, hle⟩ := h.kept.span_le (Multiset.mem_cons_self k live)
  obtain ⟨hstart, hend⟩ := block_end hserves hlt
  refine ⟨h.kept.release hc, hback.policy.trans h.policy, _, hback.zeroed, ?_, ?_⟩
  · rw [(setRange_shape z _ _).slotCount, hback.count, hcount]
  · rw [hback.size, hback.memory]
    refine hclean.scrub (p := (span k).1) (q := (span k).2) ?_ ?_ ?_ ?_
    · rw [← hstart, ← hend]
      exact zeroOn_zeroizeRegion _ _ _
    · intro i hi
      rw [← hstart, ← hend] at hi
      exact zeroizeRegion_outside _ hi
    · exact fun u hu => (setRange_bit hlt (hle.trans hcount.ge) u).mp hu
    · exact fun u hu => (ownedBy_cons.mp hu).symm

theorem Zeroing.store (h : Zeroing a (k ::ₘ live)) {m : Memory}
    (hout : ∀ i, i < (a.block k).1 ∨ (a.block k).1 + (a.block k).2 ≤ i → m i = a.memory i) :
    Zeroing (a.setMemory m) (k ::ₘ live) := by
  obtain ⟨z, hz, hcount, hclean⟩ := h.clean
  obtain ⟨hserves, hlt, -⟩ := h.kept.span_le (Multiset.mem_cons_self k live)
  obtain ⟨hstart, hend⟩ := block_end hserves hlt
  have hown : ∀ u, (span k).1 ≤ u → u < (span k).2 → OwnedBy (k ::ₘ live) u :=
    fun u hlo hhi => ownedBy_cons.mpr (Or.inl ⟨hlo, hhi⟩)
  rw [hend, hstart] at hout
  have hclean' := hclean.store hown hout
  cases a with
  | fixed inner => exact ⟨h.kept.setMemory m, h.policy, z, hz, hcount, hclean'⟩
  | buddy inner => exact ⟨h.kept.setMemory m, h.policy, z, hz, hcount, hclean'⟩

theorem Zeroing.recordSpill (h : Zeroing a live) : Zeroing a.recordSpill live := by
  cases a with
  | fixed inner => exact ⟨h.kept.recordSpill, h.policy, h.clean⟩
  | buddy inner => exact ⟨h.kept.recordSpill, h.policy, h.clean⟩

theorem Zeroing.recordFrozen (h : Zeroing a live) : Zeroing a.recordFrozen live := by
  cases a with
  | fixed inner => exact ⟨h.kept.recordFrozen, h.policy, h.clean⟩
  | buddy inner => exact ⟨h.kept.recordFrozen, h.policy, h.clean⟩

def due (k : AllocationKind) (released : Bool) : Multiset AllocationKind := if released then 0 else {k}

theorem Zeroing.ownStep {offset size : Nat} {x y : Store × Bool} (hstep : OwnStep k offset size x y)
    (hregion : x.1.arena.block k = (offset, size)) (h : Zeroing x.1.arena (due k x.2 + live)) :
    Zeroing y.1.arena (due k y.2 + live) := by
  cases hstep with
  | store houtside =>
      apply Zeroing.store h
      rw [hregion]
      exact houtside
  | recordSpill => exact h.recordSpill
  | recordFrozen => exact h.recordFrozen
  | release hrelease =>
      have hlive : due k true + live = live := zero_add live
      rw [hlive]
      exact Zeroing.release h (Store.release_eq_some hrelease).1

theorem Zeroing.ownSteps {offset size : Nat} {x y : Store × Bool} (hsteps : OwnSteps k offset size x y)
    (hregion : x.1.arena.block k = (offset, size)) (h : Zeroing x.1.arena (due k x.2 + live)) :
    Zeroing y.1.arena (due k y.2 + live) := by
  induction hsteps with
  | refl => exact h
  | tail hrun hstep ih => exact ih.ownStep hstep ((congrFun (OwnSteps.block hrun) k).trans hregion)

/-- The allocations that have not been released. -/
def liveOf (slots : List Slot) : Multiset AllocationKind :=
  (slots.map fun slot => due slot.allocation !slot.holder.reads).sum

theorem liveOf_set {slots : List Slot} {id : Nat} {slot : Slot} (h : slots[id]? = some slot) :
    ∃ rest, liveOf slots = due slot.allocation (!slot.holder.reads) + rest ∧
      ∀ other, liveOf (slots.set id other) = due other.allocation (!other.holder.reads) + rest := by
  induction slots generalizing id with
  | nil => cases h
  | cons first slots ih =>
      cases id with
      | zero =>
          cases h
          exact ⟨liveOf slots, by simp [liveOf], fun other => by simp [liveOf]⟩
      | succ id =>
          obtain ⟨rest, hlive, hset⟩ := ih h
          refine ⟨due first.allocation (!first.holder.reads) + rest, ?_, fun other => ?_⟩
          · rw [← add_left_comm, ← hlive]
            simp [liveOf]
          · rw [← add_left_comm, ← hset other]
            simp [liveOf]

variable {ptr regionLen : Nat} {w : World}

theorem liveOf_addSlot (w : World) {holder : Holder} (hreads : holder.reads = true) :
    liveOf (w.addSlot k holder).slots = k ::ₘ liveOf w.slots := by
  simp [liveOf, World.addSlot, due, hreads, add_comm]

theorem Zeroing.handOut {w' : World} (h : Zeroing w.arena (liveOf w.slots)) (hout : HandedOut w len w') :
    Zeroing w'.arena (liveOf w'.slots) := by
  cases hout with
  | idle => exact h
  | refused he => exact h.allocate_error he
  | served hhandles hbuf hcoherent hreads =>
      rw [liveOf_addSlot _ hreads]
      exact (h.allocate_ok (Prod.ext hbuf rfl)).1

theorem Zeroing.stepped {bc : BytesCrate} {w' : World} (h : Zeroing w.arena (liveOf w.slots))
    (hstep : Stepped bc w w') :
    Zeroing w'.arena (liveOf w'.slots) := by
  cases hstep with
  | quiet harena hslots =>
      rw [harena, hslots]
      exact h
  | out hout => exact h.handOut hout
  | own hslot hr hacted =>
      obtain ⟨rest, hlive, hset⟩ := liveOf_set hslot
      obtain ⟨hslots, harena⟩ := settle_slots w _ _ _
      rw [hslots, harena, hset]
      rw [hlive] at h
      exact Zeroing.ownSteps hacted.steps rfl h

theorem Zeroing.run (bc : BytesCrate) (hw : Sound ptr regionLen 0 w) (h : Zeroing w.arena (liveOf w.slots))
    (acts : List Action) : ∃ w', Lifecycle.run bc w acts = some w' ∧ Zeroing w'.arena (liveOf w'.slots) :=
  hw.run_invariant bc (fun v => Zeroing v.arena (liveOf v.slots)) (fun _ _ hv => hv.stepped) h acts

theorem zeroing_fixed (slotCount slotCapacity : Nat) (autoSpill : Bool) (memory : Memory) :
    Zeroing (.fixed (.build slotCount slotCapacity autoSpill .zero memory)) 0 := by
  refine ⟨⟨ArenaInner.build_sound _ _ _ _ _, 0, rfl, Multiset.nodup_zero, fun _ h => ?_⟩, rfl, _, rfl, rfl, ?_⟩
  · exact absurd h (Multiset.notMem_zero _)
  · intro u hu
    rw [newEmpty_bit] at hu
    cases hu

theorem zeroing_buddy (g : BuddyGeometry) (autoSpill : Bool) (memory : Memory) :
    Zeroing (.buddy (.build g autoSpill .zero memory)) 0 := by
  refine ⟨⟨0, rfl, BuddyRuns.build_balanced g autoSpill .zero memory⟩, rfl, _, rfl, rfl, ?_⟩
  intro u hu
  rw [newEmpty_bit] at hu
  cases hu

theorem zeroing_build (b : Builder) (memory : Memory) : Zeroing (b.arena .zero memory) 0 := by
  cases b with
  | fixed slotCount slotCapacity autoSpill => exact zeroing_fixed slotCount slotCapacity autoSpill memory
  | rawFixed slotCount slotCapacity len => exact zeroing_fixed slotCount slotCapacity false memory
  | buddy g autoSpill => exact zeroing_buddy g autoSpill memory
  | rawBuddy g len => exact zeroing_buddy g false memory

/-- With policy Zero, in every run over memory with any contents: what is handed
out is zero as a whole, and a free unit whose zeroed bit is set is zero. -/
theorem zero_policy_never_leaks (bc : BytesCrate) (b : Builder) (ptr : Nat) (memory : Memory) (acts : List Action) :
    ∃ w, Lifecycle.run bc (b.build ptr .zero memory) acts = some w ∧
      (∀ (n : Nat) (buf : Buffer) (c : ArenaRef), w.arena.allocate n = (.ok buf, c) →
        ∀ i, (c.block buf.allocation).1 ≤ i → i < (c.block buf.allocation).1 + (c.block buf.allocation).2 →
          c.memory i = 0) ∧
      (∀ (n : Nat) (raw : RawRegion) (c : ArenaRef), RawRegion.rawAlloc w.arena n = (.ok raw, c) →
        ∀ i, (c.block raw.allocation).1 ≤ i → i < (c.block raw.allocation).1 + (c.block raw.allocation).2 →
          c.memory i = 0) ∧
      ∃ z, zeroedBitmap w.arena = some z ∧ ∀ u, FreeUnit w.arena u → z.bit u = true →
        ∀ i, u * unitSize w.arena ≤ i → i < (u + 1) * unitSize w.arena → w.arena.memory i = 0 := by
  obtain ⟨w, hrun, hw⟩ := Zeroing.run bc (Sound.build b ptr .zero memory) (zeroing_build b memory) acts
  refine ⟨w, hrun, fun n buf c hbuf => (hw.allocate_ok hbuf).2, fun n raw c hraw => ?_, ?_⟩
  · cases hr : (w.arena.allocate n).1 with
    | error e => simp [RawRegion.rawAlloc, hr, Except.map] at hraw
    | ok buf =>
        simp only [RawRegion.rawAlloc, hr, Except.map, Prod.mk.injEq, Except.ok.injEq] at hraw
        obtain ⟨rfl, rfl⟩ := hraw
        exact (hw.allocate_ok (Prod.ext hr rfl)).2
  · obtain ⟨z, hz, -, hclean⟩ := hw.clean
    exact ⟨z, hz, fun u hfree hu => hclean u hu (hw.kept.not_ownedBy_of_free hfree)⟩

end ArenaAlligator.ZeroPolicy
