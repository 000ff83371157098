import ArenaAlligator.FixedArena
import ArenaAlligator.SlotThreads

namespace ArenaAlligator.FixedThreads

open Function AtomicBitmap BitmapRefinement Runs

/-- Where a thread is inside allocate or release of a fixed arena. Every value
but idle names the atomic operation that the thread performs next. Scrubbing
and zeroing act on bytes and on the zeroed bit of the slot the thread owns and
are one step each. -/
inductive Pc
  | idle
  | addCursor
  | loadWord (start i : Nat)
  | claimBit (start i bit : Nat)
  | recordFailure
  | zeroSlot (slotIdx : Nat)
  | addAllocationsOk (slotIdx : Nat)
  | addBytesLive (slotIdx : Nat)
  | handOut (slotIdx : Nat)
  | scrub (slotIdx : Nat)
  | free (slotIdx : Nat)
  | addFrees
  | subBytesLive
deriving DecidableEq

def Pc.held : Pc → Multiset Nat
  | zeroSlot slotIdx => {slotIdx}
  | addAllocationsOk slotIdx => {slotIdx}
  | addBytesLive slotIdx => {slotIdx}
  | handOut slotIdx => {slotIdx}
  | scrub slotIdx => {slotIdx}
  | free slotIdx => {slotIdx}
  | idle | addCursor | loadWord _ _ | claimBit _ _ _ | recordFailure | addFrees | subBytesLive => 0

def resume : SlotThreads.Pc → SlotThreads.Effect → Pc
  | _, .claim slotIdx => .zeroSlot slotIdx
  | .addCursor, _ => .addCursor
  | .loadWord start i, _ => .loadWord start i
  | .claimBit start i bit, _ => .claimBit start i bit
  | _, _ => .recordFailure

def scan (a : ArenaInner) (p : SlotThreads.Pc) : ArenaInner × Pc :=
  let r := SlotThreads.advance a.bitmap p
  ({ a with bitmap := r.1 }, resume r.2.1 r.2.2)

/-- One atomic operation of one thread, and the control flow up to its next
one. The slot is set free before the metrics record it. -/
def advance (a : ArenaInner) : Pc → ArenaInner × Pc
  | .idle => (a, .idle)
  | .addCursor => scan a .addCursor
  | .loadWord start i => scan a (.loadWord start i)
  | .claimBit start i bit => scan a (.claimBit start i bit)
  | .recordFailure => ({ a with metrics := a.metrics.recordAllocFailure }, .idle)
  | .zeroSlot slotIdx => (a.zeroOnAllocate slotIdx, .addAllocationsOk slotIdx)
  | .addAllocationsOk slotIdx => ({ a with metrics := a.metrics.addAllocationsOk }, .addBytesLive slotIdx)
  | .addBytesLive slotIdx => ({ a with metrics := a.metrics.addBytesLive a.slotCapacity }, .handOut slotIdx)
  | .handOut slotIdx => (a, .handOut slotIdx)
  | .scrub slotIdx => (a.scrubOnRelease slotIdx, .free slotIdx)
  | .free slotIdx => ({ a with bitmap := a.bitmap.free slotIdx }, .addFrees)
  | .addFrees => ({ a with metrics := a.metrics.addFrees }, .subBytesLive)
  | .subBytesLive => ({ a with metrics := a.metrics.subBytesLive a.slotCapacity }, .idle)

variable {τ : Type} [DecidableEq τ]

structure State (τ : Type) where
  arena : ArenaInner
  live : List Nat
  pc : τ → Pc

inductive Action (τ : Type)
  | allocate (t : τ)
  | release (t : τ) (slotIdx : Nat)
  | tick (t : τ)
deriving DecidableEq

/-- Any idle thread may start an allocation or the release of a live slot, and
any other thread may perform its next atomic operation. -/
def step (s : State τ) : Action τ → Option (State τ)
  | .allocate t =>
      if s.pc t = .idle then
        some { s with pc := update s.pc t (if s.arena.bitmap.slotCount = 0 then .recordFailure else .addCursor) }
      else none
  | .release t slotIdx =>
      if s.pc t = .idle ∧ slotIdx ∈ s.live then
        some { s with live := s.live.erase slotIdx, pc := update s.pc t (.scrub slotIdx) }
      else none
  | .tick t =>
      match s.pc t with
      | .idle => none
      | .handOut slotIdx => some { s with live := slotIdx :: s.live, pc := update s.pc t .idle }
      | p =>
          let r := advance s.arena p
          some { s with arena := r.1, pc := update s.pc t r.2 }

def start (inner : ArenaInner) : State τ := ⟨inner, [], fun _ => .idle⟩

inductive Step (s : State τ) : Action τ → State τ → Prop
  | allocate (t : τ) (p : Pc) (hidle : s.pc t = .idle) (hp : p = .recordFailure ∨ p = .addCursor) :
      Step s (.allocate t) { s with pc := update s.pc t p }
  | release (t : τ) (slotIdx : Nat) (hidle : s.pc t = .idle) (hlive : slotIdx ∈ s.live) :
      Step s (.release t slotIdx) { s with live := s.live.erase slotIdx, pc := update s.pc t (.scrub slotIdx) }
  | handOut (t : τ) (slotIdx : Nat) (hpc : s.pc t = .handOut slotIdx) :
      Step s (.tick t) { s with live := slotIdx :: s.live, pc := update s.pc t .idle }
  | advance (t : τ) (hidle : s.pc t ≠ .idle) (hret : ∀ slotIdx, s.pc t ≠ .handOut slotIdx) :
      Step s (.tick t) { s with
        arena := (advance s.arena (s.pc t)).1
        pc := update s.pc t (advance s.arena (s.pc t)).2 }

theorem step_cases {s s' : State τ} {x : Action τ} (h : step s x = some s') : Step s x s' := by
  cases x with
  | allocate t =>
      simp only [step, Option.ite_none_right_eq_some, Option.some.injEq] at h
      obtain ⟨hidle, rfl⟩ := h
      refine .allocate t _ hidle ?_
      split
      · exact .inl rfl
      · exact .inr rfl
  | release t slotIdx =>
      simp only [step, Option.ite_none_right_eq_some, Option.some.injEq] at h
      obtain ⟨⟨hidle, hlive⟩, rfl⟩ := h
      exact .release t slotIdx hidle hlive
  | tick t =>
      simp only [step] at h
      split at h
      next => cases h
      next slotIdx hpc =>
        cases h
        exact .handOut t slotIdx hpc
      next hidle hret =>
        cases h
        exact .advance t hidle hret

structure Outcome (a : ArenaInner) (p : Pc) (r : ArenaInner × Pc) : Prop where
  slotCapacity : r.1.slotCapacity = a.slotCapacity
  slotCount : r.1.slotCount = a.slotCount
  sound : r.1.Sound
  slots : (freeSlots r.1.bitmap).val + r.2.held = (freeSlots a.bitmap).val + p.held

variable {a : ArenaInner}

theorem Outcome.quiet {p : Pc} {r : ArenaInner × Pc} (ha : a.Sound) (hcapacity : r.1.slotCapacity = a.slotCapacity)
    (hcount : r.1.slotCount = a.slotCount) (hb : r.1.bitmap = a.bitmap) (hheld : r.2.held = p.held) :
    Outcome a p r := by
  refine ⟨hcapacity, hcount, ⟨?_, ?_⟩, ?_⟩
  · rw [hb, hcount]
    exact ha.slotCount
  · rw [hb]
    exact ha.paddingClear
  · rw [hb, hheld]

theorem add_singleton_eq_cons (m : Multiset Nat) (slotIdx : Nat) : m + {slotIdx} = slotIdx ::ₘ m := by
  rw [add_comm, Multiset.singleton_add]

theorem resume_held (q : SlotThreads.Pc) : (resume q .none).held = 0 := by
  cases q <;> rfl

theorem scan_outcome (ha : a.Sound) {p : Pc} {q : SlotThreads.Pc} (hp : p.held = 0) (hq : ∀ slot, q ≠ .free slot) :
    Outcome a p (scan a q) := by
  have hadvanced := SlotThreads.advance_advanced a.bitmap (p := q) fun slot h => absurd h (hq slot)
  rw [scan]
  generalize SlotThreads.advance a.bitmap q = r at hadvanced ⊢
  cases hadvanced with
  | quiet hshape hbit hq' =>
      refine ⟨rfl, rfl, ⟨hshape.slotCount.trans ha.slotCount, fun slot hs => ?_⟩, ?_⟩
      · rw [hbit] at hs
        rw [hshape.slotCount]
        exact ha.paddingClear slot hs
      · rw [resume_held, hp, freeSlots_congr hshape hbit]
  | @claim c slot hshape hfree hbit =>
      have hmem := (mem_freeSlots ha.paddingClear).mpr hfree
      refine ⟨rfl, rfl, ⟨hshape.slotCount.trans ha.slotCount, ?_⟩, ?_⟩
      · exact update_paddingClear ha.paddingClear hshape (by simp) hbit
      · change (freeSlots c).val + {slot} = _
        rw [freeSlots_erase hshape hbit, hp, add_zero, Finset.erase_val, add_singleton_eq_cons]
        exact Multiset.cons_erase hmem
  | release hp' => exact absurd hp' (hq _)

theorem free_outcome (ha : a.Sound) {slotIdx : Nat} (hlt : slotIdx < a.slotCount)
    (hheld : slotIdx ∉ freeSlots a.bitmap) : Outcome a (.free slotIdx) (advance a (.free slotIdx)) := by
  have hshape := free_shape a.bitmap slotIdx
  have hlt' : slotIdx < a.bitmap.slotCount := ha.slotCount.symm ▸ hlt
  have hbit := free_bit a.bitmap hlt'
  refine ⟨rfl, rfl, ⟨hshape.slotCount.trans ha.slotCount, ?_⟩, ?_⟩
  · exact update_paddingClear ha.paddingClear hshape (fun _ => hlt') hbit
  · change (freeSlots (a.bitmap.free slotIdx)).val + 0 = (freeSlots a.bitmap).val + {slotIdx}
    rw [freeSlots_insert hshape hlt' hbit, Finset.insert_val_of_notMem hheld, add_zero,
      add_singleton_eq_cons]

theorem advance_outcome (ha : a.Sound) (p : Pc)
    (hp : ∀ slotIdx ∈ p.held, slotIdx < a.slotCount ∧ slotIdx ∉ freeSlots a.bitmap) :
    Outcome a p (advance a p) := by
  cases p with
  | addCursor => exact scan_outcome ha rfl (by simp)
  | loadWord first i => exact scan_outcome ha rfl (by simp)
  | claimBit first i bit => exact scan_outcome ha rfl (by simp)
  | zeroSlot slotIdx =>
      exact .quiet ha (a.zeroOnAllocate_slotCapacity slotIdx) (a.zeroOnAllocate_slotCount slotIdx)
        (a.zeroOnAllocate_bitmap slotIdx) rfl
  | scrub slotIdx =>
      obtain ⟨hcapacity, hcount⟩ := a.scrubOnRelease_size slotIdx
      exact .quiet ha hcapacity hcount (a.scrubOnRelease_bitmap slotIdx) rfl
  | free slotIdx =>
      obtain ⟨hlt, hheld⟩ := hp slotIdx (Multiset.mem_singleton_self slotIdx)
      exact free_outcome ha hlt hheld
  | idle | recordFailure | addAllocationsOk | addBytesLive | handOut | addFrees | subBytesLive =>
      exact .quiet ha rfl rfl rfl rfl

variable [Fintype τ]

/-- Every slot has one owner, and the bitmap is sound. -/
structure Owning (n c : Nat) (s : State τ) : Prop where
  slotCount : s.arena.slotCount = n
  slotCapacity : s.arena.slotCapacity = c
  sound : s.arena.Sound
  slots : (s.live : Multiset Nat) + ∑ t, (s.pc t).held + (freeSlots s.arena.bitmap).val = Multiset.range n

variable {n c : Nat} {s s' : State τ}

theorem Owning.move (h : Owning n c s) {t : τ} {b : ArenaInner} {live : List Nat} {p : Pc} (hb : b.Sound)
    (hcount : b.slotCount = s.arena.slotCount) (hcapacity : b.slotCapacity = s.arena.slotCapacity)
    (hslots : (live : Multiset Nat) + p.held + (freeSlots b.bitmap).val =
      (s.live : Multiset Nat) + (s.pc t).held + (freeSlots s.arena.bitmap).val) :
    Owning n c ⟨b, live, update s.pc t p⟩ := by
  refine ⟨hcount.trans h.slotCount, hcapacity.trans h.slotCapacity, hb, ?_⟩
  have hsum := sum_update Pc.held s.pc t p
  rw [← h.slots]
  refine add_right_cancel (b := (s.pc t).held) ?_
  calc (live : Multiset Nat) + ∑ u, (update s.pc t p u).held + (freeSlots b.bitmap).val + (s.pc t).held
      = live + (∑ u, (update s.pc t p u).held + (s.pc t).held) + (freeSlots b.bitmap).val := by abel
    _ = ∑ u, (s.pc u).held + (live + p.held + (freeSlots b.bitmap).val) := by rw [hsum]; abel
    _ = s.live + ∑ u, (s.pc u).held + (freeSlots s.arena.bitmap).val + (s.pc t).held := by rw [hslots]; abel

omit [DecidableEq τ] in
theorem Owning.held (h : Owning n c s) {t : τ} {slotIdx : Nat} (ht : slotIdx ∈ (s.pc t).held) :
    slotIdx < s.arena.slotCount ∧ slotIdx ∉ freeSlots s.arena.bitmap := by
  have hall : slotIdx ∈ (s.live : Multiset Nat) + ∑ u, (s.pc u).held :=
    Multiset.mem_add.mpr (.inr (Multiset.mem_sum.mpr ⟨t, Finset.mem_univ t, ht⟩))
  have hnodup := Multiset.nodup_range n
  rw [← h.slots, Multiset.nodup_add] at hnodup
  refine ⟨?_, fun hfree => Multiset.disjoint_left.mp hnodup.2.2 hall hfree⟩
  rw [h.slotCount, ← Multiset.mem_range, ← h.slots]
  exact Multiset.mem_add.mpr (.inl hall)

theorem step_owning {x : Action τ} (h : Owning n c s) (hs : step s x = some s') : Owning n c s' := by
  cases step_cases hs with
  | allocate t p hidle hp =>
      refine h.move h.sound rfl rfl ?_
      rw [hidle]
      rcases hp with rfl | rfl <;> rfl
  | release t slotIdx hidle hlive =>
      refine h.move h.sound rfl rfl ?_
      have hcons : slotIdx ::ₘ (s.live : Multiset Nat).erase slotIdx = s.live := Multiset.cons_erase hlive
      rw [hidle, ← Multiset.coe_erase, Pc.held, Pc.held, add_zero, add_singleton_eq_cons, hcons]
  | handOut t slotIdx hpc =>
      refine h.move h.sound rfl rfl ?_
      rw [hpc, ← Multiset.cons_coe, Pc.held, Pc.held, add_zero, add_singleton_eq_cons]
  | advance t hidle hret =>
      have hout := advance_outcome h.sound (s.pc t) fun slotIdx ht => h.held ht
      refine h.move hout.sound hout.slotCount hout.slotCapacity ?_
      rw [add_assoc, add_comm _ (freeSlots _).val, hout.slots]
      abel

omit [DecidableEq τ] in
theorem start_owning (n c : Nat) (autoSpill : Bool) (initPolicy : InitPolicy) (memory : Memory) :
    Owning n c (start (.build n c autoSpill initPolicy memory) : State τ) := by
  refine ⟨rfl, rfl, ArenaInner.build_sound n c autoSpill initPolicy memory, ?_⟩
  have hfree : freeSlots (AtomicBitmap.new n) = Finset.range n := by
    ext slot
    rw [mem_freeSlots (new_paddingClear n), new_bit, Finset.mem_range, decide_eq_true_iff]
  change (([] : List Nat) : Multiset Nat) + ∑ _ : τ, 0 + (freeSlots (AtomicBitmap.new n)).val = _
  rw [hfree, Finset.sum_const_zero]
  simp

end ArenaAlligator.FixedThreads
