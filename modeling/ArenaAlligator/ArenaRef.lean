import ArenaAlligator.BuddyScan
import ArenaAlligator.FixedArena
import Mathlib.Logic.Relation

namespace ArenaAlligator

inductive ArenaRef
  | fixed (inner : ArenaInner)
  | buddy (inner : BuddyArenaInner)

namespace ArenaRef

def memory : ArenaRef → Memory
  | fixed inner => inner.memory
  | buddy inner => inner.memory

def setMemory : ArenaRef → Memory → ArenaRef
  | fixed inner, m => fixed { inner with memory := m }
  | buddy inner, m => buddy { inner with memory := m }

def metrics : ArenaRef → MetricsState
  | fixed inner => inner.metrics
  | buddy inner => inner.metrics

def autoSpill : ArenaRef → Bool
  | fixed inner => inner.autoSpill
  | buddy inner => inner.autoSpill

def allocate : ArenaRef → Nat → Except AllocError Buffer × ArenaRef
  | fixed inner, _ =>
      let r := inner.allocate
      (r.1, fixed r.2)
  | buddy inner, len =>
      let r := inner.allocate len
      (r.1, buddy r.2)

/-- An allocation of the other kind of arena is unreachable code, which
panics. -/
def release : ArenaRef → AllocationKind → Option ArenaRef
  | fixed inner, .fixed slotIdx => some (fixed (inner.release slotIdx))
  | buddy inner, .buddy order blockIdx => some (buddy (inner.release order blockIdx).2)
  | _, _ => none

def recordFrozen : ArenaRef → ArenaRef
  | fixed inner => fixed { inner with metrics := inner.metrics.recordFrozen }
  | buddy inner => buddy { inner with metrics := inner.metrics.recordFrozen }

def recordSpill : ArenaRef → ArenaRef
  | fixed inner => fixed { inner with metrics := inner.metrics.recordSpill }
  | buddy inner => buddy { inner with metrics := inner.metrics.recordSpill }

def Serves : ArenaRef → AllocationKind → Prop
  | fixed _, .fixed _ => True
  | buddy _, .buddy _ _ => True
  | _, _ => False

/-- Where the memory of an allocation begins, and its length. -/
def block : ArenaRef → AllocationKind → Nat × Nat
  | fixed inner, .fixed slotIdx => (inner.slotOffset slotIdx, inner.slotCapacity)
  | buddy inner, .buddy order blockIdx => (inner.blockOffset order blockIdx, inner.blockSize order)
  | _, _ => (0, 0)

variable {a : ArenaRef} {k : AllocationKind}

@[simp] theorem memory_setMemory (a : ArenaRef) (m : Memory) : (a.setMemory m).memory = m := by
  cases a <;> rfl

@[simp] theorem memory_recordFrozen (a : ArenaRef) : a.recordFrozen.memory = a.memory := by
  cases a <;> rfl

@[simp] theorem memory_recordSpill (a : ArenaRef) : a.recordSpill.memory = a.memory := by
  cases a <;> rfl

@[simp] theorem metrics_setMemory (a : ArenaRef) (m : Memory) : (a.setMemory m).metrics = a.metrics := by
  cases a <;> rfl

@[simp] theorem metrics_recordFrozen (a : ArenaRef) : a.recordFrozen.metrics = a.metrics.recordFrozen := by
  cases a <;> rfl

@[simp] theorem metrics_recordSpill (a : ArenaRef) : a.recordSpill.metrics = a.metrics.recordSpill := by
  cases a <;> rfl

@[simp] theorem serves_setMemory (m : Memory) : (a.setMemory m).Serves k ↔ a.Serves k := by
  cases a <;> cases k <;> rfl

@[simp] theorem serves_recordFrozen : a.recordFrozen.Serves k ↔ a.Serves k := by
  cases a <;> cases k <;> rfl

@[simp] theorem serves_recordSpill : a.recordSpill.Serves k ↔ a.Serves k := by
  cases a <;> cases k <;> rfl

theorem serves_of_release {c : ArenaRef} (h : a.release k = some c) (l : AllocationKind) :
    c.Serves l ↔ a.Serves l := by
  cases a <;> cases k <;> cases h <;> cases l <;> rfl

theorem Serves.release (h : a.Serves k) : ∃ c, a.release k = some c := by
  cases a with
  | fixed inner =>
      cases k with
      | fixed slotIdx => exact ⟨_, rfl⟩
      | buddy order blockIdx => exact h.elim
  | buddy inner =>
      cases k with
      | fixed slotIdx => exact h.elim
      | buddy order blockIdx => exact ⟨_, rfl⟩

theorem allocate_serves (a : ArenaRef) (len : Nat) (l : AllocationKind) :
    (a.allocate len).2.Serves l ↔ a.Serves l := by
  cases a <;> cases l <;> rfl

@[simp] theorem block_setMemory (a : ArenaRef) (m : Memory) : (a.setMemory m).block = a.block := by
  cases a <;> funext l <;> cases l <;> rfl

@[simp] theorem block_recordSpill (a : ArenaRef) : a.recordSpill.block = a.block := by
  cases a <;> funext l <;> cases l <;> rfl

@[simp] theorem block_recordFrozen (a : ArenaRef) : a.recordFrozen.block = a.block := by
  cases a <;> funext l <;> cases l <;> rfl

theorem block_fixed {c d : ArenaInner} (h : d.slotCapacity = c.slotCapacity) : (fixed d).block = (fixed c).block := by
  funext l
  cases l with
  | fixed slotIdx => simp only [block, ArenaInner.slotOffset, h]
  | buddy order blockIdx => rfl

theorem block_buddy {c d : BuddyArenaInner} (h : d.geometry = c.geometry) : (buddy d).block = (buddy c).block := by
  funext l
  cases l with
  | fixed slotIdx => rfl
  | buddy order blockIdx => simp only [block, BuddyArenaInner.blockOffset, BuddyArenaInner.blockSize, h]

inductive Released : ArenaRef → AllocationKind → ArenaRef → Prop
  | fixed (inner : ArenaInner) (slotIdx : Nat) :
      Released (.fixed inner) (.fixed slotIdx) (.fixed (inner.release slotIdx))
  | buddy (inner : BuddyArenaInner) (order blockIdx : Nat) :
      Released (.buddy inner) (.buddy order blockIdx) (.buddy (inner.release order blockIdx).2)

theorem released {c : ArenaRef} (h : a.release k = some c) : Released a k c := by
  unfold release at h
  split at h
  next inner slotIdx =>
    cases h
    exact .fixed inner slotIdx
  next inner order blockIdx =>
    cases h
    exact .buddy inner order blockIdx
  next => cases h

theorem block_of_release {c : ArenaRef} (h : a.release k = some c) : c.block = a.block := by
  cases released h with
  | fixed inner slotIdx => exact block_fixed (ArenaInner.release_slotCapacity inner slotIdx)
  | buddy inner order blockIdx => exact block_buddy (BuddyArenaInner.release_geometry inner order blockIdx)

theorem allocate_block (a : ArenaRef) (len : Nat) : (a.allocate len).2.block = a.block := by
  cases a with
  | fixed inner => exact block_fixed (ArenaInner.allocate_slotCapacity inner)
  | buddy inner => exact block_buddy (BuddyArenaInner.allocate_geometry inner len)

theorem fixed_autoSpill (inner : ArenaInner) (slotIdx : Nat) :
    (inner.zeroOnAllocate slotIdx).autoSpill = inner.autoSpill := by
  rw [ArenaInner.zeroOnAllocate]
  split
  · split <;> rfl
  · rfl

theorem buddy_autoSpill (inner : BuddyArenaInner) (o i : Nat) :
    (inner.zeroOnAllocate o i).autoSpill = inner.autoSpill := by
  rw [BuddyArenaInner.zeroOnAllocate]
  split
  · split <;> rfl
  · rfl

inductive Allocated (len : Nat) : ArenaRef → Buffer → ArenaRef → Prop
  | fixed (inner : ArenaInner) (slotIdx : Nat) :
      Allocated len (.fixed inner) (ArenaInner.handOut { inner with bitmap := inner.bitmap.tryAlloc.2 } slotIdx).1
        (.fixed (ArenaInner.handOut { inner with bitmap := inner.bitmap.tryAlloc.2 } slotIdx).2)
  | buddy (inner : BuddyArenaInner) (t o i : Nat) :
      Allocated len (.buddy inner) ((inner.carved t o i).handOut len t (i * 2 ^ (o - t))).1
        (.buddy ((inner.carved t o i).handOut len t (i * 2 ^ (o - t))).2)

theorem allocated {len : Nat} {buf : Buffer} {c : ArenaRef} (h : a.allocate len = (.ok buf, c)) :
    Allocated len a buf c := by
  cases a with
  | fixed inner =>
      cases hr : inner.bitmap.tryAlloc.1 with
      | none => simp [allocate, ArenaInner.allocate, hr] at h
      | some slotIdx =>
          rw [allocate, ArenaInner.allocate_of_some hr] at h
          cases h
          exact .fixed inner slotIdx
  | buddy inner =>
      obtain ⟨hok, hc⟩ := Prod.mk.inj h
      obtain ⟨t, o, i, -, -, hout⟩ := BuddyArenaInner.allocate_cases (Prod.ext hok rfl)
      cases hc
      have hmade : Allocated len (.buddy inner) _ _ := .buddy inner t o i
      rw [hout] at hmade
      exact hmade

theorem allocate_fresh {len : Nat} {buf : Buffer} {c : ArenaRef} (h : a.allocate len = (.ok buf, c)) :
    c.Serves buf.allocation ∧ buf.autoSpill = a.autoSpill ∧ buf.len = 0 ∧
      buf.released = false ∧ buf.spilled = none := by
  cases allocated h with
  | fixed inner slotIdx => exact ⟨trivial, fixed_autoSpill _ _, rfl, rfl, rfl⟩
  | buddy inner t o i =>
      have hspill := (BuddyArenaInner.carved_backing inner t o i).autoSpill
      exact ⟨trivial, (buddy_autoSpill _ _ _).trans hspill, rfl, rfl, rfl⟩

theorem allocate_inside {len : Nat} {buf : Buffer} {c : ArenaRef} (h : a.allocate len = (.ok buf, c)) :
    buf.offset = (a.block buf.allocation).1 ∧ buf.capacity ≤ (a.block buf.allocation).2 := by
  cases allocated h with
  | fixed inner slotIdx =>
      have hcapacity :=
        ArenaInner.zeroOnAllocate_slotCapacity { inner with bitmap := inner.bitmap.tryAlloc.2 } slotIdx
      exact ⟨congrArg (slotIdx * ·) hcapacity, hcapacity.le⟩
  | buddy inner t o i =>
      have hgeometry := (BuddyArenaInner.carved_backing inner t o i).geometry
      have hsize : (inner.carved t o i).blockSize t = inner.blockSize t := by
        simp only [BuddyArenaInner.blockSize, hgeometry]
      constructor
      · rw [BuddyArenaInner.handOut_offset, BuddyArenaInner.blockOffset, hsize]
        rfl
      · rw [BuddyArenaInner.handOut_capacity, hsize]
        split
        · exact Nat.min_le_right _ _
        · exact le_rfl

end ArenaRef

/-- An arena with the log of the allocations passed to ArenaRef::release, the
latest first. -/
structure Store where
  arena : ArenaRef
  releases : List AllocationKind

namespace Store

def release (s : Store) (allocation : AllocationKind) : Option Store :=
  (s.arena.release allocation).map fun a => ⟨a, allocation :: s.releases⟩

theorem release_eq_some {s s' : Store} {k : AllocationKind} (h : s.release k = some s') :
    s.arena.release k = some s'.arena ∧ s'.releases = k :: s.releases := by
  cases hr : s.arena.release k with
  | none => simp [release, hr] at h
  | some c =>
      simp only [release, hr, Option.map_some, Option.some.injEq] at h
      exact h ▸ ⟨rfl, rfl⟩

theorem exists_release {s : Store} {k : AllocationKind} (h : s.arena.Serves k) : ∃ s', s.release k = some s' := by
  obtain ⟨c, hc⟩ := h.release
  exact ⟨⟨c, k :: s.releases⟩, by simp [release, hc]⟩

end Store

/-- One step of the owner of k: a store in the region of len bytes at offset,
the metrics, or the release. The flag says whether k has been released. -/
inductive OwnStep (k : AllocationKind) (offset len : Nat) : Store × Bool → Store × Bool → Prop
  | store {s : Store} {m : Memory} (houtside : ∀ i, i < offset ∨ offset + len ≤ i → m i = s.arena.memory i) :
      OwnStep k offset len (s, false) ({ s with arena := s.arena.setMemory m }, false)
  | recordSpill {s : Store} : OwnStep k offset len (s, false) ({ s with arena := s.arena.recordSpill }, false)
  | recordFrozen {s : Store} : OwnStep k offset len (s, false) ({ s with arena := s.arena.recordFrozen }, false)
  | release {s s' : Store} (hrelease : s.release k = some s') : OwnStep k offset len (s, false) (s', true)

abbrev OwnSteps (k : AllocationKind) (offset len : Nat) : Store × Bool → Store × Bool → Prop :=
  Relation.ReflTransGen (OwnStep k offset len)

namespace OwnStep

variable {k : AllocationKind} {offset len : Nat} {x y : Store × Bool}

theorem mono {start size : Nat} (hstart : start ≤ offset) (hsize : offset + len ≤ start + size)
    (h : OwnStep k offset len x y) : OwnStep k start size x y := by
  cases h with
  | store houtside => exact .store fun i hi => houtside i (by omega)
  | recordSpill => exact .recordSpill
  | recordFrozen => exact .recordFrozen
  | release hrelease => exact .release hrelease

theorem serves (h : OwnStep k offset len x y) (l : AllocationKind) : y.1.arena.Serves l ↔ x.1.arena.Serves l := by
  cases h with
  | store houtside => exact ArenaRef.serves_setMemory _
  | recordSpill => exact ArenaRef.serves_recordSpill
  | recordFrozen => exact ArenaRef.serves_recordFrozen
  | release hrelease => exact ArenaRef.serves_of_release (Store.release_eq_some hrelease).1 l

theorem block (h : OwnStep k offset len x y) : y.1.arena.block = x.1.arena.block := by
  cases h with
  | store houtside => exact ArenaRef.block_setMemory _ _
  | recordSpill => exact ArenaRef.block_recordSpill _
  | recordFrozen => exact ArenaRef.block_recordFrozen _
  | release hrelease => exact ArenaRef.block_of_release (Store.release_eq_some hrelease).1

end OwnStep

namespace OwnSteps

variable {k : AllocationKind} {offset len : Nat} {x y : Store × Bool}

theorem serves (h : OwnSteps k offset len x y) (l : AllocationKind) : y.1.arena.Serves l ↔ x.1.arena.Serves l := by
  induction h with
  | refl => rfl
  | tail _ hstep ih => exact (hstep.serves l).trans ih

theorem block (h : OwnSteps k offset len x y) : y.1.arena.block = x.1.arena.block := by
  induction h with
  | refl => rfl
  | tail _ hstep ih => exact hstep.block.trans ih

theorem releases (h : OwnSteps k offset len x y) :
    y.1.releases = (if x.2 = false ∧ y.2 = true then [k] else []) ++ x.1.releases ∧ (x.2 = true → y.2 = true) := by
  induction h with
  | refl =>
      refine ⟨?_, id⟩
      rw [if_neg (by simp), List.nil_append]
  | tail _ hstep ih =>
      cases hstep with
      | store houtside => simpa using ih
      | recordSpill => simpa using ih
      | recordFrozen => simpa using ih
      | release hrelease =>
          obtain ⟨hlog, hmono⟩ := ih
          have hx : x.2 = false := by
            by_contra hne
            exact absurd (hmono (by simpa using hne)) (by simp)
          rw [(Store.release_eq_some hrelease).2, hlog]
          simp [hx]

theorem memory (h : OwnSteps k offset len x y) (hy : y.2 = false) {i : Nat} (hi : i < offset ∨ offset + len ≤ i) :
    y.1.arena.memory i = x.1.arena.memory i := by
  induction h with
  | refl => rfl
  | tail _ hstep ih =>
      cases hstep with
      | store houtside =>
          rw [ArenaRef.memory_setMemory, houtside i hi]
          exact ih rfl
      | recordSpill =>
          rw [ArenaRef.memory_recordSpill]
          exact ih rfl
      | recordFrozen =>
          rw [ArenaRef.memory_recordFrozen]
          exact ih rfl
      | release hrelease => cases hy

end OwnSteps

end ArenaAlligator
