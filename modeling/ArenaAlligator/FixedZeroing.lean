import ArenaAlligator.FixedThreads
import ArenaAlligator.ZeroSteps
import Mathlib.Tactic.Ring

namespace ArenaAlligator.FixedZeroing

open Function AtomicBitmap BitmapRefinement Runs ScrubbedUnits ScrubRules ZeroSteps
open FixedThreads (Owning)

abbrev Pc := Fine FixedThreads.Pc Nat

def extent (a : ArenaInner) (slotIdx : Nat) : Extent where
  offset := a.slotOffset slotIdx
  size := a.slotCapacity
  first := slotIdx
  last := slotIdx + 1

def enter : FixedThreads.Pc → Pc
  | .zeroSlot slotIdx => .zeroing slotIdx (.check 0)
  | .scrub slotIdx => .zeroing slotIdx (.fill 0)
  | p => .base p

def leave (slotIdx : Nat) (z : ZeroPc) : FixedThreads.Pc :=
  if z.dirty then .free slotIdx else .addAllocationsOk slotIdx

def advance (a : ArenaInner) : Pc → ArenaInner × Pc
  | .base p =>
      let r := FixedThreads.advance a p
      (r.1, enter r.2)
  | .zeroing slotIdx z =>
      let r := ZeroSteps.advance (extent a slotIdx) a.memory a.zeroedBitmap z
      ({ a with memory := r.1, zeroedBitmap := r.2.1 }, r.2.2.elim (.base (leave slotIdx z)) (.zeroing slotIdx))

variable {τ : Type} [DecidableEq τ]

structure State (τ : Type) where
  arena : ArenaInner
  live : List Nat
  pc : τ → Pc

inductive Action (τ : Type)
  | allocate (t : τ)
  | release (t : τ) (slotIdx : Nat)
  | tick (t : τ)
  | write (slotIdx pos : Nat) (byte : UInt8)
deriving DecidableEq

def step (s : State τ) : Action τ → Option (State τ)
  | .allocate t =>
      if s.pc t = .base .idle then
        let p : FixedThreads.Pc := if s.arena.bitmap.slotCount = 0 then .recordFailure else .addCursor
        some { s with pc := update s.pc t (.base p) }
      else none
  | .release t slotIdx =>
      if s.pc t = .base .idle ∧ slotIdx ∈ s.live then
        some { s with live := s.live.erase slotIdx, pc := update s.pc t (enter (.scrub slotIdx)) }
      else none
  | .tick t =>
      match s.pc t with
      | .base .idle => none
      | .base (.handOut slotIdx) => some { s with live := slotIdx :: s.live, pc := update s.pc t (.base .idle) }
      | p =>
          let r := advance s.arena p
          some { s with arena := r.1, pc := update s.pc t r.2 }
  | .write slotIdx pos byte =>
      if slotIdx ∈ s.live ∧ pos < s.arena.slotCapacity then
        let m := update s.arena.memory (s.arena.slotOffset slotIdx + pos) byte
        some { s with arena := { s.arena with memory := m } }
      else none

def start (slotCount slotCapacity : Nat) (autoSpill : Bool) (memory : Memory) : State τ :=
  ⟨.build slotCount slotCapacity autoSpill .zero memory, [], fun _ => .base .idle⟩

inductive Step (s : State τ) : Action τ → State τ → Prop
  | allocate (t : τ) (p : FixedThreads.Pc) (hidle : s.pc t = .base .idle) (hp : p = .recordFailure ∨ p = .addCursor) :
      Step s (.allocate t) { s with pc := update s.pc t (.base p) }
  | release (t : τ) (slotIdx : Nat) (hidle : s.pc t = .base .idle) (hlive : slotIdx ∈ s.live) :
      Step s (.release t slotIdx) { s with
        live := s.live.erase slotIdx
        pc := update s.pc t (enter (.scrub slotIdx)) }
  | handOut (t : τ) (slotIdx : Nat) (hpc : s.pc t = .base (.handOut slotIdx)) :
      Step s (.tick t) { s with live := slotIdx :: s.live, pc := update s.pc t (.base .idle) }
  | base (t : τ) (p : FixedThreads.Pc) (hpc : s.pc t = .base p) (hret : ∀ slotIdx, p ≠ .handOut slotIdx) :
      Step s (.tick t) { s with
        arena := (FixedThreads.advance s.arena p).1
        pc := update s.pc t (enter (FixedThreads.advance s.arena p).2) }
  | zeroing (t : τ) (slotIdx : Nat) (z : ZeroPc) (hpc : s.pc t = .zeroing slotIdx z) :
      Step s (.tick t) { s with
        arena := (advance s.arena (.zeroing slotIdx z)).1
        pc := update s.pc t (advance s.arena (.zeroing slotIdx z)).2 }
  | write (slotIdx pos : Nat) (byte : UInt8) (hlive : slotIdx ∈ s.live) (hpos : pos < s.arena.slotCapacity) :
      Step s (.write slotIdx pos byte) { s with arena := { s.arena with
        memory := update s.arena.memory (s.arena.slotOffset slotIdx + pos) byte } }

theorem step_cases {s s' : State τ} {x : Action τ} (h : step s x = some s') : Step s x s' := by
  cases x with
  | allocate t =>
      simp only [step, Option.ite_none_right_eq_some, Option.some.injEq] at h
      obtain ⟨hidle, rfl⟩ := h
      refine .allocate t _ hidle ?_
      split
      · exact .inl rfl
      · exact .inr rfl
  | release t slotIdx =>
      simp only [step, Option.ite_none_right_eq_some, Option.some.injEq] at h
      obtain ⟨⟨hidle, hlive⟩, rfl⟩ := h
      exact .release t slotIdx hidle hlive
  | tick t =>
      simp only [step] at h
      split at h
      next => cases h
      next slotIdx hpc =>
        cases h
        exact .handOut t slotIdx hpc
      next p hidle hret =>
        cases h
        cases hpc : s.pc t with
        | base p => exact .base t p hpc fun slotIdx hp => hret slotIdx (hp ▸ hpc)
        | zeroing slotIdx z => exact .zeroing t slotIdx z hpc
  | write slotIdx pos byte =>
      simp only [step, Option.ite_none_right_eq_some, Option.some.injEq] at h
      obtain ⟨⟨hlive, hpos⟩, rfl⟩ := h
      exact .write slotIdx pos byte hlive hpos

def coarsePc (p : Pc) : FixedThreads.Pc := p.coarse .scrub .zeroSlot

def coarse (s : State τ) : FixedThreads.State τ := ⟨s.arena, s.live, coarsePc ∘ s.pc⟩

@[simp] theorem coarse_enter (p : FixedThreads.Pc) : coarsePc (enter p) = p := by
  cases p <;> rfl

@[simp] theorem held_zeroing (slotIdx : Nat) (z : ZeroPc) : (coarsePc (.zeroing slotIdx z)).held = {slotIdx} := by
  rw [coarsePc, Fine.coarse]
  split <;> rfl

@[simp] theorem held_leave (slotIdx : Nat) (z : ZeroPc) : (leave slotIdx z).held = {slotIdx} := by
  rw [leave]
  split <;> rfl

theorem coarse_update (a : ArenaInner) (live : List Nat) (pc : τ → Pc) (t : τ) (p : Pc) :
    coarse ⟨a, live, update pc t p⟩ = ⟨a, live, update (coarsePc ∘ pc) t (coarsePc p)⟩ := by
  rw [coarse, comp_update]

theorem held_advance (a : ArenaInner) (slotIdx : Nat) (z : ZeroPc) :
    (coarsePc (advance a (.zeroing slotIdx z)).2).held = {slotIdx} := by
  simp only [advance]
  cases (ZeroSteps.advance (extent a slotIdx) a.memory a.zeroedBitmap z).2.2 with
  | none => exact held_leave slotIdx z
  | some z' => exact held_zeroing slotIdx z'

variable [Fintype τ] {n c : Nat}

theorem step_owning {s s' : State τ} {x : Action τ} (h : Owning n c (coarse s)) (hs : step s x = some s') :
    Owning n c (coarse s') := by
  cases step_cases hs with
  | allocate t p hidle hp =>
      rw [coarse_update]
      refine h.move (t := t) h.sound rfl rfl ?_
      simp only [coarse, comp_apply, hidle, coarsePc, Fine.coarse]
      rcases hp with rfl | rfl <;> rfl
  | release t slotIdx hidle hlive =>
      rw [coarse_update, coarse_enter]
      refine h.move (t := t) h.sound rfl rfl ?_
      have hcons : slotIdx ::ₘ (s.live : Multiset Nat).erase slotIdx = s.live := Multiset.cons_erase hlive
      simp only [coarse, comp_apply, hidle, coarsePc, Fine.coarse]
      rw [← Multiset.coe_erase, FixedThreads.Pc.held, FixedThreads.Pc.held, add_zero,
        FixedThreads.add_singleton_eq_cons, hcons]
  | handOut t slotIdx hpc =>
      rw [coarse_update]
      refine h.move (t := t) h.sound rfl rfl ?_
      simp only [coarse, comp_apply, hpc, coarsePc, Fine.coarse]
      rw [← Multiset.cons_coe, FixedThreads.Pc.held, FixedThreads.Pc.held, add_zero,
        FixedThreads.add_singleton_eq_cons]
  | base t p hpc hret =>
      have hcoarse : (coarse s).pc t = p := by simp [coarse, hpc, coarsePc, Fine.coarse]
      have hout := FixedThreads.advance_outcome h.sound p fun slotIdx ht => h.held (t := t) (hcoarse ▸ ht)
      rw [coarse_update, coarse_enter]
      refine h.move (t := t) hout.sound hout.slotCount hout.slotCapacity ?_
      have hslots :
          (freeSlots (FixedThreads.advance s.arena p).1.bitmap).val + (FixedThreads.advance s.arena p).2.held =
          (freeSlots s.arena.bitmap).val + p.held := hout.slots
      rw [hcoarse, add_assoc, add_comm _ (freeSlots _).val, hslots]
      simp only [coarse]
      abel
  | zeroing t slotIdx z hpc =>
      have hheld := held_advance s.arena slotIdx z
      have hcount : (advance s.arena (.zeroing slotIdx z)).1.slotCount = s.arena.slotCount := rfl
      have hcapacity : (advance s.arena (.zeroing slotIdx z)).1.slotCapacity = s.arena.slotCapacity := rfl
      have hbitmap : (advance s.arena (.zeroing slotIdx z)).1.bitmap = s.arena.bitmap := rfl
      generalize advance s.arena (.zeroing slotIdx z) = r at hheld hcount hcapacity hbitmap ⊢
      rw [coarse_update]
      refine h.move (t := t) ⟨?_, ?_⟩ hcount hcapacity ?_
      · rw [hbitmap, hcount]
        exact h.sound.slotCount
      · rw [hbitmap]
        exact h.sound.paddingClear
      · simp only [coarse, comp_apply, hpc, held_zeroing, hheld, hbitmap]
  | write slotIdx pos byte hlive hpos =>
      exact ⟨h.slotCount, h.slotCapacity, ⟨h.sound.slotCount, h.sound.paddingClear⟩, h.slots⟩

def baseWork (a : ArenaInner) : FixedThreads.Pc → Option Work
  | .zeroSlot slotIdx => some ((extent a slotIdx).blank false)
  | .scrub slotIdx => some ((extent a slotIdx).blank true)
  | .free slotIdx => some ((extent a slotIdx).blank false)
  | .addAllocationsOk slotIdx => some (extent a slotIdx).ready
  | .addBytesLive slotIdx => some (extent a slotIdx).ready
  | .handOut slotIdx => some (extent a slotIdx).ready
  | _ => none

def work (a : ArenaInner) : Pc → Option Work := Fine.work (extent a) (baseWork a)

def view (s : State τ) : Shared τ UInt8 :=
  ZeroSteps.view s.arena.memory s.arena.zeroedBitmap (fun u => u ∈ s.live) (work s.arena) s.pc

variable {a b : ArenaInner}

theorem extent_congr (h : b.slotCapacity = a.slotCapacity) : extent b = extent a := by
  funext slotIdx
  simp only [extent, ArenaInner.slotOffset, h]

theorem work_congr (h : b.slotCapacity = a.slotCapacity) : work b = work a := by
  have hbase : baseWork b = baseWork a := by
    funext p
    cases p <;> simp only [baseWork, extent_congr h]
  rw [work, work, extent_congr h, hbase]

theorem extent_fits (a : ArenaInner) (slotIdx : Nat) : (extent a slotIdx).Fits a.slotCapacity := by
  refine ⟨rfl, ?_, Nat.lt_succ_self slotIdx⟩
  simp only [extent, ArenaInner.slotOffset]
  ring

theorem has_extent {slotIdx u : Nat} : (extent a slotIdx).first ≤ u ∧ u < (extent a slotIdx).last ↔ u = slotIdx := by
  simp only [extent]
  omega

theorem work_spans {p : Pc} {w : Work} (h : work a p = some w) :
    ∃ slotIdx, slotIdx ∈ (coarsePc p).held ∧ (extent a slotIdx).Spans a.slotCapacity w := by
  cases p with
  | zeroing slotIdx z =>
      cases h
      exact ⟨slotIdx, by simp, (extent_fits a slotIdx).spans_work z⟩
  | base p =>
      cases p with
      | zeroSlot slotIdx | scrub slotIdx | free slotIdx =>
          cases h
          exact ⟨slotIdx, Multiset.mem_singleton_self slotIdx, (extent_fits a slotIdx).spans_blank _⟩
      | addAllocationsOk slotIdx | addBytesLive slotIdx | handOut slotIdx =>
          cases h
          exact ⟨slotIdx, Multiset.mem_singleton_self slotIdx, (extent_fits a slotIdx).spans_ready⟩
      | _ => cases h

theorem resume_cases (q : SlotThreads.Pc) (e : SlotThreads.Effect) :
    (∃ slotIdx, FixedThreads.resume q e = .zeroSlot slotIdx) ∨
      enter (FixedThreads.resume q e) = .base (FixedThreads.resume q e) ∧
        ∀ a, work a (.base (FixedThreads.resume q e)) = none := by
  cases e with
  | claim slotIdx => exact Or.inl ⟨slotIdx, by cases q <;> rfl⟩
  | none => exact Or.inr (by cases q <;> exact ⟨rfl, fun _ => rfl⟩)
  | release slotIdx => exact Or.inr (by cases q <;> exact ⟨rfl, fun _ => rfl⟩)

theorem work_enter_resume (q : SlotThreads.Pc) (e : SlotThreads.Effect) {w : Work}
    (h : work a (enter (FixedThreads.resume q e)) = some w) : w.dirty = false ∧ w.Blank a.slotCapacity := by
  rcases resume_cases q e with ⟨slotIdx, hz⟩ | ⟨hbase, hnone⟩
  · rw [hz] at h
    cases h
    exact ⟨rfl, (extent_fits a slotIdx).blank_check⟩
  · rw [hbase, hnone] at h
    cases h

def zeroes : FixedThreads.Pc → Bool
  | .zeroSlot _ | .scrub _ => true
  | _ => false

theorem enter_entered (p : FixedThreads.Pc) : (enter p).Entered zeroes := by
  cases p <;> first | rfl | trivial

theorem zeroes_leave (slotIdx : Nat) (z : ZeroPc) : zeroes (leave slotIdx z) = false := by
  rw [leave]
  split <;> rfl

theorem advance_backing (a : ArenaInner) {p : FixedThreads.Pc} (hp : zeroes p = false) :
    (FixedThreads.advance a p).1.memory = a.memory ∧ (FixedThreads.advance a p).1.zeroedBitmap = a.zeroedBitmap ∧
      (FixedThreads.advance a p).1.slotCapacity = a.slotCapacity := by
  cases p with
  | zeroSlot slotIdx | scrub slotIdx => cases hp
  | _ => exact ⟨rfl, rfl, rfl⟩

structure Zeroed (n c : Nat) (memory : Memory) (s : State τ) : Prop where
  owning : Owning n c (coarse s)
  bitmap : ∃ z, s.arena.zeroedBitmap = some z
  entered : ∀ t, (s.pc t).Entered zeroes
  safe : Safe c (view s)
  outside : ∀ i, n * c ≤ i → s.arena.memory i = memory i

variable {memory : Memory} {s s' : State τ} {t : τ}

omit [DecidableEq τ] in
theorem held_apart (h : Owning n c (coarse s)) {slotIdx : Nat} (ht : slotIdx ∈ (coarsePc (s.pc t)).held) :
    slotIdx < n ∧ slotIdx ∉ s.live ∧ ∀ t', t' ≠ t → slotIdx ∉ (coarsePc (s.pc t')).held := by
  classical
  have hnodup := Multiset.nodup_range n
  rw [← h.slots, Multiset.nodup_add, Multiset.nodup_add] at hnodup
  have hsum : slotIdx ∈ ∑ u, ((coarse s).pc u).held := Multiset.mem_sum.mpr ⟨t, Finset.mem_univ t, ht⟩
  refine ⟨h.slotCount ▸ (h.held ht).1, fun hl => Multiset.disjoint_left.mp hnodup.1.2.2 hl hsum, fun t' hne ht' => ?_⟩
  have hdisjoint := hnodup.1.2.1
  rw [← Finset.add_sum_erase _ _ (Finset.mem_univ t), Multiset.nodup_add] at hdisjoint
  refine Multiset.disjoint_left.mp hdisjoint.2.2 ht (Multiset.mem_sum.mpr ⟨t', ?_, ht'⟩)
  exact Finset.mem_erase.mpr ⟨hne, Finset.mem_univ t'⟩

omit [DecidableEq τ] in
theorem live_lt (h : Owning n c (coarse s)) {slotIdx : Nat} (hlive : slotIdx ∈ s.live) : slotIdx < n := by
  rw [← Multiset.mem_range, ← h.slots]
  exact Multiset.mem_add.mpr (Or.inl (Multiset.mem_add.mpr (Or.inl hlive)))

theorem extents_apart {slotIdx other : Nat} (hne : slotIdx ≠ other) :
    (extent a slotIdx).last ≤ (extent a other).first ∨ (extent a other).last ≤ (extent a slotIdx).first := by
  simp only [extent]
  omega

omit [Fintype τ] in
theorem view_update (hc : b.slotCapacity = s.arena.slotCapacity) (live : List Nat) (t : τ) (p : Pc) :
    view ⟨b, live, update s.pc t p⟩ =
      { ZeroSteps.view b.memory b.zeroedBitmap (fun u => u ∈ live) (work s.arena) s.pc with
        work := update (view s).work t (work s.arena p) } := by
  rw [view, work_congr hc, ZeroSteps.view_update]
  rfl

omit [DecidableEq τ] in
theorem Zeroed.not_exposed (h : Zeroed n c memory s) {slotIdx : Nat} (hheld : slotIdx ∈ (coarsePc (s.pc t)).held)
    (hclean : ∀ w, work s.arena (s.pc t) = some w → w.dirty = false) : ¬Exposed (view s) slotIdx := by
  obtain ⟨-, hlive, hothers⟩ := held_apart h.owning hheld
  rintro (hl | ⟨t', w, hw, hdirty, hin⟩)
  · exact hlive hl
  · obtain ⟨other, hother, hspans⟩ := work_spans hw
    rw [Work.Has, hspans.first, hspans.last] at hin
    have heq : slotIdx = other := has_extent.mp hin
    by_cases hne : t' = t
    · subst hne
      rw [hclean w hw] at hdirty
      cases hdirty
    · exact hothers t' hne (heq ▸ hother)

theorem Zeroed.base_move (h : Zeroed n c memory s) {p : FixedThreads.Pc} (hpc : s.pc t = .base p)
    (hret : ∀ slotIdx, p ≠ .handOut slotIdx) :
    Move c (view s) (view { s with
      arena := (FixedThreads.advance s.arena p).1
      pc := update s.pc t (enter (FixedThreads.advance s.arena p).2) }) := by
  have hz := (h.entered t).of_base hpc
  obtain ⟨hmemory, hbitmap, hkept⟩ := advance_backing s.arena hz
  have hcapacity : s.arena.slotCapacity = c := h.owning.slotCapacity
  have hview := view_update hkept s.live t (enter (FixedThreads.advance s.arena p).2)
  rw [hmemory, hbitmap] at hview
  rw [hview]
  have hbefore : (view s).work t = work s.arena (.base p) := congrArg (work s.arena) hpc
  have hsame (q : Pc) (hq : work s.arena q = work s.arena (.base p)) :
      update (view s).work t (work s.arena q) = (view s).work := by
    rw [hq, ← hbefore]
    exact update_eq_self t (view s).work
  have hscan (q : SlotThreads.Pc) (hp : FixedThreads.advance s.arena p = FixedThreads.scan s.arena q)
      (hnone : work s.arena (.base p) = none) :
      Move c (view s) { view s with
        work := update (view s).work t (work s.arena (enter (FixedThreads.advance s.arena p).2)) } := by
    refine .pass (view s) t _ (fun w hw => ?_) (fun w hw => ?_)
    · rw [hbefore, hnone] at hw
      cases hw
    · rw [hp] at hw
      exact hcapacity ▸ work_enter_resume _ _ hw
  cases p with
  | addCursor => exact hscan .addCursor rfl rfl
  | loadWord first i => exact hscan (.loadWord first i) rfl rfl
  | claimBit first i bit => exact hscan (.claimBit first i bit) rfl rfl
  | free slotIdx =>
      refine .pass (view s) t _ (fun w hw => ?_) (fun w hw => ?_)
      · rw [hbefore] at hw
        cases hw
        rfl
      · cases hw
  | zeroSlot slotIdx | scrub slotIdx => cases hz
  | handOut slotIdx => exact absurd rfl (hret slotIdx)
  | idle | recordFailure | addAllocationsOk | addBytesLive | addFrees | subBytesLive =>
      rw [hsame _ (by rfl)]
      exact .stay (view s)

theorem Zeroed.zeroing_move (h : Zeroed n c memory s) {slotIdx : Nat} {z : ZeroPc} (hpc : s.pc t = .zeroing slotIdx z) :
    Move c (view s) (view { s with
      arena := (advance s.arena (.zeroing slotIdx z)).1
      pc := update s.pc t (advance s.arena (.zeroing slotIdx z)).2 }) := by
  obtain ⟨zb, hzb⟩ := h.bitmap
  have hcapacity : s.arena.slotCapacity = c := h.owning.slotCapacity
  have hleave : baseWork s.arena (leave slotIdx z) = some (z.done (extent s.arena slotIdx)) := by cases z <;> rfl
  refine ZeroSteps.zeroing_move (hcapacity ▸ extent_fits s.arena slotIdx) hzb hpc hleave fun hclean u hlo hhi => ?_
  rw [has_extent.mp ⟨hlo, hhi⟩]
  refine h.not_exposed (t := t) (by simp [hpc]) fun w hw => ?_
  rw [hpc] at hw
  cases hw
  exact (ZeroPc.work_dirty _ z).trans hclean

theorem Zeroed.wrote (h : Zeroed n c memory s) {x : Action τ} (hs : step s x = some s') :
    Wrote (extent s.arena) (fun slotIdx => slotIdx ∈ s.live ∧ ∃ pos byte, x = .write slotIdx pos byte) s.pc
      s.arena.memory s.arena.zeroedBitmap s'.arena.memory s'.arena.zeroedBitmap := by
  cases step_cases hs with
  | allocate | release | handOut => exact .nothing
  | base t p hpc hret =>
      obtain ⟨hmemory, hbitmap, -⟩ := advance_backing s.arena ((h.entered t).of_base hpc)
      rw [hmemory, hbitmap]
      exact .nothing
  | zeroing t slotIdx z hpc => exact .zeroing t slotIdx z hpc
  | write slotIdx pos byte hlive hpos => exact .store slotIdx pos byte ⟨hlive, pos, byte, rfl⟩ hpos

theorem Zeroed.move (h : Zeroed n c memory s) {x : Action τ} (hs : step s x = some s') : Move c (view s) (view s') := by
  have hcapacity : s.arena.slotCapacity = c := h.owning.slotCapacity
  cases step_cases hs with
  | allocate t p hidle hp =>
      rw [view_update rfl]
      refine .pass (view s) t _ (fun w hw => ?_) (fun w hw => ?_)
      · rw [show (view s).work t = none from congrArg (work s.arena) hidle] at hw
        cases hw
      · rcases hp with rfl | rfl <;> cases hw
  | release t slotIdx hidle hlive =>
      rw [view_update rfl]
      refine .take (view s) t _ _ (congrArg (work s.arena) hidle) rfl ⟨?_, fun u hu => hu⟩ fun u hu => ?_
      · exact (Nat.min_le_left _ _).trans (hcapacity ▸ (extent_fits s.arena slotIdx).offset.le)
      · by_cases hne : u = slotIdx
        · exact Or.inr (has_extent (a := s.arena).mpr hne)
        · exact Or.inl ((List.mem_erase_of_ne hne).mpr hu)
  | handOut t slotIdx hpc =>
      rw [view_update rfl]
      refine .hand (view s) t (extent s.arena slotIdx).ready _ ((congrArg (work s.arena) hpc).trans rfl) rfl ?_
      exact fun u hu => List.mem_cons_of_mem slotIdx hu
  | base t p hpc hret => exact h.base_move hpc hret
  | zeroing t slotIdx z hpc => exact h.zeroing_move hpc
  | write slotIdx pos byte hlive hpos =>
      refine (hcapacity ▸ extent_fits s.arena slotIdx : (extent s.arena slotIdx).Fits c).store_move
        (s := view s) hpos byte (fun u hlo hhi => ?_) fun t w hw => ?_
      · rw [has_extent.mp ⟨hlo, hhi⟩]
        exact hlive
      · obtain ⟨other, hother, hspans⟩ := work_spans hw
        refine ⟨extent s.arena other, hcapacity ▸ hspans, extents_apart fun he => ?_⟩
        exact (held_apart h.owning hother).2.1 (he ▸ hlive)

omit [DecidableEq τ] in
theorem Zeroed.inside (h : Zeroed n c memory s) {slotIdx : Nat}
    (hslot : slotIdx ∈ s.live ∨ ∃ t, slotIdx ∈ (coarsePc (s.pc t)).held) :
    (extent s.arena slotIdx).offset + (extent s.arena slotIdx).size ≤ n * c := by
  have hlt : slotIdx < n := by
    rcases hslot with hlive | ⟨t, ht⟩
    · exact live_lt h.owning hlive
    · exact (held_apart h.owning ht).1
  have hcapacity : s.arena.slotCapacity = c := h.owning.slotCapacity
  rw [(extent_fits s.arena slotIdx).fin, hcapacity]
  exact Nat.mul_le_mul_right c hlt

theorem Zeroed.step (h : Zeroed n c memory s) {x : Action τ} (hs : step s x = some s') : Zeroed n c memory s' := by
  refine ⟨step_owning h.owning hs, (h.wrote hs).bitmap h.bitmap, ?_, (h.move hs).safe h.safe, fun i hi => ?_⟩
  · cases step_cases hs with
    | allocate t p hidle hp =>
        refine Fine.entered_update h.entered ?_
        rcases hp with rfl | rfl <;> rfl
    | release t slotIdx hidle hlive => exact Fine.entered_update h.entered (enter_entered _)
    | handOut t slotIdx hpc => exact Fine.entered_update h.entered rfl
    | base t p hpc hret => exact Fine.entered_update h.entered (enter_entered _)
    | zeroing t slotIdx z hpc =>
        exact Fine.entered_update h.entered (Fine.entered_elim (zeroes_leave slotIdx z) _)
    | write => exact h.entered
  · rw [← h.outside i hi]
    refine (h.wrote hs).memory_eq (fun t slotIdx z hpc => ?_) fun slotIdx hlive => ?_
    · exact Or.inr ((h.inside (Or.inr ⟨t, by simp [hpc]⟩)).trans hi)
    · exact Or.inr ((h.inside (Or.inl hlive.1)).trans hi)

omit [DecidableEq τ] in
theorem start_zeroed (n c : Nat) (autoSpill : Bool) (memory : Memory) :
    Zeroed n c memory (start n c autoSpill memory : State τ) := by
  refine ⟨FixedThreads.start_owning n c autoSpill .zero memory, ⟨_, rfl⟩, fun _ => rfl, ?_, fun _ _ => rfl⟩
  exact safe_start rfl (newEmpty_bit _) fun _ => rfl

theorem reachable_zeroed {autoSpill : Bool} (h : Reachable step (start n c autoSpill memory) s) :
    Zeroed n c memory s :=
  h.invariant (Zeroed n c memory) (start_zeroed n c autoSpill memory) fun _ _ _ hi hs => hi.step hs

/-- With policy Zero, in every interleaving of the bytes and words that the
threads of a fixed arena write while they zero and search, and of stores by the
callers: a slot is zero as a whole when it is handed out, only a store of its
caller changes a live slot, and nothing outside the region is written. -/
theorem slots_zeroed_across_threads (n c : Nat) (autoSpill : Bool) (memory : Memory) (s : State τ)
    (h : Reachable step (start n c autoSpill memory) s) :
    (∀ t slotIdx, s.pc t = .base (.handOut slotIdx) → ∀ i, s.arena.slotOffset slotIdx ≤ i →
      i < s.arena.slotOffset slotIdx + s.arena.slotCapacity → s.arena.memory i = 0) ∧
    (∀ x s' slotIdx, step s x = some s' → slotIdx ∈ s.live → (∀ pos byte, x ≠ .write slotIdx pos byte) →
      ∀ i, s.arena.slotOffset slotIdx ≤ i → i < s.arena.slotOffset slotIdx + s.arena.slotCapacity →
        s'.arena.memory i = s.arena.memory i) ∧
    ∀ i, n * c ≤ i → s.arena.memory i = memory i := by
  have hz := reachable_zeroed h
  refine ⟨fun t slotIdx hpc i hlo hhi => ?_, fun x s' slotIdx hs hlive hx i hlo hhi => ?_, hz.outside⟩
  · have hcapacity : s.arena.slotCapacity = c := hz.owning.slotCapacity
    exact Extent.Fits.ready_zero (hcapacity ▸ extent_fits s.arena slotIdx) hz.safe
      ((congrArg (work s.arena) hpc).trans rfl) hlo hhi
  · have hapart {other : Nat} (hne : other ≠ slotIdx) : i < (extent s.arena other).offset ∨
        (extent s.arena other).offset + (extent s.arena other).size ≤ i :=
      (extent_fits s.arena other).memory_apart (extent_fits s.arena slotIdx) (extents_apart hne) hlo hhi
    refine (hz.wrote hs).memory_eq (fun t other z hpc => ?_) fun other hother => ?_
    · have hheld : other ∈ (coarsePc (s.pc t)).held := by simp [hpc]
      exact hapart fun he => (held_apart hz.owning hheld).2.1 (he ▸ hlive)
    · obtain ⟨-, pos, byte, ho⟩ := hother
      exact hapart fun he => hx pos byte (he ▸ ho)

def byteStart : State (Fin 2) := start 1 1 false fun _ => 7

/-- A slot is handed out, written and returned. The other thread looks for a
slot while it is being scrubbed, and gets it. -/
def reuseRun : List (Action (Fin 2)) :=
  [.allocate 0] ++ List.replicate 9 (.tick 0) ++ [.write 0 0 9, .release 0 0, .allocate 1, .tick 1] ++
    List.replicate 5 (.tick 0) ++ List.replicate 6 (.tick 1)

def reuseState : State (Fin 2) := (run step byteStart reuseRun).getD byteStart

theorem reuseState_reached : run step byteStart reuseRun = some reuseState :=
  run_eq_some_getD (by decide +kernel)

theorem slots_zeroed_across_threads_reuse :
    reuseState.pc 1 = .base (.handOut 0) ∧ reuseState.arena.memory 0 = 0 :=
  have hpc : reuseState.pc 1 = .base (.handOut 0) := by decide +kernel
  ⟨hpc, (slots_zeroed_across_threads 1 1 false (fun _ => 7) reuseState ⟨reuseRun, reuseState_reached⟩).1
    1 0 hpc 0 (by decide +kernel) (by decide +kernel)⟩

end ArenaAlligator.FixedZeroing
