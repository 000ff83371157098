import ArenaAlligator.BuddyOwnership
import ArenaAlligator.UnitOwnership
import ArenaAlligator.ZeroSteps

namespace ArenaAlligator.BuddyZeroing

open Function AlignedBlocks AlignedBlocks.Block BuddyArenaInner Runs BlockOwnership ScrubbedUnits ScrubRules ZeroSteps
open UnitOwnership
open BuddyThreads (Owning owners)

abbrev Pc := Fine BuddyThreads.Pc Block

def extent (a : BuddyArenaInner) (b : Block) : Extent where
  offset := a.blockOffset b.order b.index
  size := a.blockSize b.order
  first := order0Start b.order b.index
  last := order0End b.order b.index

def enter : BuddyThreads.Pc → Pc
  | .zeroBlock b => .zeroing b (.check 0)
  | .scrub b => .zeroing b (.fill 0)
  | p => .base p

def leave (b : Block) (z : ZeroPc) : BuddyThreads.Pc := if z.dirty then .claimBuddy b else .addAllocationsOk b

def advance (a : BuddyArenaInner) : Pc → BuddyArenaInner × Pc
  | .base p =>
      let r := BuddyThreads.advance a p
      (r.1, enter r.2)
  | .zeroing b z =>
      let r := ZeroSteps.advance (extent a b) a.memory a.zeroedBitmap z
      ({ a with memory := r.1, zeroedBitmap := r.2.1 }, r.2.2.elim (.base (leave b z)) (.zeroing b))

variable {τ : Type} [DecidableEq τ]

structure State (τ : Type) where
  arena : BuddyArenaInner
  live : List Block
  pc : τ → Pc

inductive Action (τ : Type)
  | allocate (t : τ) (len : Nat)
  | release (t : τ) (b : Block)
  | tick (t : τ)
  | write (b : Block) (pos : Nat) (byte : UInt8)
deriving DecidableEq

/-- The steps of BuddyThreads, with zeroing taken apart into the bytes and the
words of the zeroed bitmap, and the stores of callers to live blocks. -/
def step (s : State τ) : Action τ → Option (State τ)
  | .allocate t len =>
      if s.pc t = .base .idle ∧ 0 < len ∧ len ≤ usizeMax then
        match s.arena.orderForRequest len with
        | some target => some { s with pc := update s.pc t (.base (.loadSummary target)) }
        | none => some { s with pc := update s.pc t (.base .recordFailure) }
      else none
  | .release t b =>
      if s.pc t = .base .idle ∧ b ∈ s.live then
        some { s with live := s.live.erase b, pc := update s.pc t (.base (.addFrees b)) }
      else none
  | .tick t =>
      match s.pc t with
      | .base .idle => none
      | .base (.handOut b) => some { s with live := b :: s.live, pc := update s.pc t (.base .idle) }
      | p =>
          let r := advance s.arena p
          some { s with arena := r.1, pc := update s.pc t r.2 }
  | .write b pos byte =>
      if b ∈ s.live ∧ pos < s.arena.blockSize b.order then
        let m := update s.arena.memory (s.arena.blockOffset b.order b.index + pos) byte
        some { s with arena := { s.arena with memory := m } }
      else none

def start (g : BuddyGeometry) (autoSpill : Bool) (memory : Memory) : State τ :=
  ⟨build g autoSpill .zero memory, [], fun _ => .base .idle⟩

inductive Step (s : State τ) : Action τ → State τ → Prop
  | allocate (t : τ) (len : Nat) (p : BuddyThreads.Pc) (hidle : s.pc t = .base .idle)
      (hp : p = .recordFailure ∨ ∃ target, p = .loadSummary target) :
      Step s (.allocate t len) { s with pc := update s.pc t (.base p) }
  | release (t : τ) (b : Block) (hidle : s.pc t = .base .idle) (hb : b ∈ s.live) :
      Step s (.release t b) { s with live := s.live.erase b, pc := update s.pc t (.base (.addFrees b)) }
  | handOut (t : τ) (b : Block) (hpc : s.pc t = .base (.handOut b)) :
      Step s (.tick t) { s with live := b :: s.live, pc := update s.pc t (.base .idle) }
  | base (t : τ) (p : BuddyThreads.Pc) (hpc : s.pc t = .base p) (hret : ∀ b, p ≠ .handOut b) :
      Step s (.tick t) { s with
        arena := (BuddyThreads.advance s.arena p).1
        pc := update s.pc t (enter (BuddyThreads.advance s.arena p).2) }
  | zeroing (t : τ) (b : Block) (z : ZeroPc) (hpc : s.pc t = .zeroing b z) :
      Step s (.tick t) { s with
        arena := (advance s.arena (.zeroing b z)).1
        pc := update s.pc t (advance s.arena (.zeroing b z)).2 }
  | write (b : Block) (pos : Nat) (byte : UInt8) (hb : b ∈ s.live) (hpos : pos < s.arena.blockSize b.order) :
      Step s (.write b pos byte) { s with arena := { s.arena with
        memory := update s.arena.memory (s.arena.blockOffset b.order b.index + pos) byte } }

theorem step_cases {s s' : State τ} {x : Action τ} (h : step s x = some s') : Step s x s' := by
  cases x with
  | allocate t len =>
      simp only [step, Option.ite_none_right_eq_some] at h
      obtain ⟨⟨hidle, -⟩, h⟩ := h
      split at h
      next target _ =>
        cases h
        exact .allocate t len _ hidle (Or.inr ⟨target, rfl⟩)
      next =>
        cases h
        exact .allocate t len _ hidle (Or.inl rfl)
  | release t b =>
      simp only [step, Option.ite_none_right_eq_some, Option.some.injEq] at h
      obtain ⟨⟨hidle, hb⟩, rfl⟩ := h
      exact .release t b hidle hb
  | tick t =>
      simp only [step] at h
      split at h
      next => cases h
      next b hpc =>
        cases h
        exact .handOut t b hpc
      next p hidle hret =>
        cases h
        cases hpc : s.pc t with
        | base p => exact .base t p hpc fun b hb => hret b (hb ▸ hpc)
        | zeroing b z => exact .zeroing t b z hpc
  | write b pos byte =>
      simp only [step, Option.ite_none_right_eq_some, Option.some.injEq] at h
      obtain ⟨⟨hb, hpos⟩, rfl⟩ := h
      exact .write b pos byte hb hpos

def coarsePc (p : Pc) : BuddyThreads.Pc := p.coarse .scrub .zeroBlock

def coarse (s : State τ) : BuddyThreads.State τ := ⟨s.arena, s.live, coarsePc ∘ s.pc⟩

@[simp] theorem coarse_enter (p : BuddyThreads.Pc) : coarsePc (enter p) = p := by
  cases p <;> rfl

@[simp] theorem held_zeroing (b : Block) (z : ZeroPc) : (coarsePc (.zeroing b z)).held = some b := by
  rw [coarsePc, Fine.coarse]
  split <;> rfl

@[simp] theorem held_leave (b : Block) (z : ZeroPc) : (leave b z).held = some b := by
  rw [leave]
  split <;> rfl

theorem coarse_update (a : BuddyArenaInner) (live : List Block) (pc : τ → Pc) (t : τ) (p : Pc) :
    coarse ⟨a, live, update pc t p⟩ = ⟨a, live, update (coarsePc ∘ pc) t (coarsePc p)⟩ := by
  rw [coarse, comp_update]

variable [Fintype τ] {g : BuddyGeometry}

omit [DecidableEq τ] in
theorem owning_setMemory {s : BuddyThreads.State τ} (h : Owning g s) (m : Memory) :
    Owning g ⟨{ s.arena with memory := m }, s.live, s.pc⟩ :=
  ⟨h.geometry, h.sound.congr rfl rfl, h.tiles⟩

theorem step_owning {s s' : State τ} {x : Action τ} (h : Owning g (coarse s)) (hs : step s x = some s') :
    Owning g (coarse s') := by
  cases step_cases hs with
  | allocate t len p hidle hp =>
      rw [coarse_update]
      refine h.move rfl h.sound ?_
      rw [BuddyThreads.owners_update_same]
      · exact .stay _
      · rw [comp_apply, hidle]
        rcases hp with rfl | ⟨target, rfl⟩ <;> rfl
  | release t b hidle hb =>
      rw [coarse_update]
      refine h.move rfl h.sound ?_
      rw [BuddyThreads.owners_update, ← Multiset.coe_erase]
      exact .take (owners (coarse s)) t b hb
        (by simp [owners, coarse, hidle, coarsePc, Fine.coarse, BuddyThreads.Pc.held])
  | handOut t b hpc =>
      rw [coarse_update]
      refine h.move rfl h.sound ?_
      rw [BuddyThreads.owners_update, ← Multiset.cons_coe]
      exact .hand (owners (coarse s)) t b (by simp [owners, coarse, hpc, coarsePc, Fine.coarse, BuddyThreads.Pc.held])
  | base t p hpc hret =>
      have hcoarse : (coarse s).pc t = p := by simp [coarse, hpc, coarsePc, Fine.coarse]
      have hout := BuddyThreads.advance_outcome h.sound p (hcoarse ▸ h.owned t)
      rw [coarse_update, coarse_enter]
      rw [← hcoarse] at hout ⊢
      exact h.move hout.geometry hout.sound (BuddyThreads.advance_move (s := coarse s) (t := t) h.sound hout)
  | zeroing t b z hpc =>
      have hheld : (coarsePc (advance s.arena (.zeroing b z)).2).held = ((coarse s).pc t).held := by
        simp only [coarse, comp_apply, hpc, held_zeroing, advance]
        cases (ZeroSteps.advance (extent s.arena b) s.arena.memory s.arena.zeroedBitmap z).2.2 with
        | none => exact held_leave b z
        | some z' => exact held_zeroing b z'
      have hgeometry : (advance s.arena (.zeroing b z)).1.geometry = s.arena.geometry := rfl
      have hbitmaps : (advance s.arena (.zeroing b z)).1.freeBitmaps = s.arena.freeBitmaps := rfl
      generalize advance s.arena (.zeroing b z) = r at hheld hgeometry hbitmaps ⊢
      have hout : BuddyThreads.Outcome (coarse s).arena ((coarse s).pc t) (r.1, coarsePc r.2) :=
        .quiet h.sound hgeometry hbitmaps hheld
      have hmove := BuddyThreads.advance_move (s := coarse s) (t := t) h.sound hout
      rw [coarse_update]
      exact h.move hout.geometry hout.sound hmove
  | write b pos byte hb hpos => exact owning_setMemory h _

/-- Between the return of a block and its scrubbing, and between zeroing and
the end of allocate, something special is known. -/
def baseWork (a : BuddyArenaInner) : BuddyThreads.Pc → Option Work
  | .addFrees b => some ((extent a b).blank true)
  | .subBytesLive b => some ((extent a b).blank true)
  | .scrub b => some ((extent a b).blank true)
  | .addAllocationsOk b => some (extent a b).ready
  | .addBytesLive b => some (extent a b).ready
  | .handOut b => some (extent a b).ready
  | p => p.held.map fun b => (extent a b).blank false

def work (a : BuddyArenaInner) : Pc → Option Work := Fine.work (extent a) (baseWork a)

def view (s : State τ) : Shared τ UInt8 :=
  ZeroSteps.view s.arena.memory s.arena.zeroedBitmap (fun u => ∃ b ∈ s.live, u ∈ b.units) (work s.arena) s.pc

variable {a c : BuddyArenaInner}

theorem extent_congr (h : c.geometry = a.geometry) : extent c = extent a := by
  funext b
  simp only [extent, blockOffset, blockSize, h]

theorem work_congr (h : c.geometry = a.geometry) : work c = work a := by
  have hbase : baseWork c = baseWork a := by
    funext p
    cases p <;> simp only [baseWork, extent_congr h]
  rw [work, work, extent_congr h, hbase]

theorem has_extent (b : Block) (u : Nat) : (extent a b).first ≤ u ∧ u < (extent a b).last ↔ u ∈ b.units :=
  mem_span_iff b u

theorem extent_fits (a : BuddyArenaInner) (b : Block) : (extent a b).Fits a.geometry.minBlockSize := by
  have hpos := Nat.two_pow_pos b.order
  refine ⟨?_, ?_, ?_⟩
  · simp only [extent, blockOffset, blockSize, order0Start, Nat.shiftLeft_eq, one_mul]
    ring
  · simp only [extent, blockOffset, blockSize, order0Start, order0End, Nat.shiftLeft_eq, one_mul]
    ring
  · simp only [extent, order0Start, order0End, Nat.shiftLeft_eq, one_mul]
    omega

def plain : BuddyThreads.Pc → Bool
  | .addFrees _ | .subBytesLive _ | .scrub _ | .addAllocationsOk _ | .addBytesLive _ | .handOut _ => false
  | _ => true

theorem baseWork_plain {p : BuddyThreads.Pc} (hp : plain p = true) :
    baseWork a p = p.held.map fun b => (extent a b).blank false := by
  cases p <;> first | rfl | cases hp

theorem work_spans {p : Pc} {w : Work} (h : work a p = some w) :
    ∃ b, (coarsePc p).held = some b ∧ (extent a b).Spans a.geometry.minBlockSize w := by
  cases p with
  | zeroing b z =>
      cases h
      exact ⟨b, held_zeroing b z, (extent_fits a b).spans_work z⟩
  | base p =>
      cases hp : plain p with
      | true =>
          rw [work, Fine.work, baseWork_plain hp] at h
          obtain ⟨b, hb, rfl⟩ := Option.map_eq_some_iff.mp h
          exact ⟨b, hb, (extent_fits a b).spans_blank false⟩
      | false =>
          cases p with
          | addFrees b | subBytesLive b | scrub b =>
              cases h
              exact ⟨b, rfl, (extent_fits a b).spans_blank true⟩
          | addAllocationsOk b | addBytesLive b | handOut b =>
              cases h
              exact ⟨b, rfl, (extent_fits a b).spans_ready⟩
          | _ => cases hp

theorem plain_of_passing {p : BuddyThreads.Pc} (h : p.passing = true) : plain p = true := by
  cases p <;> first | rfl | cases h

theorem plain_of_searching {p : BuddyThreads.Pc} (h : p.searching = true) : plain p = true :=
  plain_of_passing (BuddyThreads.passing_of_searching h)

def zeroes : BuddyThreads.Pc → Bool
  | .zeroBlock _ | .scrub _ => true
  | _ => false

theorem enter_entered (p : BuddyThreads.Pc) : (enter p).Entered zeroes := by
  cases p <;> first | rfl | trivial

theorem zeroes_leave (b : Block) (z : ZeroPc) : zeroes (leave b z) = false := by
  rw [leave]
  split <;> rfl

theorem advance_plain {p : BuddyThreads.Pc} (hp : plain p = true) (hz : zeroes p = false) :
    plain (BuddyThreads.advance a p).2 = true := by
  have hpassing {q : BuddyThreads.Pc} (h : q.passing = true) : plain q = true := plain_of_passing h
  cases p with
  | loadSummary target =>
      exact plain_of_searching (BuddyThreads.nextOrder_searching _ _ (BuddyThreads.afterPass_searching _ _ _) _)
  | addCursor s =>
      simp only [BuddyThreads.advance]
      split
      · exact plain_of_searching (BuddyThreads.next_searching a s)
      · exact plain_of_searching (BuddyThreads.visit_searching a s _ 0)
  | loadWord s first i =>
      simp only [BuddyThreads.advance]
      split
      · exact plain_of_searching (BuddyThreads.visit_searching a s _ _)
      · rfl
  | claimBit s first i bit =>
      simp only [BuddyThreads.advance]
      split
      · exact hpassing (BuddyThreads.checkWord_passing _ _ _ _)
      · rfl
  | anyFree order wordIdx k =>
      simp only [BuddyThreads.advance]
      split
      · exact hpassing (BuddyThreads.resume_passing k)
      · exact hpassing (BuddyThreads.checkWord_passing _ _ _ _)
  | clearSummary order k => exact hpassing (BuddyThreads.resume_passing k)
  | splitFree target child idx steps => exact hpassing (BuddyThreads.splitNext_passing _ _ _)
  | claimBuddy b =>
      simp only [BuddyThreads.advance]
      split
      · split
        · exact hpassing (BuddyThreads.checkWord_passing _ _ _ _)
        · rfl
      · rfl
  | zeroBlock b => cases hz
  | idle | splitSummary | recordSplits | recordFailure | recordCoalesce | publishSummary | publish => rfl
  | addFrees | subBytesLive | scrub | addAllocationsOk | addBytesLive | handOut => cases hp

theorem work_plain {p : BuddyThreads.Pc} (hp : plain p = true) {w : Work} (h : work a (.base p) = some w) :
    w.dirty = false ∧ w.Blank a.geometry.minBlockSize := by
  rw [work, Fine.work, baseWork_plain hp] at h
  obtain ⟨b, -, rfl⟩ := Option.map_eq_some_iff.mp h
  exact ⟨rfl, (extent_fits a b).blank false⟩

/-- A thread about which nothing special is known enters zeroing, if at all, on
the allocation path. -/
theorem work_enter_plain {p : BuddyThreads.Pc} (hp : plain p = true) {w : Work} (h : work a (enter p) = some w) :
    w.dirty = false ∧ w.Blank a.geometry.minBlockSize := by
  by_cases hz : ∃ b, p = .zeroBlock b
  · obtain ⟨b, rfl⟩ := hz
    cases h
    exact ⟨rfl, (extent_fits a b).blank_check⟩
  · have henter : enter p = .base p := by
      cases p with
      | zeroBlock b => exact absurd ⟨b, rfl⟩ hz
      | scrub b => cases hp
      | _ => rfl
    rw [henter] at h
    exact work_plain hp h

theorem advance_backing (a : BuddyArenaInner) {p : BuddyThreads.Pc} (hp : zeroes p = false) :
    (BuddyThreads.advance a p).1.memory = a.memory ∧ (BuddyThreads.advance a p).1.zeroedBitmap = a.zeroedBitmap := by
  cases p with
  | zeroBlock b | scrub b => cases hp
  | addCursor s =>
      simp only [BuddyThreads.advance]
      split <;> exact ⟨rfl, rfl⟩
  | loadWord s first i =>
      simp only [BuddyThreads.advance]
      split <;> exact ⟨rfl, rfl⟩
  | claimBit s first i bit =>
      simp only [BuddyThreads.advance]
      split <;> exact ⟨rfl, rfl⟩
  | anyFree order wordIdx k =>
      simp only [BuddyThreads.advance]
      split <;> exact ⟨rfl, rfl⟩
  | claimBuddy b =>
      simp only [BuddyThreads.advance]
      split
      · split <;> exact ⟨rfl, rfl⟩
      · exact ⟨rfl, rfl⟩
  | _ => exact ⟨rfl, rfl⟩

theorem extents_apart {b d : Block} (h : ∀ u ∈ b.units, u ∉ d.units) :
    (extent a b).last ≤ (extent a d).first ∨ (extent a d).last ≤ (extent a b).first := by
  have hb := (extent_fits a b).nonempty
  have hd := (extent_fits a d).nonempty
  by_contra hmeet
  refine h (max (extent a b).first (extent a d).first) ?_ ?_
  · rw [← has_extent (a := a)]
    omega
  · rw [← has_extent (a := a)]
    omega

theorem extent_inside {b : Block} (h : b.Inside a.maxOrder) :
    (extent a b).offset + (extent a b).size ≤ a.geometry.totalSize := by
  have hfits := extent_fits a b
  have hlast : (extent a b).last - 1 < 2 ^ a.maxOrder := by
    apply unit_lt_of_inside h
    rw [← has_extent (a := a)]
    have := hfits.nonempty
    omega
  rw [hfits.fin, a.geometry.totalSize_eq, Nat.shiftLeft_eq, Nat.mul_comm]
  exact Nat.mul_le_mul_left _ (by have := hfits.nonempty; change _ ≤ 2 ^ a.maxOrder; omega)

structure Zeroed (g : BuddyGeometry) (memory : Memory) (s : State τ) : Prop where
  owning : Owning g (coarse s)
  bitmap : ∃ z, s.arena.zeroedBitmap = some z
  entered : ∀ t, (s.pc t).Entered zeroes
  safe : Safe g.minBlockSize (view s)
  outside : ∀ i, g.totalSize ≤ i → s.arena.memory i = memory i

variable {memory : Memory} {s s' : State τ} {t : τ}

omit [Fintype τ] in
theorem view_update (hg : c.geometry = s.arena.geometry) (live : List Block) (t : τ) (p : Pc) :
    view ⟨c, live, update s.pc t p⟩ =
      { ZeroSteps.view c.memory c.zeroedBitmap (fun u => ∃ b ∈ live, u ∈ b.units) (work s.arena) s.pc with
        work := update (view s).work t (work s.arena p) } := by
  rw [view, work_congr hg, ZeroSteps.view_update]
  rfl

theorem Zeroed.not_exposed (h : Zeroed g memory s) {b : Block} (hb : (coarsePc (s.pc t)).held = some b)
    (hclean : ∀ w, work s.arena (s.pc t) = some w → w.dirty = false) {u : Nat} (hu : u ∈ b.units) :
    ¬Exposed (view s) u := by
  rintro (⟨d, hd, hud⟩ | ⟨t', w, hw, hdirty, hin⟩)
  · exact held_live_disjoint h.owning.tiles (s := owners (coarse s)) (t := t) hb hd hu hud
  · obtain ⟨d, hd, hspans⟩ := work_spans hw
    rw [Work.Has, hspans.first, hspans.last, has_extent] at hin
    by_cases hne : t = t'
    · subst hne
      rw [hclean w hw] at hdirty
      cases hdirty
    · exact held_disjoint h.owning.tiles (s := owners (coarse s)) hne hb hd hu hin

theorem Zeroed.base_move (h : Zeroed g memory s) {p : BuddyThreads.Pc} (hpc : s.pc t = .base p)
    (hret : ∀ b, p ≠ .handOut b) :
    ScrubRules.Move g.minBlockSize (view s) (view { s with
      arena := (BuddyThreads.advance s.arena p).1
      pc := update s.pc t (enter (BuddyThreads.advance s.arena p).2) }) := by
  have hcoarse : (coarse s).pc t = p := by simp [coarse, hpc, coarsePc, Fine.coarse]
  have hout := BuddyThreads.advance_outcome h.owning.sound p (hcoarse ▸ h.owning.owned t)
  have hz := (h.entered t).of_base hpc
  obtain ⟨hmemory, hbitmap⟩ := advance_backing s.arena hz
  have hgeometry : s.arena.geometry = g := h.owning.geometry
  have hkept : (BuddyThreads.advance s.arena p).1.geometry = s.arena.geometry := hout.geometry
  have hview := view_update hkept s.live t (enter (BuddyThreads.advance s.arena p).2)
  rw [hmemory, hbitmap] at hview
  rw [hview]
  have hsame (q : Pc) (hq : work s.arena q = work s.arena (s.pc t)) :
      update (view s).work t (work s.arena q) = (view s).work := by
    rw [hq]
    exact update_eq_self t (view s).work
  cases hplain : plain p with
  | true =>
      refine .pass (view s) t _ (fun w hw => ?_) (fun w hw => ?_)
      · have hw' : work s.arena (s.pc t) = some w := hw
        rw [hpc] at hw'
        exact (work_plain hplain hw').1
      · exact hgeometry ▸ work_enter_plain (advance_plain hplain hz) hw
  | false =>
      cases p with
      | addFrees b =>
          rw [hsame _ (by rw [hpc]; rfl)]
          exact .stay (view s)
      | subBytesLive b =>
          refine .know (view s) t ((extent s.arena b).blank true) _ (fun _ => False) ?_ ?_ fun u hu => hu.elim
          · exact (congrArg (work s.arena) hpc).trans rfl
          · exact Nat.min_le_left _ _
      | addAllocationsOk b =>
          rw [hsame _ (by rw [hpc]; rfl)]
          exact .stay (view s)
      | addBytesLive b =>
          rw [hsame _ (by rw [hpc]; rfl)]
          exact .stay (view s)
      | handOut b => exact absurd rfl (hret b)
      | scrub b => cases hz
      | _ => cases hplain

theorem Zeroed.zeroing_move (h : Zeroed g memory s) {b : Block} {z : ZeroPc} (hpc : s.pc t = .zeroing b z) :
    ScrubRules.Move g.minBlockSize (view s) (view { s with
      arena := (advance s.arena (.zeroing b z)).1
      pc := update s.pc t (advance s.arena (.zeroing b z)).2 }) := by
  obtain ⟨zb, hzb⟩ := h.bitmap
  have hgeometry : s.arena.geometry = g := h.owning.geometry
  have hleave : baseWork s.arena (leave b z) = some (z.done (extent s.arena b)) := by cases z <;> rfl
  refine ZeroSteps.zeroing_move (hgeometry ▸ extent_fits s.arena b) hzb hpc hleave fun hclean u hlo hhi => ?_
  have hheld : (coarsePc (s.pc t)).held = some b := by rw [hpc, held_zeroing]
  refine h.not_exposed hheld (fun w hw => ?_) ((has_extent b u).mp ⟨hlo, hhi⟩)
  rw [hpc] at hw
  cases hw
  exact (ZeroPc.work_dirty _ z).trans hclean

theorem Zeroed.wrote (h : Zeroed g memory s) {x : Action τ} (hs : step s x = some s') :
    Wrote (extent s.arena) (fun b => b ∈ s.live ∧ ∃ pos byte, x = .write b pos byte) s.pc
      s.arena.memory s.arena.zeroedBitmap s'.arena.memory s'.arena.zeroedBitmap := by
  cases step_cases hs with
  | allocate | release | handOut => exact .nothing
  | base t p hpc hret =>
      obtain ⟨hmemory, hbitmap⟩ := advance_backing s.arena ((h.entered t).of_base hpc)
      rw [hmemory, hbitmap]
      exact .nothing
  | zeroing t b z hpc => exact .zeroing t b z hpc
  | write b pos byte hb hpos => exact .store b pos byte ⟨hb, pos, byte, rfl⟩ hpos

omit [DecidableEq τ] in
theorem Zeroed.inside (h : Zeroed g memory s) {b : Block}
    (hb : b ∈ s.live ∨ ∃ t, (coarsePc (s.pc t)).held = some b) :
    (extent s.arena b).offset + (extent s.arena b).size ≤ g.totalSize := by
  have hall : b ∈ (owners (coarse s)).all := by
    rcases hb with hb | ⟨t, ht⟩
    · exact Multiset.mem_add.mpr (Or.inl (Multiset.mem_add.mpr (Or.inr hb)))
    · exact held_mem_all (s := owners (coarse s)) ht
  have hgeometry : s.arena.geometry = g := h.owning.geometry
  have hinside : b.Inside s.arena.maxOrder := h.owning.tiles.inside hall
  exact hgeometry ▸ extent_inside hinside

theorem Zeroed.move (h : Zeroed g memory s) {x : Action τ} (hs : step s x = some s') :
    ScrubRules.Move g.minBlockSize (view s) (view s') := by
  have hgeometry : s.arena.geometry = g := h.owning.geometry
  cases step_cases hs with
  | allocate t len p hidle hp =>
      rw [view_update rfl]
      refine .pass (view s) t _ (fun w hw => ?_) (fun w hw => ?_)
      · rw [show (view s).work t = none from congrArg (work s.arena) hidle] at hw
        cases hw
      · rcases hp with rfl | ⟨target, rfl⟩ <;> cases hw
  | release t b hidle hb =>
      rw [view_update rfl]
      refine .take (view s) t _ _ (congrArg (work s.arena) hidle) rfl
        (hgeometry ▸ (extent_fits s.arena b).blank true) ?_
      rintro u ⟨d, hd, hu⟩
      by_cases hne : d = b
      · subst hne
        exact Or.inr ((has_extent (a := s.arena) d u).mpr hu)
      · exact Or.inl ⟨d, (List.mem_erase_of_ne hne).mpr hd, hu⟩
  | handOut t b hpc =>
      rw [view_update rfl]
      refine .hand (view s) t (extent s.arena b).ready _ ((congrArg (work s.arena) hpc).trans rfl) rfl ?_
      rintro u ⟨d, hd, hu⟩
      exact ⟨d, List.mem_cons_of_mem b hd, hu⟩
  | base t p hpc hret => exact h.base_move hpc hret
  | zeroing t b z hpc => exact h.zeroing_move hpc
  | write b pos byte hb hpos =>
      refine (hgeometry ▸ extent_fits s.arena b : (extent s.arena b).Fits g.minBlockSize).store_move
        (s := view s) hpos byte (fun u hlo hhi => ⟨b, hb, (has_extent b u).mp ⟨hlo, hhi⟩⟩) fun t w hw => ?_
      obtain ⟨d, hd, hspans⟩ := work_spans hw
      refine ⟨extent s.arena d, hgeometry ▸ hspans, extents_apart fun u => ?_⟩
      exact held_live_disjoint h.owning.tiles (s := owners (coarse s)) hd hb

theorem Zeroed.step (h : Zeroed g memory s) {x : Action τ} (hs : step s x = some s') : Zeroed g memory s' := by
  refine ⟨step_owning h.owning hs, (h.wrote hs).bitmap h.bitmap, ?_, (h.move hs).safe h.safe, fun i hi => ?_⟩
  · cases step_cases hs with
    | allocate t len p hidle hp =>
        refine Fine.entered_update h.entered ?_
        rcases hp with rfl | ⟨target, rfl⟩ <;> rfl
    | release t b hidle hb => exact Fine.entered_update h.entered rfl
    | handOut t b hpc => exact Fine.entered_update h.entered rfl
    | base t p hpc hret => exact Fine.entered_update h.entered (enter_entered _)
    | zeroing t b z hpc => exact Fine.entered_update h.entered (Fine.entered_elim (zeroes_leave b z) _)
    | write => exact h.entered
  · rw [← h.outside i hi]
    refine (h.wrote hs).memory_eq (fun t b z hpc => ?_) fun b hb => ?_
    · exact Or.inr ((h.inside (Or.inr ⟨t, by rw [hpc, held_zeroing]⟩)).trans hi)
    · exact Or.inr ((h.inside (Or.inl hb.1)).trans hi)

omit [DecidableEq τ] in
theorem start_zeroed (g : BuddyGeometry) (autoSpill : Bool) (memory : Memory) :
    Zeroed g memory (start g autoSpill memory : State τ) := by
  refine ⟨BuddyThreads.start_owning g autoSpill .zero memory, ⟨_, rfl⟩, fun _ => rfl, ?_, fun _ _ => rfl⟩
  exact safe_start rfl (AtomicBitmap.newEmpty_bit _) fun _ => rfl

theorem reachable_zeroed {autoSpill : Bool} (h : Reachable step (start g autoSpill memory) s) : Zeroed g memory s :=
  h.invariant (Zeroed g memory) (start_zeroed g autoSpill memory) fun _ _ _ hi hs => hi.step hs

/-- With policy Zero, in every interleaving of the bytes and words that the
threads write while they zero, search, split and coalesce, and of stores by the
callers: a block is zero as a whole when it is handed out, only a store of its
caller changes a live block, and nothing outside the region is written. -/
theorem zeroing_holds_across_threads (g : BuddyGeometry) (autoSpill : Bool) (memory : Memory) (s : State τ)
    (h : Reachable step (start g autoSpill memory) s) :
    (∀ t b, s.pc t = .base (.handOut b) → ∀ i, s.arena.blockOffset b.order b.index ≤ i →
      i < s.arena.blockOffset b.order b.index + s.arena.blockSize b.order → s.arena.memory i = 0) ∧
    (∀ x s' b, step s x = some s' → b ∈ s.live → (∀ pos byte, x ≠ .write b pos byte) →
      ∀ i, s.arena.blockOffset b.order b.index ≤ i →
        i < s.arena.blockOffset b.order b.index + s.arena.blockSize b.order → s'.arena.memory i = s.arena.memory i) ∧
    ∀ i, g.totalSize ≤ i → s.arena.memory i = memory i := by
  have hz := reachable_zeroed h
  refine ⟨fun t b hpc i hlo hhi => ?_, fun x s' b hs hb hx i hlo hhi => ?_, hz.outside⟩
  · have hgeometry : s.arena.geometry = g := hz.owning.geometry
    exact Extent.Fits.ready_zero (hgeometry ▸ extent_fits s.arena b) hz.safe
      ((congrArg (work s.arena) hpc).trans rfl) hlo hhi
  · have hapart {d : Block} (hdisjoint : ∀ u ∈ d.units, u ∉ b.units) : i < (extent s.arena d).offset ∨
        (extent s.arena d).offset + (extent s.arena d).size ≤ i :=
      (extent_fits s.arena d).memory_apart (extent_fits s.arena b) (extents_apart hdisjoint) hlo hhi
    refine (hz.wrote hs).memory_eq (fun t d z hpc => ?_) fun d hd => ?_
    · have hheld : (coarsePc (s.pc t)).held = some d := by rw [hpc, held_zeroing]
      exact hapart fun u => held_live_disjoint hz.owning.tiles (s := owners (coarse s)) hheld hb
    · obtain ⟨hlive, pos, byte, hx'⟩ := hd
      have hne : d ≠ b := fun he => hx pos byte (he ▸ hx')
      have hsymm : Std.Symm fun b c : Block => ∀ u ∈ b.units, u ∉ c.units := ⟨fun _ _ hr u hu hu' => hr u hu' hu⟩
      exact hapart (hz.owning.live_disjoint.forall hlive hb hne)

theorem exists_two_pow_eq_one : ∃ k, 1 = 2 ^ k := ⟨0, rfl⟩

def byteGeometry : BuddyGeometry where
  totalSize := 2
  minBlockSize := 1
  maxOrder := 1
  alignment := 1
  capCapacity := false
  minBlockSize_pow := exists_two_pow_eq_one
  totalSize_eq := rfl
  totalSize_lt := by decide

def byteStart : State (Fin 2) := start byteGeometry false fun _ => 7

/-- A block is handed out, written and returned. The other thread asks for a
block while it is being scrubbed, and gets it. -/
def reuseRun : List (Action (Fin 2)) :=
  [.allocate 0 1] ++ List.replicate 15 (.tick 0) ++ [.write ⟨0, 0⟩ 0 9, .release 0 ⟨0, 0⟩, .tick 0, .tick 0] ++
    [.allocate 1 1] ++ List.replicate 11 (.tick 0) ++ List.replicate 13 (.tick 1)

def reuseState : State (Fin 2) := (run step byteStart reuseRun).getD byteStart

theorem reuseState_reached : run step byteStart reuseRun = some reuseState :=
  run_eq_some_getD (by decide +kernel)

theorem zeroing_holds_across_threads_reuse :
    reuseState.pc 1 = .base (.handOut ⟨0, 0⟩) ∧ reuseState.arena.memory 0 = 0 :=
  have hpc : reuseState.pc 1 = .base (.handOut ⟨0, 0⟩) := by decide +kernel
  ⟨hpc, (zeroing_holds_across_threads byteGeometry false (fun _ => 7) reuseState ⟨reuseRun, reuseState_reached⟩).1
    1 ⟨0, 0⟩ hpc 0 (by decide +kernel) (by decide +kernel)⟩

end ArenaAlligator.BuddyZeroing
