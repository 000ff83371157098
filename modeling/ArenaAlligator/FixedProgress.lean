import ArenaAlligator.FixedThreads
import ArenaAlligator.StepBounds

namespace ArenaAlligator.FixedThreads

open Function AtomicBitmap BitmapRefinement Runs StepBounds

def claims (a : ArenaInner) : Pc → Bool
  | .claimBit start i bit => (a.bitmap.claimBit ((start + i) &&& a.bitmap.wordMask) bit).1.isSome
  | _ => false

/-- A thread whose bit is gone has one operation to lose and one to repeat. -/
def cost (charge : Nat) (a : ArenaInner) : Pc → Nat
  | .idle => 0
  | .addCursor => a.bitmap.scanWords + 8 + charge
  | .loadWord _ i => a.bitmap.scanWords - i + 7 + charge
  | .claimBit start i bit =>
      a.bitmap.scanWords - i + 6 + charge + if claims a (.claimBit start i bit) then 0 else 2
  | .recordFailure => 1
  | .zeroSlot _ => 4
  | .addAllocationsOk _ => 3
  | .addBytesLive _ => 2
  | .handOut _ => 1
  | .scrub _ => 4
  | .free _ => 3
  | .addFrees => 2
  | .subBytesLive => 1

def callCost (n charge : Nat) : Nat := wordsFor n + 8 + charge

variable {a c : ArenaInner} {charge : Nat}

def Pays (charge : Nat) (a : ArenaInner) (p : Pc) (r : ArenaInner × Pc) : Prop :=
  cost charge r.1 r.2 + 1 + charge * (claims a p).toNat ≤ cost charge a p

theorem loadWord_pays (start i : Nat) : Pays charge a (.loadWord start i) (advance a (.loadWord start i)) := by
  simp only [Pays, advance, scan, SlotThreads.advance, claims, Bool.toNat_false, Nat.mul_zero, Nat.add_zero]
  split
  next hzero =>
    simp only [SlotThreads.visit]
    split
    next hi =>
      simp only [resume, cost]
      omega
    next hi =>
      simp only [resume, cost]
      omega
  next hset =>
    have hfresh : claims a (.claimBit start i _) = true := claimBit_ctz hset
    simp only [resume, cost, hfresh, if_true]
    omega

theorem claimBit_pays (start i bit : Nat) :
    Pays charge a (.claimBit start i bit) (advance a (.claimBit start i bit)) := by
  have hc := a.bitmap.claimBit_claimed ((start + i) &&& a.bitmap.wordMask) bit
  simp only [Pays, advance, scan, SlotThreads.advance]
  split
  next slotIdx hr =>
    have hclaims : claims a (.claimBit start i bit) = true := by rw [claims, hr]; rfl
    simp only [resume, cost, hclaims, if_true, Bool.toNat_true]
    omega
  next hr =>
    have hclaims : claims a (.claimBit start i bit) = false := by rw [claims, hr]; rfl
    simp only [resume, cost, hclaims, Bool.false_eq_true, if_false, Bool.toNat_false, hc.shape.scanWords]
    omega

theorem advance_pays {p : Pc} (hidle : p ≠ .idle) (hret : ∀ slotIdx, p ≠ .handOut slotIdx) :
    Pays charge a p (advance a p) := by
  cases p with
  | idle => exact absurd rfl hidle
  | handOut slotIdx => exact absurd rfl (hret slotIdx)
  | loadWord start i => exact loadWord_pays start i
  | claimBit start i bit => exact claimBit_pays start i bit
  | addCursor =>
      have hvisit : SlotThreads.visit a.bitmap (a.bitmap.cursor.toNat &&& a.bitmap.wordMask) 0 =
          .loadWord (a.bitmap.cursor.toNat &&& a.bitmap.wordMask) 0 := if_pos a.bitmap.scanWords_pos
      simp only [Pays, advance, scan, SlotThreads.advance, fetchAddCursor, hvisit, resume, cost, claims,
        Bool.toNat_false, Nat.mul_zero]
      omega
  | recordFailure | zeroSlot | addAllocationsOk | addBytesLive | scrub | free | addFrees | subBytesLive =>
      simp [Pays, advance, cost, claims]

theorem bit_of_not_claims {p : Pc} (hout : Outcome a p (advance a p))
    (hp : ∀ slotIdx ∈ p.held, slotIdx < a.slotCount) (ha : a.Sound) (h : claims a p = false) {slot : Nat}
    (hb : a.bitmap.bit slot = true) : (advance a p).1.bitmap.bit slot = true := by
  cases p with
  | addCursor => exact hb
  | loadWord start i =>
      simp only [advance, scan, SlotThreads.advance]
      split <;> exact hb
  | claimBit start i bit =>
      have hc := a.bitmap.claimBit_claimed ((start + i) &&& a.bitmap.wordMask) bit
      simp only [advance, scan, SlotThreads.advance]
      split
      next slotIdx hr =>
        rw [claims, hr] at h
        cases h
      next hr =>
        rw [hc.none_spec hr]
        exact hb
  | zeroSlot slotIdx =>
      simp only [advance]
      rw [a.zeroOnAllocate_bitmap]
      exact hb
  | scrub slotIdx =>
      simp only [advance]
      rw [a.scrubOnRelease_bitmap]
      exact hb
  | free slotIdx =>
      have hlt : slotIdx < a.bitmap.slotCount :=
        ha.slotCount.symm ▸ hp slotIdx (Multiset.mem_singleton_self slotIdx)
      simp only [advance]
      rw [free_bit _ hlt]
      by_cases hs : slot = slotIdx
      · rw [hs, update_self]
      · rwa [update_of_ne hs]
  | idle | recordFailure | addAllocationsOk | addBytesLive | handOut | addFrees | subBytesLive => exact hb

theorem cost_other (hshape : SameShape a.bitmap c.bitmap) (lost : Bool)
    (hbit : lost = false → ∀ slot, a.bitmap.bit slot = true → c.bitmap.bit slot = true) (q : Pc) :
    cost charge c q ≤ cost charge a q + 2 * lost.toNat := by
  cases q with
  | claimBit start i bit =>
      have hle : (if claims c (.claimBit start i bit) then 0 else 2) ≤
          (if claims a (.claimBit start i bit) then 0 else 2) + 2 * lost.toNat := by
        cases lost with
        | true => split <;> simp
        | false =>
            cases hq : claims a (.claimBit start i bit) with
            | false => split <;> simp
            | true =>
                rw [claims, claimBit_isSome] at hq
                have hfresh : claims c (.claimBit start i bit) = true := by
                  rw [claims, claimBit_isSome, hshape.wordMask]
                  exact ⟨hq.1, hbit rfl _ hq.2⟩
                simp [hfresh]
      simp only [cost, hshape.scanWords]
      omega
  | addCursor | loadWord =>
      simp only [cost, hshape.scanWords]
      omega
  | _ => exact Nat.le_add_right _ _

variable {τ : Type} [DecidableEq τ] [Fintype τ] {n k : Nat}

def mover : Action τ → τ
  | .allocate t | .release t _ | .tick t => t

def calls : Action τ → Bool
  | .allocate _ | .release _ _ => true
  | .tick _ => false

def takes (s : State τ) : Action τ → Bool
  | .tick t => claims s.arena (s.pc t)
  | .allocate _ | .release _ _ => false

omit [DecidableEq τ] in
theorem Owning.scanWords {s : State τ} (h : Owning n k s) : s.arena.bitmap.scanWords = wordsFor n := by
  rw [s.arena.bitmap.scanWords_eq, h.sound.slotCount, h.slotCount]

theorem Outcome.shape {p : Pc} {r : ArenaInner × Pc} (h : Outcome a p r) (ha : a.Sound) :
    SameShape a.bitmap r.1.bitmap := by
  have hcount : r.1.bitmap.slotCount = a.bitmap.slotCount :=
    (h.sound.slotCount.trans h.slotCount).trans ha.slotCount.symm
  have hscan : r.1.bitmap.scanWords = a.bitmap.scanWords := by
    rw [r.1.bitmap.scanWords_eq, a.bitmap.scanWords_eq, hcount]
  exact ⟨hcount, hscan, by rw [r.1.bitmap.wordMask_eq, a.bitmap.wordMask_eq, hscan]⟩

theorem threads_ranked : Ranked (step : State τ → Action τ → Option (State τ)) mover calls takes
    (fun charge s t => cost charge s.arena (s.pc t)) 2 (callCost n) (Owning n k) where
  keeps h hs := step_owning h hs
  operation := by
    intro charge s x s' h hs hcall
    cases step_cases hs with
    | allocate | release => cases hcall
    | handOut t slotIdx hpc => simp [mover, takes, hpc, claims, cost]
    | advance t hidle hret =>
        have hpays : Pays charge s.arena (s.pc t) (advance s.arena (s.pc t)) := advance_pays hidle hret
        simpa only [mover, takes, update_self, Pays] using hpays
  call := by
    intro charge s x s' h hs hcall
    cases step_cases hs with
    | handOut | advance => cases hcall
    | allocate t p hidle hp =>
        refine ⟨rfl, ?_⟩
        simp only [mover, update_self]
        rcases hp with rfl | rfl
        · simp only [cost, callCost]
          omega
        · simp only [cost, callCost, h.scanWords]
          exact le_rfl
    | release t slotIdx hidle hlive =>
        refine ⟨rfl, ?_⟩
        simp only [mover, update_self, cost, callCost]
        omega
  other := by
    intro charge s x s' u h hs hu
    cases step_cases hs with
    | allocate t p hidle hp | release t slotIdx hidle hlive | handOut t slotIdx hpc =>
        simp only [update_of_ne (show u ≠ t from hu)]
        exact Nat.le_add_right _ _
    | advance t hidle hret =>
        have hout := advance_outcome h.sound (s.pc t) fun slotIdx ht => h.held ht
        simp only [update_of_ne (show u ≠ t from hu)]
        exact cost_other (hout.shape h.sound) _
          (fun hnone slot hb => bit_of_not_claims hout (fun slotIdx ht => (h.held ht).1) h.sound hnone hb) (s.pc u)

omit [Fintype τ] in
theorem tick_enabled (s : State τ) {t : τ} (h : s.pc t ≠ .idle) : ∃ s', step s (.tick t) = some s' := by
  simp only [step]
  split
  next hidle => exact absurd hidle h
  next slotIdx hpc => exact ⟨_, rfl⟩
  next => exact ⟨_, rfl⟩

/-- However the threads are interleaved, the allocations and releases of a
fixed arena come to an end. A call performs at most as many operations as the
bitmap has words and eight more, and two for every slot that other threads claim
meanwhile. -/
theorem slot_calls_finish (n cap : Nat) (autoSpill : Bool) (initPolicy : InitPolicy) (memory : Memory)
    (as : List (Action τ)) (s : State τ)
    (hr : run step (start (.build n cap autoSpill initPolicy memory)) as = some s) :
    tally step (fun _ x => !calls x) (start (.build n cap autoSpill initPolicy memory)) as ≤
      (wordsFor n + 8 + 2 * Fintype.card τ) *
        tally step (fun _ x => calls x) (start (.build n cap autoSpill initPolicy memory)) as ∧
    (∀ t, s.pc t ≠ .idle → ∃ s', step s (.tick t) = some s') ∧
    ∀ x v bs s', calls x = true → step s x = some v → run step v bs = some s' →
      Meets step (fun _ y => mover y = mover x → calls y = false) v bs →
      tally step (fun _ y => decide (mover y = mover x)) v bs ≤
        wordsFor n + 8 + 2 * tally step (fun w y => decide (mover y ≠ mover x) && takes w y) v bs := by
  have hranked := threads_ranked (τ := τ) (n := n) (k := cap)
  have hstart := start_owning (τ := τ) n cap autoSpill initPolicy memory
  have hs : Owning n cap s := run_preserves (Owning n cap) (fun _ _ _ => step_owning) hstart hr
  refine ⟨?_, fun t ht => tick_enabled s ht, fun x v bs s' hcall hx hrun hno => ?_⟩
  · have htotal := hranked.total hr hstart
    have hzero : ∑ t : τ, cost (2 * Fintype.card τ) (ArenaInner.build n cap autoSpill initPolicy memory) .idle = 0 :=
      Finset.sum_eq_zero fun _ _ => rfl
    simp only [start, callCost] at htotal
    rw [hzero] at htotal
    exact (Nat.le_of_add_right_le htotal).trans (Nat.zero_add _).le
  · have hown := hranked.own hrun (step_owning hs hx) (mover x) hno
    have hbound := (hranked.call 0 hs hx hcall).2
    simp only [callCost] at hbound
    omega

def lastSlot : State (Fin 2) := start (.build 1 64 false .uninit fun _ => 0)

def lastSlotRun : List (Action (Fin 2)) :=
  [.allocate 0, .allocate 1, .tick 0, .tick 0, .tick 1, .tick 1, .tick 0, .tick 1, .tick 1, .tick 1]

def lastSlotState : State (Fin 2) := (run step lastSlot lastSlotRun).getD lastSlot

theorem lastSlotState_reached : run step lastSlot lastSlotRun = some lastSlotState :=
  run_eq_some_getD (by decide +kernel)

theorem slot_calls_finish_race :
    tally step (fun _ x => !calls x) lastSlot lastSlotRun = 8 ∧ lastSlotState.pc 1 = .idle ∧
      tally step (fun _ x => !calls x) lastSlot lastSlotRun ≤
        (wordsFor 1 + 8 + 2 * Fintype.card (Fin 2)) * tally step (fun _ x => calls x) lastSlot lastSlotRun := by
  have height : tally step (fun _ x => !calls x) lastSlot lastSlotRun = 8 := by decide +kernel
  have hidle : lastSlotState.pc 1 = .idle := by decide +kernel
  have h := slot_calls_finish 1 64 false .uninit (fun _ => 0) lastSlotRun lastSlotState lastSlotState_reached
  rw [show start (.build 1 64 false .uninit fun _ => 0) = lastSlot from rfl] at h
  exact ⟨height, hidle, h.1⟩

end ArenaAlligator.FixedThreads
