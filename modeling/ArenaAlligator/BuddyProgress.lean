import ArenaAlligator.BitmapRefinement
import ArenaAlligator.BuddyOwnership
import ArenaAlligator.StepBounds

namespace ArenaAlligator.BuddyThreads

open Function AlignedBlocks BuddyArenaInner AtomicBitmap BitmapRefinement Runs StepBounds

def claims (a : BuddyArenaInner) : Pc → Bool
  | .claimBit s start i bit =>
      ((a.bitmap s.order).claimBit ((start + i) &&& (a.bitmap s.order).wordMask) bit).1.isSome
  | .claimBuddy b => decide (b.order < a.maxOrder) && ((a.bitmap b.order).tryClaimExact (b.index ^^^ 1)).1
  | _ => false

def words (m order : Nat) : Nat := wordsFor (blocksAtOrder m order)

def splitCost (target order : Nat) : Nat := 2 * (order - target) + 5

def claimCost (charge m target order : Nat) : Nat := charge + words m order + 3 + splitCost target order

def tryCost (charge m target order : Nat) : Nat := words m order + 3 + claimCost charge m target order

def ordersCost (charge m target : Nat) (orders : List Nat) : Nat := (orders.map (tryCost charge m target)).sum

def passCost (charge m target : Nat) : Option Word → Nat
  | some _ => ordersCost charge m target (List.range' target (m + 1 - target)) + 1
  | none => 1

def searchCost (charge m : Nat) (s : Search) : Nat :=
  ordersCost charge m s.target s.rest + passCost charge m s.target s.summary

def coalesceCost (charge m : Nat) : Nat → Nat
  | 0 => 3
  | above + 1 => charge + words m (m - (above + 1)) + 5 + coalesceCost charge m above

def resumeCost (charge m : Nat) : Claim → Nat
  | .split target b => splitCost target b.order
  | .coalesce b => 1 + coalesceCost charge m (m - b.order)

/-- The operations that a thread still performs, with a charge for every block
that it claims. A thread whose bit is gone has one operation to lose and one to
repeat. -/
def cost (charge m : Nat) (a : BuddyArenaInner) : Pc → Nat
  | .idle => 0
  | .loadSummary target =>
      ordersCost charge m target (List.range' target (m + 1 - target)) + passCost charge m target (some 0#64) + 1
  | .addCursor s => tryCost charge m s.target s.order + searchCost charge m s
  | .loadWord s _ i => words m s.order - i + 2 + claimCost charge m s.target s.order + searchCost charge m s
  | .claimBit s start i bit =>
      words m s.order - i + 1 + claimCost charge m s.target s.order + searchCost charge m s +
        if claims a (.claimBit s start i bit) then 0 else 2
  | .anyFree order wordIdx k => words m order - wordIdx + 2 + resumeCost charge m k
  | .clearSummary _ k => 1 + resumeCost charge m k
  | .splitSummary target childOrder _ _ => 2 * (childOrder - target) + 7
  | .splitFree target childOrder _ _ => 2 * (childOrder - target) + 6
  | .recordSplits _ _ => 5
  | .zeroBlock _ => 4
  | .addAllocationsOk _ => 3
  | .addBytesLive _ => 2
  | .handOut _ => 1
  | .recordFailure => 1
  | .addFrees b => 3 + coalesceCost charge m (m - b.order)
  | .subBytesLive b => 2 + coalesceCost charge m (m - b.order)
  | .scrub b => 1 + coalesceCost charge m (m - b.order)
  | .claimBuddy b => coalesceCost charge m (m - b.order)
  | .recordCoalesce b => 1 + coalesceCost charge m (m - b.order)
  | .publishSummary _ => 2
  | .publish _ => 1

variable {a : BuddyArenaInner} {charge : Nat}

theorem scanWords_eq_words (ha : a.Sound) (order : Nat) : (a.bitmap order).scanWords = words a.maxOrder order := by
  rw [(a.bitmap order).scanWords_eq, words, blocksAtOrder, Nat.one_shiftLeft]
  rcases Nat.lt_or_ge a.maxOrder order with h | h
  · rw [bitmap_of_gt ha h, Nat.sub_eq_zero_of_le h.le]
    rfl
  · rw [ha.slotCount order h]

theorem actualWords_le_words (ha : a.Sound) (order : Nat) : (a.bitmap order).actualWords ≤ words a.maxOrder order := by
  rw [← scanWords_eq_words ha, ← (a.bitmap order).length_words]
  exact actualWords_le _

variable {c : BuddyArenaInner} {m : Nat}

theorem cost_nextOrder {target : Nat} {summary : Option Word} {exhausted : Pc}
    (h : cost charge m c exhausted ≤ passCost charge m target summary) (orders : List Nat) :
    cost charge m c (nextOrder target summary exhausted orders) ≤
      ordersCost charge m target orders + passCost charge m target summary := by
  induction orders with
  | nil => exact h.trans (Nat.le_add_left _ _)
  | cons order rest ih =>
      rw [nextOrder]
      split
      · apply ih.trans
        apply Nat.add_le_add_right
        exact Nat.le_add_left _ _
      · simp only [cost, searchCost, ordersCost, List.map_cons, List.sum_cons]
        omega

theorem cost_afterPass (target : Nat) (summary : Option Word) :
    cost charge a.maxOrder c (afterPass a target summary) ≤ passCost charge a.maxOrder target summary := by
  cases summary with
  | none => exact le_rfl
  | some bits => exact cost_nextOrder le_rfl _

theorem cost_next (s : Search) : cost charge a.maxOrder c (s.next a) ≤ searchCost charge a.maxOrder s :=
  cost_nextOrder (cost_afterPass s.target s.summary) s.rest

theorem cost_visit (ha : a.Sound) (s : Search) (start i : Nat) :
    cost charge a.maxOrder c (s.visit a start i) ≤ searchCost charge a.maxOrder s ∨
      i < words a.maxOrder s.order ∧ s.visit a start i = .loadWord s start i := by
  unfold Search.visit
  rw [scanWords_eq_words ha]
  split
  next hi => exact Or.inr ⟨hi, rfl⟩
  next => exact Or.inl (cost_next s)

theorem cost_splitNext (target : Nat) (b : Block) (splitSteps : Nat) :
    cost charge m c (splitNext target b splitSteps) ≤ splitCost target b.order := by
  unfold splitNext splitCost
  split
  next childOrder ho =>
    split
    · simp only [cost, ho]
      omega
    · split <;> simp only [cost] <;> omega
  next => split <;> simp only [cost] <;> omega

theorem cost_resume (k : Claim) : cost charge m c k.resume ≤ resumeCost charge m k := by
  cases k with
  | split target b => exact cost_splitNext target b 0
  | coalesce b => exact le_rfl

theorem cost_checkWord (order : Nat) (k : Claim) :
    cost charge m c (checkWord a order 0 k) ≤ words m order + 2 + resumeCost charge m k := by
  unfold checkWord
  split
  · exact le_rfl
  · simp only [cost]
    omega

theorem three_le_coalesceCost (charge m above : Nat) : 3 ≤ coalesceCost charge m above := by
  cases above with
  | zero => exact le_rfl
  | succ above =>
      simp only [coalesceCost]
      omega

theorem coalesceCost_below {order : Nat} (h : order < m) :
    coalesceCost charge m (m - order) = charge + words m order + 5 + coalesceCost charge m (m - (order + 1)) := by
  obtain ⟨above, rfl⟩ : ∃ above, m = order + (above + 1) := ⟨m - order - 1, by omega⟩
  have hup : order + (above + 1) - order = above + 1 := by omega
  have hnext : order + (above + 1) - (order + 1) = above := by omega
  have hback : order + (above + 1) - (above + 1) = order := by omega
  rw [hup, hnext, coalesceCost, hback]

def Pays (charge : Nat) (a : BuddyArenaInner) (p : Pc) (r : BuddyArenaInner × Pc) : Prop :=
  cost charge a.maxOrder r.1 r.2 + 1 + charge * (claims a p).toNat ≤ cost charge a.maxOrder a p

theorem Pays.quiet {p : Pc} {r : BuddyArenaInner × Pc} {k : Nat} (hclaims : claims a p = false)
    (hr : cost charge a.maxOrder r.1 r.2 ≤ k) (hk : k + 1 ≤ cost charge a.maxOrder a p) : Pays charge a p r := by
  rw [Pays, hclaims, Bool.toNat_false, Nat.mul_zero, Nat.add_zero]
  exact (Nat.add_le_add_right hr 1).trans hk

theorem Pays.claim {p : Pc} {r : BuddyArenaInner × Pc} {k : Nat} (hclaims : claims a p = true)
    (hr : cost charge a.maxOrder r.1 r.2 ≤ k) (hk : k + 1 + charge ≤ cost charge a.maxOrder a p) :
    Pays charge a p r := by
  rw [Pays, hclaims, Bool.toNat_true, Nat.mul_one]
  exact (Nat.add_le_add_right (Nat.add_le_add_right hr 1) charge).trans hk

theorem addCursor_pays (ha : a.Sound) (s : Search) : Pays charge a (.addCursor s) (advance a (.addCursor s)) := by
  simp only [advance]
  split
  · refine .quiet rfl (cost_next s) ?_
    simp only [cost, tryCost]
    omega
  · rcases cost_visit ha s _ 0 with hle | ⟨-, hvisit⟩
    · refine .quiet rfl hle ?_
      simp only [cost, tryCost]
      omega
    · rw [hvisit]
      refine .quiet rfl le_rfl ?_
      simp only [cost, tryCost]
      omega

theorem loadWord_pays (ha : a.Sound) (s : Search) (start i : Nat) :
    Pays charge a (.loadWord s start i) (advance a (.loadWord s start i)) := by
  simp only [advance]
  split
  next hzero =>
    rcases cost_visit ha s start (i + 1) with hle | ⟨hi, hvisit⟩
    · refine .quiet rfl hle ?_
      simp only [cost]
      omega
    · rw [hvisit]
      refine .quiet rfl le_rfl ?_
      simp only [cost]
      omega
  next hset =>
    have hfresh : claims a (.claimBit s start i _) = true := claimBit_ctz hset
    refine .quiet rfl le_rfl ?_
    simp only [cost, hfresh, if_true]
    omega

theorem claimBit_pays (s : Search) (start i bit : Nat) :
    Pays charge a (.claimBit s start i bit) (advance a (.claimBit s start i bit)) := by
  simp only [advance]
  split
  next blockIdx hr =>
    have hclaims : claims a (.claimBit s start i bit) = true := by rw [claims, hr]; rfl
    refine .claim hclaims (cost_checkWord s.order _) ?_
    simp only [cost, hclaims, if_true, claimCost, resumeCost]
    omega
  next hr =>
    have hclaims : claims a (.claimBit s start i bit) = false := by rw [claims, hr]; rfl
    refine .quiet hclaims le_rfl ?_
    simp only [cost, hclaims, Bool.false_eq_true, if_false]
    omega

theorem anyFree_pays (ha : a.Sound) (order wordIdx : Nat) (k : Claim) :
    Pays charge a (.anyFree order wordIdx k) (advance a (.anyFree order wordIdx k)) := by
  simp only [advance]
  split
  · refine .quiet rfl (cost_resume k) ?_
    simp only [cost]
    omega
  · unfold checkWord
    have hwords := actualWords_le_words ha order
    split
    next hlt =>
      refine .quiet rfl le_rfl ?_
      simp only [cost]
      omega
    next =>
      refine .quiet rfl le_rfl ?_
      simp only [cost]
      omega

theorem claimBuddy_pays (b : Block) : Pays charge a (.claimBuddy b) (advance a (.claimBuddy b)) := by
  have hthree := three_le_coalesceCost charge a.maxOrder (a.maxOrder - b.order)
  simp only [advance]
  split
  next hlt =>
    split
    next hset =>
      have hclaims : claims a (.claimBuddy b) = true := by simp only [claims, hlt, hset, decide_true, Bool.true_and]
      refine .claim hclaims (cost_checkWord b.order _) ?_
      simp only [cost, coalesceCost_below hlt, resumeCost, Block.parent]
      omega
    next hset =>
      have hclaims : claims a (.claimBuddy b) = false := by
        simp only [claims, hlt, decide_true, Bool.true_and, Bool.eq_false_iff.mpr hset]
      exact .quiet hclaims le_rfl hthree
  next hlt =>
    have hclaims : claims a (.claimBuddy b) = false := by simp only [claims, hlt, decide_false, Bool.false_and]
    exact .quiet hclaims le_rfl hthree

theorem advance_pays (ha : a.Sound) {p : Pc} (hidle : p ≠ .idle) (hret : ∀ b, p ≠ .handOut b) :
    Pays charge a p (advance a p) := by
  cases p with
  | idle => exact absurd rfl hidle
  | handOut b => exact absurd rfl (hret b)
  | addCursor s => exact addCursor_pays ha s
  | loadWord s start i => exact loadWord_pays ha s start i
  | claimBit s start i bit => exact claimBit_pays s start i bit
  | anyFree order wordIdx k => exact anyFree_pays ha order wordIdx k
  | claimBuddy b => exact claimBuddy_pays b
  | loadSummary target => exact .quiet rfl (cost_nextOrder (cost_afterPass target _) _) le_rfl
  | clearSummary order k => exact .quiet rfl (cost_resume k) (Nat.add_comm _ _).le
  | splitFree target childOrder blockIdx splitSteps => exact .quiet rfl (cost_splitNext target _ _) le_rfl
  | splitSummary | recordSplits | zeroBlock | addAllocationsOk | addBytesLive | recordFailure | publishSummary
  | publish => exact .quiet rfl le_rfl le_rfl
  | addFrees b | subBytesLive b | scrub b | recordCoalesce b =>
      refine .quiet rfl le_rfl ?_
      simp only [advance, cost]
      omega

theorem update_true_of_true {f : Block → Bool} {b d : Block} (h : f b = true) : update f d true b = true := by
  by_cases hbd : b = d
  · rw [hbd, update_self]
  · rwa [update_of_ne hbd]

theorem freeBit_of_not_claims (ha : a.Sound) {p : Pc} (hp : Owned a p) (h : claims a p = false) {b : Block}
    (hb : a.freeBit b = true) : (advance a p).1.freeBit b = true := by
  have hsame {d : BuddyArenaInner} (hd : d.freeBitmaps = a.freeBitmaps) : d.freeBit b = true := by
    rw [← hb]
    simp only [freeBit, bitmap, hd]
  cases p with
  | addCursor s =>
      simp only [advance]
      split
      · exact hb
      · rw [setBitmap_claimed_none ha (a.bitmap s.order).fetchAddCursor_claimed rfl]
        exact hb
  | claimBit s start i bit =>
      have hc := (a.bitmap s.order).claimBit_claimed ((start + i) &&& (a.bitmap s.order).wordMask) bit
      simp only [advance]
      split
      next blockIdx hr =>
        rw [claims, hr] at h
        cases h
      next hr =>
        rw [setBitmap_claimed_none ha hc hr]
        exact hb
  | splitFree target childOrder blockIdx splitSteps =>
      have hkid : Block.Inside a.maxOrder ⟨childOrder, blockIdx * 2 + 1⟩ := (hp _ rfl).1.child (by omega)
      simp only [advance]
      rw [freeBlock_freeBit ha hkid]
      exact update_true_of_true hb
  | publish d =>
      simp only [advance]
      rw [freeBlock_freeBit ha (hp d rfl).1]
      exact update_true_of_true hb
  | claimBuddy d =>
      simp only [advance]
      split
      next hlt =>
        have hin : d.buddy.Inside a.maxOrder := (hp d rfl).1.buddy hlt
        have hf : (a.claimExact d.order (d.index ^^^ 1)).freeBit = update a.freeBit d.buddy false :=
          claimExact_freeBit ha hin
        simp only [claims, hlt, decide_true, Bool.true_and] at h
        have hclear : a.freeBit d.buddy = false := (tryClaimExact_fst _ _).symm.trans h
        rw [h]
        change (a.claimExact d.order (d.index ^^^ 1)).freeBit b = true
        rw [hf, update_of_ne]
        · exact hb
        · rintro rfl
          rw [hclear] at hb
          cases hb
      next => exact hb
  | loadWord | anyFree =>
      simp only [advance]
      split <;> exact hb
  | zeroBlock d => exact hsame (zeroOnAllocate_bitmaps a _ _).2
  | scrub d => exact hsame (scrubOnRelease_bitmaps a _ _).2
  | idle | loadSummary | clearSummary | splitSummary | recordSplits | addAllocationsOk | addBytesLive | handOut
  | recordFailure | addFrees | subBytesLive | recordCoalesce | publishSummary => exact hsame rfl

theorem wordMask_eq_of_sound (ha : a.Sound) (hc : c.Sound) (hm : c.maxOrder = a.maxOrder) (order : Nat) :
    (c.bitmap order).wordMask = (a.bitmap order).wordMask := by
  rw [(c.bitmap order).wordMask_eq, (a.bitmap order).wordMask_eq, scanWords_eq_words ha, scanWords_eq_words hc, hm]

/-- The cost of a thread depends on the arena only through the bit that it is
about to claim. -/
theorem cost_other (ha : a.Sound) (hc : c.Sound) (hm : c.maxOrder = a.maxOrder) (lost : Bool)
    (hbit : lost = false → ∀ b, a.freeBit b = true → c.freeBit b = true) (q : Pc) :
    cost charge m c q ≤ cost charge m a q + 2 * lost.toNat := by
  cases q with
  | claimBit s start i bit =>
      have hle : (if claims c (.claimBit s start i bit) then 0 else 2) ≤
          (if claims a (.claimBit s start i bit) then 0 else 2) + 2 * lost.toNat := by
        cases lost with
        | true => split <;> simp
        | false =>
            cases hq : claims a (.claimBit s start i bit) with
            | false => split <;> simp
            | true =>
                rw [claims, claimBit_isSome] at hq
                have hfresh : claims c (.claimBit s start i bit) = true := by
                  rw [claims, claimBit_isSome, wordMask_eq_of_sound ha hc hm]
                  exact ⟨hq.1, hbit rfl ⟨s.order, _⟩ hq.2⟩
                simp [hfresh]
      simp only [cost]
      omega
  | _ => exact Nat.le_add_right _ _

variable {τ : Type} [DecidableEq τ] [Fintype τ] {g : BuddyGeometry}

def mover : Action τ → τ
  | .allocate t _ | .release t _ | .tick t => t

def calls : Action τ → Bool
  | .allocate _ _ | .release _ _ => true
  | .tick _ => false

def takes (s : State τ) : Action τ → Bool
  | .tick t => claims s.arena (s.pc t)
  | .allocate _ _ | .release _ _ => false

/-- The cost of any call: both passes over all orders, or the coalesce loop
from the lowest order. -/
def callCost (m charge : Nat) : Nat :=
  2 * ordersCost charge m 0 (List.range (m + 1)) + coalesceCost charge m m + 3

theorem ordersCost_le (charge m target : Nat) :
    ordersCost charge m target (List.range' target (m + 1 - target)) ≤ ordersCost charge m 0 (List.range (m + 1)) := by
  rcases Nat.lt_or_ge (m + 1) target with hgt | hle
  · rw [Nat.sub_eq_zero_of_le hgt.le]
    exact Nat.zero_le _
  · have hsplit : List.range (m + 1) = List.range' 0 target ++ List.range' target (m + 1 - target) := by
      have happend := List.range'_append_1 (s := 0) (m := target) (n := m + 1 - target)
      rw [Nat.zero_add, Nat.add_sub_cancel' hle] at happend
      rw [happend, List.range_eq_range']
    have hterm : ∀ order, tryCost charge m target order ≤ tryCost charge m 0 order := by
      intro order
      simp only [tryCost, claimCost, splitCost]
      omega
    rw [hsplit, ordersCost, ordersCost, List.map_append, List.sum_append]
    exact (List.sum_le_sum fun order _ => hterm order).trans (Nat.le_add_left _ _)

theorem coalesceCost_mono (charge m : Nat) : Monotone (coalesceCost charge m) := by
  apply monotone_nat_of_le_succ
  intro above
  exact Nat.le_add_left _ _

theorem call_cost_le (charge m target : Nat) :
    cost charge m c (.loadSummary target) ≤ callCost m charge := by
  have hle := ordersCost_le charge m target
  simp only [cost, passCost, callCost]
  omega

theorem threads_ranked : Ranked (step : State τ → Action τ → Option (State τ)) mover calls takes
    (fun charge s t => cost charge g.maxOrder s.arena (s.pc t)) 2 (callCost g.maxOrder) (Owning g) where
  keeps h hs := step_owning h hs
  operation := by
    intro charge s x s' h hs hcall
    have hm : s.arena.maxOrder = g.maxOrder := congrArg BuddyGeometry.maxOrder h.geometry
    cases step_cases hs with
    | allocate | release => cases hcall
    | handOut t b hpc => simp [mover, takes, hpc, claims, cost]
    | advance t hidle hret =>
        have hpays : Pays charge s.arena (s.pc t) _ := advance_pays h.sound hidle hret
        rw [Pays, hm] at hpays
        simpa only [mover, takes, update_self] using hpays
  call := by
    intro charge s x s' h hs hcall
    cases step_cases hs with
    | handOut | advance => cases hcall
    | allocate t len p hidle hp =>
        refine ⟨rfl, ?_⟩
        simp only [mover, update_self]
        rcases hp with rfl | ⟨target, rfl⟩
        · simp only [cost, callCost]
          omega
        · exact call_cost_le charge g.maxOrder target
    | release t b hidle hb =>
        refine ⟨rfl, ?_⟩
        have hle := coalesceCost_mono charge g.maxOrder (Nat.sub_le g.maxOrder b.order)
        simp only [mover, update_self, cost, callCost]
        omega
  other := by
    intro charge s x s' u h hs hu
    cases step_cases hs with
    | allocate t len p hidle hp | release t b hidle hb | handOut t b hpc =>
        simp only [update_of_ne (show u ≠ t from hu)]
        exact Nat.le_add_right _ _
    | advance t hidle hret =>
        have hout := advance_outcome h.sound (s.pc t) (h.owned t)
        simp only [update_of_ne (show u ≠ t from hu)]
        exact cost_other h.sound hout.sound (congrArg BuddyGeometry.maxOrder hout.geometry) _
          (fun hnone b hb => freeBit_of_not_claims h.sound (h.owned t) hnone hb) (s.pc u)

omit [Fintype τ] in
theorem tick_enabled (s : State τ) {t : τ} (h : s.pc t ≠ .idle) : ∃ s', step s (.tick t) = some s' := by
  simp only [step]
  split
  next hidle => exact absurd hidle h
  next b hpc => exact ⟨_, rfl⟩
  next => exact ⟨_, rfl⟩

omit [DecidableEq τ] in
theorem start_cost (g : BuddyGeometry) (autoSpill : Bool) (initPolicy : InitPolicy) (memory : Memory) (charge : Nat) :
    ∑ t, cost charge g.maxOrder (start g autoSpill initPolicy memory : State τ).arena
      ((start g autoSpill initPolicy memory : State τ).pc t) = 0 :=
  Finset.sum_eq_zero fun _ _ => rfl

/-- However the threads are interleaved, a run has at most as many atomic
operations as its calls pay for, and a thread inside a call always has a next
one, so the calls of a run come to an end. A single call is held up only by
claims of other threads, each of which costs it two operations. -/
theorem calls_finish (g : BuddyGeometry) (autoSpill : Bool) (initPolicy : InitPolicy) (memory : Memory)
    (as : List (Action τ)) (s : State τ) (hr : run step (start g autoSpill initPolicy memory) as = some s) :
    tally step (fun _ x => !calls x) (start g autoSpill initPolicy memory) as ≤
      callCost g.maxOrder (2 * Fintype.card τ) *
        tally step (fun _ x => calls x) (start g autoSpill initPolicy memory) as ∧
    (∀ t, s.pc t ≠ .idle → ∃ s', step s (.tick t) = some s') ∧
    ∀ x v bs s', calls x = true → step s x = some v → run step v bs = some s' →
      Meets step (fun _ y => mover y = mover x → calls y = false) v bs →
      tally step (fun _ y => decide (mover y = mover x)) v bs ≤
        callCost g.maxOrder 0 + 2 * tally step (fun w y => decide (mover y ≠ mover x) && takes w y) v bs := by
  have hranked := threads_ranked (τ := τ) (g := g)
  have hstart : Owning g (start g autoSpill initPolicy memory : State τ) := start_owning g autoSpill initPolicy memory
  have hs : Owning g s := reachable_owning ⟨as, hr⟩
  refine ⟨?_, fun t ht => tick_enabled s ht, fun x v bs s' hcall hx hrun hno => ?_⟩
  · have htotal := hranked.total hr hstart
    rw [start_cost] at htotal
    omega
  · have hown := hranked.own hrun (step_owning hs hx) (mover x) hno
    have hbound := (hranked.call 0 hs hx hcall).2
    omega

/-- Both threads see the top block; the second one loses it and loads again. -/
def raceRun : List (Action (Fin 2)) :=
  [.allocate 0 1024, .allocate 1 1024] ++ List.replicate 3 (.tick 0) ++ List.replicate 3 (.tick 1) ++
    [.tick 0, .tick 1, .tick 1]

def raceState : State (Fin 2) := (run step pairStart raceRun).getD pairStart

theorem raceState_reached : run step pairStart raceRun = some raceState :=
  run_eq_some_getD (by decide +kernel)

theorem calls_finish_race :
    tally step (fun _ x => !calls x) pairStart raceRun = 9 ∧ tally step (fun _ x => calls x) pairStart raceRun = 2 ∧
      tally step (fun _ x => !calls x) pairStart raceRun ≤
        callCost pairGeometry.maxOrder (2 * Fintype.card (Fin 2)) *
          tally step (fun _ x => calls x) pairStart raceRun := by
  have hnine : tally step (fun _ x => !calls x) pairStart raceRun = 9 := by decide +kernel
  have htwo : tally step (fun _ x => calls x) pairStart raceRun = 2 := by decide +kernel
  have h := calls_finish pairGeometry false .uninit (fun _ => 0) raceRun raceState raceState_reached
  rw [show start pairGeometry false .uninit (fun _ => 0) = pairStart from rfl] at h
  exact ⟨hnine, htwo, h.1⟩

end ArenaAlligator.BuddyThreads
