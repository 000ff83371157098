import ArenaAlligator.BuddyProgress
import ArenaAlligator.BuddyRuns
import ArenaAlligator.SweepRules

namespace ArenaAlligator.BuddyThreads

open Function AlignedBlocks BuddyArenaInner AtomicBitmap Runs SweepRules

/-- The full scan has passed the place of the block. -/
def Pc.behind (a : BuddyArenaInner) (b : Block) : Pc → Prop
  | addCursor s => s.summary = none ∧ b.order < s.order
  | loadWord s start i | claimBit s start i _ =>
      s.summary = none ∧ (b.order < s.order ∨
        b.order = s.order ∧ ∃ j < i, (start + j) &&& (a.bitmap s.order).wordMask = b.index / bitsPerWord)
  | recordFailure => True
  | _ => False

/-- The thread is in allocate and has no block yet. The orders to come of the
full scan are all those above the current one. -/
def Pc.seeks (a : BuddyArenaInner) (target : Nat) : Pc → Prop
  | loadSummary t => t = target
  | addCursor s | loadWord s _ _ | claimBit s _ _ _ =>
      s.target = target ∧ (s.summary = none → s.rest = a.ordersFrom (s.order + 1))
  | recordFailure => True
  | _ => False

def Pc.gone (p : Pc) : Prop := p.held ≠ none ∨ p = .idle

def freeing : Pc → Option Block
  | .splitFree _ childOrder blockIdx _ => some ⟨childOrder, blockIdx * 2 + 1⟩
  | .publish b => some b
  | _ => none

instance decidableBehind (a : BuddyArenaInner) (b : Block) : (p : Pc) → Decidable (p.behind a b)
  | .addCursor s => inferInstanceAs (Decidable (s.summary = none ∧ b.order < s.order))
  | .loadWord s start i | .claimBit s start i _ =>
      inferInstanceAs (Decidable (s.summary = none ∧ (b.order < s.order ∨
        b.order = s.order ∧ ∃ j < i, (start + j) &&& (a.bitmap s.order).wordMask = b.index / bitsPerWord)))
  | .recordFailure => isTrue trivial
  | .idle | .loadSummary _ | .anyFree _ _ _ | .clearSummary _ _ | .splitSummary _ _ _ _ | .splitFree _ _ _ _
  | .recordSplits _ _ | .zeroBlock _ | .addAllocationsOk _ | .addBytesLive _ | .handOut _ | .addFrees _
  | .subBytesLive _ | .scrub _ | .claimBuddy _ | .recordCoalesce _ | .publishSummary _ | .publish _ => isFalse id

variable {a c : BuddyArenaInner} {target : Nat} {b : Block} {p : Pc}

theorem behind_congr (ha : a.Sound) (hc : c.Sound) (hm : c.maxOrder = a.maxOrder) (p : Pc) :
    p.behind c b ↔ p.behind a b := by
  cases p <;> simp only [Pc.behind, wordMask_eq_of_sound ha hc hm]

theorem seeks_congr (hm : c.maxOrder = a.maxOrder) (p : Pc) : p.seeks c target ↔ p.seeks a target := by
  cases p <;> simp only [Pc.seeks, ordersFrom, hm]

theorem not_behind_of_gone (h : p.gone) : ¬ p.behind a b := by
  rcases h with h | rfl
  · intro hb
    cases p with
    | addCursor | loadWord | claimBit | recordFailure => exact h rfl
    | _ => exact hb
  · exact id

theorem freeing_of_seeks (h : p.seeks a target) : freeing p = none := by
  cases p with
  | splitFree | publish => cases h
  | _ => rfl

theorem ordersFrom_of_le {o : Nat} (h : o ≤ a.maxOrder) : a.ordersFrom o = o :: a.ordersFrom (o + 1) := by
  rw [ordersFrom, ordersFrom, Nat.succ_sub h, List.range'_succ, Nat.add_sub_add_right]

theorem not_free_of_gt (ha : a.Sound) (h : a.maxOrder < b.order) : a.freeBit b = false := by
  by_contra hb
  exact absurd (inside_of_freeBit ha (Bool.not_eq_false _ ▸ hb)).1 (Nat.not_le.mpr h)

theorem nextOrder_full (ha : a.Sound) (target o : Nat) :
    (nextOrder target none .recordFailure (a.ordersFrom o)).seeks a target ∧
      ((nextOrder target none .recordFailure (a.ordersFrom o)).behind a b → b.order < o ∨ a.freeBit b = false) := by
  by_cases ho : o ≤ a.maxOrder
  · rw [ordersFrom_of_le ho]
    exact ⟨⟨rfl, fun _ => rfl⟩, fun h => Or.inl h.2⟩
  · have hnil : a.ordersFrom o = [] := by
      rw [ordersFrom, Nat.sub_eq_zero_of_le (Nat.not_le.mp ho)]
      rfl
    rw [hnil]
    refine ⟨trivial, fun _ => ?_⟩
    by_cases hb : b.order < o
    · exact Or.inl hb
    · exact Or.inr (not_free_of_gt ha (by omega))

theorem nextOrder_summary (w : Word) {exhausted : Pc} (he : exhausted.seeks a target) (orders : List Nat) :
    (nextOrder target (some w) exhausted orders).seeks a target ∧
      ((nextOrder target (some w) exhausted orders).behind a b → exhausted.behind a b) := by
  induction orders with
  | nil => exact ⟨he, id⟩
  | cons o rest ih =>
      rw [nextOrder]
      split
      · exact ih
      · exact ⟨⟨rfl, fun h => by cases h⟩, fun h => by cases h.1⟩

theorem afterPass_seeks (ha : a.Sound) (target : Nat) (summary : Option Word) :
    (afterPass a target summary).seeks a target := by
  cases summary with
  | none => trivial
  | some w => exact (nextOrder_full ha (b := ⟨0, 0⟩) target target).1

theorem afterPass_behind (ha : a.Sound) {w : Word} (hb : target ≤ b.order)
    (h : (afterPass a target (some w)).behind a b) : a.freeBit b = false :=
  ((nextOrder_full ha target target).2 h).resolve_left (Nat.not_lt.mpr hb)

theorem next_seeks (ha : a.Sound) {s : Search} (hs : (Pc.addCursor s).seeks a target) :
    (s.next a).seeks a target := by
  obtain ⟨target', summary, order, rest⟩ := s
  obtain ⟨rfl, hrest⟩ := hs
  cases summary with
  | none =>
      obtain rfl : rest = a.ordersFrom (order + 1) := hrest rfl
      exact (nextOrder_full ha (b := ⟨0, 0⟩) _ _).1
  | some w => exact (nextOrder_summary (b := ⟨0, 0⟩) w (afterPass_seeks ha _ _) rest).1

theorem next_behind (ha : a.Sound) {s : Search} (hs : (Pc.addCursor s).seeks a target) (hb : target ≤ b.order)
    (h : (s.next a).behind a b) : s.summary = none ∧ b.order ≤ s.order ∨ a.freeBit b = false := by
  obtain ⟨target', summary, order, rest⟩ := s
  obtain ⟨rfl, hrest⟩ := hs
  cases summary with
  | none =>
      obtain rfl : rest = a.ordersFrom (order + 1) := hrest rfl
      exact ((nextOrder_full ha _ _).2 h).imp_left fun hlt => ⟨rfl, Nat.le_of_lt_succ hlt⟩
  | some w => exact Or.inr (afterPass_behind ha hb ((nextOrder_summary w (afterPass_seeks ha _ _) rest).2 h))

theorem visit_seeks (ha : a.Sound) {s : Search} (hs : (Pc.addCursor s).seeks a target) (start i : Nat) :
    (s.visit a start i).seeks a target := by
  rw [Search.visit]
  split
  · exact hs
  · exact next_seeks ha hs

theorem visit_behind (ha : a.Sound) {s : Search} (hs : (Pc.addCursor s).seeks a target) (hb : target ≤ b.order)
    {start i : Nat} (h : (s.visit a start i).behind a b) :
    (Pc.loadWord s start i).behind a b ∨ a.freeBit b = false := by
  rw [Search.visit] at h
  split at h
  next => exact Or.inl h
  next hge =>
    rcases next_behind ha hs hb h with ⟨hnone, hle⟩ | hfree
    · by_cases hfree : a.freeBit b = false
      · exact Or.inr hfree
      · refine Or.inl ⟨hnone, hle.lt_or_eq.imp_right fun heq => ⟨heq, ?_⟩⟩
        rw [Bool.not_eq_false, freeBit, heq] at hfree
        obtain ⟨j, hj, hword⟩ := (a.bitmap s.order).exists_scan_index start
          (div_lt_scanWords _ (ha.padding s.order b.index hfree))
        exact ⟨j, hj.trans_le (Nat.not_lt.mp hge), hword⟩
    · exact Or.inr hfree

theorem checkWord_gone (a : BuddyArenaInner) (order wordIdx : Nat) (k : Claim) :
    (checkWord a order wordIdx k).gone := by
  refine Or.inl ?_
  rw [checkWord_held]
  exact Option.some_ne_none _

theorem advance_seeks (ha : a.Sound) (h : p.seeks a target) :
    (advance a p).2.seeks a target ∨ (advance a p).2.gone := by
  cases p with
  | loadSummary t =>
      cases h
      exact Or.inl (nextOrder_summary (b := ⟨0, 0⟩) _ (afterPass_seeks ha _ _) _).1
  | addCursor s =>
      simp only [advance]
      split
      · exact Or.inl (next_seeks ha h)
      · exact Or.inl (visit_seeks ha h _ 0)
  | loadWord s start i =>
      simp only [advance]
      split
      · exact Or.inl (visit_seeks ha h start (i + 1))
      · exact Or.inl h
  | claimBit s start i bit =>
      simp only [advance]
      split
      · exact Or.inr (checkWord_gone _ _ _ _)
      · exact Or.inl h
  | recordFailure => exact Or.inr (Or.inr rfl)
  | _ => cases h

/-- What the scan passes with one operation is not free at that instant. -/
theorem advance_behind (ha : a.Sound) (h : p.seeks a target) (hb : target ≤ b.order)
    (hr : (advance a p).2.behind a b) : p.behind a b ∨ a.freeBit b = false := by
  cases p with
  | loadSummary t =>
      cases h
      exact Or.inr (afterPass_behind ha hb ((nextOrder_summary _ (afterPass_seeks ha _ _) _).2 hr))
  | addCursor s =>
      simp only [advance] at hr
      split at hr
      next hzero =>
        rcases next_behind ha h hb hr with ⟨hnone, hle⟩ | hfree
        · refine hle.lt_or_eq.imp (fun hlt => ⟨hnone, hlt⟩) fun heq => ?_
          by_contra hfree
          rw [Bool.not_eq_false, freeBit, heq] at hfree
          exact absurd (ha.padding s.order b.index hfree) (hzero ▸ Nat.not_lt_zero _)
        · exact Or.inr hfree
      next =>
        refine (visit_behind ha h hb hr).imp_left fun hbehind => ⟨hbehind.1, hbehind.2.resolve_right ?_⟩
        rintro ⟨-, j, hj, -⟩
        exact Nat.not_lt_zero j hj
  | loadWord s start i =>
      simp only [advance] at hr
      split at hr
      next hzero =>
        rcases visit_behind ha h hb hr with ⟨hnone, hlt | ⟨heq, j, hj, hword⟩⟩ | hfree
        · exact Or.inl ⟨hnone, Or.inl hlt⟩
        · rcases (Nat.lt_succ_iff_lt_or_eq.mp hj) with hlt | rfl
          · exact Or.inl ⟨hnone, Or.inr ⟨heq, j, hlt, hword⟩⟩
          · refine Or.inr ?_
            rw [freeBit, heq, bit, ← hword, hzero]
            exact BitVec.getLsbD_zero
        · exact Or.inr hfree
      next => exact Or.inl hr
  | claimBit s start i bit =>
      simp only [advance] at hr
      split at hr
      · exact absurd hr (not_behind_of_gone (checkWord_gone _ _ _ _))
      · exact Or.inl hr
  | recordFailure => exact absurd hr (not_behind_of_gone (Or.inr rfl))
  | _ => cases h

theorem advance_gone (ha : a.Sound) (hp : Owned a p) (h : p.gone) : (advance a p).2.gone := by
  rcases h with h | rfl
  · cases (advance_outcome ha p hp).effect with
    | quiet hf hr => exact Or.inl (hr ▸ h)
    | claim d hnone => exact absurd hnone h
    | split t o i steps hp hf hr => exact Or.inl (hr ▸ Option.some_ne_none _)
    | merge d hp hd hf hr => exact Or.inl (hr ▸ Option.some_ne_none _)
    | publish d hp =>
        subst hp
        exact Or.inr rfl
  · exact Or.inr rfl

/-- An operation frees no block but the one it gives back. -/
theorem advance_free (ha : a.Sound) (hp : Owned a p) (hb : b ∉ freeing p) (h : a.freeBit b = false) :
    (advance a p).1.freeBit b = false := by
  cases (advance_outcome ha p hp).effect with
  | quiet hf => rw [hf, h]
  | claim d hnone hd hf | merge d hmerge hd hf =>
      rw [hf]
      exact (update_apply _ _ _ _).trans (by split <;> [rfl; exact h])
  | split t o i steps hsplit hf =>
      subst hsplit
      rw [hf, update_of_ne, h]
      exact fun he => hb (congrArg some he.symm)
  | publish d hpub hf =>
      subst hpub
      rw [hf, update_of_ne, h]
      exact fun he => hb (congrArg some he.symm)

variable {τ : Type} [DecidableEq τ] [Fintype τ] {g : BuddyGeometry} {s s' : State τ} {t : τ} {x : Action τ}

def SameCall (t : τ) (x : Action τ) : Prop := calls x = true → mover x ≠ t

/-- No block that the call could take is set free behind its scan. -/
def Undisturbed (target : Nat) (t : τ) (s : State τ) : Action τ → Prop
  | .tick u => ∀ b ∈ freeing (s.pc u), target ≤ b.order → s.pc t ≠ .recordFailure → ¬ (s.pc t).behind s.arena b
  | _ => True

instance (target : Nat) (t : τ) (s : State τ) (x : Action τ) : Decidable (Undisturbed target t s x) :=
  match x with
  | .tick u => inferInstanceAs (Decidable (∀ b ∈ freeing (s.pc u), target ≤ b.order → s.pc t ≠ .recordFailure →
      ¬ (s.pc t).behind s.arena b))
  | .allocate _ _ => isTrue trivial
  | .release _ _ => isTrue trivial

structure Calling (g : BuddyGeometry) (target : Nat) (t : τ) (s : State τ) : Prop where
  owning : Owning g s
  stage : (s.pc t).seeks s.arena target ∨ (s.pc t).gone

inductive CallStep (t : τ) (s : State τ) (x : Action τ) (s' : State τ) : Prop
  | own (harena : s'.arena = (advance s.arena (s.pc t)).1) (hpc : s'.pc t = (advance s.arena (s.pc t)).2)
  | hand (b : Block) (hhand : s.pc t = .handOut b) (hpc : s'.pc t = .idle)
  | quiet (harena : s'.arena = s.arena) (hpc : s'.pc t = s.pc t)
  | other (u : τ) (hx : x = .tick u) (harena : s'.arena = (advance s.arena (s.pc u)).1) (hpc : s'.pc t = s.pc t)

omit [Fintype τ] in
theorem call_step (hok : SameCall t x) (hs : step s x = some s') : CallStep t s x s' := by
  cases step_cases hs with
  | allocate u len p | release u d => exact .quiet rfl (update_of_ne (hok rfl).symm _ _)
  | handOut u d hpc =>
      by_cases hut : t = u
      · subst hut
        exact .hand d hpc (update_self _ _ _)
      · exact .quiet rfl (update_of_ne hut _ _)
  | advance u =>
      by_cases hut : t = u
      · subst hut
        exact .own rfl (update_self _ _ _)
      · exact .other u rfl rfl (update_of_ne hut _ _)

theorem step_maxOrder (h : Owning g s) (hs : step s x = some s') : s'.arena.maxOrder = s.arena.maxOrder :=
  congrArg BuddyGeometry.maxOrder ((step_owning h hs).geometry.trans h.geometry.symm)

theorem step_calling (h : Calling g target t s) (hok : SameCall t x) (hs : step s x = some s') :
    Calling g target t s' := by
  refine ⟨step_owning h.owning hs, ?_⟩
  rw [seeks_congr (step_maxOrder h.owning hs)]
  cases call_step hok hs with
  | own harena hpc =>
      rw [hpc]
      exact h.stage.elim (advance_seeks h.owning.sound) fun hgone =>
        Or.inr (advance_gone h.owning.sound (h.owning.owned t) hgone)
  | hand d hhand hpc => exact Or.inr (Or.inr hpc)
  | quiet harena hpc | other u hx harena hpc => exact hpc ▸ h.stage

theorem step_behind (h : Calling g target t s) (hok : SameCall t x) (hs : step s x = some s') (hb : target ≤ b.order)
    (hr : (s'.pc t).behind s'.arena b) : (s.pc t).behind s.arena b ∨ s.arena.freeBit b = false := by
  have ho := step_owning h.owning hs
  rw [behind_congr h.owning.sound ho.sound (step_maxOrder h.owning hs)] at hr
  cases call_step hok hs with
  | own harena hpc =>
      rw [hpc] at hr
      rcases h.stage with hseeks | hgone
      · exact advance_behind h.owning.sound hseeks hb hr
      · exact absurd hr (not_behind_of_gone (advance_gone h.owning.sound (h.owning.owned t) hgone))
  | hand d hhand hpc => exact absurd hr (not_behind_of_gone (Or.inr hpc))
  | quiet harena hpc | other u hx harena hpc => exact Or.inl (hpc ▸ hr)

/-- What is behind an undisturbed call stays taken. -/
theorem step_keeps (h : Calling g target t s) (hok : SameCall t x) (hkept : Undisturbed target t s x)
    (hs : step s x = some s') (hsearch : s'.pc t ≠ .recordFailure) (hb : target ≤ b.order)
    (hr : (s'.pc t).behind s'.arena b) (hfree : s.arena.freeBit b = false) : s'.arena.freeBit b = false := by
  have ho := step_owning h.owning hs
  rw [behind_congr h.owning.sound ho.sound (step_maxOrder h.owning hs)] at hr
  cases call_step hok hs with
  | own harena hpc =>
      rw [hpc] at hr
      rw [harena]
      rcases h.stage with hseeks | hgone
      · refine advance_free h.owning.sound (h.owning.owned t) ?_ hfree
        rw [freeing_of_seeks hseeks]
        exact Option.not_mem_none b
      · exact absurd hr (not_behind_of_gone (advance_gone h.owning.sound (h.owning.owned t) hgone))
  | hand d hhand hpc => exact absurd hr (not_behind_of_gone (Or.inr hpc))
  | quiet harena hpc => rw [harena, hfree]
  | other u hx harena hpc =>
      subst hx
      rw [hpc] at hr hsearch
      rw [harena]
      exact advance_free h.owning.sound (h.owning.owned u) (fun hfreeing => hkept b hfreeing hb hsearch hr) hfree

theorem calling_sweep (g : BuddyGeometry) (target : Nat) (t : τ) :
    Sweep step (fun _ => SameCall t) (Calling g target t) (fun s b => target ≤ b.order ∧ (s.pc t).behind s.arena b)
      fun s b => s.arena.freeBit b = false where
  inv := step_calling
  seen := fun h hok hs _ hb => (step_behind h hok hs hb.1 hb.2).imp_left fun hr => ⟨hb.1, hr⟩

/-- Every block that is large enough for a failed call was taken at some
instant of the call. If no such block is set free behind the scan, there is an
instant at which all of them are. -/
theorem failed_call_saw_blocks_taken (g : BuddyGeometry) (autoSpill : Bool) (initPolicy : InitPolicy)
    (memory : Memory) (s s' : State τ) (h : Reachable step (start g autoSpill initPolicy memory) s) (t : τ)
    (target : Nat) (as : List (Action τ)) (hcall : s.pc t = .loadSummary target) (hsame : ∀ x ∈ as, SameCall t x)
    (hrun : run step s as = some s') (hfail : s'.pc t = .recordFailure) :
    (∀ b, target ≤ b.order → Passes step s as fun v => v.arena.freeBit b = false) ∧
    (Meets step (Undisturbed target t) s as →
      Passes step s as fun v => ∀ b, target ≤ b.order → v.arena.freeBit b = false) := by
  have hsweep := calling_sweep g target t
  have hcalling : Calling g target t s := by
    refine ⟨reachable_owning h, Or.inl ?_⟩
    rw [hcall]
    rfl
  have hfirst (b : Block) : ¬ (s.pc t).behind s.arena b := by
    rw [hcall]
    exact id
  have hlast (v : State τ) (hv : v.pc t = .recordFailure) (b : Block) : (v.pc t).behind v.arena b := by
    rw [hv]
    trivial
  have hok : Meets step (fun _ => SameCall t) s as := meets_of_forall hsame
  constructor
  · intro b hb
    exact hsweep.each_taken hcalling hok hrun (fun hbehind => hfirst b hbehind.2) ⟨hb, hlast s' hfail b⟩
  · intro hkept
    refine hsweep.all_taken (fun v => v.pc t = .recordFailure) (fun b => target ≤ b.order)
      (fun v b hv hb => ⟨hb, hlast v hv b⟩) ?_ hcalling hok hkept hrun
      (fun b hbehind => absurd hbehind.2 (hfirst b)) hfail
    intro v x v' hv hx hkeep hstep hsearch b hb hfree
    exact step_keeps hv hx hkeep hstep hsearch hb.1 hb.2 hfree

def smallStart : State (Fin 2) := start BuddyRuns.smallGeometry false .uninit fun _ => 0

/-- All memory is handed out but for one block of the order above the lowest,
and the other thread asks for a block of the lowest. -/
def scarceRun : List (Action (Fin 2)) :=
  [.allocate 0 512] ++ List.replicate 17 (.tick 0) ++ [.allocate 0 512] ++ List.replicate 10 (.tick 0) ++
    [.allocate 0 2048] ++ List.replicate 10 (.tick 0) ++ [.allocate 1 512]

def scarceState : State (Fin 2) := (run step smallStart scarceRun).getD smallStart

theorem scarceState_reached : run step smallStart scarceRun = some scarceState :=
  run_eq_some_getD (by decide +kernel)

def takeRest : List (Action (Fin 2)) := [.allocate 0 1024] ++ List.replicate 10 (.tick 0)

def takenAhead : List (Action (Fin 2)) := List.replicate 1 (.tick 1) ++ takeRest ++ List.replicate 10 (.tick 1)

def takenAheadState : State (Fin 2) := (run step scarceState takenAhead).getD smallStart

theorem failed_call_saw_blocks_taken_ahead :
    scarceState.pc 1 = .loadSummary 0 ∧ takenAheadState.pc 1 = .recordFailure ∧
    scarceState.arena.freeBit ⟨1, 1⟩ = true ∧ Meets step (Undisturbed 0 1) scarceState takenAhead ∧
    Passes step scarceState takenAhead fun v => ∀ b, 0 ≤ b.order → v.arena.freeBit b = false := by
  have hcall : scarceState.pc 1 = .loadSummary 0 := by decide +kernel
  have hfail : takenAheadState.pc 1 = .recordFailure := by decide +kernel
  have hkept : Meets step (Undisturbed 0 1) scarceState takenAhead := by decide +kernel
  have hsame : ∀ x ∈ takenAhead, SameCall 1 x := by
    unfold SameCall
    decide +kernel
  have hrun : run step scarceState takenAhead = some takenAheadState := run_eq_some_getD (by decide +kernel)
  obtain ⟨-, hall⟩ := failed_call_saw_blocks_taken BuddyRuns.smallGeometry false .uninit (fun _ => 0) scarceState
    takenAheadState ⟨scarceRun, scarceState_reached⟩ 1 0 takenAhead hcall hsame hrun hfail
  exact ⟨hcall, hfail, by decide +kernel, hkept, hall hkept⟩

def swapLow : List (Action (Fin 2)) := [.release 0 ⟨0, 0⟩] ++ List.replicate 6 (.tick 0) ++ takeRest

def swapHigh : List (Action (Fin 2)) :=
  [.release 0 ⟨1, 1⟩] ++ List.replicate 6 (.tick 0) ++ [.allocate 0 512] ++ List.replicate 10 (.tick 0)

/-- Each time the scan leaves an order, a block of it is released and the free
one ahead is taken. -/
def swapped : List (Action (Fin 2)) :=
  [.tick 1] ++ swapLow ++ [.tick 1, .tick 1] ++ swapHigh ++ [.tick 1, .tick 1] ++ swapLow ++ List.replicate 6 (.tick 1)

/-- The call fails although one of two blocks that could serve it is free at
every instant. -/
theorem fails_with_block_free :
    scarceState.pc 1 = .loadSummary 0 ∧
    Meets step (fun v _ => v.arena.freeBit ⟨0, 0⟩ = true ∨ v.arena.freeBit ⟨1, 1⟩ = true) scarceState swapped ∧
    ∃ v, run step scarceState swapped = some v ∧ v.pc 1 = .recordFailure ∧ v.arena.freeBit ⟨0, 0⟩ = true :=
  ⟨by decide +kernel, by decide +kernel, _, run_eq_some_getD (d := smallStart) (by decide +kernel), by decide +kernel,
    by decide +kernel⟩

end ArenaAlligator.BuddyThreads
