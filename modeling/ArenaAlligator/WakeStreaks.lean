import ArenaAlligator.Runs
import ArenaAlligator.WakeBudget

namespace ArenaAlligator.WakeStreaks

open Function NotifyWaiters Runs

def sends (r : NotifyWaiters × Nat) (order : Nat) : Bool :=
  if r.2 ≥ maxPopsPerWake then false
  else match r.1.popLive r.2 (r.1.queue order) with
    | (some i, _, _) => (r.1.entries i).tx && (r.1.entries i).rx
    | (none, _, _) => false

def deliveries (freedOrder : Nat) : NotifyWaiters × Nat → List Nat → List Nat
  | _, [] => []
  | r, order :: rest =>
      if sends r order then order :: deliveries freedOrder (deliver freedOrder r order) rest
      else deliveries freedOrder (deliver freedOrder r order) rest

def contested (w : NotifyWaiters) (freedOrder order : Nat) : Bool :=
  (w.candidates freedOrder).any fun c => c.1 ≠ order

/-- The waiters with the registrations that are held, by entry, and the
deliveries so far: the order, and whether it was contested. -/
structure State where
  waiters : NotifyWaiters
  regs : Nat → Option BuddyRegistration
  log : List (Nat × Bool)

inductive Action
  | register (order now : Nat)
  | prepare (i : Nat)
  | revoke (i : Nat)
  | poll (i : Nat)
  | drop (i : Nat)
  | wake (freedOrder : Nat)
deriving DecidableEq

def step (s : State) : Action → Option State
  | .register order now =>
      let r := s.waiters.buddyRegister order now
      some { s with waiters := r.1, regs := update s.regs r.2.entry (some r.2) }
  | .prepare i => (s.regs i).map fun r =>
      let p := s.waiters.prepare r
      { s with waiters := p.1, regs := update s.regs i (some p.2) }
  | .revoke i => (s.regs i).map fun r =>
      let p := s.waiters.revoke r
      { s with waiters := p.1, regs := update s.regs i (some p.2) }
  | .poll i => (s.regs i).map fun r =>
      let p := s.waiters.poll r
      { s with waiters := p.2.1, regs := update s.regs i (some p.2.2) }
  | .drop i => (s.regs i).map fun r =>
      { s with waiters := s.waiters.drop r, regs := update s.regs i none }
  | .wake freedOrder =>
      let orders := deliveries freedOrder (s.waiters, 0) (s.waiters.scoreOrders freedOrder)
      some { s with
        waiters := s.waiters.buddyWake freedOrder
        log := s.log ++ orders.map fun order => (order, contested s.waiters freedOrder order) }

def start (numOrders : Nat) : State where
  waiters := new numOrders
  regs _ := none
  log := []

theorem testBit_high {n i : Nat} (hn : n < 2 ^ 32) (hi : 32 ≤ i) : n.testBit i = false :=
  Nat.testBit_lt_two_pow (hn.trans_le (Nat.pow_le_pow_right (by decide) hi))

theorem lastWinner_pack {winner count : Nat} (hw : winner < 2 ^ 32) (hc : count < 2 ^ 32) :
    lastWinner (BitVec.ofNat 64 winner <<< 32 ||| BitVec.ofNat 64 count) = winner := by
  have hbits : (BitVec.ofNat 64 winner <<< 32 ||| BitVec.ofNat 64 count) >>> 32 = BitVec.ofNat 64 winner := by
    apply BitVec.eq_of_getLsbD_eq
    intro i hi
    have hlow : count.testBit (32 + i) = false := testBit_high hc (Nat.le_add_right 32 i)
    simp only [BitVec.getLsbD_ushiftRight, BitVec.getLsbD_or, BitVec.getLsbD_shiftLeft, BitVec.getLsbD_ofNat, hlow,
      Bool.and_false, Bool.or_false, Nat.add_sub_cancel_left, hi, decide_true, Bool.true_and]
    by_cases hhigh : 32 ≤ i
    · simp [testBit_high hw hhigh]
    · simp [show 32 + i < 64 by omega]
  rw [lastWinner, hbits, BitVec.toNat_ofNat, Nat.mod_eq_of_lt (by omega)]

theorem streakCount_pack {winner count : Nat} (hc : count < 2 ^ 32) :
    streakCount (BitVec.ofNat 64 winner <<< 32 ||| BitVec.ofNat 64 count) = count := by
  have hbits : (BitVec.ofNat 64 winner <<< 32 ||| BitVec.ofNat 64 count).setWidth 32 = BitVec.ofNat 32 count := by
    apply BitVec.eq_of_getLsbD_eq
    intro i hi
    simp only [BitVec.getLsbD_setWidth, BitVec.getLsbD_or, BitVec.getLsbD_shiftLeft, BitVec.getLsbD_ofNat, hi,
      decide_true, Bool.true_and, Bool.not_true, Bool.and_false, Bool.false_and, Bool.false_or]
    simp [show i < 64 by omega]
  rw [streakCount, hbits, BitVec.toNat_ofNat, Nat.mod_eq_of_lt hc]

theorem nextStreak_eq (streak : BitVec 64) {order : Nat} (ho : order < 2 ^ 32) :
    lastWinner (nextStreak streak order) = order ∧ streakCount (nextStreak streak order) =
      if order = lastWinner streak then min (streakCount streak + 1) (2 ^ 32 - 1) else 1 := by
  simp only [nextStreak]
  split
  · have hlt : min (streakCount streak + 1) (2 ^ 32 - 1) < 2 ^ 32 := by omega
    exact ⟨lastWinner_pack ho hlt, streakCount_pack hlt⟩
  · exact ⟨lastWinner_pack ho (by decide), streakCount_pack (by decide)⟩

/-- The streak word tells how long the run of wins at the end of the log is,
as far as 32 bits can. -/
def Tracks (streak : BitVec 64) (winners : List Nat) : Prop :=
  ∀ order n, List.replicate (n + 1) order <:+ winners →
    lastWinner streak = order ∧ min (n + 1) (2 ^ 32 - 1) ≤ streakCount streak

theorem replicate_suffix_concat {α : Type} {n : Nat} {a b : α} {l : List α}
    (h : List.replicate (n + 1) a <:+ l ++ [b]) : b = a ∧ List.replicate n a <:+ l := by
  rcases List.suffix_concat_iff.mp h with hnil | ⟨t, ht, hsuffix⟩
  · cases hnil
  · rw [List.replicate_succ'] at ht
    obtain ⟨rfl, hlast⟩ := List.append_inj' ht rfl
    exact ⟨(List.cons.inj hlast).1.symm, hsuffix⟩

theorem Tracks.win {streak : BitVec 64} {winners : List Nat} (h : Tracks streak winners) {order : Nat}
    (ho : order < 2 ^ 32) : Tracks (nextStreak streak order) (winners ++ [order]) := by
  intro order' n hn
  obtain ⟨rfl, hsuffix⟩ := replicate_suffix_concat hn
  obtain ⟨hwinner, hcount⟩ := nextStreak_eq streak ho
  refine ⟨hwinner, ?_⟩
  rw [hcount]
  cases n with
  | zero =>
      split <;> omega
  | succ n =>
      obtain ⟨hlast, hle⟩ := h order n hsuffix
      rw [if_pos hlast.symm]
      omega

theorem Tracks.wins {streak : BitVec 64} {winners orders : List Nat} (h : Tracks streak winners)
    (ho : ∀ order ∈ orders, order < 2 ^ 32) : Tracks (orders.foldl nextStreak streak) (winners ++ orders) := by
  induction orders generalizing streak winners with
  | nil =>
      rw [List.append_nil]
      exact h
  | cons order orders ih =>
      rw [List.foldl_cons, List.append_cons]
      exact ih (h.win (ho order List.mem_cons_self)) fun o hmem => ho o (List.mem_cons_of_mem order hmem)

theorem deliver_streak (f : Nat) (r : NotifyWaiters × Nat) (order : Nat) : (deliver f r order).1.streakState =
    if sends r order then nextStreak r.1.streakState order else r.1.streakState := by
  simp only [deliver, sends]
  split
  · rfl
  · rw [NotifyWaiters.queue]
    generalize r.1.popLive r.2 (r.1.buddyOrders order).queue = p
    obtain ⟨hit, pops, rest⟩ := p
    cases hit with
    | none => rfl
    | some i =>
        simp only
        split <;> rfl

theorem foldl_streak (f : Nat) (cs : List Nat) (r : NotifyWaiters × Nat) :
    (cs.foldl (deliver f) r).1.streakState = (deliveries f r cs).foldl nextStreak r.1.streakState := by
  induction cs generalizing r with
  | nil => rfl
  | cons c cs ih =>
      rw [List.foldl_cons, ih, deliver_streak, deliveries]
      split <;> rfl

theorem deliveries_sublist (f : Nat) (cs : List Nat) (r : NotifyWaiters × Nat) : (deliveries f r cs).Sublist cs := by
  induction cs generalizing r with
  | nil => exact List.Sublist.slnil
  | cons c cs ih =>
      rw [deliveries]
      split
      · exact (ih _).cons_cons c
      · exact (ih _).cons c

theorem one_lt_length_of_ne {α : Type} {l : List α} {a b : α} (ha : a ∈ l) (hb : b ∈ l) (hne : a ≠ b) :
    1 < l.length := by
  match l with
  | [] => cases ha
  | [x] => exact absurd ((List.mem_singleton.mp ha).trans (List.mem_singleton.mp hb).symm) hne
  | _ :: _ :: _ => simp

/-- The ban: with a long streak and another candidate, the winner sits out. -/
theorem not_mem_scoreOrders {w : NotifyWaiters} {f order : Nat} (hlast : lastWinner w.streakState = order)
    (hcount : maxConsecutive ≤ streakCount w.streakState) (hc : contested w f order = true) :
    order ∉ w.scoreOrders f := by
  intro hmem
  have hmine := mem_rank hmem
  obtain ⟨c, hcm, hne⟩ := List.any_eq_true.mp hc
  rw [decide_eq_true_eq] at hne
  obtain ⟨d, hdm, hd⟩ := List.mem_map.mp hmine
  have hlen : 1 < (w.candidates f).length :=
    one_lt_length_of_ne hcm hdm fun heq => hne ((congrArg Prod.fst heq).trans hd)
  have hbanned : banned w.streakState (w.candidates f) = true := by
    simp only [banned, Bool.and_eq_true, decide_eq_true_eq, List.any_eq_true]
    exact ⟨⟨hcount, hlen⟩, d, hdm, hd.trans hlast.symm⟩
  rw [scoreOrders, rank, if_pos hbanned, List.mem_map] at hmem
  obtain ⟨e, he, heq⟩ := hmem
  rw [List.mem_insertionSort, List.mem_filter, decide_eq_true_eq] at he
  exact he.2 (heq.trans hlast.symm)

theorem infix_append_nodup {α : Type} {n : Nat} {a : α} {l m : List α} (hm : m.Nodup)
    (h : List.replicate (n + 2) a <:+: l ++ m) :
    List.replicate (n + 2) a <:+: l ∨ List.replicate (n + 1) a <:+ l ∧ a ∈ m := by
  induction m using List.reverseRecOn with
  | nil => exact Or.inl (by rwa [List.append_nil] at h)
  | append_singleton m b ih =>
      rw [← List.append_assoc] at h
      rcases List.infix_concat_iff.mp h with hsuffix | hinfix
      · obtain ⟨rfl, hrest⟩ := replicate_suffix_concat hsuffix
        cases m using List.reverseRecOn with
        | nil => exact Or.inr ⟨by rwa [List.append_nil] at hrest, by simp⟩
        | append_singleton m c =>
            rw [← List.append_assoc] at hrest
            obtain ⟨rfl, -⟩ := replicate_suffix_concat hrest
            rw [List.append_assoc] at hm
            have htwice := hm.sublist (List.sublist_append_right m [c, c])
            simp at htwice
      · exact (ih (hm.sublist (List.sublist_append_left m [b])) hinfix).imp_right
          fun ⟨hrun, hmem⟩ => ⟨hrun, List.mem_append_left [b] hmem⟩

structure Fair (numOrders : Nat) (s : State) : Prop where
  numOrders : s.waiters.numOrders = numOrders
  tracks : Tracks s.waiters.streakState (s.log.map Prod.fst)
  bounded : ∀ order, ¬List.replicate (maxConsecutive + 1) (order, true) <:+: s.log

theorem Fair.quiet {numOrders : Nat} {s s' : State} (h : Fair numOrders s)
    (hn : s'.waiters.numOrders = s.waiters.numOrders) (hs : s'.waiters.streakState = s.waiters.streakState)
    (hl : s'.log = s.log) : Fair numOrders s' :=
  ⟨hn.trans h.numOrders, by rw [hs, hl]; exact h.tracks, by rw [hl]; exact h.bounded⟩

theorem foldl_numOrders {f : Nat} (cs : List Nat) (hcs : ∀ c ∈ cs, c ≤ f) (r : NotifyWaiters × Nat) :
    (cs.foldl (deliver f) r).1.numOrders = r.1.numOrders := by
  induction cs generalizing r with
  | nil => rfl
  | cons c cs ih =>
      rw [List.foldl_cons, ih fun d hd => hcs d (List.mem_cons_of_mem c hd)]
      exact ((deliver_delivered f r.1 r.2 c).wakes (hcs c List.mem_cons_self)).numOrders

theorem scoreOrders_lt {w : NotifyWaiters} {f order : Nat} (hn : 0 < w.numOrders) (h : order ∈ w.scoreOrders f) :
    order < w.numOrders := by
  have := (mem_scoreOrders h).1
  omega

theorem Fair.wake {numOrders : Nat} {s s' : State} (h : Fair numOrders s) (hpos : 0 < numOrders)
    (hlt : numOrders ≤ 2 ^ 32) {f : Nat} (hs : step s (.wake f) = some s') : Fair numOrders s' := by
  obtain rfl := Option.some.inj hs
  have hsub := deliveries_sublist f (s.waiters.scoreOrders f) (s.waiters, 0)
  have hstreak := foldl_streak f (s.waiters.scoreOrders f) (s.waiters, 0)
  have hwakes : (s.waiters.buddyWake f).numOrders = s.waiters.numOrders :=
    foldl_numOrders _ (fun _ hc => scoreOrders_le hc) _
  generalize hds : deliveries f (s.waiters, 0) (s.waiters.scoreOrders f) = orders at hsub hstreak
  have hlts : ∀ order ∈ orders, order < 2 ^ 32 := fun order ho =>
    (scoreOrders_lt (h.numOrders ▸ hpos) (hsub.subset ho)).trans_le (h.numOrders ▸ hlt)
  have hnd : orders.Nodup := (rank_nodup (s.waiters.candidates_nodup f)).sublist hsub
  refine ⟨hwakes.trans h.numOrders, ?_, fun order hrun => ?_⟩
  · simp only [List.map_append, List.map_map]
    have hfst : orders.map (Prod.fst ∘ fun order => (order, contested s.waiters f order)) = orders :=
      List.map_id orders
    rw [hfst, NotifyWaiters.buddyWake, hstreak]
    exact h.tracks.wins hlts
  · have hnd' : (orders.map fun order => (order, contested s.waiters f order)).Nodup :=
      hnd.map fun _ _ he => (Prod.mk.inj he).1
    rcases infix_append_nodup hnd' hrun with hold | ⟨hlong, hmem⟩
    · exact h.bounded order hold
    · -- ten wins in a row before this wake, so the ban was in force when it scored
      obtain ⟨order', ho, heq⟩ := List.mem_map.mp hmem
      obtain ⟨rfl, hc⟩ := Prod.mk.inj heq
      have hwins : List.replicate maxConsecutive order' <:+ s.log.map Prod.fst := by
        have := hlong.map Prod.fst
        rwa [List.map_replicate] at this
      obtain ⟨hlast, hcount⟩ := h.tracks order' _ hwins
      exact not_mem_scoreOrders hlast hcount hc (hsub.subset ho)

theorem prepare_streak (w : NotifyWaiters) (r : BuddyRegistration) :
    (w.prepare r).1.numOrders = w.numOrders ∧ (w.prepare r).1.streakState = w.streakState := by
  rw [prepare]
  split <;> exact ⟨rfl, rfl⟩

theorem revokeEntry_streak (w : NotifyWaiters) (r : BuddyRegistration) :
    (w.revokeEntry r).numOrders = w.numOrders ∧ (w.revokeEntry r).streakState = w.streakState := by
  rw [revokeEntry]
  split <;> exact ⟨rfl, rfl⟩

theorem revoke_streak (w : NotifyWaiters) (r : BuddyRegistration) :
    (w.revoke r).1.numOrders = w.numOrders ∧ (w.revoke r).1.streakState = w.streakState := by
  rw [revoke]
  split
  · exact revokeEntry_streak w r
  · exact ⟨rfl, rfl⟩

theorem drop_streak (w : NotifyWaiters) (r : BuddyRegistration) :
    (w.drop r).numOrders = w.numOrders ∧ (w.drop r).streakState = w.streakState := by
  have hrev : (if r.registered then w.revokeEntry r else w).numOrders = w.numOrders ∧
      (if r.registered then w.revokeEntry r else w).streakState = w.streakState := by
    split
    · exact revokeEntry_streak w r
    · exact ⟨rfl, rfl⟩
  rw [NotifyWaiters.drop]
  split <;> exact hrev

theorem poll_streak (w : NotifyWaiters) (r : BuddyRegistration) :
    (w.poll r).2.1.numOrders = w.numOrders ∧ (w.poll r).2.1.streakState = w.streakState := by
  rcases poll_cases w r with h | h <;> rw [h] <;> exact ⟨rfl, rfl⟩

theorem step_fair {numOrders : Nat} (hpos : 0 < numOrders) (hlt : numOrders ≤ 2 ^ 32) {s s' : State} {a : Action}
    (h : Fair numOrders s) (hs : step s a = some s') : Fair numOrders s' := by
  cases a with
  | register order now =>
      obtain rfl := Option.some.inj hs
      exact h.quiet rfl rfl rfl
  | prepare i =>
      obtain ⟨r, -, rfl⟩ := Option.map_eq_some_iff.mp hs
      exact h.quiet (prepare_streak _ r).1 (prepare_streak _ r).2 rfl
  | revoke i =>
      obtain ⟨r, -, rfl⟩ := Option.map_eq_some_iff.mp hs
      exact h.quiet (revoke_streak _ r).1 (revoke_streak _ r).2 rfl
  | poll i =>
      obtain ⟨r, -, rfl⟩ := Option.map_eq_some_iff.mp hs
      exact h.quiet (poll_streak _ r).1 (poll_streak _ r).2 rfl
  | drop i =>
      obtain ⟨r, -, rfl⟩ := Option.map_eq_some_iff.mp hs
      exact h.quiet (drop_streak _ r).1 (drop_streak _ r).2 rfl
  | wake f => exact h.wake hpos hlt hs

theorem start_fair (numOrders : Nat) : Fair numOrders (start numOrders) where
  numOrders := rfl
  tracks _ _ hn := by cases List.suffix_nil.mp hn
  bounded _ hn := by cases List.infix_nil.mp hn

/-- No order wins more than ten deliveries in a row against the competition of
another order, for as many orders as the streak word can tell apart. -/
theorem no_order_monopoly (numOrders : Nat) (hpos : 0 < numOrders) (hlt : numOrders ≤ 2 ^ 32) (s : State)
    (h : Reachable step (start numOrders) s) (order : Nat) :
    ¬List.replicate (maxConsecutive + 1) (order, true) <:+: s.log := by
  have hfair := h.invariant (Fair numOrders) (start_fair numOrders) fun _ _ _ hi hs => step_fair hpos hlt hi hs
  exact hfair.bounded order

/-- Two wakes for two orders: the smaller one has twelve dead entries in front
of its waiter, so that the larger one wins twice against it. -/
def crowdedRun : List Action :=
  [.register 1 0, .prepare 0, .register 1 1, .prepare 1] ++
  (List.range 13).flatMap (fun k => [.register 0 1000000, .prepare (k + 2)]) ++
  (List.range 12).map (fun k => .revoke (k + 2)) ++ [.wake 1, .wake 1]

def crowdedState : State := (run step (start 2) crowdedRun).getD (start 2)

theorem no_order_monopoly_crowded :
    crowdedState.log = [(1, true), (1, true), (0, true)] ∧
      ¬List.replicate (maxConsecutive + 1) (1, true) <:+: crowdedState.log := by
  have hreach : Reachable step (start 2) crowdedState := ⟨crowdedRun, run_eq_some_getD (by decide +kernel)⟩
  exact ⟨by decide +kernel, no_order_monopoly 2 (by decide) (by decide) crowdedState hreach 1⟩

end ArenaAlligator.WakeStreaks
