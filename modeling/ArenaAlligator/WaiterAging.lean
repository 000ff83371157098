import ArenaAlligator.WakeStreaks

namespace ArenaAlligator.NotifyWaiters

open Function WakeStreaks

variable {w w' : NotifyWaiters} {f o horizon mine home : Nat}

def stamp (w : NotifyWaiters) (i : Nat) : Nat := (w.entries i).timestamp

def head (w : NotifyWaiters) (o : Nat) : Nat := (w.buddyOrders o).headTimestamp

theorem head_setSlot (w : NotifyWaiters) (o : Nat) (slot : BuddyOrderSlot) (o' : Nat) :
    (w.setSlot o slot).head o' = if o' = o then slot.headTimestamp else w.head o' := by
  simp only [head, setSlot, update_apply]
  split <;> rfl

/-- Entries are stamped in the order of their creation, and the head of an
order is no younger than its live entries. It may be older: a revoked entry
leaves its stamp behind. -/
structure Aged (w : NotifyWaiters) : Prop where
  mono : ∀ i j, i ≤ j → j < w.created → w.stamp i ≤ w.stamp j
  below : ∀ i < w.created, w.stamp i < noWaitersTimestamp
  head : ∀ o, ∀ i ∈ w.queue o, w.isLive i = true → w.head o ≤ w.stamp i

structure Ready (w : NotifyWaiters) : Prop where
  filed : w.Filed
  aged : w.Aged
  hears : ∀ o, ∀ i ∈ w.queue o, w.isLive i = true → (w.entries i).tx = true ∧ (w.entries i).rx = true
  narrow : w.numOrders ≤ 2 ^ 32

theorem Ready.headed (h : w.Ready) : w.Headed := by
  intro o ho
  obtain ⟨i, hi, hl⟩ := hasLive_iff.mp ho
  exact ((h.aged.head o i hi hl).trans_lt (h.aged.below i (h.filed.created o i hi))).ne

theorem new_ready {n : Nat} (hn : n ≤ 2 ^ 32) : (new n).Ready where
  filed := new_filed n
  aged := ⟨fun _ j _ hj => absurd hj (Nat.not_lt_zero j), fun i hi => absurd hi (Nat.not_lt_zero i),
    fun _ _ hi => absurd hi List.not_mem_nil⟩
  hears _ _ hi := absurd hi List.not_mem_nil
  narrow := hn

def rivals (w : NotifyWaiters) (horizon o : Nat) : Nat :=
  (w.queue o).countP fun i => !w.isLive i || decide (w.stamp i ≤ horizon)

/-- The order shows a head up to the horizon that none of its live entries
has. -/
def pretends (w : NotifyWaiters) (horizon o : Nat) : Bool :=
  w.hasLive o && decide (w.head o ≤ horizon) && (w.queue o).all fun i => !w.isLive i || decide (horizon < w.stamp i)

def barred (w : NotifyWaiters) (o : Nat) : Bool :=
  decide (lastWinner w.streakState = o) && decide (maxConsecutive ≤ streakCount w.streakState)

/-- The part of one order: in the own queue every entry ahead, twice because
ten wins bring a ban; in another one what can pass for older. -/
def share (w : NotifyWaiters) (horizon mine home o : Nat) : Nat :=
  if o = home then 2 * ((w.queue o).countP (fun i => decide (i < mine)) + 1)
  else w.rivals horizon o + (w.pretends horizon o).toNat

def delay (w : NotifyWaiters) (horizon mine home : Nat) : Nat :=
  if w.isLive mine then (∑ o ∈ Finset.range w.numOrders, w.share horizon mine home o) + (w.barred home).toNat else 0

theorem share_congr (hq : w'.queue o = w.queue o) (hl : ∀ i ∈ w.queue o, w'.isLive i = w.isLive i)
    (hs : ∀ i ∈ w.queue o, w'.stamp i = w.stamp i) (hh : w'.head o = w.head o) :
    w'.share horizon mine home o = w.share horizon mine home o := by
  have hrivals : w'.rivals horizon o = w.rivals horizon o := by
    rw [rivals, rivals, hq]
    exact List.countP_congr fun i hi => by rw [hl i hi, hs i hi]
  have hall : ((w.queue o).all fun i => !w'.isLive i || decide (horizon < w'.stamp i)) =
      (w.queue o).all fun i => !w.isLive i || decide (horizon < w.stamp i) := by
    rw [Bool.eq_iff_iff, List.all_eq_true, List.all_eq_true]
    exact forall₂_congr fun i hi => by rw [hl i hi, hs i hi]
  have hpretends : w'.pretends horizon o = w.pretends horizon o := by
    rw [pretends, pretends, (popsNeeded_congr hq hl).2.1, hh, hq, hall]
  rw [share, share, hrivals, hpretends, hq]

theorem not_pretends_of_head {q : List Nat} (hq : w.queue o = q) (hh : w.head o = w.headTimestampOf q) :
    w.pretends horizon o = false := by
  rw [Bool.eq_false_iff]
  intro hp
  simp only [pretends, Bool.and_eq_true, decide_eq_true_eq, List.all_eq_true] at hp
  obtain ⟨⟨hlive, hle⟩, hall⟩ := hp
  rw [hh, headTimestampOf] at hle
  split at hle
  next i hi =>
    have hyoung : horizon < w.stamp i := by
      simpa [List.find?_some hi] using hall i (hq ▸ List.mem_of_find?_eq_some hi)
    exact absurd hle (Nat.not_le.mpr hyoung)
  next hnone =>
    obtain ⟨i, hi, hl⟩ := hasLive_iff.mp hlive
    exact List.find?_eq_none.mp hnone i (hq ▸ hi) hl

theorem headTimestampOf_le {q : List Nat} (hs : q.Pairwise (· < ·)) (hm : ∀ i j, j ∈ q → i ≤ j → w.stamp i ≤ w.stamp j)
    {i : Nat} (hi : i ∈ q) (hl : w.isLive i = true) : w.headTimestampOf q ≤ w.stamp i := by
  rw [headTimestampOf]
  split
  next j hj =>
    obtain ⟨hjl, before, after, rfl, hbefore⟩ := List.find?_eq_some_iff_append.mp hj
    refine hm j i hi ?_
    rcases List.mem_append.mp hi with hi | hi
    · have := hbefore i hi
      simp [hl] at this
    · rcases List.mem_cons.mp hi with rfl | hi
      · exact le_refl _
      · exact (List.rel_of_pairwise_cons (List.pairwise_append.mp hs).2.1 hi).le
  next hnone => exact absurd hl (List.find?_eq_none.mp hnone i hi)

inductive Delivery (w : NotifyWaiters) (pops o : Nat) (r : NotifyWaiters × Nat) : Prop
  | skip (h : maxPopsPerWake ≤ pops) (hr : r.1 = w)
  | miss (dead rest : List Nat) (hq : w.queue o = dead ++ rest) (hdead : ∀ j ∈ dead, w.isLive j = false)
      (hend : rest = [] ∨ maxPopsPerWake ≤ pops + dead.length) (hqueue : r.1.queue o = rest)
      (hlive : r.1.isLive = w.isLive) (hhead : r.1.head o = w.head o) (hstreak : r.1.streakState = w.streakState)
  | hit (dead : List Nat) (i : Nat) (rest : List Nat) (hq : w.queue o = dead ++ i :: rest)
      (hdead : ∀ j ∈ dead, w.isLive j = false) (hi : w.isLive i = true) (hqueue : r.1.queue o = rest)
      (hlive : ∀ j, r.1.isLive j = (w.isLive j && decide (j ≠ i))) (hhead : r.1.head o = r.1.headTimestampOf rest)
      (hstreak : r.1.streakState =
        if (w.entries i).tx && (w.entries i).rx then nextStreak w.streakState o else w.streakState)

theorem deliver_delivery (f : Nat) (w : NotifyWaiters) (pops o : Nat) : Delivery w pops o (deliver f (w, pops) o) := by
  simp only [deliver]
  split
  next h => exact .skip h rfl
  next =>
    have h := popLive_popped w pops (w.buddyOrders o).queue
    generalize w.popLive pops (w.buddyOrders o).queue = r at h ⊢
    cases h with
    | miss dead rest hq hdead hend =>
        refine .miss dead rest hq hdead hend ?_ rfl ?_ rfl
        · rw [queue_setSlot, if_pos rfl]
        · exact (head_setSlot w o _ o).trans (if_pos rfl)
    | hit dead i rest hq hdead hi =>
        have hlive (j : Nat) : (w.setEntry i ((w.entries i).wake f)).isLive j = (w.isLive j && decide (j ≠ i)) := by
          rw [isLive_setEntry]
          by_cases hj : j = i <;> simp [hj, WaiterEntry.wake]
        have hslot {slot : BuddyOrderSlot} :
            ((w.setEntry i ((w.entries i).wake f)).setSlot o slot).queue o = slot.queue := by
          rw [queue_setSlot, if_pos rfl]
        have hhead {slot : BuddyOrderSlot} : ((w.setEntry i ((w.entries i).wake f)).setSlot o slot).head o =
            slot.headTimestamp := by
          rw [head_setSlot, if_pos rfl]
        simp only
        split
        next hsend => exact .hit dead i rest hq hdead hi hslot hlive hhead (by rw [if_pos hsend]; rfl)
        next hsend => exact .hit dead i rest hq hdead hi hslot hlive hhead (by rw [if_neg hsend]; rfl)

theorem Wakes.stamp (h : Wakes f w w') : w'.stamp = w.stamp := by
  funext i
  rcases h.entries i with he | ⟨-, -, he⟩ <;> rw [NotifyWaiters.stamp, NotifyWaiters.stamp, he]
  rfl

theorem deliver_head_of_ne (f : Nat) (w : NotifyWaiters) (pops : Nat) {o o' : Nat} (hne : o' ≠ o) :
    (deliver f (w, pops) o).1.head o' = w.head o' := by
  have h := deliver_delivered f w pops o
  generalize deliver f (w, pops) o = r at h
  cases h with
  | skip => rfl
  | miss | hit => exact (head_setSlot _ o _ o').trans (if_neg hne)

theorem Ready.deliver (h : w.Ready) (ho : o ≤ f) (pops : Nat) : (deliver f (w, pops) o).1.Ready := by
  have hd := deliver_delivered f w pops o
  have hw := hd.wakes ho
  have hfiled := (hd.counted ho h.filed.counted).filed fun o' => (h.filed.sorted o').sublist (hw.suffix o').sublist
  refine ⟨hfiled, ⟨fun i j hij hj => ?_, fun i hi => ?_, fun o' i hi hl => ?_⟩, fun o' i hi hl => ?_, ?_⟩
  · rw [hw.stamp]
    exact h.aged.mono i j hij (hw.created ▸ hj)
  · rw [hw.stamp]
    exact h.aged.below i (hw.created ▸ hi)
  · have hold := h.aged.head o' i ((hw.suffix o').subset hi) (hw.isLive hl)
    by_cases hne : o' = o
    · subst hne
      cases deliver_delivery f w pops o' with
      | skip hfull hr => rw [hr]; exact hold
      | miss dead rest hq hdead hend hqueue hlive hhead => rw [hhead, hw.stamp]; exact hold
      | hit dead j rest hq hdead hj hqueue hlive hhead =>
          rw [hhead, ← hqueue]
          refine headTimestampOf_le (hfiled.sorted o') (fun a b hb hab => ?_) hi hl
          rw [hw.stamp]
          exact h.aged.mono a b hab (hw.created ▸ hfiled.created o' b hb)
    · rw [deliver_head_of_ne f w pops hne, hw.stamp]
      exact hold
  · have hold := h.hears o' i ((hw.suffix o').subset hi) (hw.isLive hl)
    rcases hw.entries i with he | ⟨-, -, he⟩
    · rw [he]
      exact hold
    · rw [isLive, he] at hl
      cases hl
  · rw [hw.numOrders]
    exact h.narrow

theorem share_of_ne (w : NotifyWaiters) (hne : o ≠ home) :
    w.share horizon mine home o = w.rivals horizon o + (w.pretends horizon o).toNat :=
  if_neg hne

theorem countP_rivals_dead {dead : List Nat} (hdead : ∀ j ∈ dead, w.isLive j = false) :
    (dead.countP fun i => !w.isLive i || decide (w.stamp i ≤ horizon)) = dead.length :=
  List.countP_eq_length.mpr fun j hj => by rw [hdead j hj]; rfl

theorem share_miss (horizon mine : Nat) {dead rest : List Nat} (hne : o ≠ home) (hq : w.queue o = dead ++ rest)
    (hdead : ∀ j ∈ dead, w.isLive j = false) (hqueue : w'.queue o = rest) (hlive : w'.isLive = w.isLive)
    (hs : w'.stamp = w.stamp) (hhead : w'.head o = w.head o) :
    w'.share horizon mine home o + dead.length = w.share horizon mine home o := by
  have hmem (j : Nat) (hj : w.isLive j = true) : j ∈ dead ++ rest ↔ j ∈ rest := by
    rw [List.mem_append, or_iff_right]
    intro hjd
    rw [hdead j hjd] at hj
    cases hj
  have hany : w'.hasLive o = w.hasLive o := by
    rw [Bool.eq_iff_iff, hasLive_iff, hasLive_iff, hqueue, hq, hlive]
    exact exists_congr fun j => and_congr_left fun hj => (hmem j hj).symm
  have hall : ((w'.queue o).all fun i => !w'.isLive i || decide (horizon < w'.stamp i)) =
      (w.queue o).all fun i => !w.isLive i || decide (horizon < w.stamp i) := by
    have hgone : (dead.all fun i => !w.isLive i || decide (horizon < w.stamp i)) = true :=
      List.all_eq_true.mpr fun j hj => by rw [hdead j hj]; rfl
    rw [hqueue, hq, hlive, hs, List.all_append, hgone, Bool.true_and]
  rw [share_of_ne w' hne, share_of_ne w hne, pretends, pretends, hany, hhead, hall, rivals, rivals, hqueue, hq, hlive,
    hs, List.countP_append, countP_rivals_dead hdead]
  omega

theorem share_hit (horizon mine : Nat) (h : w.Ready) {dead rest : List Nat} {i : Nat} (hne : o ≠ home)
    (hq : w.queue o = dead ++ i :: rest)
    (hdead : ∀ j ∈ dead, w.isLive j = false) (hi : w.isLive i = true) (hqueue : w'.queue o = rest)
    (hlive : ∀ j, w'.isLive j = (w.isLive j && decide (j ≠ i))) (hs : w'.stamp = w.stamp)
    (hhead : w'.head o = w'.headTimestampOf rest) :
    w'.share horizon mine home o + dead.length + (decide (w.head o ≤ horizon)).toNat ≤
      w.share horizon mine home o := by
  have hrest : i ∉ rest := h.filed.counted.notMem_rest hq
  have hrivals : w'.rivals horizon o = rest.countP fun j => !w.isLive j || decide (w.stamp j ≤ horizon) := by
    rw [rivals, hqueue, hs]
    refine List.countP_congr fun j hj => ?_
    have hji : j ≠ i := fun he => hrest (he ▸ hj)
    rw [hlive, decide_eq_true hji, Bool.and_true]
  have hold : w.rivals horizon o =
      dead.length + ((w'.rivals horizon o) + (decide (w.stamp i ≤ horizon)).toNat) := by
    rw [hrivals, rivals, hq, List.countP_append, countP_rivals_dead hdead, List.countP_cons, hi]
    by_cases hle : w.stamp i ≤ horizon <;> simp [hle]
  have hpretends : w.head o ≤ horizon → ¬ w.stamp i ≤ horizon → w.pretends horizon o = true := by
    intro hle hyoung
    simp only [pretends, Bool.and_eq_true, decide_eq_true_eq, List.all_eq_true]
    refine ⟨⟨hasLive_iff.mpr ⟨i, hq ▸ List.mem_append_right dead List.mem_cons_self, hi⟩, hle⟩, fun j hj => ?_⟩
    by_cases hjl : w.isLive j = true
    · have hsorted := h.filed.sorted o
      have hij : i ≤ j := by
        rw [hq] at hj hsorted
        rcases List.mem_append.mp hj with hjd | hjr
        · rw [hdead j hjd] at hjl
          cases hjl
        · rcases List.mem_cons.mp hjr with rfl | hjr
          · exact le_refl _
          · exact (List.rel_of_pairwise_cons (List.pairwise_append.mp hsorted).2.1 hjr).le
      have hmono := h.aged.mono i j hij (h.filed.created o j hj)
      rw [hjl, Bool.not_true, Bool.false_or, decide_eq_true_eq]
      omega
    · rw [Bool.not_eq_true] at hjl
      rw [hjl]
      rfl
  have hnow : w'.pretends horizon o = false := not_pretends_of_head hqueue hhead
  rw [share_of_ne w' hne, share_of_ne w hne, hnow, hold]
  by_cases hle : w.head o ≤ horizon
  · by_cases hyoung : w.stamp i ≤ horizon
    · simp only [hle, hyoung, decide_true, Bool.toNat_true, Bool.toNat_false]
      omega
    · rw [hpretends hle hyoung]
      simp only [hle, decide_true, Bool.toNat_true, Bool.toNat_false]
      omega
  · simp only [hle, decide_false, Bool.toNat_false]
    omega

theorem share_home (horizon : Nat) (hsorted : (w.queue home).Pairwise (· < ·)) {gone rest : List Nat}
    (hq : w.queue home = gone ++ rest) (hm : mine ∈ rest) (hqueue : w'.queue home = rest) :
    w'.share horizon mine home home + 2 * gone.length = w.share horizon mine home home := by
  have hahead : gone.countP (fun i => decide (i < mine)) = gone.length := by
    rw [hq] at hsorted
    exact List.countP_eq_length.mpr fun j hj =>
      decide_eq_true ((List.pairwise_append.mp hsorted).2.2 j hj mine hm)
  rw [share, share, if_pos rfl, if_pos rfl, hqueue, hq, List.countP_append, hahead]
  omega

theorem barred_of_win {streak : BitVec 64} (ho : o < 2 ^ 32) (hne : o ≠ home)
    (hs : w'.streakState = nextStreak streak o) : w'.barred home = false := by
  rw [barred, hs, (nextStreak_eq streak ho).1, decide_eq_false hne]
  rfl

theorem two_le_delay (horizon : Nat) (hl : w.isLive mine = true) (hh : home < w.numOrders) :
    2 ≤ w.delay horizon mine home := by
  have hshare : 2 ≤ w.share horizon mine home home := by
    rw [share, if_pos rfl]
    omega
  have hsum := Finset.single_le_sum (f := fun o => w.share horizon mine home o) (fun o _ => Nat.zero_le _)
    (Finset.mem_range.mpr hh)
  rw [delay, if_pos hl]
  exact hshare.trans (hsum.trans (Nat.le_add_right _ _))

/-- No delivery adds to the delay. The first one of a wake takes from it, when
its order is the own one, shows an old head, or profits from a ban. -/
theorem delay_deliver (h : w.Ready) (ho : o ≤ f) (hn : o < w.numOrders) (hhome : home < w.numOrders)
    (hm : w.isLive mine = true → mine ∈ w.queue home) (pops : Nat) :
    (deliver f (w, pops) o).1.delay horizon mine home ≤ w.delay horizon mine home ∧
      (pops = 0 → w.isLive mine = true → w.hasLive o = true →
        o = home ∨ w.head o ≤ horizon ∨ w.barred home = true →
        (deliver f (w, pops) o).1.delay horizon mine home + 1 ≤ w.delay horizon mine home) := by
  have hwakes := (deliver_delivered f w pops o).wakes ho
  have hother {o' : Nat} (hne : o' ≠ o) := (deliver_delivered f w pops o).other h.filed.counted hne
  have hhead {o' : Nat} (hne : o' ≠ o) := deliver_head_of_ne f w pops hne
  have hcase := deliver_delivery f w pops o
  generalize deliver f (w, pops) o = r at hwakes hother hhead hcase
  by_cases hlive : r.1.isLive mine = true
  · have hold := hwakes.isLive hlive
    have hmine := hm hold
    have hsum : (∑ c ∈ Finset.range w.numOrders, r.1.share horizon mine home c) + w.share horizon mine home o =
        (∑ c ∈ Finset.range w.numOrders, w.share horizon mine home c) + r.1.share horizon mine home o :=
      Runs.sum_change_on (Finset.mem_range.mpr hn) fun c hc =>
        share_congr (hother hc).1 (hother hc).2 (fun i _ => congrFun hwakes.stamp i) (hhead hc)
    rw [delay, delay, if_pos hlive, if_pos hold, hwakes.numOrders]
    have hbar : (r.1.barred home).toNat ≤ 1 := Bool.toNat_le _
    cases hcase with
    | skip hfull hr =>
        rw [hr]
        refine ⟨le_refl _, fun hzero => ?_⟩
        rw [hzero] at hfull
        cases hfull
    | miss dead rest hq hdead hend hqueue hsame hhead hstreak =>
        have hbarred : r.1.barred home = w.barred home := by rw [barred, barred, hstreak]
        -- the first delivery of a wake misses a live entry only after it has popped all it may
        have hfull (hzero : pops = 0) (hany : w.hasLive o = true) : maxPopsPerWake ≤ dead.length := by
          rw [hzero, Nat.zero_add] at hend
          refine hend.resolve_left fun hnil => ?_
          obtain ⟨j, hj, hjl⟩ := hasLive_iff.mp hany
          rw [hq, hnil, List.append_nil] at hj
          rw [hdead j hj] at hjl
          cases hjl
        have hpos : 0 < maxPopsPerWake := by decide
        rw [hbarred]
        by_cases hne : o = home
        · subst hne
          have hrest : mine ∈ rest := by
            rw [hq] at hmine
            refine (List.mem_append.mp hmine).resolve_left fun hmd => ?_
            rw [hdead mine hmd] at hold
            cases hold
          have hshare := share_home horizon (h.filed.sorted o) hq hrest hqueue
          exact ⟨by omega, fun hzero _ hany _ => by have := hfull hzero hany; omega⟩
        · have hshare := share_miss horizon mine hne hq hdead hqueue hsame hwakes.stamp hhead
          exact ⟨by omega, fun hzero _ hany _ => by have := hfull hzero hany; omega⟩
    | hit dead i rest hq hdead hi hqueue hlives hhead hstreak =>
        by_cases hne : o = home
        · subst hne
          have hmi : mine ≠ i := by
            rintro rfl
            rw [hlives, hold] at hlive
            simp at hlive
          have hrest : mine ∈ rest := by
            rw [hq] at hmine
            rcases List.mem_append.mp hmine with hmd | hmr
            · rw [hdead mine hmd] at hold
              cases hold
            · exact (List.mem_cons.mp hmr).resolve_left hmi
          have hgone : w.queue o = (dead ++ [i]) ++ rest := by
            rw [hq, List.append_assoc]
            rfl
          have hshare := share_home horizon (h.filed.sorted o) hgone hrest hqueue
          rw [List.length_append, List.length_singleton] at hshare
          exact ⟨by omega, fun _ _ _ _ => by omega⟩
        · have hshare := share_hit horizon mine h hne hq hdead hi hqueue hlives hwakes.stamp hhead
          obtain ⟨htx, hrx⟩ := h.hears o i (hq ▸ List.mem_append_right dead List.mem_cons_self) hi
          rw [htx, hrx, Bool.and_true, if_pos rfl] at hstreak
          -- another order has won, which ends any ban on the own one
          have hbarred := barred_of_win (hn.trans_le h.narrow) hne hstreak
          rw [hbarred, Bool.toNat_false]
          refine ⟨by omega, fun _ _ _ hpast => ?_⟩
          rcases hpast with hhome | hle | hban
          · exact absurd hhome hne
          · rw [decide_eq_true hle, Bool.toNat_true] at hshare
            omega
          · rw [hban, Bool.toNat_true]
            omega
  · have hzero : r.1.delay horizon mine home = 0 := if_neg hlive
    rw [hzero]
    refine ⟨Nat.zero_le _, fun _ hl _ _ => ?_⟩
    have := two_le_delay horizon hl hhome
    omega

theorem delay_foldl (cs : List Nat) (hcs : ∀ c ∈ cs, c ≤ f ∧ c < w.numOrders) (h : w.Ready) (hhome : home < w.numOrders)
    (hm : w.isLive mine = true → mine ∈ w.queue home) (pops : Nat) :
    (cs.foldl (deliver f) (w, pops)).1.delay horizon mine home ≤ w.delay horizon mine home := by
  induction cs generalizing w pops with
  | nil => exact le_refl _
  | cons c cs ih =>
      obtain ⟨hc, hn⟩ := hcs c List.mem_cons_self
      have hwakes := (deliver_delivered f w pops c).wakes hc
      rw [List.foldl_cons]
      refine (ih (fun d hd => ?_) (h.deliver hc pops) ?_ (fun hl => ?_) _).trans (delay_deliver h hc hn hhome hm pops).1
      · rw [hwakes.numOrders]
        exact hcs d (List.mem_cons_of_mem c hd)
      · rw [hwakes.numOrders]
        exact hhome
      · exact hwakes.kept home mine (hm (hwakes.isLive hl)) hl

def age (w : NotifyWaiters) (o : Nat) : Nat := effectiveAge o (w.buddyOrders o).count (w.head o)

theorem age_of_mem_candidates {c : Nat × Nat} (h : c ∈ w.candidates f) : c.2 = w.age c.1 := by
  rw [candidates, List.mem_filterMap] at h
  obtain ⟨o, -, ho⟩ := h
  rw [candidate] at ho
  split at ho
  · cases ho
  · split at ho
    · cases ho
    · cases ho
      rfl

theorem age_le_of_scoreOrders {c : Nat} {cs : List Nat} (h : w.scoreOrders f = c :: cs) (ho : o ∈ w.scoreOrders f) :
    w.age c ≤ w.age o := by
  rw [scoreOrders, rank] at h ho
  generalize hkept : (if banned w.streakState (w.candidates f) = true then
    (w.candidates f).filter fun c => c.1 ≠ lastWinner w.streakState else w.candidates f) = kept at h ho
  have hsub : ∀ p ∈ kept, p.2 = w.age p.1 := by
    intro p hp
    rw [← hkept] at hp
    split at hp
    · exact age_of_mem_candidates (List.mem_filter.mp hp).1
    · exact age_of_mem_candidates hp
  have hsorted : (kept.insertionSort fun c d => c.2 ≤ d.2).Pairwise fun c d => c.2 ≤ d.2 := by
    have : Std.Total fun c d : Nat × Nat => c.2 ≤ d.2 := ⟨fun c d => Nat.le_total c.2 d.2⟩
    have : IsTrans (Nat × Nat) fun c d => c.2 ≤ d.2 := ⟨fun _ _ _ => Nat.le_trans⟩
    exact List.pairwise_insertionSort _ _
  obtain ⟨q, hq, rfl⟩ := List.mem_map.mp ho
  obtain ⟨p, rest, hlist, rfl, -⟩ := List.map_eq_cons_iff.mp h
  have hp : p ∈ kept := (List.mem_insertionSort _).mp (hlist ▸ List.mem_cons_self)
  rw [hlist] at hsorted hq
  rw [← hsub p hp]
  rcases List.mem_cons.mp hq with rfl | hq
  · exact (hsub q hp).le
  · rw [← hsub q ((List.mem_insertionSort _).mp (hlist ▸ List.mem_cons_of_mem p hq))]
    exact List.rel_of_pairwise_cons hsorted hq

/-- The bonus that an order can have over another one is bounded by its number
and by the count of its waiters. -/
theorem head_le_of_age {c n : Nat} (hc : (w.buddyOrders c).count ≤ n) (hle : w.age c ≤ w.age o) :
    w.head c ≤ w.head o + c * orderBonusNs + n * depthBonusNs := by
  have hbonus : saturatingMul c orderBonusNs ≤ c * orderBonusNs := Nat.min_le_left _ _
  have hdepth : saturatingMul (w.buddyOrders c).count depthBonusNs ≤ n * depthBonusNs :=
    (Nat.min_le_left _ _).trans (Nat.mul_le_mul_right _ hc)
  rw [age, age, effectiveAge, effectiveAge] at hle
  omega

/-- An order with a visible waiter that is not scored is under the ban. -/
theorem barred_of_notMem (h : o ∈ (w.candidates f).map Prod.fst) (hno : o ∉ w.scoreOrders f) : w.barred o = true := by
  obtain ⟨c, hc, rfl⟩ := List.mem_map.mp h
  rw [scoreOrders, rank, List.mem_map] at hno
  by_cases hban : banned w.streakState (w.candidates f) = true
  · rw [if_pos hban] at hno
    have hlast : c.1 = lastWinner w.streakState := by
      by_contra hne
      exact hno ⟨c, (List.mem_insertionSort _).mpr (List.mem_filter.mpr ⟨hc, decide_eq_true hne⟩), rfl⟩
    simp only [banned, Bool.and_eq_true, decide_eq_true_eq] at hban
    rw [barred, decide_eq_true hlast.symm, decide_eq_true hban.1.1]
    rfl
  · rw [if_neg hban] at hno
    exact absurd ⟨c, (List.mem_insertionSort _).mpr hc, rfl⟩ hno

/-- A wake that is large enough for a live entry brings its turn closer. -/
theorem delay_wake (h : w.Ready) (hhome : home < w.numOrders) (hm : mine ∈ w.queue home) (hl : w.isLive mine = true)
    (hf : home ≤ f) {n : Nat} (hcount : ∀ o, (w.buddyOrders o).count ≤ n)
    (hhorizon : w.stamp mine + w.numOrders * orderBonusNs + n * depthBonusNs ≤ horizon) :
    (w.buddyWake f).delay horizon mine home + 1 ≤ w.delay horizon mine home := by
  have hvisible (o : Nat) := candidate_isSome_iff (o := o) h.filed.counted h.headed
  have hcandidate : home ∈ (w.candidates f).map Prod.fst := by
    rw [candidates_fst, List.mem_filter, List.mem_range, hvisible]
    exact ⟨by omega, hasLive_iff.mpr ⟨mine, hm, hl⟩⟩
  have hne : w.scoreOrders f ≠ [] := by
    refine rank_ne_nil (w.candidates_nodup f) fun hnil => ?_
    rw [hnil] at hcandidate
    cases hcandidate
  obtain ⟨c, cs, hcs⟩ := List.exists_cons_of_ne_nil hne
  have hrange (d : Nat) (hd : d ∈ w.scoreOrders f) : d ≤ f ∧ d < w.numOrders :=
    ⟨scoreOrders_le hd, scoreOrders_lt (by omega) hd⟩
  have hmem : c ∈ w.scoreOrders f := hcs ▸ List.mem_cons_self
  obtain ⟨hc, hn⟩ := hrange c hmem
  have hpast : c = home ∨ w.head c ≤ horizon ∨ w.barred home = true := by
    by_cases hin : home ∈ w.scoreOrders f
    · have hhead := head_le_of_age (hcount c) (age_le_of_scoreOrders hcs hin)
      have hold := h.aged.head home mine hm hl
      have hbonus : c * orderBonusNs ≤ w.numOrders * orderBonusNs := Nat.mul_le_mul_right _ hn.le
      exact Or.inr (Or.inl (by omega))
    · exact Or.inr (Or.inr (barred_of_notMem hcandidate hin))
  have hwakes := (deliver_delivered f w 0 c).wakes hc
  have hfirst := (delay_deliver h hc hn hhome (fun _ => hm) 0).2 rfl hl ((hvisible c).mp (mem_scoreOrders hmem).2) hpast
  have hrest : (w.buddyWake f).delay horizon mine home ≤ (deliver f (w, 0) c).1.delay horizon mine home := by
    rw [buddyWake, hcs, List.foldl_cons]
    refine delay_foldl cs (fun d hd => ?_) (h.deliver hc 0) (hwakes.numOrders ▸ hhome) (fun hlive => ?_) _
    · rw [hwakes.numOrders]
      exact hrange d (hcs ▸ List.mem_cons_of_mem c hd)
    · exact hwakes.kept home mine hm hlive
  omega

theorem Ready.foldl (cs : List Nat) (hcs : ∀ c ∈ cs, c ≤ f) (h : w.Ready) (pops : Nat) :
    (cs.foldl (NotifyWaiters.deliver f) (w, pops)).1.Ready := by
  induction cs generalizing w pops with
  | nil => exact h
  | cons c cs ih =>
      rw [List.foldl_cons]
      exact ih (fun d hd => hcs d (List.mem_cons_of_mem c hd)) (h.deliver (hcs c List.mem_cons_self) pops) _

theorem Ready.wake (h : w.Ready) (f : Nat) : (w.buddyWake f).Ready := h.foldl _ (fun _ hc => scoreOrders_le hc) 0

structure Still (w w' : NotifyWaiters) : Prop where
  stamp : w'.stamp = w.stamp
  head : w'.head = w.head
  streak : w'.streakState = w.streakState

theorem dropRx_still (w : NotifyWaiters) (i : Nat) : Still w (w.dropRx i) :=
  ⟨funext (dropRx_timestamp w i), rfl, rfl⟩

theorem revokeEntry_still (w : NotifyWaiters) (r : BuddyRegistration) : Still w (w.revokeEntry r) := by
  rw [revokeEntry]
  split
  · refine ⟨funext fun i => ?_, funext fun o => ?_, rfl⟩
    · change (update w.entries r.entry (w.entries r.entry).revoke i).timestamp = _
      rw [update_apply]
      split
      next he => rw [he]; rfl
      next => rfl
    · refine (head_setSlot _ r.order _ o).trans ?_
      split
      next he => rw [he]; rfl
      next => rfl
  · exact ⟨rfl, rfl, rfl⟩

theorem revoke_still (w : NotifyWaiters) (r : BuddyRegistration) : Still w (w.revoke r).1 := by
  rw [revoke]
  split
  · exact revokeEntry_still w r
  · exact ⟨rfl, rfl, rfl⟩

theorem drop_still (w : NotifyWaiters) (r : BuddyRegistration) : Still w (w.drop r) := by
  have hrev : Still w (if r.registered then w.revokeEntry r else w) := by
    split
    · exact revokeEntry_still w r
    · exact ⟨rfl, rfl, rfl⟩
  rw [NotifyWaiters.drop]
  split
  · have hdrop := dropRx_still (if r.registered then w.revokeEntry r else w) r.entry
    exact ⟨hdrop.stamp.trans hrev.stamp, hdrop.head.trans hrev.head, hdrop.streak.trans hrev.streak⟩
  · exact hrev

theorem poll_still (w : NotifyWaiters) (r : BuddyRegistration) : Still w (w.poll r).2.1 := by
  rcases poll_cases w r with h | h <;> rw [h]
  · exact ⟨rfl, rfl, rfl⟩
  · exact dropRx_still w r.entry

theorem Ready.close (h : w.Ready) {i : Nat} (hc : Closes i w w') (hs : Still w w') : w'.Ready := by
  have hlive {j : Nat} (hj : w'.isLive j = true) : w.isLive j = true ∧ j ≠ i := by
    simpa [hc.isLive] using hj
  refine ⟨hc.filed, ⟨fun j k hjk hk => ?_, fun j hj => ?_, fun o j hj hl => ?_⟩, fun o j hj hl => ?_, ?_⟩
  · rw [hs.stamp]
    exact h.aged.mono j k hjk (hc.created ▸ hk)
  · rw [hs.stamp]
    exact h.aged.below j (hc.created ▸ hj)
  · rw [hs.stamp, hs.head]
    exact h.aged.head o j (hc.queue ▸ hj) (hlive hl).1
  · rw [hc.entries j (hlive hl).2]
    exact h.hears o j (hc.queue ▸ hj) (hlive hl).1
  · rw [hc.numOrders]
    exact h.narrow

theorem countP_le_add_one {q : List Nat} (hq : q.Nodup) {p p' : Nat → Bool} {i : Nat}
    (h : ∀ j ∈ q, j ≠ i → p' j = p j) : q.countP p' ≤ q.countP p + 1 := by
  induction q with
  | nil => exact Nat.zero_le _
  | cons j q ih =>
      rw [List.nodup_cons] at hq
      by_cases hj : j = i
      · have hrest : q.countP p' = q.countP p := List.countP_congr fun k hk => by
          rw [h k (List.mem_cons_of_mem j hk) fun he => hq.1 (hj ▸ he ▸ hk)]
        rw [List.countP_cons, List.countP_cons, hrest]
        split <;> split <;> omega
      · have hrest := ih hq.2 fun k hk => h k (List.mem_cons_of_mem j hk)
        rw [List.countP_cons, List.countP_cons, h j List.mem_cons_self hj]
        omega

theorem toNat_le_of_imp {a b : Bool} (h : a = true → b = true) : a.toNat ≤ b.toNat := by
  cases a with
  | false => exact Nat.zero_le _
  | true => rw [h rfl]

theorem share_close (h : w.Ready) {i : Nat} (hc : Closes i w w') (hs : Still w w') :
    w'.share horizon mine home o ≤ w.share horizon mine home o + 1 := by
  by_cases hne : o = home
  · rw [share, share, if_pos hne, if_pos hne, hc.queue]
    exact Nat.le_succ _
  have hsame (j : Nat) (hj : j ≠ i) : w'.isLive j = w.isLive j := by
    rw [hc.isLive, decide_eq_true hj, Bool.and_true]
  have hrivals : w'.rivals horizon o = (w.queue o).countP fun j => !w'.isLive j || decide (w.stamp j ≤ horizon) := by
    rw [rivals, hc.queue, hs.stamp]
  rw [share_of_ne w' hne, share_of_ne w hne]
  by_cases hold : w.stamp i ≤ horizon
  · have hequal : w'.rivals horizon o = w.rivals horizon o := by
      rw [hrivals]
      refine List.countP_congr fun j _ => ?_
      by_cases hj : j = i
      · rw [hj, decide_eq_true hold, Bool.or_true, Bool.or_true]
      · rw [hsame j hj]
    have hbit : (w'.pretends horizon o).toNat ≤ 1 := Bool.toNat_le _
    omega
  · have hone : w'.rivals horizon o ≤ w.rivals horizon o + 1 := by
      rw [hrivals]
      exact countP_le_add_one ((h.filed.sorted o).imp ne_of_lt) fun j _ hj => by rw [hsame j hj]
    have hpretends : w'.pretends horizon o = true → w.pretends horizon o = true := by
      intro hp
      simp only [pretends, Bool.and_eq_true, decide_eq_true_eq, List.all_eq_true] at hp ⊢
      obtain ⟨⟨hany, hle⟩, hall⟩ := hp
      obtain ⟨j, hj, hl⟩ := hasLive_iff.mp hany
      rw [hc.isLive, Bool.and_eq_true] at hl
      refine ⟨⟨hasLive_iff.mpr ⟨j, hc.queue ▸ hj, hl.1⟩, hs.head ▸ hle⟩, fun k hk => ?_⟩
      by_cases hki : k = i
      · rw [hki, decide_eq_true (Nat.not_le.mp hold), Bool.or_true]
      · have := hall k (hc.queue ▸ hk)
        rwa [hsame k hki, hs.stamp] at this
    have hbit := toNat_le_of_imp hpretends
    omega

theorem delay_close (h : w.Ready) {i : Nat} (hc : Closes i w w') (hs : Still w w') :
    w'.delay horizon mine home ≤ w.delay horizon mine home + (w.isLive i).toNat := by
  have hbar : w'.barred home = w.barred home := by rw [barred, barred, hs.streak]
  have hother {c : Nat} (hi : w.isLive i = true → i ∉ w.queue c) :
      w'.share horizon mine home c = w.share horizon mine home c := by
    refine share_congr (by rw [hc.queue]) (fun j hj => ?_) (fun j _ => congrFun hs.stamp j) (by rw [hs.head])
    rw [hc.isLive]
    by_cases hji : j = i
    · cases hl : w.isLive i with
      | false => rw [hji, hl]; rfl
      | true => exact absurd (hji ▸ hj) (hi hl)
    · rw [decide_eq_true hji, Bool.and_true]
  by_cases hlive : w'.isLive mine = true
  · have hold : w.isLive mine = true := by
      rw [hc.isLive, Bool.and_eq_true] at hlive
      exact hlive.1
    rw [delay, delay, if_pos hlive, if_pos hold, hc.numOrders, hbar]
    by_cases hin : ∃ c ∈ Finset.range w.numOrders, w.isLive i = true ∧ i ∈ w.queue c
    · obtain ⟨c, hcr, hl, hi⟩ := hin
      have hsum : (∑ o ∈ Finset.range w.numOrders, w'.share horizon mine home o) + w.share horizon mine home c =
          (∑ o ∈ Finset.range w.numOrders, w.share horizon mine home o) + w'.share horizon mine home c :=
        Runs.sum_change_on hcr fun d hd => hother fun _ hm => hd (h.filed.apart d c i hm hi)
      have hone : w'.share horizon mine home c ≤ w.share horizon mine home c + 1 := share_close h hc hs
      rw [hl, Bool.toNat_true]
      omega
    · have hsum : ∑ o ∈ Finset.range w.numOrders, w'.share horizon mine home o =
          ∑ o ∈ Finset.range w.numOrders, w.share horizon mine home o :=
        Finset.sum_congr rfl fun d hd => hother fun hl hm => hin ⟨d, hd, hl, hm⟩
      omega
  · rw [delay, if_neg hlive]
    exact Nat.zero_le _

section

variable (w) (order now : Nat)

theorem enroll_stamp (i : Nat) : (w.enroll order now).1.stamp i = if i = w.created then now else w.stamp i := by
  change (update w.entries w.created { timestamp := now } i).timestamp = _
  rw [update_apply]
  split <;> rfl

theorem enroll_head (o : Nat) : (w.enroll order now).1.head o =
    if o = min order (w.numOrders - 1) ∧ (w.buddyOrders o).count = 0 then now else w.head o := by
  refine (head_setSlot _ (min order (w.numOrders - 1)) _ o).trans ?_
  by_cases ho : o = min order (w.numOrders - 1)
  · subst ho
    rw [if_pos rfl]
    simp only [true_and]
    change (if (w.buddyOrders _).count = 0 then (update w.entries w.created { timestamp := now } w.created).timestamp
      else _) = _
    rw [update_self]
    rfl
  · rw [if_neg ho, if_neg fun h => ho h.1]
    rfl

end

variable {order now : Nat}

theorem Ready.enroll (h : w.Ready) (order : Nat) (hn : now < noWaitersTimestamp)
    (hclock : ∀ i < w.created, w.stamp i ≤ now) : (w.enroll order now).1.Ready := by
  have hcreated : (w.enroll order now).1.created = w.created + 1 := rfl
  have hmem {o i : Nat} (hi : i ∈ (w.enroll order now).1.queue o) (hne : i ≠ w.created) : i ∈ w.queue o := by
    rw [enroll_queue] at hi
    split at hi
    · exact (List.mem_append.mp hi).resolve_right fun hm => hne (List.mem_singleton.mp hm)
    · exact hi
  refine ⟨enroll_filed h.filed order now, ⟨fun i j hij hj => ?_, fun i hi => ?_, fun o i hi hl => ?_⟩,
    fun o i hi hl => ?_, h.narrow⟩
  · rw [hcreated] at hj
    rw [enroll_stamp, enroll_stamp]
    by_cases hjn : j = w.created
    · rw [if_pos hjn]
      split
      · exact le_refl _
      · exact hclock i (by omega)
    · rw [if_neg hjn, if_neg (by omega)]
      exact h.aged.mono i j hij (by omega)
  · rw [hcreated] at hi
    rw [enroll_stamp]
    split
    · exact hn
    · exact h.aged.below i (by omega)
  · rw [enroll_head, enroll_stamp]
    by_cases hin : i = w.created
    · rw [if_pos hin]
      split
      next => exact le_refl _
      next hold =>
        -- the order has a live entry, and its head is no younger than that one
        subst hin
        have ho : o = min order (w.numOrders - 1) := by
          by_contra hne
          rw [enroll_queue, if_neg hne] at hi
          exact Nat.lt_irrefl _ (h.filed.created o _ hi)
        obtain ⟨j, hj, hjl⟩ := hasLive_iff.mp (h.filed.counted.hasLive_iff_count.mpr fun hz => hold ⟨ho, hz⟩)
        exact (h.aged.head o j hj hjl).trans (hclock j (h.filed.created o j hj))
    · rw [if_neg hin]
      have hold := hmem hi hin
      rw [enroll_isLive, if_neg hin] at hl
      have hcount : (w.buddyOrders o).count ≠ 0 :=
        h.filed.counted.hasLive_iff_count.mp (hasLive_iff.mpr ⟨i, hold, hl⟩)
      rw [if_neg fun hz => hcount hz.2]
      exact h.aged.head o i hold hl
  · change (update w.entries w.created { timestamp := now } i).tx = true ∧ _
    by_cases hin : i = w.created
    · subst hin
      change _ ∧ (update w.entries w.created { timestamp := now } w.created).rx = true
      rw [update_self]
      exact ⟨rfl, rfl⟩
    · have hentry : (w.enroll order now).1.entries i = w.entries i := update_of_ne hin _ _
      rw [enroll_isLive, if_neg hin] at hl
      have hold := h.hears o i (hmem hi hin) hl
      rw [← hentry] at hold
      exact hold

theorem share_enroll_of_ne (h : w.Ready) {c : Nat} (hc : c ≠ min order (w.numOrders - 1)) :
    (w.enroll order now).1.share horizon mine home c = w.share horizon mine home c := by
  have hfresh {i : Nat} (hi : i ∈ w.queue c) : i ≠ w.created := (h.filed.created c i hi).ne
  refine share_congr ?_ (fun i hi => ?_) (fun i hi => ?_) ?_
  · rw [enroll_queue, if_neg hc]
  · rw [enroll_isLive, if_neg (hfresh hi)]
  · rw [enroll_stamp, if_neg (hfresh hi)]
  · rw [enroll_head, if_neg fun hz => hc hz.1]

theorem share_enroll (h : w.Ready) (hm : mine < w.created) (ho : o = min order (w.numOrders - 1)) :
    (w.enroll order now).1.share horizon mine home o ≤
      w.share horizon mine home o + (decide (now ≤ horizon)).toNat := by
  have hfresh {i : Nat} (hi : i ∈ w.queue o) : i ≠ w.created := (h.filed.created o i hi).ne
  have hq : (w.enroll order now).1.queue o = w.queue o ++ [w.created] := by rw [enroll_queue, if_pos ho]
  by_cases hne : o = home
  · have hlast : [w.created].countP (fun i => decide (i < mine)) = 0 := by
      rw [List.countP_singleton, decide_eq_false (by omega)]
      rfl
    rw [share, share, if_pos hne, if_pos hne, hq, List.countP_append, hlast]
    omega
  · have hpart : ((w.queue o).countP fun i =>
        !(w.enroll order now).1.isLive i || decide ((w.enroll order now).1.stamp i ≤ horizon)) = w.rivals horizon o :=
      List.countP_congr fun i hi => by rw [enroll_isLive, enroll_stamp, if_neg (hfresh hi), if_neg (hfresh hi)]
    have hrivals : (w.enroll order now).1.rivals horizon o = w.rivals horizon o + (decide (now ≤ horizon)).toNat := by
      rw [rivals, hq, List.countP_append, hpart, List.countP_singleton, enroll_isLive, enroll_stamp, if_pos rfl,
        if_pos rfl, Bool.not_true, Bool.false_or]
      by_cases hle : now ≤ horizon <;> simp [hle]
    have hpretends : (w.enroll order now).1.pretends horizon o = true → w.pretends horizon o = true := by
      intro hp
      simp only [pretends, Bool.and_eq_true, decide_eq_true_eq, List.all_eq_true] at hp ⊢
      obtain ⟨⟨-, hle⟩, hall⟩ := hp
      have hyoung : horizon < now := by
        have hlast := hall w.created (hq ▸ List.mem_append_right _ List.mem_cons_self)
        rw [enroll_isLive, enroll_stamp, if_pos rfl, if_pos rfl] at hlast
        simpa using hlast
      rw [enroll_head] at hle
      split at hle
      next => omega
      next hold =>
        refine ⟨⟨h.filed.counted.hasLive_iff_count.mpr fun hz => hold ⟨ho, hz⟩, hle⟩, fun i hi => ?_⟩
        have := hall i (hq ▸ List.mem_append_left _ hi)
        rwa [enroll_isLive, enroll_stamp, if_neg (hfresh hi), if_neg (hfresh hi)] at this
    have hbit := toNat_le_of_imp hpretends
    rw [share_of_ne _ hne, share_of_ne _ hne, hrivals]
    omega

theorem delay_enroll (h : w.Ready) (hm : mine < w.created) (hhome : home < w.numOrders) (order now : Nat) :
    (w.enroll order now).1.delay horizon mine home ≤
      w.delay horizon mine home + (decide (now ≤ horizon)).toNat := by
  have hlive : (w.enroll order now).1.isLive mine = w.isLive mine := by rw [enroll_isLive, if_neg hm.ne]
  by_cases hl : w.isLive mine = true
  · have htarget : min order (w.numOrders - 1) ∈ Finset.range w.numOrders := by
      rw [Finset.mem_range]
      omega
    have hsum : (∑ c ∈ Finset.range w.numOrders, (w.enroll order now).1.share horizon mine home c) +
        w.share horizon mine home (min order (w.numOrders - 1)) =
        (∑ c ∈ Finset.range w.numOrders, w.share horizon mine home c) +
        (w.enroll order now).1.share horizon mine home (min order (w.numOrders - 1)) :=
      Runs.sum_change_on htarget fun c hc => share_enroll_of_ne h hc
    have hshare : (w.enroll order now).1.share horizon mine home (min order (w.numOrders - 1)) ≤
        w.share horizon mine home (min order (w.numOrders - 1)) + (decide (now ≤ horizon)).toNat :=
      share_enroll h hm rfl
    have hbar : (w.enroll order now).1.barred home = w.barred home := rfl
    have hnum : (w.enroll order now).1.numOrders = w.numOrders := rfl
    rw [delay, delay, if_pos hl, if_pos (hlive.trans hl), hbar, hnum]
    omega
  · rw [delay, if_neg fun hl' => hl (hlive ▸ hl')]
    exact Nat.zero_le _

end ArenaAlligator.NotifyWaiters
