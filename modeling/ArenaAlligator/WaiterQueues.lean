import ArenaAlligator.Waiters
import Mathlib.Algebra.Order.BigOperators.Group.List
import Mathlib.Algebra.Order.Group.Nat

namespace ArenaAlligator.NotifyWaiters

open Function

variable {w w' : NotifyWaiters} {f o : Nat}

@[simp] theorem queue_setSlot (w : NotifyWaiters) (o : Nat) (slot : BuddyOrderSlot) (o' : Nat) :
    (w.setSlot o slot).queue o' = if o' = o then slot.queue else w.queue o' := by
  simp only [queue, setSlot, update_apply]
  split <;> rfl

@[simp] theorem isLive_setEntry (w : NotifyWaiters) (i : Nat) (e : WaiterEntry) (j : Nat) :
    (w.setEntry i e).isLive j = if j = i then decide (e.state = .live) else w.isLive j := by
  simp only [isLive, setEntry, update_apply]
  split <;> rfl

/-- The bookkeeping of the queues: entries stand in the order of their creation
and in one queue each, and the counters count the live ones. -/
structure Filed (w : NotifyWaiters) : Prop where
  sorted : ∀ o, (w.queue o).Pairwise (· < ·)
  created : ∀ o, ∀ i ∈ w.queue o, i < w.created
  apart : ∀ o o' i, i ∈ w.queue o → i ∈ w.queue o' → o = o'
  count : ∀ o, (w.buddyOrders o).count = (w.queue o).countP w.isLive

/-- The same without the order of creation: entries stand in one place each,
and the counters count the live ones. -/
structure Counted (w : NotifyWaiters) : Prop where
  nodup : ∀ o, (w.queue o).Nodup
  created : ∀ o, ∀ i ∈ w.queue o, i < w.created
  apart : ∀ o o' i, i ∈ w.queue o → i ∈ w.queue o' → o = o'
  count : ∀ o, (w.buddyOrders o).count = (w.queue o).countP w.isLive

theorem Filed.counted (hw : w.Filed) : w.Counted :=
  ⟨fun o => (hw.sorted o).imp ne_of_lt, hw.created, hw.apart, hw.count⟩

theorem Counted.filed (hw : w.Counted) (hs : ∀ o, (w.queue o).Pairwise (· < ·)) : w.Filed :=
  ⟨hs, hw.created, hw.apart, hw.count⟩

theorem Counted.notMem_rest (hw : w.Counted) {dead rest : List Nat} {i : Nat} (hq : w.queue o = dead ++ i :: rest) :
    i ∉ rest := by
  have hs := hw.nodup o
  rw [hq] at hs
  exact (List.nodup_cons.mp (List.nodup_append.mp hs).2.1).1

inductive Popped (w : NotifyWaiters) (pops : Nat) (q : List Nat) : Option Nat × Nat × List Nat → Prop
  | hit (dead : List Nat) (i : Nat) (rest : List Nat) (hq : q = dead ++ i :: rest)
      (hdead : ∀ j ∈ dead, w.isLive j = false) (hi : w.isLive i = true) :
      Popped w pops q (some i, pops + dead.length + 1, rest)
  | miss (dead rest : List Nat) (hq : q = dead ++ rest) (hdead : ∀ j ∈ dead, w.isLive j = false)
      (hend : rest = [] ∨ maxPopsPerWake ≤ pops + dead.length) : Popped w pops q (none, pops + dead.length, rest)

theorem popLive_popped (w : NotifyWaiters) (pops : Nat) (q : List Nat) : Popped w pops q (w.popLive pops q) := by
  induction q generalizing pops with
  | nil => exact .miss [] [] rfl (by simp) (Or.inl rfl)
  | cons i q ih =>
      rw [popLive]
      split
      next hlt =>
        split
        next hi => exact .hit [] i q rfl (by simp) hi
        next hi =>
          rw [Bool.not_eq_true] at hi
          have h := ih (pops + 1)
          generalize w.popLive (pops + 1) q = r at h ⊢
          cases h with
          | hit dead j rest hq hdead hj =>
              have hlen : pops + 1 + dead.length + 1 = pops + (i :: dead).length + 1 := by
                rw [List.length_cons]
                omega
              rw [hlen]
              exact .hit (i :: dead) j rest (by rw [hq, List.cons_append]) (List.forall_mem_cons.mpr ⟨hi, hdead⟩) hj
          | miss dead rest hq hdead hend =>
              have hlen : pops + 1 + dead.length = pops + (i :: dead).length := by
                rw [List.length_cons]
                omega
              rw [hlen] at hend ⊢
              exact .miss (i :: dead) rest (by rw [hq, List.cons_append]) (List.forall_mem_cons.mpr ⟨hi, hdead⟩) hend
      next hge => exact .miss [] (i :: q) rfl (by simp) (Or.inr (by simpa using hge))

inductive Delivered (f : Nat) (w : NotifyWaiters) (pops o : Nat) : NotifyWaiters × Nat → Prop
  | skip (h : maxPopsPerWake ≤ pops) : Delivered f w pops o (w, pops)
  | miss (dead rest : List Nat) (hq : w.queue o = dead ++ rest) (hdead : ∀ j ∈ dead, w.isLive j = false)
      (hend : rest = [] ∨ maxPopsPerWake ≤ pops + dead.length) :
      Delivered f w pops o (w.setSlot o { w.buddyOrders o with queue := rest }, pops + dead.length)
  | hit (dead : List Nat) (i : Nat) (rest : List Nat) (streak : BitVec 64) (hq : w.queue o = dead ++ i :: rest)
      (hdead : ∀ j ∈ dead, w.isLive j = false) (hi : w.isLive i = true) :
      Delivered f w pops o ({ (w.setEntry i ((w.entries i).wake f)).setSlot o
        ⟨rest, countSub (w.buddyOrders o).count, (w.setEntry i ((w.entries i).wake f)).headTimestampOf rest⟩ with
          streakState := streak }, pops + dead.length + 1)

theorem deliver_delivered (f : Nat) (w : NotifyWaiters) (pops o : Nat) :
    Delivered f w pops o (deliver f (w, pops) o) := by
  simp only [deliver]
  split
  next h => exact .skip h
  next =>
    have h := popLive_popped w pops (w.buddyOrders o).queue
    generalize w.popLive pops (w.buddyOrders o).queue = r at h ⊢
    cases h with
    | hit dead i rest hq hdead hi =>
        simp only
        split
        · exact .hit dead i rest _ hq hdead hi
        · exact .hit dead i rest _ hq hdead hi
    | miss dead rest hq hdead hend => exact .miss dead rest hq hdead hend

/-- What waking with a freed order can do: some live entries of orders up to it
are woken, and only entries that are not live leave a queue. -/
structure Wakes (f : Nat) (w w' : NotifyWaiters) : Prop where
  created : w'.created = w.created
  numOrders : w'.numOrders = w.numOrders
  entries : ∀ i, w'.entries i = w.entries i ∨
    w.isLive i = true ∧ (∃ o ≤ f, i ∈ w.queue o) ∧ w'.entries i = (w.entries i).wake f
  suffix : ∀ o, w'.queue o <:+ w.queue o
  kept : ∀ o, ∀ i ∈ w.queue o, w'.isLive i = true → i ∈ w'.queue o
  above : ∀ o, f < o → w'.buddyOrders o = w.buddyOrders o

theorem Wakes.refl (f : Nat) (w : NotifyWaiters) : Wakes f w w :=
  ⟨rfl, rfl, fun _ => Or.inl rfl, fun _ => List.suffix_rfl, fun _ _ hi _ => hi, fun _ _ => rfl⟩

theorem Wakes.isLive (h : Wakes f w w') {i : Nat} (hi : w'.isLive i = true) : w.isLive i = true := by
  rcases h.entries i with he | ⟨hl, -, -⟩
  · rwa [NotifyWaiters.isLive, he] at hi
  · exact hl

theorem Wakes.trans {w'' : NotifyWaiters} (h : Wakes f w w') (h' : Wakes f w' w'') : Wakes f w w'' where
  created := h'.created.trans h.created
  numOrders := h'.numOrders.trans h.numOrders
  entries := by
    intro i
    rcases h'.entries i with he | ⟨hl, ⟨o, ho, hm⟩, he⟩
    · rw [he]
      exact h.entries i
    · have hsame : w'.entries i = w.entries i := by
        rcases h.entries i with he' | ⟨-, -, he'⟩
        · exact he'
        · rw [NotifyWaiters.isLive, he'] at hl
          exact absurd hl (by simp [WaiterEntry.wake])
      rw [hsame] at he
      exact Or.inr ⟨h.isLive hl, ⟨o, ho, (h.suffix o).subset hm⟩, he⟩
  suffix := fun o => (h'.suffix o).trans (h.suffix o)
  kept := fun o i hi hl => h'.kept o i (h.kept o i hi (h'.isLive hl)) hl
  above := fun o ho => (h'.above o ho).trans (h.above o ho)

theorem Delivered.wakes {pops : Nat} {r : NotifyWaiters × Nat} (h : Delivered f w pops o r) (ho : o ≤ f) :
    Wakes f w r.1 := by
  cases h with
  | skip => exact .refl f w
  | miss dead rest hq hdead hend =>
      refine ⟨rfl, rfl, fun _ => Or.inl rfl, fun o' => ?_, fun o' j hj hl => ?_, fun o' hlt => ?_⟩
      · rw [queue_setSlot]
        split
        next h =>
          rw [h, hq]
          exact List.suffix_append dead rest
        next => exact List.suffix_rfl
      · rw [queue_setSlot]
        split
        next h =>
          rw [h, hq] at hj
          rcases List.mem_append.mp hj with hd | hr
          · rw [show (w.setSlot o _).isLive j = w.isLive j from rfl, hdead j hd] at hl
            cases hl
          · exact hr
        next => exact hj
      · exact update_of_ne (by omega) _ _
  | hit dead i rest streak hq hdead hi =>
      have hmem : i ∈ w.queue o := by
        rw [hq]
        exact List.mem_append_right dead List.mem_cons_self
      refine ⟨rfl, rfl, fun j => ?_, fun o' => ?_, fun o' j hj hl => ?_, fun o' hlt => ?_⟩
      · by_cases hj : j = i
        · subst hj
          exact Or.inr ⟨hi, ⟨o, ho, hmem⟩, update_self _ _ _⟩
        · exact Or.inl (update_of_ne hj _ _)
      · change ((w.setEntry i _).setSlot o _).queue o' <:+ _
        rw [queue_setSlot]
        split
        next h =>
          rw [h, hq]
          exact (List.suffix_cons i rest).trans (List.suffix_append dead _)
        next => exact List.suffix_rfl
      · change (w.setEntry i ((w.entries i).wake f)).isLive j = true at hl
        change j ∈ ((w.setEntry i _).setSlot o _).queue o'
        rw [isLive_setEntry] at hl
        rw [queue_setSlot]
        split
        next h =>
          rw [h, hq] at hj
          split at hl
          next => exact absurd hl (by simp [WaiterEntry.wake])
          next hne =>
            rcases List.mem_append.mp hj with hd | hr
            · rw [hdead j hd] at hl
              cases hl
            · exact (List.mem_cons.mp hr).resolve_left hne
        next => exact hj
      · exact update_of_ne (by omega) _ _

theorem Wakes.counted (h : Wakes f w w') (hw : w.Counted)
    (hcount : ∀ o, (w'.buddyOrders o).count = (w'.queue o).countP w'.isLive) : w'.Counted where
  nodup := fun o => (hw.nodup o).sublist (h.suffix o).sublist
  created := fun o i hi => by
    rw [h.created]
    exact hw.created o i ((h.suffix o).subset hi)
  apart := fun o o' i hi hi' => hw.apart o o' i ((h.suffix o).subset hi) ((h.suffix o').subset hi')
  count := hcount

theorem countP_dead {dead : List Nat} (h : ∀ j ∈ dead, w.isLive j = false) (rest : List Nat) :
    (dead ++ rest).countP w.isLive = rest.countP w.isLive := by
  rw [List.countP_append, List.countP_eq_zero.mpr (fun j hj => by simp [h j hj]), Nat.zero_add]

theorem countP_setEntry {q : List Nat} {i : Nat} (h : i ∉ q) (e : WaiterEntry) :
    q.countP (w.setEntry i e).isLive = q.countP w.isLive := by
  refine List.countP_congr fun j hj => ?_
  have hne : j ≠ i := fun he => h (he ▸ hj)
  rw [isLive_setEntry, if_neg hne]

theorem Delivered.counted {pops : Nat} {r : NotifyWaiters × Nat} (h : Delivered f w pops o r) (ho : o ≤ f)
    (hw : w.Counted) : r.1.Counted := by
  refine (h.wakes ho).counted hw fun o' => ?_
  cases h with
  | skip => exact hw.count o'
  | miss dead rest hq hdead hend =>
      rw [queue_setSlot]
      change (update w.buddyOrders o _ o').count = _
      rw [update_apply]
      split
      next =>
        change (w.buddyOrders o).count = rest.countP w.isLive
        rw [hw.count, hq, countP_dead hdead]
      next => exact hw.count o'
  | hit dead i rest streak hq hdead hi =>
      change (update w.buddyOrders o _ o').count =
        (((w.setEntry i _).setSlot o _).queue o').countP (w.setEntry i ((w.entries i).wake f)).isLive
      rw [queue_setSlot, update_apply]
      split
      next =>
        simp only
        rw [countP_setEntry (hw.notMem_rest hq), hw.count, hq, countP_dead hdead, List.countP_cons_of_pos hi]
        rfl
      next hne =>
        have hnot : i ∉ w.queue o' := by
          intro hm
          refine hne (hw.apart o' o i hm ?_)
          rw [hq]
          exact List.mem_append_right dead List.mem_cons_self
        change _ = (w.queue o').countP _
        rw [countP_setEntry hnot]
        exact hw.count o'

theorem foldl_deliver (cs : List Nat) (hcs : ∀ c ∈ cs, c ≤ f) (hw : w.Counted) (pops : Nat) :
    Wakes f w (cs.foldl (deliver f) (w, pops)).1 ∧ (cs.foldl (deliver f) (w, pops)).1.Counted := by
  induction cs generalizing w pops with
  | nil => exact ⟨.refl f w, hw⟩
  | cons c cs ih =>
      rw [List.foldl_cons]
      have hd := deliver_delivered f w pops c
      have hc := hcs c List.mem_cons_self
      obtain ⟨hwake, hcounted⟩ := ih (fun d hd => hcs d (List.mem_cons_of_mem c hd)) (hd.counted hc hw)
        (deliver f (w, pops) c).2
      exact ⟨(hd.wakes hc).trans hwake, hcounted⟩

def hasLive (w : NotifyWaiters) (o : Nat) : Bool := (w.queue o).any w.isLive

theorem hasLive_iff : w.hasLive o = true ↔ ∃ i ∈ w.queue o, w.isLive i = true := List.any_eq_true

theorem Counted.hasLive_iff_count (hw : w.Counted) : w.hasLive o = true ↔ (w.buddyOrders o).count ≠ 0 := by
  rw [hw.count, hasLive_iff, ← Nat.pos_iff_ne_zero, List.countP_pos_iff]

theorem candidates_fst (w : NotifyWaiters) (f : Nat) : (w.candidates f).map Prod.fst =
    (List.range (min f (w.numOrders - 1) + 1)).filter fun o => (candidate (w.buddyOrders o) o).isSome := by
  rw [candidates]
  induction List.range (min f (w.numOrders - 1) + 1) with
  | nil => rfl
  | cons o os ih =>
      rw [List.filterMap_cons]
      cases hc : candidate (w.buddyOrders o) o with
      | none => simp [hc, ih]
      | some c =>
          have hfst : c.1 = o := by
            simp only [candidate] at hc
            split at hc
            · cases hc
            · split at hc <;> cases hc
              rfl
          simp [hc, ih, hfst]

theorem candidates_nodup (w : NotifyWaiters) (f : Nat) : ((w.candidates f).map Prod.fst).Nodup := by
  rw [candidates_fst]
  exact List.nodup_range.filter _

theorem mem_rank {streak : BitVec 64} {cs : List (Nat × Nat)} {o : Nat} (h : o ∈ rank streak cs) :
    o ∈ cs.map Prod.fst := by
  rw [rank, List.mem_map] at h
  obtain ⟨c, hc, rfl⟩ := h
  rw [List.mem_insertionSort] at hc
  split at hc
  · exact List.mem_map_of_mem (List.mem_filter.mp hc).1
  · exact List.mem_map_of_mem hc

theorem mem_scoreOrders (h : o ∈ w.scoreOrders f) :
    o ≤ min f (w.numOrders - 1) ∧ (candidate (w.buddyOrders o) o).isSome = true := by
  have hm := mem_rank h
  rw [candidates_fst, List.mem_filter, List.mem_range] at hm
  exact ⟨Nat.le_of_lt_succ hm.1, hm.2⟩

theorem scoreOrders_le {c : Nat} (hc : c ∈ w.scoreOrders f) : c ≤ f := (mem_scoreOrders hc).1.trans (min_le_left _ _)

theorem buddyWake_counted (hw : w.Counted) (f : Nat) : Wakes f w (w.buddyWake f) ∧ (w.buddyWake f).Counted :=
  foldl_deliver _ (fun _ hc => scoreOrders_le hc) hw 0

theorem buddyWake_wakes (hw : w.Filed) (f : Nat) : Wakes f w (w.buddyWake f) ∧ (w.buddyWake f).Filed := by
  obtain ⟨hwake, hcounted⟩ := buddyWake_counted hw.counted f
  exact ⟨hwake, hcounted.filed fun o => (hw.sorted o).sublist (hwake.suffix o).sublist⟩

def Headed (w : NotifyWaiters) : Prop :=
  ∀ o, w.hasLive o = true → (w.buddyOrders o).headTimestamp ≠ noWaitersTimestamp

def popsNeeded (w : NotifyWaiters) (o : Nat) : Nat :=
  if w.hasLive o then ((w.queue o).takeWhile fun i => !w.isLive i).length + 1 else 0

/-- The streak ban does not apply: the streak is short, or no other order up
to the freed one has a live waiter, or the last winner has none. -/
def NotBanned (w : NotifyWaiters) (f : Nat) : Prop :=
  streakCount w.streakState < maxConsecutive ∨ (∀ o ≤ f, w.hasLive o = true → o = lastWinner w.streakState) ∨
    w.hasLive (lastWinner w.streakState) = false

/-- The entries up to the first live one of every order can be popped within
the bound of one wake. -/
def WithinBound (w : NotifyWaiters) (f : Nat) : Prop :=
  ((List.range (f + 1)).map w.popsNeeded).sum ≤ maxPopsPerWake

instance (w : NotifyWaiters) (f : Nat) : Decidable (w.NotBanned f) :=
  inferInstanceAs (Decidable (_ < _ ∨ (∀ o ≤ f, w.hasLive o = true → o = lastWinner w.streakState) ∨ _ = false))

instance (w : NotifyWaiters) (f : Nat) : Decidable (w.WithinBound f) := inferInstanceAs (Decidable (_ ≤ _))

theorem candidate_isSome_iff (hw : w.Counted) (hh : w.Headed) :
    (candidate (w.buddyOrders o) o).isSome = true ↔ w.hasLive o = true := by
  rw [hw.hasLive_iff_count, candidate]
  split
  next h => simp [h]
  next h =>
    have hts := hh o (hw.hasLive_iff_count.mpr h)
    simp [h, hts]

theorem not_banned (hw : w.Counted) (hh : w.Headed) (h : w.NotBanned f) :
    banned w.streakState (w.candidates f) = false := by
  have hmem {o : Nat} (ho : o ∈ (w.candidates f).map Prod.fst) : o ≤ f ∧ w.hasLive o = true := by
    rw [candidates_fst, List.mem_filter, List.mem_range, candidate_isSome_iff hw hh] at ho
    exact ⟨(Nat.le_of_lt_succ ho.1).trans (min_le_left _ _), ho.2⟩
  have hnd := w.candidates_nodup f
  rw [Bool.eq_false_iff, banned]
  intro hb
  simp only [Bool.and_eq_true, decide_eq_true_eq, List.any_eq_true] at hb
  obtain ⟨⟨hstreak, hlen⟩, c, hc, hwin⟩ := hb
  rcases h with h | h | h
  · omega
  · have hall : ∀ o ∈ (w.candidates f).map Prod.fst, o = lastWinner w.streakState := fun o ho =>
      h o (hmem ho).1 (hmem ho).2
    rw [List.eq_replicate_of_mem hall, List.nodup_replicate, List.length_map] at hnd
    omega
  · have hl := (hmem (List.mem_map_of_mem hc)).2
    rw [hwin, h] at hl
    cases hl

theorem takeWhile_dead {dead : List Nat} (h : ∀ j ∈ dead, w.isLive j = false) (rest : List Nat) :
    (dead ++ rest).takeWhile (fun i => !w.isLive i) = dead ++ rest.takeWhile fun i => !w.isLive i :=
  List.takeWhile_append_of_pos fun j hj => by simp [h j hj]

theorem find?_dead {dead : List Nat} (h : ∀ j ∈ dead, w.isLive j = false) {i : Nat} (hi : w.isLive i = true)
    (rest : List Nat) : (dead ++ i :: rest).find? w.isLive = some i := by
  rw [List.find?_append, List.find?_eq_none.mpr (fun j hj => by simp [h j hj]), Option.none_or,
    List.find?_cons_of_pos hi]

theorem Delivered.other {pops : Nat} {r : NotifyWaiters × Nat} (h : Delivered f w pops o r) (hw : w.Counted)
    {o' : Nat} (hne : o' ≠ o) :
    r.1.queue o' = w.queue o' ∧ ∀ i ∈ w.queue o', r.1.isLive i = w.isLive i := by
  cases h with
  | skip => exact ⟨rfl, fun _ _ => rfl⟩
  | miss => exact ⟨by rw [queue_setSlot, if_neg hne], fun _ _ => rfl⟩
  | hit dead i rest streak hq hdead hi =>
      refine ⟨?_, fun j hj => ?_⟩
      · change ((w.setEntry i _).setSlot o _).queue o' = _
        rw [queue_setSlot, if_neg hne]
        rfl
      · change (w.setEntry i ((w.entries i).wake f)).isLive j = _
        rw [isLive_setEntry, if_neg]
        rintro rfl
        refine hne (hw.apart o' o j hj ?_)
        rw [hq]
        exact List.mem_append_right dead List.mem_cons_self

theorem scan_congr {p q : Nat → Bool} {l : List Nat} (h : ∀ i ∈ l, p i = q i) :
    l.find? p = l.find? q ∧ l.takeWhile (fun i => !p i) = l.takeWhile fun i => !q i := by
  induction l with
  | nil => exact ⟨rfl, rfl⟩
  | cons i l ih =>
      obtain ⟨hfind, htake⟩ := ih fun j hj => h j (List.mem_cons_of_mem i hj)
      rw [List.find?_cons, List.find?_cons, List.takeWhile_cons, List.takeWhile_cons, h i List.mem_cons_self, hfind,
        htake]
      exact ⟨rfl, rfl⟩

theorem popsNeeded_congr (hq : w'.queue o = w.queue o) (hl : ∀ i ∈ w.queue o, w'.isLive i = w.isLive i) :
    w'.popsNeeded o = w.popsNeeded o ∧ w'.hasLive o = w.hasLive o ∧
      (w'.queue o).find? w'.isLive = (w.queue o).find? w.isLive := by
  have hany : w'.hasLive o = w.hasLive o := by
    rw [Bool.eq_iff_iff, hasLive_iff, hasLive_iff, hq]
    exact exists_congr fun i => and_congr_right fun hi => by rw [hl i hi]
  obtain ⟨hfind, htake⟩ := scan_congr hl
  rw [popsNeeded, popsNeeded, hany, hq, htake]
  exact ⟨rfl, rfl, hfind⟩

theorem Delivered.served {pops : Nat} {r : NotifyWaiters × Nat} (h : Delivered f w pops o r)
    (hlive : w.hasLive o = true) (hp : pops + w.popsNeeded o ≤ maxPopsPerWake) :
    r.2 = pops + w.popsNeeded o ∧ ∀ i, (w.queue o).find? w.isLive = some i → r.1.isLive i = false := by
  rw [popsNeeded, if_pos hlive] at hp ⊢
  cases h with
  | skip h => omega
  | miss dead rest hq hdead hend =>
      rw [hq, takeWhile_dead hdead, List.length_append] at hp
      rcases hend with rfl | hend
      · obtain ⟨i, hi, hl⟩ := hasLive_iff.mp hlive
        rw [hq, List.append_nil] at hi
        rw [hdead i hi] at hl
        cases hl
      · omega
  | hit dead i rest streak hq hdead hi =>
      refine ⟨?_, fun j hj => ?_⟩
      · rw [hq, takeWhile_dead hdead, List.takeWhile_cons_of_neg (by simp [hi]), List.append_nil, Nat.add_assoc]
      · rw [hq, find?_dead hdead hi] at hj
        cases hj
        change (w.setEntry i ((w.entries i).wake f)).isLive i = false
        simp [WaiterEntry.wake]

theorem foldl_served (cs : List Nat) (hcs : ∀ c ∈ cs, c ≤ f) (hnd : cs.Nodup) (hw : w.Counted)
    (hlive : ∀ c ∈ cs, w.hasLive c = true) (pops : Nat)
    (hp : pops + (cs.map w.popsNeeded).sum ≤ maxPopsPerWake) :
    ∀ c ∈ cs, ∀ i, (w.queue c).find? w.isLive = some i → (cs.foldl (deliver f) (w, pops)).1.isLive i = false := by
  induction cs generalizing w pops with
  | nil => simp
  | cons c cs ih =>
      rw [List.foldl_cons]
      rw [List.map_cons, List.sum_cons] at hp
      rw [List.nodup_cons] at hnd
      have hd := deliver_delivered f w pops c
      generalize deliver f (w, pops) c = r at hd ⊢
      obtain ⟨w₁, pops₁⟩ := r
      have hc := hcs c List.mem_cons_self
      have hcs' : ∀ d ∈ cs, d ≤ f := fun d hd => hcs d (List.mem_cons_of_mem c hd)
      obtain ⟨hpops, hserved⟩ := hd.served (hlive c List.mem_cons_self) (by omega)
      have hsame (d : Nat) (hm : d ∈ cs) := popsNeeded_congr (hd.other hw (ne_of_mem_of_not_mem hm hnd.1)).1
        (hd.other hw (ne_of_mem_of_not_mem hm hnd.1)).2
      have hsum : (cs.map w₁.popsNeeded).sum = (cs.map w.popsNeeded).sum :=
        congrArg List.sum (List.map_congr_left fun d hm => (hsame d hm).1)
      intro d hm i hi
      rcases List.mem_cons.mp hm with rfl | hm
      · rw [Bool.eq_false_iff]
        intro hl
        have := ((foldl_deliver cs hcs' (hd.counted hc hw) _).1).isLive hl
        rw [hserved i hi] at this
        cases this
      · refine ih hcs' hnd.2 (hd.counted hc hw) (fun e he => ?_) _ ?_ d hm i ?_
        · rw [(hsame e he).2.1]
          exact hlive e (List.mem_cons_of_mem c he)
        · rw [show pops₁ = _ from hpops, hsum]
          omega
        · rw [(hsame d hm).2.2]
          exact hi

/-- Under both conditions, a wake reaches the first live entry of every order
up to the freed one. -/
theorem buddyWake_served (hw : w.Counted) (hh : w.Headed) (hf : f < w.numOrders) (hban : w.NotBanned f)
    (hbound : w.WithinBound f) {o i : Nat} (ho : o ≤ f) (hi : (w.queue o).find? w.isLive = some i) :
    (w.buddyWake f).isLive i = false := by
  have hkept : w.scoreOrders f = ((w.candidates f).insertionSort fun c d => c.2 ≤ d.2).map Prod.fst := by
    rw [scoreOrders, rank, not_banned hw hh hban]
    rfl
  have hperm : (w.scoreOrders f).Perm ((w.candidates f).map Prod.fst) := by
    rw [hkept]
    exact (List.perm_insertionSort _ _).map Prod.fst
  have hsub : ((w.candidates f).map Prod.fst).Sublist (List.range (f + 1)) := by
    rw [candidates_fst, show min f (w.numOrders - 1) = f by omega]
    exact List.filter_sublist
  have hmem : o ∈ w.scoreOrders f := by
    rw [hperm.mem_iff, candidates_fst, List.mem_filter, List.mem_range, candidate_isSome_iff hw hh, hasLive_iff]
    exact ⟨by omega, i, List.mem_of_find?_eq_some hi, List.find?_some hi⟩
  refine foldl_served (w.scoreOrders f) (fun c hc => scoreOrders_le hc) ?_ hw ?_ 0 ?_ o hmem i hi
  · rw [hperm.nodup_iff]
    exact List.nodup_range.sublist hsub
  · intro c hc
    exact (candidate_isSome_iff hw hh).mp (mem_scoreOrders hc).2
  · rw [Nat.zero_add, (hperm.map _).sum_eq]
    exact ((hsub.map _).sum_le_sum (by simp)).trans hbound

theorem Counted.congr (hw : w.Counted) (hc : w'.created = w.created) (hb : w'.buddyOrders = w.buddyOrders)
    (hl : w'.isLive = w.isLive) : w'.Counted := by
  have hq : w'.queue = w.queue := by
    funext o
    rw [queue, hb]
    rfl
  exact ⟨by rw [hq]; exact hw.nodup, by rw [hq, hc]; exact hw.created, by rw [hq]; exact hw.apart,
    by rw [hq, hb, hl]; exact hw.count⟩

theorem new_filed (n : Nat) : (new n).Filed where
  sorted _ := List.Pairwise.nil
  created _ _ hi := absurd hi List.not_mem_nil
  apart _ _ _ hi := absurd hi List.not_mem_nil
  count _ := rfl

theorem dropRx_isLive (w : NotifyWaiters) (i : Nat) : (w.dropRx i).isLive = w.isLive := by
  funext j
  rw [dropRx, isLive_setEntry]
  split
  next h => rw [h]; rfl
  next => rfl

theorem dropRx_counted (hw : w.Counted) (i : Nat) : (w.dropRx i).Counted := hw.congr rfl rfl (w.dropRx_isLive i)

theorem dropRx_filed (hw : w.Filed) (i : Nat) : (w.dropRx i).Filed := (dropRx_counted hw.counted i).filed hw.sorted

theorem countP_revoke {q : List Nat} (hq : q.Nodup) {i : Nat} (hi : i ∈ q) (hl : w.isLive i = true)
    {e : WaiterEntry} (he : e.state ≠ .live) :
    q.countP (w.setEntry i e).isLive + 1 = q.countP w.isLive := by
  induction q with
  | nil => cases hi
  | cons j q ih =>
      rw [List.nodup_cons] at hq
      rcases List.mem_cons.mp hi with rfl | hi
      · have hdead : (w.setEntry i e).isLive i = false := by simp [he]
        rw [List.countP_cons_of_neg (by simp [hdead]), List.countP_cons_of_pos hl, countP_setEntry hq.1]
      · have hne : j ≠ i := fun h => hq.1 (h ▸ hi)
        have hsame : (w.setEntry i e).isLive j = w.isLive j := by rw [isLive_setEntry, if_neg hne]
        rw [List.countP_cons, List.countP_cons, hsame, ← ih hq.2 hi]
        omega

theorem revokeEntry_isLive (w : NotifyWaiters) (r : BuddyRegistration) (j : Nat) :
    (w.revokeEntry r).isLive j = (w.isLive j && decide (j ≠ r.entry)) := by
  rw [revokeEntry]
  split
  next h =>
    change (w.setEntry r.entry (w.entries r.entry).revoke).isLive j = _
    rw [isLive_setEntry]
    split
    next hj => simp [hj, WaiterEntry.revoke]
    next hj => simp [hj]
  next h =>
    by_cases hj : j = r.entry
    · simp [hj, h]
    · simp [hj]

theorem revokeEntry_queue (w : NotifyWaiters) (r : BuddyRegistration) : (w.revokeEntry r).queue = w.queue := by
  funext o
  rw [revokeEntry]
  split
  · rw [queue_setSlot]
    split
    next h => rw [h]; rfl
    next => rfl
  · rfl

theorem revokeEntry_filed (hw : w.Filed) {r : BuddyRegistration}
    (hr : w.isLive r.entry = true → r.entry ∈ w.queue r.order) : (w.revokeEntry r).Filed := by
  have hq := w.revokeEntry_queue r
  have hc : (w.revokeEntry r).created = w.created := by
    rw [revokeEntry]
    split <;> rfl
  refine ⟨by rw [hq]; exact hw.sorted, by rw [hq, hc]; exact hw.created, by rw [hq]; exact hw.apart, fun o => ?_⟩
  rw [hq, revokeEntry]
  split
  next hl =>
    change (update w.buddyOrders r.order _ o).count = (w.queue o).countP (w.setEntry r.entry _).isLive
    rw [update_apply]
    split
    next ho =>
      have hcount := countP_revoke ((hw.sorted r.order).imp ne_of_lt) (hr hl) hl
        (e := (w.entries r.entry).revoke) (by simp [WaiterEntry.revoke])
      change countSub (w.buddyOrders r.order).count = _
      rw [ho, countSub, if_neg (by rw [hw.count]; omega), hw.count]
      omega
    next ho =>
      rw [countP_setEntry fun hm => ho (hw.apart o r.order _ hm (hr hl))]
      exact hw.count o
  next => exact hw.count o

structure Closes (i : Nat) (w w' : NotifyWaiters) : Prop where
  filed : w'.Filed
  created : w'.created = w.created
  numOrders : w'.numOrders = w.numOrders
  queue : w'.queue = w.queue
  isLive : ∀ j, w'.isLive j = (w.isLive j && decide (j ≠ i))
  entries : ∀ j, j ≠ i → w'.entries j = w.entries j

theorem Closes.of_not_live (hw : w.Filed) {i : Nat} (hi : w.isLive i = false) : Closes i w w :=
  ⟨hw, rfl, rfl, rfl, fun j => by by_cases hj : j = i <;> simp [hj, hi], fun _ _ => rfl⟩

theorem Closes.dropRx {i : Nat} (h : Closes i w w') : Closes i w (w'.dropRx i) where
  filed := dropRx_filed h.filed i
  created := h.created
  numOrders := h.numOrders
  queue := h.queue
  isLive := fun j => by rw [dropRx_isLive, h.isLive]
  entries := fun j hj => (update_of_ne hj _ _).trans (h.entries j hj)

theorem revokeEntry_closes (hw : w.Filed) {r : BuddyRegistration}
    (hr : w.isLive r.entry = true → r.entry ∈ w.queue r.order) : Closes r.entry w (w.revokeEntry r) := by
  refine ⟨revokeEntry_filed hw hr, ?_, ?_, w.revokeEntry_queue r, w.revokeEntry_isLive r, fun j hj => ?_⟩
  · rw [revokeEntry]
    split <;> rfl
  · rw [revokeEntry]
    split <;> rfl
  · rw [revokeEntry]
    split
    · exact update_of_ne hj _ _
    · rfl

/-- The registrations of a live entry are registered, so that revoking or
dropping one closes its entry. -/
theorem revoke_closes (hw : w.Filed) {r : BuddyRegistration}
    (hr : w.isLive r.entry = true → r.registered = true ∧ r.entry ∈ w.queue r.order) :
    Closes r.entry w (w.revoke r).1 := by
  rw [revoke]
  split
  · exact revokeEntry_closes hw fun hl => (hr hl).2
  next h =>
    refine .of_not_live hw (Bool.eq_false_iff.mpr fun hl => h (hr hl).1)

theorem drop_closes (hw : w.Filed) {r : BuddyRegistration}
    (hr : w.isLive r.entry = true → r.registered = true ∧ r.entry ∈ w.queue r.order) :
    Closes r.entry w (w.drop r) := by
  have h := revoke_closes hw hr
  have hfst : (w.revoke r).1 = if r.registered then w.revokeEntry r else w := by
    rw [revoke]
    split <;> rfl
  rw [hfst] at h
  simp only [drop]
  split
  · exact h.dropRx
  · exact h

theorem poll_closes (hw : w.Filed) {r : BuddyRegistration} (hr : (w.poll r).1 = true)
    (hrx : w.isLive r.entry = true → r.rx = true)
    (hsilent : w.isLive r.entry = true → (w.entries r.entry).channel = .empty) :
    Closes r.entry w (w.poll r).2.1 := by
  rw [poll] at hr ⊢
  split at hr
  next hx =>
    rw [if_pos hx]
    split at hr
    next => cases hr
    next hc =>
      rw [if_neg hc]
      exact (Closes.of_not_live hw (Bool.eq_false_iff.mpr fun hl => hc (hsilent hl))).dropRx
  next hx =>
    rw [if_neg hx]
    exact .of_not_live hw (Bool.eq_false_iff.mpr fun hl => hx (hrx hl))

theorem enroll_snd (w : NotifyWaiters) (order now : Nat) : (w.enroll order now).2 =
    { entry := w.created, order := min order (w.numOrders - 1), registered := true, pendingEntry := false,
      rx := true } :=
  rfl

theorem enroll_isLive (w : NotifyWaiters) (order now j : Nat) :
    (w.enroll order now).1.isLive j = if j = w.created then true else w.isLive j :=
  isLive_setEntry w w.created { timestamp := now } j

theorem enroll_queue (w : NotifyWaiters) (order now o : Nat) : (w.enroll order now).1.queue o =
    if o = min order (w.numOrders - 1) then w.queue o ++ [w.created] else w.queue o := by
  change NotifyWaiters.queue (setSlot _ (min order (w.numOrders - 1)) _) o = _
  rw [queue_setSlot]
  split
  next h => rw [h]; rfl
  next => rfl

theorem enroll_counted (hw : w.Counted) (order now : Nat) : (w.enroll order now).1.Counted := by
  have hnew (o : Nat) : w.created ∉ w.queue o := fun hm => lt_irrefl _ (hw.created o _ hm)
  refine ⟨fun o => ?_, fun o i hi => ?_, fun o o' i hi hi' => ?_, fun o => ?_⟩
  · rw [enroll_queue]
    split
    · rw [← List.concat_eq_append]
      exact (hw.nodup o).concat (hnew o)
    · exact hw.nodup o
  · rw [enroll_queue] at hi
    change i < w.created + 1
    split at hi
    · rcases List.mem_append.mp hi with hi | hi
      · exact Nat.lt_succ_of_lt (hw.created o i hi)
      · exact List.mem_singleton.mp hi ▸ Nat.lt_succ_self _
    · exact Nat.lt_succ_of_lt (hw.created o i hi)
  · rw [enroll_queue] at hi hi'
    split at hi <;> split at hi'
    next h h' => exact h.trans h'.symm
    next h h' =>
      rcases List.mem_append.mp hi with hi | hi
      · exact hw.apart o o' i hi hi'
      · exact absurd (List.mem_singleton.mp hi ▸ hi') (hnew o')
    next h h' =>
      rcases List.mem_append.mp hi' with hi' | hi'
      · exact hw.apart o o' i hi hi'
      · exact absurd (List.mem_singleton.mp hi' ▸ hi) (hnew o)
    next h h' => exact hw.apart o o' i hi hi'
  · have hlive : (w.queue o).countP (w.enroll order now).1.isLive = (w.queue o).countP w.isLive :=
      countP_setEntry (hnew o) { timestamp := now }
    rw [enroll_queue]
    change (update w.buddyOrders (min order (w.numOrders - 1)) _ o).count = _
    rw [update_apply]
    split
    next h =>
      rw [List.countP_append, hlive, List.countP_singleton, enroll_isLive, if_pos rfl, if_pos rfl, ← hw.count, h]
      rfl
    next => rw [hlive, hw.count]

theorem enroll_filed (hw : w.Filed) (order now : Nat) : (w.enroll order now).1.Filed := by
  refine (enroll_counted hw.counted order now).filed fun o => ?_
  rw [enroll_queue]
  split
  · exact List.pairwise_append.mpr ⟨hw.sorted o, List.pairwise_singleton _ _,
      fun i hi j hj => List.mem_singleton.mp hj ▸ hw.created o i hi⟩
  · exact hw.sorted o

def Stamped (w : NotifyWaiters) : Prop := ∀ i, (w.entries i).timestamp ≠ noWaitersTimestamp

def Dated (w : NotifyWaiters) : Prop :=
  ∀ o, ∀ i ∈ w.queue o, w.isLive i = true → (w.entries i).timestamp ≠ noWaitersTimestamp

theorem Stamped.dated (hs : w.Stamped) : w.Dated := fun _ i _ _ => hs i

theorem headTimestampOf_ne {q : List Nat}
    (hs : ∀ i ∈ q, w.isLive i = true → (w.entries i).timestamp ≠ noWaitersTimestamp) (h : q.any w.isLive = true) :
    w.headTimestampOf q ≠ noWaitersTimestamp := by
  rw [headTimestampOf]
  split
  next i hi => exact hs i (List.mem_of_find?_eq_some hi) (List.find?_some hi)
  next hn =>
    obtain ⟨i, hi, hl⟩ := List.any_eq_true.mp h
    exact absurd hl (List.find?_eq_none.mp hn i hi)

theorem Wakes.stamped (h : Wakes f w w') (hs : w.Stamped) : w'.Stamped := by
  intro i
  rcases h.entries i with he | ⟨-, -, he⟩
  · rw [he]
    exact hs i
  · rw [he]
    exact hs i

theorem Wakes.dated (h : Wakes f w w') (hs : w.Dated) : w'.Dated := by
  intro o i hi hl
  have hold := hs o i ((h.suffix o).subset hi) (h.isLive hl)
  rcases h.entries i with he | ⟨-, -, he⟩
  · rw [he]
    exact hold
  · rw [he]
    exact hold

theorem Delivered.headed {pops : Nat} {r : NotifyWaiters × Nat} (h : Delivered f w pops o r) (ho : o ≤ f)
    (hs : w.Dated) (hh : w.Headed) : r.1.Headed := by
  have hwakes := h.wakes ho
  intro o' hl
  have hlive : w.hasLive o' = true := by
    obtain ⟨i, hi, hl⟩ := hasLive_iff.mp hl
    exact hasLive_iff.mpr ⟨i, (hwakes.suffix o').subset hi, hwakes.isLive hl⟩
  have hold := hh o' hlive
  cases h with
  | skip => exact hold
  | miss dead rest hq hdead hend =>
      change (update w.buddyOrders o _ o').headTimestamp ≠ _
      rw [update_apply]
      split
      next he => rw [he] at hold; exact hold
      next => exact hold
  | hit dead i rest streak hq hdead hi =>
      change (update w.buddyOrders o _ o').headTimestamp ≠ _
      rw [update_apply]
      split
      next he =>
        subst he
        have hdated := hwakes.dated hs o'
        rw [hasLive] at hl
        change ((((w.setEntry i _).setSlot o' _).queue o').any _) = true at hl
        change ∀ j ∈ ((w.setEntry i _).setSlot o' _).queue o', _ at hdated
        rw [queue_setSlot, if_pos rfl] at hl hdated
        exact headTimestampOf_ne hdated hl
      next => exact hold

theorem foldl_headed (cs : List Nat) (hcs : ∀ c ∈ cs, c ≤ f) (hs : w.Dated) (hh : w.Headed) (pops : Nat) :
    (cs.foldl (deliver f) (w, pops)).1.Headed := by
  induction cs generalizing w pops with
  | nil => exact hh
  | cons c cs ih =>
      rw [List.foldl_cons]
      have hd := deliver_delivered f w pops c
      have hc := hcs c List.mem_cons_self
      exact ih (fun d hd => hcs d (List.mem_cons_of_mem c hd)) ((hd.wakes hc).dated hs) (hd.headed hc hs hh) _

theorem buddyWake_headed (hs : w.Dated) (hh : w.Headed) (f : Nat) : (w.buddyWake f).Headed :=
  foldl_headed _ (fun _ hc => scoreOrders_le hc) hs hh 0

theorem enroll_stamped (hs : w.Stamped) (order : Nat) {now : Nat} (hn : now ≠ noWaitersTimestamp) :
    (w.enroll order now).1.Stamped := by
  intro i
  change (update w.entries w.created { timestamp := now } i).timestamp ≠ _
  rw [update_apply]
  split
  · exact hn
  · exact hs i

theorem enroll_headed (hw : w.Counted) (hh : w.Headed) (order : Nat) {now : Nat} (hn : now ≠ noWaitersTimestamp) :
    (w.enroll order now).1.Headed := by
  intro o hl
  change (update w.buddyOrders (min order (w.numOrders - 1)) _ o).headTimestamp ≠ _
  rw [update_apply]
  split
  next h =>
    simp only
    split
    · change (update w.entries w.created { timestamp := now } w.created).timestamp ≠ _
      rw [update_self]
      exact hn
    next hc => exact hh _ (hw.hasLive_iff_count.mpr hc)
  next h =>
    refine hh o (hasLive_iff.mpr ?_)
    obtain ⟨i, hi, hl⟩ := hasLive_iff.mp hl
    rw [enroll_queue, if_neg h] at hi
    rw [enroll_isLive, if_neg (fun he => lt_irrefl _ (he ▸ hw.created o i hi))] at hl
    exact ⟨i, hi, hl⟩

theorem revokeEntry_headed (hs : w.Stamped) (hh : w.Headed) (r : BuddyRegistration) :
    (w.revokeEntry r).Stamped ∧ (w.revokeEntry r).Headed := by
  refine ⟨fun i => ?_, fun o hl => ?_⟩
  · rw [revokeEntry]
    split
    · change (update w.entries r.entry (w.entries r.entry).revoke i).timestamp ≠ _
      rw [update_apply]
      split
      · exact hs r.entry
      · exact hs i
    · exact hs i
  · have hlive : w.hasLive o = true := by
      obtain ⟨i, hi, hl⟩ := hasLive_iff.mp hl
      rw [revokeEntry_queue] at hi
      rw [revokeEntry_isLive, Bool.and_eq_true] at hl
      exact hasLive_iff.mpr ⟨i, hi, hl.1⟩
    rw [revokeEntry]
    split
    · change (update w.buddyOrders r.order _ o).headTimestamp ≠ _
      rw [update_apply]
      split
      next he => rw [he] at hlive; exact hh r.order hlive
      next => exact hh o hlive
    · exact hh o hlive

theorem dropRx_timestamp (w : NotifyWaiters) (i j : Nat) :
    ((w.dropRx i).entries j).timestamp = (w.entries j).timestamp := by
  change (update w.entries i _ j).timestamp = _
  rw [update_apply]
  split
  next h => rw [h]
  next => rfl

theorem dropRx_stamped (hs : w.Stamped) (i : Nat) : (w.dropRx i).Stamped := fun j => by
  rw [dropRx_timestamp]
  exact hs j

theorem dropRx_headed (hh : w.Headed) (i : Nat) : (w.dropRx i).Headed := fun o hl => by
  rw [hasLive, dropRx_isLive] at hl
  exact hh o hl

end ArenaAlligator.NotifyWaiters
