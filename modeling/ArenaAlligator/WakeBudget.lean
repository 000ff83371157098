import ArenaAlligator.Runs
import ArenaAlligator.WaiterTombstones
import Mathlib.Algebra.Order.BigOperators.Group.Finset

namespace ArenaAlligator.NotifyWaiters

open Function Runs AsyncBuddy

variable {w w' : NotifyWaiters} {f o pops : Nat} {r : NotifyWaiters × Nat}

def wakePops (w : NotifyWaiters) (freedOrder : Nat) : Nat :=
  ((w.scoreOrders freedOrder).foldl (deliver freedOrder) (w, 0)).2

def queuedUpTo (w : NotifyWaiters) (f : Nat) : Nat := ∑ o ∈ Finset.range (f + 1), (w.queue o).length

def tombstonesUpTo (w : NotifyWaiters) (f : Nat) : Nat := ∑ o ∈ Finset.range (f + 1), tombstones w o

theorem popLive_le (w : NotifyWaiters) (q : List Nat) (h : pops ≤ maxPopsPerWake) :
    (w.popLive pops q).2.1 ≤ maxPopsPerWake := by
  induction q generalizing pops with
  | nil => exact h
  | cons i q ih =>
      rw [popLive]
      split
      next hlt =>
        split
        · exact hlt
        · exact ih hlt
      next => exact h

theorem deliver_pops_le (f o : Nat) (h : pops ≤ maxPopsPerWake) : (deliver f (w, pops) o).2 ≤ maxPopsPerWake := by
  have hpop := popLive_le w (w.buddyOrders o).queue h
  simp only [deliver]
  split
  · exact h
  · generalize w.popLive pops (w.buddyOrders o).queue = p at hpop ⊢
    obtain ⟨hit, pops, rest⟩ := p
    cases hit <;> exact hpop

theorem Delivered.length (h : Delivered f w pops o r) :
    pops ≤ r.2 ∧ (r.1.queue o).length + r.2 = (w.queue o).length + pops := by
  cases h with
  | skip => exact ⟨le_refl _, rfl⟩
  | miss dead rest hq hdead hend =>
      rw [queue_setSlot, if_pos rfl, hq, List.length_append]
      exact ⟨by omega, by simp only; omega⟩
  | hit dead i rest streak hq hdead hi =>
      change _ ∧ (NotifyWaiters.queue (setSlot _ o _) o).length + _ = _
      rw [queue_setSlot, if_pos rfl, hq, List.length_append, List.length_cons]
      exact ⟨by simp only; omega, by simp only; omega⟩

theorem Delivered.first (h : Delivered f w pops o r) (i : Nat) : r.1.entries i = w.entries i ∨
    (w.queue o).find? w.isLive = some i ∧ r.1.entries i = (w.entries i).wake f := by
  cases h with
  | skip => exact Or.inl rfl
  | miss => exact Or.inl rfl
  | hit dead j rest streak hq hdead hj =>
      by_cases hi : i = j
      · subst hi
        exact Or.inr ⟨by rw [hq, find?_dead hdead hj], update_self _ _ _⟩
      · exact Or.inl (update_of_ne hi _ _)

theorem Delivered.tombstones (h : Delivered f w pops o r) (hw : w.Counted) :
    AsyncBuddy.tombstones r.1 o ≤ AsyncBuddy.tombstones w o ∧
      ((∃ i, w.isLive i = true ∧ r.1.isLive i = false) ∨
        AsyncBuddy.tombstones r.1 o + r.2 = AsyncBuddy.tombstones w o + pops) := by
  have hcount {dead : List Nat} (hdead : ∀ j ∈ dead, w.isLive j = false) (rest : List Nat) :
      (dead ++ rest).countP (fun i => !w.isLive i) = dead.length + rest.countP fun i => !w.isLive i := by
    rw [List.countP_append, List.countP_eq_length.mpr fun j hj => by simp [hdead j hj]]
  cases h with
  | skip => exact ⟨le_refl _, Or.inr rfl⟩
  | miss dead rest hq hdead hend =>
      have hw' : AsyncBuddy.tombstones (w.setSlot o { w.buddyOrders o with queue := rest }) o =
          rest.countP fun i => !w.isLive i := by
        rw [AsyncBuddy.tombstones, queue_setSlot, if_pos rfl]
        rfl
      rw [hw', AsyncBuddy.tombstones, hq, hcount hdead]
      exact ⟨Nat.le_add_left _ _, Or.inr (by simp only; omega)⟩
  | hit dead i rest streak hq hdead hi =>
      have hrest : rest.countP (fun j => !(w.setEntry i ((w.entries i).wake f)).isLive j) =
          rest.countP fun j => !w.isLive j := by
        refine List.countP_congr fun j hj => ?_
        rw [isLive_setEntry, if_neg]
        rintro rfl
        exact hw.notMem_rest hq hj
      refine ⟨?_, Or.inl ⟨i, hi, ?_⟩⟩
      · change (NotifyWaiters.queue (setSlot _ o _) o).countP
          (fun j => !(w.setEntry i ((w.entries i).wake f)).isLive j) ≤ _
        rw [queue_setSlot, if_pos rfl, hrest, AsyncBuddy.tombstones, hq, hcount hdead, List.countP_cons]
        omega
      · change (w.setEntry i ((w.entries i).wake f)).isLive i = false
        simp [WaiterEntry.wake]

/-- An order with a live waiter is served unless the bound ends the wake. -/
theorem Delivered.progress (h : Delivered f w pops o r) (hlive : w.hasLive o = true) (hp : pops < maxPopsPerWake) :
    (∃ i, w.isLive i = true ∧ r.1.isLive i = false) ∨ maxPopsPerWake ≤ r.2 := by
  cases h with
  | skip h => omega
  | miss dead rest hq hdead hend =>
      rcases hend with rfl | hend
      · obtain ⟨i, hi, hl⟩ := hasLive_iff.mp hlive
        rw [hq, List.append_nil] at hi
        rw [hdead i hi] at hl
        cases hl
      · exact Or.inr hend
  | hit dead i rest streak hq hdead hi =>
      refine Or.inl ⟨i, hi, ?_⟩
      change (w.setEntry i ((w.entries i).wake f)).isLive i = false
      simp [WaiterEntry.wake]

theorem Delivered.sums (h : Delivered f w pops o r) (hw : w.Counted) (ho : o ≤ f) :
    r.1.queuedUpTo f + r.2 = w.queuedUpTo f + pops ∧
      (∀ o', AsyncBuddy.tombstones r.1 o' ≤ AsyncBuddy.tombstones w o') ∧
      ((∃ i, w.isLive i = true ∧ r.1.isLive i = false) ∨
        r.1.tombstonesUpTo f + r.2 = w.tombstonesUpTo f + pops) := by
  have hmem : o ∈ Finset.range (f + 1) := Finset.mem_range.mpr (Nat.lt_succ_of_le ho)
  have hqueue : r.1.queuedUpTo f + (w.queue o).length = w.queuedUpTo f + (r.1.queue o).length :=
    sum_change_on hmem fun u hu => congrArg List.length (h.other hw hu).1
  have hsame {u : Nat} (hu : u ≠ o) : AsyncBuddy.tombstones r.1 u = AsyncBuddy.tombstones w u := by
    obtain ⟨hq, hl⟩ := h.other hw hu
    rw [AsyncBuddy.tombstones, hq]
    exact List.countP_congr fun i hi => by rw [hl i hi]
  have htomb : r.1.tombstonesUpTo f + AsyncBuddy.tombstones w o = w.tombstonesUpTo f + AsyncBuddy.tombstones r.1 o :=
    sum_change_on hmem fun u hu => hsame hu
  obtain ⟨-, hlen⟩ := h.length
  obtain ⟨hle, hquiet⟩ := h.tombstones hw
  refine ⟨by omega, fun u => ?_, hquiet.imp_right fun heq => by omega⟩
  by_cases hu : u = o
  · rw [hu]
    exact hle
  · exact (hsame hu).le

structure Served (f : Nat) (w : NotifyWaiters) (pops : Nat) (cs : List Nat) (r : NotifyWaiters × Nat) : Prop where
  wakes : Wakes f w r.1
  counted : r.1.Counted
  first : ∀ i, r.1.entries i = w.entries i ∨
    ∃ o ∈ cs, (w.queue o).find? w.isLive = some i ∧ r.1.entries i = (w.entries i).wake f
  pops_ge : pops ≤ r.2
  pops_le : pops ≤ maxPopsPerWake → r.2 ≤ maxPopsPerWake
  queued : r.1.queuedUpTo f + r.2 = w.queuedUpTo f + pops
  dead_le : ∀ o, tombstones r.1 o ≤ tombstones w o
  quiet : (∃ i, w.isLive i = true ∧ r.1.isLive i = false) ∨ r.1.tombstonesUpTo f + r.2 = w.tombstonesUpTo f + pops

theorem serves_one (hw : w.Counted) (ho : o ≤ f) (pops : Nat) : Served f w pops [o] (deliver f (w, pops) o) := by
  have h := deliver_delivered f w pops o
  obtain ⟨hqueue, hdead, hquiet⟩ := h.sums hw ho
  exact ⟨h.wakes ho, h.counted ho hw, fun i => (h.first i).imp_right fun hi => ⟨o, List.mem_singleton_self o, hi⟩,
    h.length.1, deliver_pops_le f o, hqueue, hdead, hquiet⟩

theorem foldl_serves (cs : List Nat) (hcs : ∀ c ∈ cs, c ≤ f) (hnd : cs.Nodup) (hw : w.Counted) (pops : Nat) :
    Served f w pops cs (cs.foldl (deliver f) (w, pops)) := by
  induction cs generalizing w pops with
  | nil => exact ⟨.refl f w, hw, fun _ => Or.inl rfl, le_refl _, id, rfl, fun _ => le_refl _, Or.inr rfl⟩
  | cons c cs ih =>
      have hone := serves_one hw (hcs c List.mem_cons_self) pops
      have hd := deliver_delivered f w pops c
      rw [List.foldl_cons]
      rw [List.nodup_cons] at hnd
      generalize deliver f (w, pops) c = r₁ at hone hd ⊢
      obtain ⟨w₁, pops₁⟩ := r₁
      have hrest := ih (fun d hd => hcs d (List.mem_cons_of_mem c hd)) hnd.2 hone.counted pops₁
      have hge : pops ≤ pops₁ := hone.pops_ge
      have hqueue : w₁.queuedUpTo f + pops₁ = w.queuedUpTo f + pops := hone.queued
      refine ⟨hone.wakes.trans hrest.wakes, hrest.counted, fun i => ?_, hge.trans hrest.pops_ge,
        fun h => hrest.pops_le (hone.pops_le h), hrest.queued.trans hqueue,
        fun o => (hrest.dead_le o).trans (hone.dead_le o), ?_⟩
      · rcases hrest.first i with hsame | ⟨o, ho, hfind, hi⟩
        · rw [hsame]
          exact (hone.first i).imp_right fun ⟨o, ho, hi⟩ => ⟨o, List.mem_singleton.mp ho ▸ List.mem_cons_self, hi⟩
        · -- the queue of a later candidate is as it was before the first one
          have hother := hd.other hw (ne_of_mem_of_not_mem ho hnd.1)
          rw [hother.1, (scan_congr hother.2).1] at hfind
          rcases hone.first i with hsame | ⟨c', hc', hfind', -⟩
          · rw [hsame] at hi
            exact Or.inr ⟨o, List.mem_cons_of_mem c ho, hfind, hi⟩
          · rw [List.mem_singleton.mp hc'] at hfind'
            have heq := hw.apart o c i (List.mem_of_find?_eq_some hfind) (List.mem_of_find?_eq_some hfind')
            exact absurd (heq ▸ ho) hnd.1
      · rcases hone.quiet with ⟨i, hl, hd⟩ | hq
        · refine Or.inl ⟨i, hl, Bool.eq_false_iff.mpr fun hl' => ?_⟩
          rw [hrest.wakes.isLive hl'] at hd
          cases hd
        · refine hrest.quiet.imp (fun ⟨i, hl, hd⟩ => ⟨i, hone.wakes.isLive hl, hd⟩) fun hq' => ?_
          exact hq'.trans hq

theorem rank_nodup {streak : BitVec 64} {cs : List (Nat × Nat)} (h : (cs.map Prod.fst).Nodup) :
    (rank streak cs).Nodup := by
  rw [rank, ((List.perm_insertionSort _ _).map Prod.fst).nodup_iff]
  split
  · exact h.sublist (List.filter_sublist.map Prod.fst)
  · exact h

/-- The ban never removes the only candidate. -/
theorem rank_ne_nil {streak : BitVec 64} {cs : List (Nat × Nat)} (hnd : (cs.map Prod.fst).Nodup) (h : cs ≠ []) :
    rank streak cs ≠ [] := by
  rw [rank, Ne, List.map_eq_nil_iff, ← List.length_eq_zero_iff, List.length_insertionSort, List.length_eq_zero_iff]
  split
  next hb =>
    intro hnil
    simp only [banned, Bool.and_eq_true, decide_eq_true_eq] at hb
    have hall : ∀ o ∈ cs.map Prod.fst, o = lastWinner streak := by
      intro o ho
      obtain ⟨c, hc, rfl⟩ := List.mem_map.mp ho
      by_contra hne
      exact List.not_mem_nil (hnil ▸ List.mem_filter.mpr ⟨hc, by simpa using hne⟩)
    rw [List.eq_replicate_of_mem hall, List.nodup_replicate, List.length_map] at hnd
    omega
  next => exact h

theorem buddyWake_serves (hw : w.Counted) (f : Nat) :
    Served f w 0 (w.scoreOrders f) (w.buddyWake f, w.wakePops f) :=
  foldl_serves _ (fun _ hc => scoreOrders_le hc) (rank_nodup (w.candidates_nodup f)) hw 0

/-- A wake that could reach a live waiter wakes one, or spends all its pops. -/
theorem buddyWake_progress (hw : w.Counted) (hh : w.Headed) (ho : o ≤ f) (hn : o < w.numOrders)
    (hlive : w.hasLive o = true) :
    (∃ i, w.isLive i = true ∧ (w.buddyWake f).isLive i = false) ∨ w.wakePops f = maxPopsPerWake := by
  have hserved := buddyWake_serves hw f
  have hcandidate : o ∈ (w.candidates f).map Prod.fst := by
    rw [candidates_fst, List.mem_filter, List.mem_range, candidate_isSome_iff hw hh]
    exact ⟨by omega, hlive⟩
  have hne : w.scoreOrders f ≠ [] := by
    refine rank_ne_nil (w.candidates_nodup f) fun hnil => ?_
    rw [hnil] at hcandidate
    cases hcandidate
  obtain ⟨c, cs, hcs⟩ := List.exists_cons_of_ne_nil hne
  have hmem : c ∈ w.scoreOrders f := hcs ▸ List.mem_cons_self
  have hrest : ∀ d ∈ cs, d ≤ f := fun d hd => scoreOrders_le (hcs ▸ List.mem_cons_of_mem c hd)
  have hnd : (c :: cs).Nodup := hcs ▸ rank_nodup (w.candidates_nodup f)
  have hd := deliver_delivered f w 0 c
  have hafter := foldl_serves cs hrest (List.nodup_cons.mp hnd).2 (hd.counted (scoreOrders_le hmem) hw)
    (deliver f (w, 0) c).2
  have hfold : cs.foldl (deliver f) (deliver f (w, 0) c) = (w.buddyWake f, w.wakePops f) := by
    rw [buddyWake, wakePops, hcs]
    rfl
  rw [Prod.mk.eta, hfold] at hafter
  rcases hd.progress ((candidate_isSome_iff hw hh).mp (mem_scoreOrders hmem).2) (by decide) with ⟨i, hi, hdead⟩ | hfull
  · refine Or.inl ⟨i, hi, Bool.eq_false_iff.mpr fun hl => ?_⟩
    rw [hafter.wakes.isLive hl] at hdead
    cases hdead
  · exact Or.inr ((hserved.pops_le (Nat.zero_le _)).antisymm (hfull.trans hafter.pops_ge))

/-- Live waiters are counted and can be seen, now and after the ones before
them have been woken. -/
structure Orderly (w : NotifyWaiters) : Prop where
  counted : w.Counted
  headed : w.Headed
  dated : w.Dated

/-- The calls that cancel no waiter. The clock gives no sentinel. -/
inductive Call
  | wake (freedOrder : Nat)
  | enroll (order now : Nat)
  | poll (r : BuddyRegistration)

def call (w : NotifyWaiters) : Call → Option NotifyWaiters
  | .wake freedOrder => some (w.buddyWake freedOrder)
  | .enroll order now => if now = noWaitersTimestamp then none else some (w.enroll order now).1
  | .poll r => some (w.poll r).2.1

def awaited (w : NotifyWaiters) (f : Nat) : Bool :=
  (List.range (f + 1)).any fun o => decide (o < w.numOrders) && w.hasLive o

def reaches (w : NotifyWaiters) (f : Nat) : Bool :=
  (List.range (f + 1)).any fun o => (w.queue o).any fun i => w.isLive i && !(w.buddyWake f).isLive i

/-- A wake for f that reaches no one, though someone waits. -/
def barren (f : Nat) (w : NotifyWaiters) : Call → Bool
  | .wake freedOrder => decide (freedOrder = f) && w.awaited f && !w.reaches f
  | _ => false

theorem Orderly.buddyWake (h : w.Orderly) (f : Nat) : (w.buddyWake f).Orderly where
  counted := (buddyWake_serves h.counted f).counted
  headed := buddyWake_headed h.dated h.headed f
  dated := (buddyWake_serves h.counted f).wakes.dated h.dated

theorem Orderly.enroll (h : w.Orderly) (order : Nat) {now : Nat} (hn : now ≠ noWaitersTimestamp) :
    (w.enroll order now).1.Orderly := by
  refine ⟨enroll_counted h.counted order now, enroll_headed h.counted h.headed order hn, fun o i hi hl => ?_⟩
  change (update w.entries w.created { timestamp := now } i).timestamp ≠ _
  rw [update_apply]
  split
  · exact hn
  next hne =>
    rw [enroll_isLive, if_neg hne] at hl
    rw [enroll_queue] at hi
    split at hi
    · rcases List.mem_append.mp hi with hi | hi
      · exact h.dated o i hi hl
      · exact absurd (List.mem_singleton.mp hi) hne
    · exact h.dated o i hi hl

theorem Orderly.dropRx (h : w.Orderly) (i : Nat) : (w.dropRx i).Orderly := by
  refine ⟨dropRx_counted h.counted i, dropRx_headed h.headed i, fun o j hj hl => ?_⟩
  rw [dropRx_isLive] at hl
  rw [dropRx_timestamp]
  exact h.dated o j hj hl

theorem poll_cases (w : NotifyWaiters) (r : BuddyRegistration) :
    (w.poll r).2.1 = w ∨ (w.poll r).2.1 = w.dropRx r.entry := by
  rw [poll]
  split
  · split
    · exact Or.inl rfl
    · exact Or.inr rfl
  · exact Or.inl rfl

theorem tombstones_dropRx (w : NotifyWaiters) (i o : Nat) : tombstones (w.dropRx i) o = tombstones w o := by
  rw [tombstones, dropRx_isLive]
  rfl

theorem awaited_iff : w.awaited f = true ↔ ∃ o ≤ f, o < w.numOrders ∧ w.hasLive o = true := by
  simp only [awaited, List.any_eq_true, List.mem_range, Nat.lt_succ_iff, Bool.and_eq_true, decide_eq_true_eq]

theorem reaches_of_woken (hw : w.Counted) {i : Nat} (hl : w.isLive i = true)
    (hd : (w.buddyWake f).isLive i = false) : w.reaches f = true := by
  rcases (buddyWake_serves hw f).first i with hsame | ⟨o, ho, hfind, -⟩
  · rw [isLive, hsame] at hd
    exact absurd hl (Bool.eq_false_iff.mp hd)
  · simp only [reaches, List.any_eq_true, List.mem_range, Nat.lt_succ_iff, Bool.and_eq_true, Bool.not_eq_true']
    exact ⟨o, scoreOrders_le ho, i, List.mem_of_find?_eq_some hfind, hl, hd⟩

/-- A wake for a waiting order that reaches no one takes as many dead entries
as it may pop. -/
theorem buddyWake_reaches_or (h : w.Orderly) (hf : w.awaited f = true) : w.reaches f = true ∨
    (w.buddyWake f).tombstonesUpTo f + maxPopsPerWake = w.tombstonesUpTo f := by
  obtain ⟨o, ho, hn, hlive⟩ := awaited_iff.mp hf
  rcases (buddyWake_serves h.counted f).quiet with ⟨i, hl, hd⟩ | hquiet
  · exact Or.inl (reaches_of_woken h.counted hl hd)
  · rcases buddyWake_progress h.counted h.headed ho hn hlive with ⟨i, hl, hd⟩ | hpops
    · exact Or.inl (reaches_of_woken h.counted hl hd)
    · rw [← hpops]
      exact Or.inr hquiet

/-- Every barren wake is paid for with dead entries, and no call brings new
ones. -/
theorem call_pays (h : w.Orderly) {c : Call} (hc : call w c = some w') :
    w'.Orderly ∧ (barren f w c).toNat + w'.tombstonesUpTo f / maxPopsPerWake ≤
      w.tombstonesUpTo f / maxPopsPerWake + 0 := by
  have hpos : 0 < maxPopsPerWake := by decide
  cases c with
  | wake g =>
      obtain rfl := Option.some.inj hc
      have hle : (w.buddyWake g).tombstonesUpTo f ≤ w.tombstonesUpTo f :=
        Finset.sum_le_sum fun o _ => (buddyWake_serves h.counted g).dead_le o
      refine ⟨h.buddyWake g, ?_⟩
      by_cases hb : barren f w (.wake g) = true
      · simp only [barren, Bool.and_eq_true, decide_eq_true_eq, Bool.not_eq_true'] at hb
        obtain ⟨⟨rfl, hawaited⟩, hnone⟩ := hb
        rcases buddyWake_reaches_or h hawaited with hsome | hdead
        · rw [hnone] at hsome
          cases hsome
        · rw [← hdead, Nat.add_div_right _ hpos]
          have := Bool.toNat_le (barren g w (.wake g))
          omega
      · rw [Bool.not_eq_true] at hb
        rw [hb]
        have := Nat.div_le_div_right (c := maxPopsPerWake) hle
        simp only [Bool.toNat_false]
        omega
  | enroll order now =>
      simp only [call] at hc
      split at hc
      · cases hc
      next hn =>
        obtain rfl := Option.some.inj hc
        have hsame : (w.enroll order now).1.tombstonesUpTo f = w.tombstonesUpTo f :=
          Finset.sum_congr rfl fun o _ => tombstones_enroll h.counted order now o
        refine ⟨h.enroll order hn, ?_⟩
        rw [hsame]
        exact (Nat.zero_add _).le
  | poll r =>
      obtain rfl := Option.some.inj hc
      rcases poll_cases w r with hp | hp
      · rw [hp]
        exact ⟨h, (Nat.zero_add _).le⟩
      · have hsame : (w.dropRx r.entry).tombstonesUpTo f = w.tombstonesUpTo f :=
          Finset.sum_congr rfl fun o _ => tombstones_dropRx w r.entry o
        rw [hp, hsame]
        exact ⟨h.dropRx r.entry, (Nat.zero_add _).le⟩

/-- One wake: at most one waiter of each order, the first live one, no live
entry lost, at most eight pops, and progress. Over a run, barren wakes are
bounded by the dead entries that were there. -/
theorem buddy_wake_specified (w : NotifyWaiters) (f : Nat) (h : w.Orderly) :
    (w.buddyWake f).Orderly ∧
    (∀ i, (w.buddyWake f).entries i = w.entries i ∨ ∃ o ≤ f, (w.queue o).find? w.isLive = some i ∧
      (w.buddyWake f).entries i = (w.entries i).wake f) ∧
    (∀ o, ∀ i ∈ w.queue o, ∀ j ∈ w.queue o, (w.buddyWake f).entries i ≠ w.entries i →
      (w.buddyWake f).entries j ≠ w.entries j → i = j) ∧
    (∀ o, ∀ i ∈ w.queue o, i ∉ (w.buddyWake f).queue o → w.isLive i = true →
      (w.buddyWake f).entries i = (w.entries i).wake f) ∧
    (∀ o, f < o → (w.buddyWake f).buddyOrders o = w.buddyOrders o) ∧
    w.wakePops f ≤ maxPopsPerWake ∧ (w.buddyWake f).queuedUpTo f + w.wakePops f = w.queuedUpTo f ∧
    (w.awaited f = true → w.reaches f = true ∨
      (w.buddyWake f).tombstonesUpTo f + maxPopsPerWake = w.tombstonesUpTo f) ∧
    ∀ calls w', run call w calls = some w' → tally call (barren f) w calls ≤ w.tombstonesUpTo f / maxPopsPerWake := by
  have hserved := buddyWake_serves h.counted f
  have hfirst (i : Nat) (hi : (w.buddyWake f).entries i ≠ w.entries i) {o : Nat} (ho : i ∈ w.queue o) :
      (w.queue o).find? w.isLive = some i := by
    obtain ⟨o', -, hfind, -⟩ := (hserved.first i).resolve_left hi
    rwa [h.counted.apart o o' i ho (List.mem_of_find?_eq_some hfind)]
  refine ⟨h.buddyWake f, fun i => ?_, fun o i hi j hj hni hnj => ?_, fun o i hi hgone hl => ?_, hserved.wakes.above,
    hserved.pops_le (Nat.zero_le _), hserved.queued, buddyWake_reaches_or h, fun calls w' hr => ?_⟩
  · exact (hserved.first i).imp_right fun ⟨o, ho, hi⟩ => ⟨o, scoreOrders_le ho, hi⟩
  · exact Option.some.inj ((hfirst i hni hi).symm.trans (hfirst j hnj hj))
  · rcases hserved.first i with hsame | ⟨-, -, -, hwoken⟩
    · refine absurd (hserved.wakes.kept o i hi ?_) hgone
      rw [isLive, hsame]
      exact hl
    · exact hwoken
  · have hpaid := tally_potential Orderly (fun w => w.tombstonesUpTo f / maxPopsPerWake) (barren f) (fun _ _ => false)
      hr (meets_true w calls) h fun s c s' hs _ hc => call_pays hs hc
    rw [tally_false] at hpaid
    exact (Nat.le_add_right _ _).trans hpaid

def pairOfWaiters (now : Nat) : NotifyWaiters := (((new 1).enroll 0 5).1.enroll 0 now).1

theorem new_orderly (n : Nat) : (new n).Orderly where
  counted := (new_filed n).counted
  headed _ hl := by cases hl
  dated _ _ hi := by cases hi

theorem buddy_wake_specified_pair :
    (pairOfWaiters 7).Orderly ∧ (pairOfWaiters 7).awaited 0 = true ∧ (pairOfWaiters 7).reaches 0 = true ∧
      ((pairOfWaiters 7).buddyWake 0).Orderly ∧ (pairOfWaiters 7).wakePops 0 ≤ maxPopsPerWake := by
  have horderly : (pairOfWaiters 7).Orderly := ((new_orderly 1).enroll 0 (by decide)).enroll 0 (by decide)
  obtain ⟨hafter, -, -, -, -, hpops, -⟩ := buddy_wake_specified (pairOfWaiters 7) 0 horderly
  exact ⟨horderly, by decide +kernel, by decide +kernel, hafter, hpops⟩

/-- A waiter whose timestamp is the sentinel is hidden by the wake that makes
it the head of its queue. -/
theorem sentinel_waiter_hidden :
    (pairOfWaiters noWaitersTimestamp).Counted ∧ (pairOfWaiters noWaitersTimestamp).Headed ∧
      ((pairOfWaiters noWaitersTimestamp).buddyWake 0).hasLive 0 = true ∧
      ¬((pairOfWaiters noWaitersTimestamp).buddyWake 0).Headed := by
  have hcounted := enroll_counted (enroll_counted (new_filed 1).counted 0 5) 0 noWaitersTimestamp
  have hlive : ((pairOfWaiters noWaitersTimestamp).buddyWake 0).hasLive 0 = true := by decide +kernel
  refine ⟨hcounted, fun o hl => ?_, hlive, fun hh => hh 0 hlive (by decide +kernel)⟩
  by_cases ho : o = 0
  · subst ho
    decide +kernel
  · have hempty : (pairOfWaiters noWaitersTimestamp).queue o = [] := by
      rw [pairOfWaiters, enroll_queue, if_neg (by omega), enroll_queue, if_neg (by omega)]
      rfl
    rw [hasLive, hempty] at hl
    cases hl

end ArenaAlligator.NotifyWaiters
