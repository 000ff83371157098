import ArenaAlligator.AsyncFixedThreads
import ArenaAlligator.HandoffRules
import Mathlib.Algebra.Order.BigOperators.Group.Finset

namespace ArenaAlligator.AsyncFixedThreads

open Function AtomicBitmap BitmapRefinement Runs HandoffRules
open FixedThreads (Owning)

def allocating : FixedThreads.Pc → Prop
  | .addCursor | .loadWord _ _ | .claimBit _ _ _ | .recordFailure | .zeroSlot _ | .addAllocationsOk _
  | .addBytesLive _ => True
  | .idle | .handOut _ | .scrub _ | .free _ | .addFrees | .subBytesLive => False

def Pc.Agrees : Pc → Future → Prop
  | sync _, f | wakeLoad, f | wakeNotify, f | enable, f => f = .init
  | addCount r, f => r = ⟨false, false⟩ ∧ f ≠ .init
  | trying r p, f => r = ⟨true, false⟩ ∧ f ≠ .init ∧ allocating p
  | revoke r _, f | awaiting r, f | drop .subCount r _, f => r = ⟨true, false⟩ ∧ f ≠ .init
  | polled r, f => r = ⟨true, false⟩ ∧ f = .done
  | drop .loadCount _ _, f | drop .notifyOne _ _, f => f = .done
  | drop .future _ _, f => f ≠ .init

def Pc.counted : Pc → Bool
  | trying r _ | revoke r _ | awaiting r | polled r | drop .subCount r _ => r.registered
  | sync _ | wakeLoad | wakeNotify | enable | addCount _ | drop .loadCount _ _ | drop .notifyOne _ _
  | drop .future _ _ => false

theorem Pc.Agrees.notified {p : Pc} (h : p.Agrees .waiting) : p.Agrees .notified := by
  cases p with
  | sync | wakeLoad | wakeNotify | enable => cases h
  | addCount r | revoke r | awaiting r => exact ⟨h.1, by simp⟩
  | trying r p => exact ⟨h.1, by simp, h.2.2⟩
  | polled r => cases h.2
  | drop d r k =>
      cases d with
      | subCount => exact ⟨h.1, by simp⟩
      | loadCount | notifyOne => cases h
      | future => exact fun he => by cases he

variable {τ : Type} [DecidableEq τ] [Fintype τ]

structure Consistent (s : State τ) : Prop where
  proper : s.slot.notify.Proper
  agrees : ∀ t, (s.pc t).Agrees (s.slot.notify.future t)
  count : s.slot.count = ∑ t, (s.pc t).counted.toNat

variable {s s' : State τ} {t : τ} {p : Pc} {a : ArenaInner} {live : List Nat} {slot : FixedOrderSlot τ}

theorem Consistent.change (h : Consistent s) (hproper : slot.notify.Proper)
    (hother : ∀ u, u ≠ t → slot.notify.future u = s.slot.notify.future u ∨
      s.slot.notify.future u = .waiting ∧ slot.notify.future u = .notified)
    (hp : p.Agrees (slot.notify.future t))
    (hcount : slot.count + (s.pc t).counted.toNat = s.slot.count + p.counted.toNat) :
    Consistent ⟨a, live, slot, update s.pc t p⟩ := by
  constructor
  · exact hproper
  · intro u
    by_cases hu : u = t
    · subst hu
      simpa only [update_self] using hp
    · simp only [update_of_ne hu]
      rcases hother u hu with hf | ⟨hw, hf⟩
      · rw [hf]
        exact h.agrees u
      · rw [hf]
        exact (hw ▸ h.agrees u).notified
  · have hsum := sum_update (fun q : Pc => q.counted.toNat) s.pc t p
    have hold := h.count
    simp only at hsum hold ⊢
    omega

theorem Consistent.goto (h : Consistent s) (hp : p.Agrees (s.slot.notify.future t))
    (hcount : p.counted = (s.pc t).counted) : Consistent ⟨a, live, s.slot, update s.pc t p⟩ :=
  h.change h.proper (fun _ _ => Or.inl rfl) hp (by rw [hcount])

omit [DecidableEq τ] in
theorem Consistent.count_pos (h : Consistent s) (ht : (s.pc t).counted = true) : 0 < s.slot.count := by
  rw [h.count]
  refine lt_of_lt_of_le ?_ (Finset.single_le_sum (fun _ _ => Nat.zero_le _) (Finset.mem_univ t))
  rw [ht]
  exact Nat.one_pos

theorem Consistent.uncount (h : Consistent s) (ht : (s.pc t).counted = true)
    (hp : p.Agrees (s.slot.notify.future t)) (hcount : p.counted = false) :
    Consistent ({ s with slot := s.slot.uncount ⟨true, false⟩ }.goto t p) := by
  have hpos := h.count_pos ht
  have hslot : s.slot.uncount ⟨true, false⟩ = ⟨s.slot.notify, s.slot.count - 1⟩ := by
    simp only [FixedOrderSlot.uncount, if_true, countSub, if_neg (Nat.ne_of_gt hpos)]
  have hsub : s.slot.count - 1 + (s.pc t).counted.toNat = s.slot.count + p.counted.toNat := by
    simp only [ht, hcount, Bool.toNat_true, Bool.toNat_false]
    omega
  rw [hslot]
  exact h.change h.proper (fun _ _ => Or.inl rfl) hp hsub

theorem agrees_tried {r : NotifyRegistration} {f : Future} (hr : r = ⟨true, false⟩) (hf : f ≠ .init)
    {q : FixedThreads.Pc} (hq : q = .idle ∨ (∃ slotIdx, q = .handOut slotIdx) ∨ allocating q) :
    (tried r q).Agrees f := by
  rcases hq with rfl | ⟨slotIdx, rfl⟩ | hq
  · exact ⟨hr, hf⟩
  · exact ⟨hr, hf⟩
  · cases q with
    | idle | handOut | scrub | free | addFrees | subBytesLive => cases hq
    | _ => exact ⟨hr, hf, hq⟩

theorem allocating_enter (a : ArenaInner) : allocating (enter a) := by
  unfold enter
  split <;> trivial

theorem allocating_advance (a : ArenaInner) {q : FixedThreads.Pc} (hq : allocating q) :
    (FixedThreads.advance a q).2 = .idle ∨ (∃ slotIdx, (FixedThreads.advance a q).2 = .handOut slotIdx) ∨
      allocating (FixedThreads.advance a q).2 := by
  have hresume (v : SlotThreads.Pc) (e : SlotThreads.Effect) : allocating (FixedThreads.resume v e) := by
    cases e <;> cases v <;> trivial
  cases q with
  | addCursor | loadWord | claimBit => exact Or.inr (Or.inr (hresume _ _))
  | recordFailure => exact Or.inl rfl
  | addBytesLive slotIdx => exact Or.inr (Or.inl ⟨slotIdx, rfl⟩)
  | zeroSlot | addAllocationsOk => exact Or.inr (Or.inr trivial)
  | idle | handOut | scrub | free | addFrees | subBytesLive => cases hq

theorem counted_tried (r : NotifyRegistration) (q : FixedThreads.Pc) : (tried r q).counted = r.registered := by
  cases q <;> rfl

omit [Fintype τ] in
theorem enable_ne_init (n : Notify τ) (t : τ) : (n.enable t).future t ≠ .init := by
  rcases n.enable_self t with ⟨hf, -⟩ | ⟨hf, -⟩ <;> rw [hf] <;> simp

theorem step_consistent {x : Action τ} (h : Consistent s) (hs : step s x = some s') : Consistent s' := by
  cases step_cases hs with
  | allocate t hp | release t slotIdx hp | allocateAsync t hp | handOut t slotIdx hp | wakeSkip t hp
  | wakeLoad t hp =>
      have hag := h.agrees t
      rw [hp] at hag
      exact h.goto hag (by rw [hp]; rfl)
  | sync t p hp hidle hret =>
      have hag := h.agrees t
      rw [hp] at hag
      have hgo (q : FixedThreads.Pc) : (goOn p q).Agrees (s.slot.notify.future t) ∧ (goOn p q).counted = false := by
        unfold goOn
        split <;> exact ⟨hag, rfl⟩
      exact h.goto (hgo _).1 ((hgo _).2.trans (by rw [hp]; rfl))
  | cancel t r hp =>
      have hag := h.agrees t
      rw [hp] at hag
      obtain ⟨rfl, hf⟩ := hag
      exact h.goto ⟨rfl, hf⟩ (by rw [hp]; rfl)
  | wakeNotify t hp =>
      have hag := h.agrees t
      rw [hp] at hag
      have hsame : s.slot.notify.notifyOne.future t = .init := by
        rcases Notify.notifyOne_future h.proper t with hf | ⟨hf, -⟩
        · exact hf.trans hag
        · rw [hag] at hf
          cases hf
      exact h.change (Notify.notifyOne_proper h.proper) (fun u _ => Notify.notifyOne_future h.proper u) hsame
        (by rw [hp]; rfl)
  | enable t hp =>
      exact h.change (Notify.enable_proper h.proper t) (fun u hu => Or.inl (Notify.enable_of_ne _ hu))
        ⟨rfl, enable_ne_init _ t⟩ (by rw [hp]; rfl)
  | addCount t r hp hr =>
      have hag := h.agrees t
      rw [hp] at hag
      obtain ⟨rfl, hf⟩ := hag
      exact h.change h.proper (fun _ _ => Or.inl rfl) ⟨rfl, hf, allocating_enter _⟩ (by rw [hp]; rfl)
  | addCountSkip t r hp hr =>
      have hag := h.agrees t
      rw [hp] at hag
      rw [hag.1] at hr
      cases hr
  | trying t r p hp =>
      have hag := h.agrees t
      rw [hp] at hag
      obtain ⟨hr, hf, hq⟩ := hag
      exact h.goto (agrees_tried hr hf (allocating_advance s.arena hq)) (by rw [counted_tried, hp]; rfl)
  | revoke t r slotIdx hp =>
      have hag := h.agrees t
      rw [hp] at hag
      obtain ⟨rfl, hf⟩ := hag
      exact h.uncount (by rw [hp]; rfl) hf rfl
  | pending t r hp hr =>
      have hag := h.agrees t
      rw [hp] at hag
      obtain ⟨hsame, -⟩ := Notify.poll_pending hag.2 hr
      rw [hsame]
      exact h.goto hag (by rw [hp])
  | ready t r hp hr =>
      have hag := h.agrees t
      rw [hp] at hag
      have hdone : (s.slot.notify.enable t).future t = .done := by simpa [Notify.poll] using hr
      exact h.change (Notify.enable_proper h.proper t) (fun u hu => Or.inl (Notify.enable_of_ne _ hu))
        ⟨hag.1, hdone⟩ (by rw [hp]; rfl)
  | polled t r hp =>
      have hag := h.agrees t
      rw [hp] at hag
      obtain ⟨rfl, hf⟩ := hag
      exact h.uncount (by rw [hp]; rfl) hf rfl
  | dropCount t r k hp =>
      have hag := h.agrees t
      rw [hp] at hag
      obtain ⟨rfl, hf⟩ := hag
      exact h.uncount (by rw [hp]; rfl) hf rfl
  | dropSkip t r k hp hcount =>
      have hag := h.agrees t
      rw [hp] at hag
      exact h.goto (fun hf => by rw [show _ = Future.done from hag] at hf; cases hf) (by rw [hp]; rfl)
  | dropLoad t r k hp hcount =>
      have hag := h.agrees t
      rw [hp] at hag
      exact h.goto hag (by rw [hp]; rfl)
  | dropNotify t r k hp =>
      have hag : s.slot.notify.future t = .done := by
        have hag := h.agrees t
        rwa [hp] at hag
      have hsame : s.slot.notify.notifyOne.future t ≠ .init := by
        rcases Notify.notifyOne_future h.proper t with hf | ⟨-, hf⟩ <;> rw [hf]
        · simp [hag]
        · simp
      exact h.change (Notify.notifyOne_proper h.proper) (fun u _ => Notify.notifyOne_future h.proper u) hsame
        (by rw [hp]; rfl)
  | dropFuture t r k hp =>
      have hland : k.land.Agrees .init ∧ k.land.counted = false := by
        cases k <;> exact ⟨rfl, rfl⟩
      refine h.change (Notify.drop_proper h.proper t) (fun u hu => drop_future_of_ne h.proper hu) ?_ ?_
      · change k.land.Agrees ((s.slot.notify.drop t).future t)
        rw [drop_future_self h.proper]
        exact hland.1
      · rw [hp, hland.2]
        rfl

/-- The words that a call of try_alloc has found empty and left behind. A call
that is about to fail has left all of them behind. -/
def searched (b : AtomicBitmap) : FixedThreads.Pc → List Nat
  | .loadWord start i | .claimBit start i _ => (List.range i).map fun j => (start + j) &&& b.wordMask
  | .recordFailure => List.range b.scanWords
  | .idle | .addCursor | .zeroSlot _ | .addAllocationsOk _ | .addBytesLive _ | .handOut _ | .scrub _ | .free _
  | .addFrees | .subBytesLive => []

def Pc.words (b : AtomicBitmap) : Pc → List Nat
  | trying _ p => searched b p
  | awaiting _ => List.range b.scanWords
  | sync _ | wakeLoad | wakeNotify | enable | addCount _ | revoke _ _ | polled _ | drop _ _ _ => []

def slotsIn (b : AtomicBitmap) (words : List Nat) : Finset Nat :=
  (Finset.range b.slotCount).filter fun slot => slot / bitsPerWord ∈ words

/-- The notification that a thread owes: a release between the bitmap and the
end of its wake, and a task between the poll that was ready and the end of the
drop. -/
def Pc.owes : Pc → Nat
  | sync .addFrees | sync .subBytesLive | wakeLoad | wakeNotify | polled _ | drop .loadCount _ _
  | drop .notifyOne _ _ => 1
  | _ => 0

def view (s : State τ) : Board τ Nat where
  free := freeSlots s.arena.bitmap
  notify := s.slot.notify
  missed t := slotsIn s.arena.bitmap ((s.pc t).words s.arena.bitmap)
  owed t := (s.pc t).owes

variable {b c : AtomicBitmap}

theorem words_congr (h : c.slotCount = b.slotCount) (p : Pc) : p.words c = p.words b := by
  have hscan : c.scanWords = b.scanWords := by rw [c.scanWords_eq, b.scanWords_eq, h]
  have hmask : c.wordMask = b.wordMask := by rw [c.wordMask_eq, b.wordMask_eq, hscan]
  cases p with
  | trying r q => cases q <;> simp only [Pc.words, searched, hscan, hmask]
  | awaiting r => simp only [Pc.words, hscan]
  | sync | wakeLoad | wakeNotify | enable | addCount | revoke | polled | drop => rfl

theorem slotsIn_congr (h : c.slotCount = b.slotCount) (p : Pc) : slotsIn c (p.words c) = slotsIn b (p.words b) := by
  rw [slotsIn, slotsIn, h, words_congr h]

omit [Fintype τ] in
theorem view_goto (h : a.bitmap.slotCount = s.arena.bitmap.slotCount) :
    view ⟨a, live, slot, update s.pc t p⟩ = {
      free := freeSlots a.bitmap
      notify := slot.notify
      missed := update (view s).missed t (slotsIn s.arena.bitmap (p.words s.arena.bitmap))
      owed := update (view s).owed t p.owes } := by
  simp only [view, Board.mk.injEq, true_and]
  constructor
  · funext u
    rw [slotsIn_congr h]
    exact apply_update (fun _ q => slotsIn s.arena.bitmap (q.words s.arena.bitmap)) s.pc t p u
  · funext u
    exact apply_update (fun _ => Pc.owes) s.pc t p u

theorem slotsIn_nil (b : AtomicBitmap) : slotsIn b [] = ∅ := by
  simp [slotsIn]

omit [Fintype τ] in
theorem view_plain (h : a.bitmap.slotCount = s.arena.bitmap.slotCount) (hold : (s.pc t).words s.arena.bitmap = [])
    (hnew : p.words s.arena.bitmap = []) :
    view ⟨a, live, slot, update s.pc t p⟩ = { view s with
      free := freeSlots a.bitmap
      notify := slot.notify
      owed := update (view s).owed t p.owes } := by
  have hmissed : update (view s).missed t (slotsIn s.arena.bitmap (p.words s.arena.bitmap)) = (view s).missed := by
    rw [hnew, ← hold]
    exact update_eq_self t _
  rw [view_goto h, hmissed]

omit [Fintype τ] in
theorem look_move (hb : s.arena.bitmap.PaddingClear) (hcount : a.bitmap.slotCount = s.arena.bitmap.slotCount)
    (hfree : freeSlots a.bitmap ⊆ freeSlots s.arena.bitmap) (hnotify : slot.notify = s.slot.notify)
    (howes : (s.pc t).owes = p.owes)
    (hwords : ∀ x < s.arena.bitmap.slotCount, x / bitsPerWord ∈ p.words s.arena.bitmap →
      x / bitsPerWord ∈ (s.pc t).words s.arena.bitmap ∨ s.arena.bitmap.bit x = false) :
    Move (view s) 0 (view ⟨a, live, slot, update s.pc t p⟩) := by
  have hlook : Move (view s) 0 _ := .look t (freeSlots a.bitmap) (slotsIn s.arena.bitmap (p.words s.arena.bitmap)) hfree
    fun x hx => by
      obtain ⟨hlt, hx⟩ := Finset.mem_filter.mp hx
      rcases hwords x (Finset.mem_range.mp hlt) hx with hseen | hbit
      · exact Or.inl (Finset.mem_filter.mpr ⟨hlt, hseen⟩)
      · refine Or.inr fun hmem => ?_
        rw [show (view s).free = freeSlots s.arena.bitmap from rfl, mem_freeSlots hb, hbit] at hmem
        cases hmem
  have howed : update (view s).owed t p.owes = (view s).owed := by
    rw [← howes]
    exact update_eq_self t _
  rw [view_goto hcount, hnotify, howed]
  exact hlook

omit [Fintype τ] in
theorem quiet_move (hb : s.arena.bitmap.PaddingClear) (hbitmap : a.bitmap = s.arena.bitmap)
    (hnotify : slot.notify = s.slot.notify) (howes : (s.pc t).owes = p.owes) (hwords : p.words s.arena.bitmap = []) :
    Move (view s) 0 (view ⟨a, live, slot, update s.pc t p⟩) :=
  look_move hb (by rw [hbitmap]) (by rw [hbitmap]) hnotify howes fun x _ hx => by rw [hwords] at hx; cases hx

theorem searched_succ {first i x : Nat} (hzero : b.load ((first + i) &&& b.wordMask) = 0#64)
    {j : Nat} (hj : j ≤ i) (hx : (first + j) &&& b.wordMask = x / bitsPerWord) :
    x / bitsPerWord ∈ searched b (.loadWord first i) ∨ b.bit x = false := by
  rcases Nat.lt_or_eq_of_le hj with hlt | rfl
  · exact Or.inl (List.mem_map.mpr ⟨j, List.mem_range.mpr hlt, hx⟩)
  · rw [hx] at hzero
    rw [bit, hzero]
    exact Or.inr BitVec.getLsbD_zero

theorem words_tried (a : ArenaInner) (r : NotifyRegistration) {q : FixedThreads.Pc} (hq : allocating q) {x : Nat}
    (hlt : x < a.bitmap.slotCount)
    (hx : x / bitsPerWord ∈ (tried r (FixedThreads.advance a q).2).words a.bitmap) :
    x / bitsPerWord ∈ searched a.bitmap q ∨ a.bitmap.bit x = false := by
  cases q with
  | addCursor =>
      simp only [FixedThreads.advance, FixedThreads.scan, SlotThreads.advance, SlotThreads.visit,
        if_pos (scanWords_pos a.bitmap)] at hx
      cases hx
  | loadWord first i =>
      simp only [FixedThreads.advance, FixedThreads.scan, SlotThreads.advance] at hx
      split at hx
      next hzero =>
        simp only [SlotThreads.visit] at hx
        split at hx
        next hi =>
          obtain ⟨j, hj, hword⟩ := List.mem_map.mp hx
          exact searched_succ hzero (Nat.le_of_lt_succ (List.mem_range.mp hj)) hword
        next hi =>
          obtain ⟨j, hj, hword⟩ := a.bitmap.exists_scan_index first (a.bitmap.div_lt_scanWords hlt)
          exact searched_succ hzero (by omega) hword
      next => exact Or.inl hx
  | claimBit first i bit =>
      simp only [FixedThreads.advance, FixedThreads.scan, SlotThreads.advance] at hx
      split at hx
      next => cases hx
      next => exact Or.inl hx
  | recordFailure => exact Or.inl hx
  | zeroSlot | addAllocationsOk | addBytesLive => cases hx
  | idle | handOut | scrub | free | addFrees | subBytesLive => cases hq

def notifies (s : State τ) : Action τ → Bool
  | .tick t =>
      match s.pc t with
      | .wakeNotify | .drop .notifyOne _ _ => true
      | .drop .future _ _ => s.slot.notify.future t = .notified
      | _ => false
  | .allocate _ | .release _ _ | .allocateAsync _ | .cancel _ => false

theorem advance_freeSlots {q : FixedThreads.Pc} (hout : FixedThreads.Outcome a q (FixedThreads.advance a q))
    (hq : ∀ slotIdx, q ≠ .free slotIdx) :
    freeSlots (FixedThreads.advance a q).1.bitmap ⊆ freeSlots a.bitmap := by
  have hscan (hheld : q.held = 0) : freeSlots (FixedThreads.advance a q).1.bitmap ⊆ freeSlots a.bitmap := by
    have hslots := hout.slots
    rw [hheld, add_zero] at hslots
    rw [← Finset.val_le_iff, ← hslots]
    exact Multiset.le_add_right _ _
  cases q with
  | addCursor | loadWord | claimBit => exact hscan rfl
  | zeroSlot slotIdx =>
      change freeSlots (a.zeroOnAllocate slotIdx).bitmap ⊆ _
      rw [a.zeroOnAllocate_bitmap slotIdx]
  | scrub slotIdx =>
      change freeSlots (a.scrubOnRelease slotIdx).bitmap ⊆ _
      rw [a.scrubOnRelease_bitmap slotIdx]
  | free slotIdx => exact absurd rfl (hq slotIdx)
  | idle | recordFailure | addAllocationsOk | addBytesLive | handOut | addFrees | subBytesLive => exact subset_rfl

theorem owes_goOn (a : ArenaInner) {q : FixedThreads.Pc} (hq : ∀ slotIdx, q ≠ .free slotIdx) :
    (Pc.sync q).owes = (goOn q (FixedThreads.advance a q).2).owes := by
  have hresume (v : SlotThreads.Pc) (e : SlotThreads.Effect) : (Pc.sync (FixedThreads.resume v e)).owes = 0 := by
    cases e <;> cases v <;> rfl
  cases q with
  | addCursor | loadWord | claimBit => exact (hresume _ _).symm
  | free slotIdx => exact absurd rfl (hq slotIdx)
  | idle | recordFailure | zeroSlot | addAllocationsOk | addBytesLive | handOut | scrub | addFrees | subBytesLive => rfl

theorem words_goOn (b : AtomicBitmap) (p q : FixedThreads.Pc) : (goOn p q).words b = [] := by
  unfold goOn
  split <;> rfl

theorem owes_tried (r : NotifyRegistration) (q : FixedThreads.Pc) : (tried r q).owes = 0 := by
  cases q <;> rfl

omit [DecidableEq τ] in
/-- While nobody is counted, no waiting task has looked at the bitmap. -/
theorem Consistent.missed_eq (h : Consistent s) (hcount : s.slot.count = 0) (u : τ) : (view s).missed u = ∅ := by
  have hnone : (s.pc u).counted = false := by
    by_contra hu
    have hpos := h.count_pos (Bool.not_eq_false _ ▸ hu)
    omega
  have hag := h.agrees u
  have hwords : (s.pc u).words s.arena.bitmap = [] := by
    cases hp : s.pc u with
    | trying r q | awaiting r =>
        rw [hp] at hag hnone
        rw [Pc.counted, hag.1] at hnone
        cases hnone
    | sync | wakeLoad | wakeNotify | enable | addCount | revoke | polled | drop => rfl
  change slotsIn _ ((s.pc u).words _) = ∅
  rw [hwords, slotsIn_nil]

variable {n cap : Nat}

theorem free_move (ho : Owning n cap (coarse s)) {slotIdx : Nat} (hp : s.pc t = .sync (.free slotIdx))
    (ha : a.bitmap = s.arena.bitmap.free slotIdx) :
    Move (view s) 0 (view ⟨a, live, s.slot, update s.pc t (.sync .addFrees)⟩) := by
  have hheld : slotIdx ∈ ((coarse s).pc t).held := by
    change slotIdx ∈ (s.pc t).coarse.held
    rw [hp]
    exact Multiset.mem_singleton_self slotIdx
  have hlt : slotIdx < s.arena.bitmap.slotCount := ho.sound.slotCount.symm ▸ (ho.held hheld).1
  have hmove : Move (view s) 0 _ := .release t slotIdx
  have howed : (view s).owed t + 1 = 1 := congrArg (· + 1) (congrArg Pc.owes hp)
  rw [howed] at hmove
  have hshape := free_shape s.arena.bitmap slotIdx
  rw [view_plain (by rw [ha]; exact hshape.slotCount) (by rw [hp]; rfl) rfl, ha,
    freeSlots_insert hshape hlt (free_bit _ hlt)]
  exact hmove

theorem step_move {x : Action τ} (ho : Owning n cap (coarse s)) (h : Consistent s) (hs : step s x = some s') :
    Move (view s) (notifies s x).toNat (view s') := by
  have hb : s.arena.bitmap.PaddingClear := ho.sound.paddingClear
  have hout {t : τ} {q : FixedThreads.Pc} (hq : (s.pc t).coarse = q) :
      FixedThreads.Outcome s.arena q (FixedThreads.advance s.arena q) := by
    apply FixedThreads.advance_outcome ho.sound
    intro slotIdx hheld
    rw [← hq] at hheld
    exact ho.held (t := t) hheld
  have hsize {q : FixedThreads.Pc} (hout : FixedThreads.Outcome s.arena q (FixedThreads.advance s.arena q)) :
      (FixedThreads.advance s.arena q).1.bitmap.slotCount = s.arena.bitmap.slotCount :=
    (hout.sound.slotCount.trans hout.slotCount).trans ho.sound.slotCount.symm
  have hmissed {t : τ} (hwords : (s.pc t).words s.arena.bitmap = []) : (view s).missed t = ∅ := by
    change slotsIn _ ((s.pc t).words _) = ∅
    rw [hwords, slotsIn_nil]
  cases step_cases hs with
  | allocate t hp =>
      refine quiet_move hb rfl rfl ?_ rfl
      rw [hp]
      unfold enter
      split <;> rfl
  | release t slotIdx hp | allocateAsync t hp => exact quiet_move hb rfl rfl (by rw [hp]; rfl) rfl
  | cancel t r hp =>
      have hag := h.agrees t
      rw [hp] at hag
      rw [hag.1]
      exact quiet_move hb rfl rfl (by rw [hp]; rfl) rfl
  | handOut t slotIdx hp =>
      simp only [notifies, hp]
      exact quiet_move hb rfl rfl (by rw [show _ = s.pc t from rfl, hp]; rfl) rfl
  | sync t p hp hidle hret =>
      have hq : (s.pc t).coarse = p := by rw [hp]; rfl
      simp only [notifies, hp]
      by_cases hfree : ∃ slotIdx, p = .free slotIdx
      · obtain ⟨slotIdx, rfl⟩ := hfree
        exact free_move ho hp rfl
      · rw [not_exists] at hfree
        refine look_move hb (hsize (hout hq)) (advance_freeSlots (hout hq) hfree) rfl ?_ fun x _ hx => ?_
        · rw [hp]
          exact owes_goOn s.arena hfree
        · rw [words_goOn] at hx
          cases hx
  | wakeSkip t hp hcount =>
      -- nobody is counted, so no waiting task has missed the slot and the debt may lapse
      have hmove : Move (view s) 0 _ := .lapse t 0 fun u _ => h.missed_eq hcount u
      simp only [notifies, hp]
      rw [State.goto, view_plain rfl (by rw [hp]; rfl) rfl]
      exact hmove
  | wakeLoad t hp hcount =>
      simp only [notifies, hp]
      exact quiet_move hb rfl rfl (by rw [hp]; rfl) rfl
  | wakeNotify t hp =>
      have hmove : Move (view s) 1 _ := .hand t 0 (congrArg Pc.owes hp)
      simp only [notifies, hp]
      rw [State.goto, State.setNotify, view_plain rfl (by rw [hp]; rfl) rfl]
      exact hmove
  | enable t hp =>
      have hag := h.agrees t
      rw [hp] at hag
      have hmove : Move (view s) 0 _ := .enable t hag (hmissed (by rw [hp]; rfl))
      have howed : update (view s).owed t 0 = (view s).owed := by
        rw [← show (view s).owed t = 0 from congrArg Pc.owes hp, update_eq_self]
      simp only [notifies, hp]
      rw [State.goto, State.setNotify, view_plain rfl (by rw [hp]; rfl) rfl]
      change Move (view s) 0 { view s with notify := s.slot.notify.enable t, owed := update (view s).owed t 0 }
      rw [howed]
      exact hmove
  | addCount t r hp hr | addCountSkip t r hp hr =>
      simp only [notifies, hp]
      refine look_move hb rfl subset_rfl rfl (by rw [show _ = s.pc t from rfl, hp]; rfl) fun x hlt hx => ?_
      simp only [Pc.words, enter] at hx
      split at hx
      · omega
      · cases hx
  | trying t r p hp =>
      have hag := h.agrees t
      rw [hp] at hag
      have hq : (s.pc t).coarse = p := by rw [hp]; rfl
      have hnotfree (slotIdx : Nat) : p ≠ .free slotIdx := by
        rintro rfl
        exact hag.2.2
      simp only [notifies, hp]
      refine look_move hb (hsize (hout hq)) (advance_freeSlots (hout hq) hnotfree) rfl ?_ fun x hlt hx => ?_
      · rw [hp, owes_tried]
        rfl
      · rw [hp]
        exact words_tried s.arena r hag.2.2 hlt hx
  | revoke t r slotIdx hp | polled t r hp =>
      simp only [notifies, hp]
      exact quiet_move hb rfl (FixedOrderSlot.uncount_notify _ _) (by rw [show _ = s.pc t from rfl, hp]; rfl) rfl
  | pending t r hp hr =>
      have hag := h.agrees t
      rw [hp] at hag
      simp only [notifies, hp]
      rw [(Notify.poll_pending hag.2 hr).1]
      have hstay : s.setNotify s.slot.notify = s := rfl
      rw [hstay, State.goto, ← hp, update_eq_self]
      exact .stay
  | ready t r hp hr =>
      have hag := h.agrees t
      rw [hp] at hag
      have hmove : Move (view s) 0 _ := .poll t (Notify.poll_ready hag.2 hr).1
      have howed : (view s).owed t + 1 = 1 := congrArg (· + 1) (congrArg Pc.owes hp)
      rw [howed] at hmove
      simp only [notifies, hp]
      rw [State.goto, State.setNotify, view_goto rfl]
      change Move (view s) 0 { view s with
        notify := s.slot.notify.enable t
        missed := update (view s).missed t (slotsIn s.arena.bitmap [])
        owed := update (view s).owed t 1 }
      rw [slotsIn_nil]
      exact hmove
  | dropCount t r k hp =>
      have hag := h.agrees t
      rw [hp] at hag
      simp only [notifies, hp]
      rw [hag.1]
      exact quiet_move hb rfl (FixedOrderSlot.uncount_notify _ _) (by rw [show _ = s.pc t from rfl, hp]; rfl) rfl
  | dropSkip t r k hp hcount =>
      have hmove : Move (view s) 0 _ := .lapse t 0 fun u _ => h.missed_eq hcount u
      simp only [notifies, hp]
      rw [State.goto, view_plain rfl (by rw [hp]; rfl) rfl]
      exact hmove
  | dropLoad t r k hp hcount =>
      simp only [notifies, hp]
      exact quiet_move hb rfl rfl (by rw [hp]; rfl) rfl
  | dropNotify t r k hp =>
      have hmove : Move (view s) 1 _ := .hand t 0 (congrArg Pc.owes hp)
      simp only [notifies, hp]
      rw [State.goto, State.setNotify, view_plain rfl (by rw [hp]; rfl) rfl]
      exact hmove
  | dropFuture t r k hp =>
      have hmove : Move (view s) _ _ := .drop t (hmissed (by rw [hp]; rfl))
      have hland : k.land.owes = 0 ∧ k.land.words s.arena.bitmap = [] := by cases k <;> exact ⟨rfl, rfl⟩
      have howed : update (view s).owed t k.land.owes = (view s).owed := by
        rw [hland.1, ← show (view s).owed t = 0 from congrArg Pc.owes hp, update_eq_self]
      simp only [notifies, hp]
      rw [State.goto, State.setNotify, view_plain rfl (by rw [show _ = s.pc t from rfl, hp]; rfl) hland.2]
      change Move (view s) _ { view s with
        notify := s.slot.notify.drop t
        owed := update (view s).owed t k.land.owes }
      rw [howed]
      exact hmove

structure Served (n cap : Nat) (s : State τ) : Prop where
  owning : Owning n cap (coarse s)
  consistent : Consistent s
  funded : (view s).Funded

theorem step_served {x : Action τ} (h : Served n cap s) (hs : step s x = some s') : Served n cap s' := by
  constructor
  · rcases step_coarse hs with hsame | ⟨y, hy⟩
    · rw [hsame]
      exact h.owning
    · exact FixedThreads.step_owning h.owning hy
  · exact step_consistent h.consistent hs
  · exact (step_move h.owning h.consistent hs).funded h.funded

omit [DecidableEq τ] in
theorem start_served (n cap : Nat) (autoSpill : Bool) (initPolicy : InitPolicy) (memory : Memory) :
    Served n cap (start (.build n cap autoSpill initPolicy memory) : State τ) := by
  constructor
  · exact FixedThreads.start_owning n cap autoSpill initPolicy memory
  · exact ⟨Notify.new_proper, fun _ => rfl, (Finset.sum_const_zero (s := Finset.univ)).symm⟩
  · exact ⟨Notify.new_proper, fun t ht => by cases ht⟩

theorem reachable_served {autoSpill : Bool} {initPolicy : InitPolicy} {memory : Memory}
    (h : Reachable step (start (.build n cap autoSpill initPolicy memory)) s) : Served n cap s :=
  h.invariant (Served n cap) (start_served n cap autoSpill initPolicy memory) fun _ _ _ hi hs => step_served hi hs

def Parked (s : State τ) (t : τ) : Prop := (∃ r, s.pc t = .awaiting r) ∧ s.slot.notify.future t = .waiting

/-- The notifications under way: debts of threads, and futures that were
notified and not polled since. -/
def tokens (s : State τ) : Nat := (∑ t, (s.pc t).owes) + unseen s.slot.notify

omit [DecidableEq τ] in
theorem Served.missed_parked (h : Served n cap s) (ht : Parked s t) : (view s).missed t = Finset.range n := by
  obtain ⟨⟨r, hr⟩, -⟩ := ht
  have hcount : s.arena.bitmap.slotCount = n := h.owning.sound.slotCount.trans h.owning.slotCount
  change slotsIn s.arena.bitmap ((s.pc t).words s.arena.bitmap) = _
  rw [hr]
  ext slotIdx
  simp only [slotsIn, Pc.words, Finset.mem_filter, Finset.mem_range, List.mem_range, hcount, and_iff_left_iff_imp]
  exact fun hlt => s.arena.bitmap.div_lt_scanWords (hcount.symm ▸ hlt)

omit [DecidableEq τ] in
theorem Served.free_le (h : Served n cap s) (ht : Parked s t) : (freeSlots s.arena.bitmap).card ≤ tokens s := by
  have hfunded := h.funded.funded t ht.2
  have hsub : freeSlots s.arena.bitmap ⊆ Finset.range n := by
    intro slotIdx hmem
    have hb : s.arena.bitmap.PaddingClear := h.owning.sound.paddingClear
    have hcount : s.arena.bitmap.slotCount = n := h.owning.sound.slotCount.trans h.owning.slotCount
    exact Finset.mem_range.mpr (hcount ▸ hb slotIdx ((mem_freeSlots hb).mp hmem))
  rw [h.missed_parked ht] at hfunded
  rwa [show (view s).free = freeSlots s.arena.bitmap from rfl, Finset.inter_eq_left.mpr hsub] at hfunded

/-- No notification is lost while a task is parked, and each one that is given
brings the task closer to the front of the list. -/
theorem tally_notifies {as : List (Action τ)} (hn : 0 < n) (h : Served n cap s) (hr : run step s as = some s')
    (hparked : Meets step (fun v _ => Parked v t) s as) (ht' : Parked s' t) :
    tokens s ≤ tokens s' ∧ tally step notifies s as + ahead s'.slot.notify t ≤ ahead s.slot.notify t := by
  induction as generalizing s with
  | nil =>
      cases hr
      simp [tally]
  | cons x as ih =>
      obtain ⟨v, hv, hr'⟩ := run_cons hr
      have hserved := step_served h hv
      have hnext : Parked v t := by
        cases as with
        | nil => cases hr'; exact ht'
        | cons y as => exact (hparked.2 v hv).1
      obtain ⟨htokens, htally⟩ := ih hserved hr' (hparked.2 v hv)
      have hmove := step_move h.owning h.consistent hv
      have hne : (view v).missed t ≠ ∅ := by
        rw [hserved.missed_parked hnext]
        exact (Finset.nonempty_range_iff.mpr (Nat.ne_of_gt hn)).ne_empty
      have hle := hmove.tokens_le h.consistent.proper hparked.1.2 hne
      have hahead := hmove.ahead_le h.consistent.proper hparked.1.2 hnext.2
      simp only [tally, hv, Option.elim_some]
      constructor
      · exact hle.trans htokens
      · change ahead v.slot.notify t + (notifies s x).toNat ≤ ahead s.slot.notify t at hahead
        omega

omit [DecidableEq τ] in
theorem tokens_of_resting (h : ∀ u, s.pc u = .sync .idle ∧ s.slot.notify.future u = .init ∨ Parked s u) :
    tokens s = 0 := by
  have howes (u : τ) : (s.pc u).owes = 0 := by
    rcases h u with ⟨hp, -⟩ | ⟨⟨r, hp⟩, -⟩ <;> rw [hp] <;> rfl
  have hunseen (u : τ) : (decide (s.slot.notify.future u = .notified)).toNat = 0 := by
    rcases h u with ⟨-, hf⟩ | ⟨-, hf⟩ <;> rw [hf] <;> rfl
  simp only [tokens, unseen, howes, hunseen, Finset.sum_const_zero, Nat.add_zero]

/-- While a task is parked, every free slot has a notification under way, so a
slot cannot stay free once all threads are idle or parked. In any run in which
the task stays parked no notification is lost, and the calls of notify_one are
at most as many as there were futures ahead of it in the list. -/
theorem notifications_reach_parked_tasks (n cap : Nat) (autoSpill : Bool) (initPolicy : InitPolicy) (memory : Memory)
    (hn : 0 < n) (s : State τ) (hs : Reachable step (start (.build n cap autoSpill initPolicy memory)) s) (t : τ)
    (ht : Parked s t) :
    (freeSlots s.arena.bitmap).card ≤ tokens s ∧
    ((∀ u, s.pc u = .sync .idle ∨ Parked s u) → ∀ slotIdx, s.arena.bitmap.isFree slotIdx = false) ∧
    ∀ as s', run step s as = some s' → Meets step (fun v _ => Parked v t) s as → Parked s' t →
      tokens s ≤ tokens s' ∧
        tally step notifies s as + s'.slot.notify.waiting.idxOf t ≤ s.slot.notify.waiting.idxOf t := by
  have h := reachable_served hs
  refine ⟨h.free_le ht, fun hrest slotIdx => ?_, fun as s' hr hparked ht' => tally_notifies hn h hr hparked ht'⟩
  have hzero : tokens s = 0 := by
    apply tokens_of_resting
    intro u
    refine (hrest u).imp_left fun hu => ⟨hu, ?_⟩
    have hag := h.consistent.agrees u
    rwa [hu] at hag
  have hle := h.free_le ht
  rw [hzero, Nat.le_zero, Finset.card_eq_zero] at hle
  have hb : s.arena.bitmap.PaddingClear := h.owning.sound.paddingClear
  rw [isFree_eq_bit, Bool.eq_false_iff]
  intro hbit
  have hmem := (mem_freeSlots hb).mpr hbit
  rw [hle] at hmem
  cases hmem

def oneSlot : State (Fin 2) := start (.build 1 64 false .uninit fun _ => 0)

/-- A task parks while a thread holds the only slot, and the thread has just
set the slot free. -/
def freedRun : List (Action (Fin 2)) :=
  [.allocate 0] ++ List.replicate 7 (.tick 0) ++ [.allocateAsync 1] ++ List.replicate 6 (.tick 1) ++
    [.release 0 0, .tick 0, .tick 0]

def freedState : State (Fin 2) := (run step oneSlot freedRun).getD oneSlot

theorem freedState_reached : run step oneSlot freedRun = some freedState :=
  run_eq_some_getD (by decide +kernel)

theorem notifications_reach_parked_tasks_freed :
    Parked freedState 1 ∧ freedState.arena.bitmap.isFree 0 = true ∧ tokens freedState = 1 ∧
      (freeSlots freedState.arena.bitmap).card ≤ tokens freedState := by
  have ht : Parked freedState 1 := ⟨⟨⟨true, false⟩, by decide +kernel⟩, by decide +kernel⟩
  have h := notifications_reach_parked_tasks 1 64 false .uninit (fun _ => 0) Nat.one_pos freedState
    ⟨freedRun, freedState_reached⟩ 1 ht
  exact ⟨ht, by decide +kernel, by decide +kernel, h.1⟩

end ArenaAlligator.AsyncFixedThreads
