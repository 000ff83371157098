import ArenaAlligator.BitmapRefinement
import ArenaAlligator.Runs

namespace ArenaAlligator.SlotThreads

open Function AtomicBitmap BitmapRefinement Runs

/-- Where a thread is inside try_alloc, try_claim_exact or free. Every value
but idle names the atomic operation that the thread performs next. The bit of
claimBit comes from a load that may be out of date. -/
inductive Pc
  | idle
  | addCursor
  | loadWord (start i : Nat)
  | claimBit (start i bit : Nat)
  | claimExact (slot : Nat)
  | free (slot : Nat)
deriving DecidableEq

inductive Effect
  | none
  | claim (slot : Nat)
  | release (slot : Nat)
deriving DecidableEq

def visit (b : AtomicBitmap) (start i : Nat) : Pc := if i < b.scanWords then .loadWord start i else .idle

/-- One atomic operation of one thread, and the control flow up to its next
one. -/
def advance (b : AtomicBitmap) : Pc → AtomicBitmap × Pc × Effect
  | .idle => (b, .idle, .none)
  | .addCursor =>
      let r := b.fetchAddCursor
      (r.2, visit b (r.1.toNat &&& b.wordMask) 0, .none)
  | .loadWord start i =>
      let bits := b.load ((start + i) &&& b.wordMask)
      if bits = 0#64 then (b, visit b start (i + 1), .none) else (b, .claimBit start i bits.ctz.toNat, .none)
  | .claimBit start i bit =>
      let r := b.claimBit ((start + i) &&& b.wordMask) bit
      match r.1 with
      | some slot => (r.2, .idle, .claim slot)
      | none => (r.2, .loadWord start i, .none)
  | .claimExact slot =>
      let r := b.tryClaimExact slot
      (r.2, .idle, if r.1 then .claim slot else .none)
  | .free slot => (b.free slot, .idle, .release slot)

/-- A bitmap and its threads. A claim is a successful try_alloc or
try_claim_exact whose slot has not been set free again; returned holds the
slots of all claims ever made. -/
structure State (τ : Type) where
  bitmap : AtomicBitmap
  pc : τ → Pc
  claims : List (τ × Nat)
  returned : List Nat

variable {τ : Type} [DecidableEq τ]

inductive Action (τ : Type)
  | tryAlloc (t : τ)
  | tryClaimExact (t : τ) (slot : Nat)
  | free (t : τ) (slot : Nat)
  | advance (t : τ)

namespace State

def goto (s : State τ) (t : τ) (p : Pc) : State τ := { s with pc := update s.pc t p }

def settle (s : State τ) (t : τ) : Effect → State τ
  | .none => s
  | .claim slot => { s with claims := (t, slot) :: s.claims, returned := slot :: s.returned }
  | .release slot => { s with claims := s.claims.erase (t, slot) }

@[simp] theorem settle_bitmap (s : State τ) (t : τ) (e : Effect) : (s.settle t e).bitmap = s.bitmap := by
  cases e <;> rfl

@[simp] theorem settle_pc (s : State τ) (t : τ) (e : Effect) : (s.settle t e).pc = s.pc := by
  cases e <;> rfl

end State

/-- Calls start in an idle thread, and free is called on a slot that the thread
owns. -/
def step (s : State τ) : Action τ → Option (State τ)
  | .tryAlloc t =>
      if s.pc t = .idle then some (s.goto t (if s.bitmap.slotCount = 0 then .idle else .addCursor)) else none
  | .tryClaimExact t slot => if s.pc t = .idle then some (s.goto t (.claimExact slot)) else none
  | .free t slot => if s.pc t = .idle ∧ (t, slot) ∈ s.claims then some (s.goto t (.free slot)) else none
  | .advance t =>
      if s.pc t = .idle then none
      else
        let r := advance s.bitmap (s.pc t)
        some (({ s with bitmap := r.1 }.goto t r.2.1).settle t r.2.2)

def start (slotCount : Nat) : State τ where
  bitmap := AtomicBitmap.new slotCount
  pc := fun _ => .idle
  claims := []
  returned := []

inductive Advanced (b : AtomicBitmap) (p : Pc) : AtomicBitmap × Pc × Effect → Prop
  | quiet {c : AtomicBitmap} {q : Pc} (hshape : SameShape b c) (hbit : c.bit = b.bit) (hq : ∀ slot, q ≠ .free slot) :
      Advanced b p (c, q, .none)
  | claim {c : AtomicBitmap} {slot : Nat} (hshape : SameShape b c) (hfree : b.bit slot = true)
      (hbit : c.bit = update b.bit slot false) : Advanced b p (c, .idle, .claim slot)
  | release {c : AtomicBitmap} {slot : Nat} (hp : p = .free slot) (hshape : SameShape b c)
      (hbit : c.bit = update b.bit slot true) : Advanced b p (c, .idle, .release slot)

theorem Advanced.shape {b : AtomicBitmap} {p : Pc} {r : AtomicBitmap × Pc × Effect} (h : Advanced b p r) :
    SameShape b r.1 := by
  cases h with
  | quiet hshape | claim hshape | release _ hshape => exact hshape

theorem visit_ne_free (b : AtomicBitmap) (first i slot : Nat) : visit b first i ≠ .free slot := by
  unfold visit
  split <;> simp

/-- try_claim_exact is the claim of one bit of one word, also for a slot that
does not exist. -/
theorem tryClaimExact_cases (b : AtomicBitmap) (slot : Nat) :
    SameShape b (b.tryClaimExact slot).2 ∧
      ((b.tryClaimExact slot).1 = true → b.bit slot = true ∧ (b.tryClaimExact slot).2.bit = update b.bit slot false) ∧
      ((b.tryClaimExact slot).1 = false → (b.tryClaimExact slot).2.bit = b.bit) := by
  have hc := (b.debugAssert (slot < b.slotCount)).claimBit_claimed (slot / bitsPerWord) (slot % bitsPerWord)
  have heq : (b.debugAssert (slot < b.slotCount)).claimBit (slot / bitsPerWord) (slot % bitsPerWord) =
      (if (b.tryClaimExact slot).1 then some slot else none, (b.tryClaimExact slot).2) := by
    simp only [AtomicBitmap.claimBit, tryClaimExact, slotMask, div_mul_add_mod]
    congr 1
    exact if_congr decide_eq_true_iff.symm rfl rfl
  rw [heq] at hc
  refine ⟨tryClaimExact_shape b slot, fun hr => ?_, fun hr => ?_⟩
  · exact hc.some_spec slot (by rw [hr]; rfl)
  · exact hc.none_spec (by rw [hr]; rfl)

theorem advance_advanced (b : AtomicBitmap) {p : Pc} (hp : ∀ slot, p = .free slot → slot < b.slotCount) :
    Advanced b p (advance b p) := by
  cases p with
  | idle => exact .quiet (.refl b) rfl (by simp)
  | addCursor => exact .quiet ⟨rfl, rfl, rfl⟩ rfl (visit_ne_free b _ _)
  | loadWord first i =>
      simp only [advance]
      split
      · exact .quiet (.refl b) rfl (visit_ne_free b _ _)
      · exact .quiet (.refl b) rfl (by simp)
  | claimBit first i bit =>
      have hc := b.claimBit_claimed ((first + i) &&& b.wordMask) bit
      simp only [advance]
      split
      next slot hr => exact .claim hc.shape (hc.some_spec slot hr).1 (hc.some_spec slot hr).2
      next hr => exact .quiet hc.shape (hc.none_spec hr) (by simp)
  | claimExact slot =>
      obtain ⟨hshape, hclaimed, hmissed⟩ := tryClaimExact_cases b slot
      simp only [advance]
      cases hr : (b.tryClaimExact slot).1 with
      | false => exact .quiet hshape (hmissed hr) (by simp)
      | true => exact .claim hshape (hclaimed hr).1 (hclaimed hr).2
  | free slot => exact .release rfl (b.free_shape slot) (b.free_bit (hp slot rfl))

def ownedSlots (s : State τ) : List Nat := s.claims.map Prod.snd

structure Owning (n : Nat) (s : State τ) : Prop where
  slotCount : s.bitmap.slotCount = n
  bit : ∀ slot, s.bitmap.bit slot = true ↔ slot < n ∧ slot ∉ ownedSlots s
  nodup : (ownedSlots s).Nodup
  bound : ∀ slot ∈ ownedSlots s, slot < n
  returned : ∀ slot ∈ s.returned, slot < n
  freeing : ∀ t slot, s.pc t = .free slot → (t, slot) ∈ s.claims

variable {n : Nat} {s s' : State τ}

theorem Owning.goto (h : Owning n s) {t : τ} {p : Pc} (hp : ∀ slot, p = .free slot → (t, slot) ∈ s.claims) :
    Owning n (s.goto t p) := by
  refine ⟨h.slotCount, h.bit, h.nodup, h.bound, h.returned, fun u slot hu => ?_⟩
  change update s.pc t p u = .free slot at hu
  by_cases hut : u = t
  · subst hut
    rw [update_self] at hu
    exact hp slot hu
  · rw [update_of_ne hut] at hu
    exact h.freeing u slot hu

theorem free_of_rested {t u : τ} {x : Nat} (hu : update s.pc t .idle u = .free x) : u ≠ t ∧ s.pc u = .free x := by
  by_cases hut : u = t
  · rw [hut, update_self] at hu
    cases hu
  · rw [update_of_ne hut] at hu
    exact ⟨hut, hu⟩

theorem Owning.advance (h : Owning n s) {t : τ} {r : AtomicBitmap × Pc × Effect}
    (hr : Advanced s.bitmap (s.pc t) r) : Owning n (({ s with bitmap := r.1 }.goto t r.2.1).settle t r.2.2) := by
  cases hr with
  | quiet hshape hbit hq =>
      apply Owning.goto
      · refine ⟨hshape.slotCount.trans h.slotCount, fun slot => ?_, h.nodup, h.bound, h.returned, h.freeing⟩
        rw [hbit]
        exact h.bit slot
      · exact fun slot hslot => absurd hslot (hq slot)
  | @claim c slot hshape hfree hbit =>
      obtain ⟨hlt, hnew⟩ := (h.bit slot).mp hfree
      refine ⟨hshape.slotCount.trans h.slotCount, fun x => ?_, ?_, ?_, ?_, fun u x hu => ?_⟩
      · change c.bit x = true ↔ x < n ∧ x ∉ slot :: ownedSlots s
        rw [hbit, List.mem_cons, not_or]
        by_cases hx : x = slot
        · subst hx
          simp
        · rw [update_of_ne hx, h.bit x]
          simp [hx]
      · exact List.nodup_cons.mpr ⟨hnew, h.nodup⟩
      · exact List.forall_mem_cons.mpr ⟨hlt, h.bound⟩
      · exact List.forall_mem_cons.mpr ⟨hlt, h.returned⟩
      · exact List.mem_cons_of_mem _ (h.freeing u x (free_of_rested hu).2)
  | @release c slot hp hshape hbit =>
      have hmem := h.freeing t slot hp
      have hperm : (slot :: (s.claims.erase (t, slot)).map Prod.snd).Perm (ownedSlots s) :=
        ((List.perm_cons_erase hmem).map Prod.snd).symm
      have hnodup : (slot :: (s.claims.erase (t, slot)).map Prod.snd).Nodup := hperm.nodup_iff.mpr h.nodup
      have hsplit (x : Nat) : x ∈ ownedSlots s ↔ x = slot ∨ x ∈ (s.claims.erase (t, slot)).map Prod.snd := by
        rw [← hperm.mem_iff, List.mem_cons]
      refine ⟨hshape.slotCount.trans h.slotCount, fun x => ?_, hnodup.of_cons, fun x hx => ?_, h.returned,
        fun u x hu => ?_⟩
      · change c.bit x = true ↔ x < n ∧ x ∉ (s.claims.erase (t, slot)).map Prod.snd
        rw [hbit]
        by_cases hx : x = slot
        · subst hx
          have hlt := h.bound x ((hsplit x).mpr (Or.inl rfl))
          simp only [update_self, true_iff]
          exact ⟨hlt, (List.nodup_cons.mp hnodup).1⟩
        · rw [update_of_ne hx, h.bit x, hsplit x]
          simp [hx]
      · exact h.bound x ((hsplit x).mpr (Or.inr hx))
      · obtain ⟨hut, hu⟩ := free_of_rested hu
        have hne : (u, x) ≠ (t, slot) := fun he => hut (congrArg Prod.fst he)
        exact (List.mem_erase_of_ne hne).mpr (h.freeing u x hu)

omit [DecidableEq τ] in
theorem Owning.free_lt (h : Owning n s) {t : τ} (slot : Nat) (hp : s.pc t = .free slot) :
    slot < s.bitmap.slotCount := by
  rw [h.slotCount]
  exact h.bound slot (List.mem_map_of_mem (f := Prod.snd) (h.freeing t slot hp))

theorem step_owning {x : Action τ} (h : Owning n s) (hs : step s x = some s') : Owning n s' := by
  cases x with
  | tryAlloc t =>
      simp only [step, Option.ite_none_right_eq_some, Option.some.injEq] at hs
      obtain ⟨-, rfl⟩ := hs
      apply h.goto
      intro slot hp
      split_ifs at hp
  | tryClaimExact t slot =>
      simp only [step, Option.ite_none_right_eq_some, Option.some.injEq] at hs
      obtain ⟨-, rfl⟩ := hs
      apply h.goto
      intro slot hp
      cases hp
  | free t slot =>
      simp only [step, Option.ite_none_right_eq_some, Option.some.injEq] at hs
      obtain ⟨⟨-, hmem⟩, rfl⟩ := hs
      apply h.goto
      intro slot hp
      cases hp
      exact hmem
  | advance t =>
      simp only [step, Option.ite_none_left_eq_some, Option.some.injEq] at hs
      obtain ⟨-, rfl⟩ := hs
      exact h.advance (advance_advanced _ h.free_lt)

omit [DecidableEq τ] in
theorem start_owning (n : Nat) : Owning n (start n : State τ) := by
  refine ⟨rfl, fun slot => ?_, List.nodup_nil, fun slot hs => ?_, fun slot hs => ?_, fun t slot hp => ?_⟩
  · change (AtomicBitmap.new n).bit slot = true ↔ _
    simp [new_bit, ownedSlots, start]
  · cases hs
  · cases hs
  · cases hp

theorem reachable_owning (h : Reachable step (start n) s) : Owning n s :=
  h.invariant (Owning n) (start_owning n) fun _ _ _ hi hs => step_owning hi hs

omit [DecidableEq τ] in
theorem Owning.paddingClear (h : Owning n s) : s.bitmap.PaddingClear := fun slot hb =>
  h.slotCount ▸ ((h.bit slot).mp hb).1

omit [DecidableEq τ] in
/-- The free slots and the owned ones are all there are. -/
theorem Owning.freeCount (h : Owning n s) : s.bitmap.freeCount + s.claims.length = n := by
  have hpadding := h.paddingClear
  have hfree : freeSlots s.bitmap = Finset.range n \ (ownedSlots s).toFinset := by
    ext slot
    rw [mem_freeSlots hpadding, h.bit slot, Finset.mem_sdiff, Finset.mem_range, List.mem_toFinset]
  have hsub : (ownedSlots s).toFinset ⊆ Finset.range n := by
    intro slot hs
    exact Finset.mem_range.mpr (h.bound slot (List.mem_toFinset.mp hs))
  have hcard : (ownedSlots s).toFinset.card = s.claims.length := by
    rw [List.toFinset_card_of_nodup h.nodup, ownedSlots, List.length_map]
  have hle := Finset.card_le_card hsub
  rw [freeCount_eq_card hpadding, hfree, Finset.card_sdiff_of_subset hsub, hcard, Finset.card_range]
  rw [hcard, Finset.card_range] at hle
  omega

/-- In every interleaving, a slot is free or owned by exactly one claim, no
padding bit is set, claims are of slots that exist, and the free and the owned
slots add up, in particular when no call is in flight. -/
theorem slots_owned_once (n : Nat) (s : State τ) (h : Reachable step (start n) s) :
    (∀ slot < n, s.bitmap.bit slot = true ∧ (ownedSlots s).count slot = 0 ∨
      s.bitmap.bit slot = false ∧ (ownedSlots s).count slot = 1) ∧
    (∀ slot, n ≤ slot → s.bitmap.bit slot = false) ∧
    (∀ slot ∈ s.returned, slot < n) ∧
    s.bitmap.freeCount + s.claims.length = n := by
  have ho := reachable_owning h
  refine ⟨fun slot hslot => ?_, fun slot hslot => ?_, ho.returned, ho.freeCount⟩
  · by_cases hmem : slot ∈ ownedSlots s
    · refine Or.inr ⟨?_, List.count_eq_one_of_mem ho.nodup hmem⟩
      rw [Bool.eq_false_iff]
      exact fun hb => ((ho.bit slot).mp hb).2 hmem
    · exact Or.inl ⟨(ho.bit slot).mpr ⟨hslot, hmem⟩, List.count_eq_zero.mpr hmem⟩
  · rw [Bool.eq_false_iff]
    intro hb
    exact absurd ((ho.bit slot).mp hb).1 (Nat.not_lt.mpr hslot)

/-- Two threads see the same free bit. One of them claims it, and the other one
loads the word again. -/
def staleSchedule : List (Action (Fin 2)) :=
  [.tryAlloc 0, .tryAlloc 1, .advance 0, .advance 1, .advance 0, .advance 1, .advance 0, .advance 1, .advance 1,
    .advance 1]

theorem slots_owned_once_stale :
    ∃ s : State (Fin 2), Reachable step (start 3) s ∧ s.claims = [(1, 1), (0, 0)] ∧ s.bitmap.freeCount = 1 := by
  have hrun : (run step (start 3) staleSchedule).isSome = true := by decide +kernel
  have hclaims : ((run step (start 3) staleSchedule).getD (start 3)).claims = [(1, 1), (0, 0)] := by decide +kernel
  have hreach : Reachable step (start 3) ((run step (start 3) staleSchedule).getD (start 3)) :=
    ⟨staleSchedule, run_eq_some_getD hrun⟩
  obtain ⟨-, -, -, hcount⟩ := slots_owned_once 3 _ hreach
  rw [hclaims, List.length_cons, List.length_singleton] at hcount
  exact ⟨_, hreach, hclaims, by omega⟩

end ArenaAlligator.SlotThreads
