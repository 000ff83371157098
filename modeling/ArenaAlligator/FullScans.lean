import ArenaAlligator.SlotThreads

namespace ArenaAlligator.FullScans

open Function AtomicBitmap Runs SlotThreads

def scanning (b : AtomicBitmap) : Pc → Prop
  | .addCursor => True
  | .loadWord _ i | .claimBit _ i _ => i < b.scanWords
  | .idle | .claimExact _ | .free _ => False

def passed (b : AtomicBitmap) : Pc → List Nat
  | .loadWord start i | .claimBit start i _ => (List.range i).map fun j => (start + j) &&& b.wordMask
  | .idle | .addCursor | .claimExact _ | .free _ => []

def freeing : Pc → Option Nat
  | .free slot => some slot
  | _ => none

def Swept (b : AtomicBitmap) (p : Pc) : Prop := ∀ slot, slot / bitsPerWord ∈ passed b p → b.bit slot = false

variable {τ : Type} [DecidableEq τ]

/-- No slot is set free behind the scan of the thread. -/
def Undisturbed (t : τ) (s : State τ) : Action τ → Prop
  | .advance u => ∀ slot ∈ freeing (s.pc u), slot / bitsPerWord ∉ passed s.bitmap (s.pc t)
  | _ => True

instance (t : τ) (s : State τ) (x : Action τ) : Decidable (Undisturbed t s x) :=
  match x with
  | .advance u => inferInstanceAs (Decidable (∀ slot ∈ freeing (s.pc u), slot / bitsPerWord ∉ passed s.bitmap (s.pc t)))
  | .tryAlloc _ => isTrue trivial
  | .tryClaimExact _ _ => isTrue trivial
  | .free _ _ => isTrue trivial

/-- The schedule, from a state in which the thread is inside try_alloc, ends
with the step in which that call returns None. -/
def returnsNone (t : τ) : State τ → List (Action τ) → Bool
  | _, [] => false
  | s, x :: xs =>
      (step s x).elim false fun s' =>
        if s'.pc t = .idle then xs.isEmpty && decide (s'.claims = s.claims) else returnsNone t s' xs

variable {b c : AtomicBitmap}

theorem passed_congr (h : SameShape b c) (p : Pc) : passed c p = passed b p := by
  cases p <;> simp only [passed, h.wordMask]

theorem scanning_congr (h : SameShape b c) {p : Pc} (hp : scanning b p) : scanning c p := by
  cases p with
  | loadWord first i | claimBit first i bit => exact Nat.lt_of_lt_of_eq hp h.scanWords.symm
  | idle | addCursor | claimExact | free => exact hp

theorem Swept.of_bit {p : Pc} (h : Swept b p) (hshape : SameShape b c)
    (hbit : ∀ slot, slot / bitsPerWord ∈ passed b p → c.bit slot = true → b.bit slot = true) : Swept c p := by
  intro slot hslot
  rw [passed_congr hshape] at hslot
  by_contra hset
  have hold := hbit slot hslot (Bool.not_eq_false _ ▸ hset)
  rw [h slot hslot] at hold
  cases hold

theorem scanWords_eq_one (h : b.slotCount ≤ bitsPerWord) : b.scanWords = 1 := by
  have hceil : max (divCeil b.slotCount bitsPerWord) 1 = 1 := by
    apply Nat.max_eq_right
    rw [divCeil, bitsPerWord]
    rw [bitsPerWord] at h
    omega
  rw [b.scanWords_eq, wordsFor, hceil]
  decide

theorem passed_eq_nil {p : Pc} (h : b.slotCount ≤ bitsPerWord) (hp : scanning b p) : passed b p = [] := by
  cases p with
  | loadWord first i | claimBit first i bit =>
      have hi : i < b.scanWords := hp
      rw [scanWords_eq_one h, Nat.lt_one_iff] at hi
      subst hi
      rfl
  | idle | addCursor | claimExact | free => rfl

inductive Scanned (b : AtomicBitmap) (p : Pc) : AtomicBitmap × Pc × Effect → Prop
  | more {c : AtomicBitmap} {q : Pc} (hq : scanning c q) (hswept : Swept c q) : Scanned b p (c, q, .none)
  | claim {c : AtomicBitmap} {slot : Nat} : Scanned b p (c, .idle, .claim slot)
  | missed (hp : p ≠ .addCursor) (hfull : ∀ slot, b.bit slot = false) : Scanned b p (b, .idle, .none)

theorem Swept.succ {first i : Nat} (h : Swept b (.loadWord first i))
    (hzero : b.load ((first + i) &&& b.wordMask) = 0#64) : Swept b (.loadWord first (i + 1)) := by
  intro slot hslot
  rw [passed, List.range_succ, List.map_append, List.mem_append] at hslot
  rcases hslot with hslot | hslot
  · exact h slot hslot
  · rw [List.map_singleton, List.mem_singleton] at hslot
    rw [bit, hslot, hzero]
    exact BitVec.getLsbD_zero

theorem Swept.full {first : Nat} (hb : b.PaddingClear) (h : Swept b (.loadWord first b.scanWords)) (slot : Nat) :
    b.bit slot = false := by
  by_contra hset
  obtain ⟨j, hj, hword⟩ := b.exists_scan_index first (b.div_lt_scanWords (hb slot (Bool.not_eq_false _ ▸ hset)))
  exact hset (h slot (List.mem_map.mpr ⟨j, List.mem_range.mpr hj, hword⟩))

theorem advance_scanned {p : Pc} (hb : b.PaddingClear) (hp : scanning b p) (h : Swept b p) :
    Scanned b p (advance b p) := by
  cases p with
  | addCursor =>
      rw [advance, visit, if_pos (scanWords_pos b)]
      exact .more (scanWords_pos b) fun slot hslot => by cases hslot
  | loadWord first i =>
      simp only [advance]
      split
      next hzero =>
        have hnext := h.succ hzero
        unfold visit
        split
        next hlt => exact .more hlt hnext
        next hge =>
          have hlast : i + 1 = b.scanWords := Nat.le_antisymm hp (Nat.not_lt.mp hge)
          rw [hlast] at hnext
          exact .missed (by simp) (hnext.full hb)
      next => exact .more hp h
  | claimBit first i bit =>
      have hc := b.claimBit_claimed ((first + i) &&& b.wordMask) bit
      simp only [advance]
      split
      next => exact .claim
      next hr =>
        refine .more (scanning_congr hc.shape hp)
          (Swept.of_bit (p := .loadWord first i) h hc.shape fun slot _ hset => ?_)
        rwa [hc.none_spec hr] at hset
  | idle | claimExact | free => cases hp

/-- An operation of another thread sets no bit behind the scan. -/
theorem Swept.other {p q : Pc} {r : AtomicBitmap × Pc × Effect} (h : Swept b q) (hr : Advanced b p r)
    (hok : ∀ slot ∈ freeing p, slot / bitsPerWord ∉ passed b q) : Swept r.1 q := by
  cases hr with
  | quiet hshape hbit => exact h.of_bit hshape fun slot _ hset => hbit ▸ hset
  | @claim c slot hshape hfree hbit =>
      refine h.of_bit hshape fun x _ hset => ?_
      rw [hbit] at hset
      by_cases hx : x = slot
      · rwa [hx]
      · rwa [update_of_ne hx] at hset
  | @release c slot hp hshape hbit =>
      refine h.of_bit hshape fun x hx hset => ?_
      have hfreed : slot / bitsPerWord ∉ passed b q := hok slot (by rw [hp]; rfl)
      have hne : x ≠ slot := fun he => hfreed (he ▸ hx)
      rwa [hbit, update_of_ne hne] at hset

variable {n : Nat} {t : τ} {s s' : State τ}

/-- The thread is inside try_alloc, and the words behind its scan are empty. -/
structure Scanning (n : Nat) (t : τ) (s : State τ) : Prop where
  owning : Owning n s
  scanning : scanning s.bitmap (s.pc t)
  swept : Swept s.bitmap (s.pc t)

omit [DecidableEq τ] in
theorem Scanning.busy (h : Scanning n t s) : s.pc t ≠ .idle := by
  intro hidle
  have hscan := h.scanning
  rw [hidle] at hscan
  exact hscan

theorem Scanning.goto (h : Scanning n t s) {u : τ} {p : Pc} (hu : s.pc u = .idle) (ho : Owning n (s.goto u p)) :
    Scanning n t (s.goto u p) := by
  have hne : t ≠ u := fun he => h.busy (he ▸ hu)
  have hpc : (s.goto u p).pc t = s.pc t := update_of_ne hne _ _
  refine ⟨ho, ?_, ?_⟩
  · rw [hpc]
    exact h.scanning
  · rw [hpc]
    exact h.swept

theorem Scanning.other (h : Scanning n t s) {u : τ} {r : AtomicBitmap × Pc × Effect} (hut : t ≠ u)
    (hr : Advanced s.bitmap (s.pc u) r)
    (hok : ∀ slot ∈ freeing (s.pc u), slot / bitsPerWord ∉ passed s.bitmap (s.pc t))
    (ho : Owning n (({ s with bitmap := r.1 }.goto u r.2.1).settle u r.2.2)) :
    Scanning n t (({ s with bitmap := r.1 }.goto u r.2.1).settle u r.2.2) := by
  refine ⟨ho, ?_, ?_⟩ <;> simp only [State.settle_bitmap, State.settle_pc, State.goto, update_of_ne hut]
  · exact scanning_congr hr.shape h.scanning
  · exact h.swept.other hr hok

theorem Scanned.settle {r : AtomicBitmap × Pc × Effect} (hr : Scanned s.bitmap (s.pc t) r)
    (hs : s' = ({ s with bitmap := r.1 }.goto t r.2.1).settle t r.2.2) (ho : Owning n s') :
    Scanning n t s' ∨
      s'.pc t = .idle ∧ (s'.claims = s.claims → s.pc t ≠ .addCursor ∧ ∀ slot, s.bitmap.bit slot = false) := by
  subst hs
  cases hr with
  | more hq hswept =>
      refine Or.inl ⟨ho, ?_, ?_⟩ <;> simp only [State.settle_bitmap, State.settle_pc, State.goto, update_self]
      · exact hq
      · exact hswept
  | claim => exact Or.inr ⟨update_self _ _ _, fun hclaims => absurd hclaims (List.cons_ne_self _ _)⟩
  | missed hp hfull => exact Or.inr ⟨update_self _ _ _, fun _ => ⟨hp, hfull⟩⟩

/-- A call goes on until it returns, and a call that returns without a claim
has just seen a bitmap without free slots. -/
theorem step_scanning {x : Action τ} (h : Scanning n t s) (hok : n ≤ bitsPerWord ∨ Undisturbed t s x)
    (hs : step s x = some s') :
    Scanning n t s' ∨
      s'.pc t = .idle ∧ (s'.claims = s.claims → s.pc t ≠ .addCursor ∧ ∀ slot, s.bitmap.bit slot = false) := by
  have ho := step_owning h.owning hs
  cases x with
  | tryAlloc u | tryClaimExact u slot =>
      simp only [step, Option.ite_none_right_eq_some, Option.some.injEq] at hs
      obtain ⟨hidle, rfl⟩ := hs
      exact Or.inl (h.goto hidle ho)
  | free u slot =>
      simp only [step, Option.ite_none_right_eq_some, Option.some.injEq] at hs
      obtain ⟨⟨hidle, -⟩, rfl⟩ := hs
      exact Or.inl (h.goto hidle ho)
  | advance u =>
      simp only [step, Option.ite_none_left_eq_some, Option.some.injEq] at hs
      obtain ⟨-, rfl⟩ := hs
      by_cases hut : t = u
      · subst hut
        exact (advance_scanned h.owning.paddingClear h.scanning h.swept).settle rfl ho
      · refine Or.inl (h.other hut (advance_advanced _ h.owning.free_lt) ?_ ho)
        rcases hok with hone | hok
        · rw [passed_eq_nil (h.owning.slotCount.trans_le hone) h.scanning]
          exact fun _ _ => List.not_mem_nil
        · exact hok

/-- A failed call passes through a state without free slots. -/
theorem full_in_call {as : List (Action τ)} (h : Scanning n t s) (hfail : returnsNone t s as = true)
    (hok : n ≤ bitsPerWord ∨ Meets step (Undisturbed t) s as) :
    ∃ before after s', as = before ++ after ∧ after ≠ [] ∧ run step s before = some s' ∧ s'.pc t ≠ .addCursor ∧
      ∀ slot, s'.bitmap.bit slot = false := by
  induction as generalizing s with
  | nil => cases hfail
  | cons x xs ih =>
      cases hs : step s x with
      | none => simp [returnsNone, hs] at hfail
      | some s' =>
          simp only [returnsNone, hs, Option.elim_some] at hfail
          rcases step_scanning h (hok.imp_right And.left) hs with hnext | ⟨hidle, hfull⟩
          · rw [if_neg hnext.busy] at hfail
            obtain ⟨before, after, v, rfl, hne, hrun, hv⟩ := ih hnext hfail (hok.imp_right fun hm => hm.2 s' hs)
            exact ⟨x :: before, after, v, rfl, hne, by rw [run, hs, Option.bind_some, hrun], hv⟩
          · rw [if_pos hidle, Bool.and_eq_true, decide_eq_true_eq] at hfail
            exact ⟨[], x :: xs, s, rfl, List.cons_ne_nil _ _, rfl, hfull hfail.2⟩

/-- A failed try_alloc has met an instant without free slots between its first
and its last atomic operation, if the bitmap has a single word or no slot is
set free behind the scan. An arena without slots fails at once. -/
theorem full_unless_freed_behind (n : Nat) (s : State τ) (h : Reachable step (start n) s) (t : τ) :
    (n = 0 → ∀ slot, s.bitmap.bit slot = false) ∧
    ∀ as, s.pc t = .addCursor → returnsNone t s as = true →
      n ≤ bitsPerWord ∨ Meets step (Undisturbed t) s as →
      ∃ before after s', as = before ++ after ∧ after ≠ [] ∧ run step s before = some s' ∧ s'.pc t ≠ .addCursor ∧
        ∀ slot, s'.bitmap.bit slot = false := by
  have ho := reachable_owning h
  refine ⟨fun hzero slot => ?_, fun as hcall hfail hok => ?_⟩
  · rw [Bool.eq_false_iff]
    intro hset
    exact absurd ((ho.bit slot).mp hset).1 (hzero ▸ Nat.not_lt_zero slot)
  · have hscan : Scanning n t s := by
      refine ⟨ho, ?_, ?_⟩
      · rw [hcall]
        exact trivial
      · rw [hcall]
        exact fun slot hslot => absurd hslot List.not_mem_nil
    exact full_in_call hscan hfail hok

def claimSlot : List (Action (Fin 2)) := .tryAlloc 0 :: List.replicate 3 (.advance 0)

/-- One thread claims all of 65 slots and sets the first one free. The call of
the other thread will start its scan at the second word. -/
def crowd : List (Action (Fin 2)) :=
  claimSlot ++ claimSlot ++ (List.replicate 31 (claimSlot ++ claimSlot ++ [.advance 0])).flatten ++ claimSlot ++
    [.free 0 0, .advance 0, .tryAlloc 1]

def crowdSlots : List Nat := (List.range 63).map (63 - ·) ++ [64]

def crowdState : State (Fin 2) where
  bitmap := { AtomicBitmap.new 65 with words := [1#64, 0#64], cursor := 65#64, length_words := rfl }
  pc := fun t => if t = 0 then .idle else .addCursor
  claims := crowdSlots.map (0, ·)
  returned := crowdSlots ++ [0]

theorem eq_some_of_parts {r : Option (State (Fin 2))} {v : State (Fin 2)}
    (h : r.any (fun s => s.bitmap = v.bitmap ∧ (∀ t, s.pc t = v.pc t) ∧ s.claims = v.claims ∧
      s.returned = v.returned) = true) : r = some v := by
  cases r with
  | none => cases h
  | some s =>
      obtain ⟨bitmap, pc, claims, returned⟩ := s
      rw [Option.any_some, decide_eq_true_eq] at h
      obtain ⟨rfl, hpc, rfl, rfl⟩ := h
      rw [show pc = v.pc from funext hpc]

theorem crowdState_reached : run step (start 65) crowd = some crowdState :=
  eq_some_of_parts (by decide +kernel)

def claimedAhead : List (Action (Fin 2)) := [.advance 1, .advance 1] ++ claimSlot ++ [.advance 1]

theorem full_unless_freed_behind_ahead :
    crowdState.pc 1 = .addCursor ∧ returnsNone 1 crowdState claimedAhead = true ∧
    Meets step (Undisturbed 1) crowdState claimedAhead ∧
    ∃ before after s', claimedAhead = before ++ after ∧ after ≠ [] ∧ run step crowdState before = some s' ∧
      s'.pc 1 ≠ .addCursor ∧ ∀ slot, s'.bitmap.bit slot = false := by
  have hcall : crowdState.pc 1 = .addCursor := by decide +kernel
  have hfail : returnsNone 1 crowdState claimedAhead = true := by decide +kernel
  have hok : Meets step (Undisturbed 1) crowdState claimedAhead := by decide +kernel
  obtain ⟨-, hfull⟩ := full_unless_freed_behind 65 crowdState ⟨crowd, crowdState_reached⟩ 1
  exact ⟨hcall, hfail, hok, hfull claimedAhead hcall hfail (Or.inr hok)⟩

def freedBehind : List (Action (Fin 2)) :=
  [.advance 1, .advance 1, .free 0 64, .advance 0] ++ claimSlot ++ [.advance 1]

/-- The call fails although a slot is free at every instant of it. -/
theorem fails_with_slot_free :
    Reachable step (start 65) crowdState ∧ crowdState.pc 1 = .addCursor ∧
    returnsNone 1 crowdState freedBehind = true ∧
    Meets step (fun s _ => ∃ slot < 65, s.bitmap.bit slot = true) crowdState freedBehind ∧
    ∃ s, run step crowdState freedBehind = some s ∧ s.bitmap.bit 64 = true :=
  ⟨⟨crowd, crowdState_reached⟩, by decide +kernel, by decide +kernel, by decide +kernel, _,
    run_eq_some_getD (d := crowdState) (by decide +kernel), by decide +kernel⟩

end ArenaAlligator.FullScans
