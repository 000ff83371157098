import ArenaAlligator.AlignedBlocks
import ArenaAlligator.Runs

namespace ArenaAlligator.BlockOwnership

open Function AlignedBlocks AlignedBlocks.Block Runs

variable {τ : Type} [DecidableEq τ]

/-- Who owns the blocks of a root block: a shared set of free blocks, the
callers, and parties that each work on at most one block. -/
structure Owners (τ : Type) where
  free : Finset Block
  live : Multiset Block
  held : τ → Option Block

def bag : Option Block → Multiset Block
  | none => 0
  | some b => {b}

@[simp] theorem bag_none : bag none = 0 := rfl

@[simp] theorem bag_some (b : Block) : bag (some b) = {b} := rfl

/-- The ways in which ownership can move. Every rule moves, halves or joins
the one block of one party. -/
inductive Move : Owners τ → Owners τ → Prop
  | stay (s) : Move s s
  | claim (s) (t) (b) (hb : b ∈ s.free) (ht : s.held t = none) :
      Move s ⟨s.free.erase b, s.live, update s.held t (some b)⟩
  | split (s) (t) (o i) (ht : s.held t = some ⟨o + 1, i⟩) :
      Move s ⟨insert ⟨o, i * 2 + 1⟩ s.free, s.live, update s.held t (some ⟨o, i * 2⟩)⟩
  | merge (s) (t) (b) (ht : s.held t = some b) (hb : b.buddy ∈ s.free) :
      Move s ⟨s.free.erase b.buddy, s.live, update s.held t (some b.parent)⟩
  | publish (s) (t) (b) (ht : s.held t = some b) : Move s ⟨insert b s.free, s.live, update s.held t none⟩
  | hand (s) (t) (b) (ht : s.held t = some b) : Move s ⟨s.free, b ::ₘ s.live, update s.held t none⟩
  | take (s) (t) (b) (hb : b ∈ s.live) (ht : s.held t = none) :
      Move s ⟨s.free, s.live.erase b, update s.held t (some b)⟩

variable [Fintype τ]

def Owners.all (s : Owners τ) : Multiset Block := s.free.val + s.live + ∑ t, bag (s.held t)

omit [DecidableEq τ] in
theorem held_mem_all {s : Owners τ} {t : τ} {b : Block} (ht : s.held t = some b) : b ∈ s.all := by
  refine Multiset.mem_add.mpr (Or.inr (Multiset.mem_sum.mpr ⟨t, Finset.mem_univ t, ?_⟩))
  rw [ht]
  exact Multiset.mem_singleton_self b

theorem all_eq_cons {s : Owners τ} {t : τ} {b : Block} (ht : s.held t = some b) :
    s.all = b ::ₘ (s.free.val + s.live + ∑ u ∈ Finset.univ.erase t, bag (s.held u)) := by
  rw [Owners.all, ← Finset.add_sum_erase _ _ (Finset.mem_univ t), ht, bag_some, ← Multiset.singleton_add]
  abel

theorem notMem_free {n : Nat} {s : Owners τ} (h : Tiles n s.all) {t : τ} {b c : Block} (ht : s.held t = some b)
    {u : Nat} (hb : u ∈ b.units) (hc : u ∈ c.units) : c ∉ s.free := by
  rw [all_eq_cons ht] at h
  intro hm
  exact h.notMem hb hc (Multiset.mem_add.mpr (Or.inl (Multiset.mem_add.mpr (Or.inl hm))))

theorem held_disjoint {n : Nat} {s : Owners τ} (h : Tiles n s.all) {t t' : τ} (hne : t ≠ t') {b c : Block}
    (ht : s.held t = some b) (ht' : s.held t' = some c) {u : Nat} (hb : u ∈ b.units) : u ∉ c.units := by
  rw [all_eq_cons ht] at h
  intro hc
  refine h.notMem hb hc (Multiset.mem_add.mpr (Or.inr (Multiset.mem_sum.mpr ⟨t', ?_, ?_⟩)))
  · exact Finset.mem_erase.mpr ⟨hne.symm, Finset.mem_univ t'⟩
  · rw [ht']
    exact Multiset.mem_singleton_self c

theorem held_live_disjoint {n : Nat} {s : Owners τ} (h : Tiles n s.all) {t : τ} {b c : Block} (ht : s.held t = some b)
    (hc : c ∈ s.live) {u : Nat} (hb : u ∈ b.units) : u ∉ c.units := by
  rw [all_eq_cons ht] at h
  intro hu
  exact h.notMem hb hu (Multiset.mem_add.mpr (Or.inl (Multiset.mem_add.mpr (Or.inr hc))))

theorem cover_all_update (s : Owners τ) (F : Finset Block) (L : Multiset Block) (t : τ) (p : Option Block)
    (h : cover F.val + cover L + cover (bag p) = cover s.free.val + cover s.live + cover (bag (s.held t))) :
    cover (Owners.all ⟨F, L, update s.held t p⟩) = cover s.all := by
  have hsum := congrArg cover (sum_update bag s.held t p)
  rw [cover_add, cover_add] at hsum
  refine add_right_cancel (b := cover (bag (s.held t))) ?_
  simp only [Owners.all, cover_add]
  calc cover F.val + cover L + cover (∑ u, bag (update s.held t p u)) + cover (bag (s.held t))
      = cover F.val + cover L + (cover (∑ u, bag (update s.held t p u)) + cover (bag (s.held t))) := by abel
    _ = cover F.val + cover L + cover (bag p) + cover (∑ u, bag (s.held u)) := by rw [hsum]; abel
    _ = cover s.free.val + cover s.live + cover (∑ u, bag (s.held u)) + cover (bag (s.held t)) := by rw [h]; abel

theorem cover_insert {F : Finset Block} {b : Block} (hb : b ∉ F) :
    cover (insert b F).val = b.units + cover F.val := by
  rw [Finset.insert_val_of_notMem hb, cover_cons]

theorem cover_erase {F : Finset Block} {b : Block} (hb : b ∈ F) :
    cover (F.erase b).val + b.units = cover F.val := by
  rw [Finset.erase_val, add_comm, ← cover_cons, Multiset.cons_erase hb]

/-- Moves keep the tiling: no unit is lost, and none gets a second owner. -/
theorem Move.tiles {n : Nat} {s s' : Owners τ} (h : Move s s') (hs : Tiles n s.all) : Tiles n s'.all := by
  cases h with
  | stay => exact hs
  | claim t b hb ht =>
      refine hs.of_cover_eq (cover_all_update s _ _ t _ ?_)
      rw [ht, bag_none, bag_some, cover_zero, cover_singleton, ← cover_erase hb]
      abel
  | split t o i ht =>
      have hkid : (i * 2 + 1) * 2 ^ o ∈ units ⟨o + 1, i⟩ := by
        rw [← units_children]
        exact Multiset.mem_add.mpr (Or.inr (start_mem_units ⟨o, i * 2 + 1⟩))
      have hnf := notMem_free hs ht hkid (start_mem_units ⟨o, i * 2 + 1⟩)
      refine hs.of_cover_eq (cover_all_update s _ _ t _ ?_)
      rw [ht, cover_insert hnf, bag_some, bag_some, cover_singleton, cover_singleton, ← units_children]
      abel
  | merge t b ht hb =>
      refine hs.of_cover_eq (cover_all_update s _ _ t _ ?_)
      rw [ht, bag_some, bag_some, cover_singleton, cover_singleton, ← cover_erase hb, ← units_add_buddy]
      abel
  | publish t b ht =>
      have hnf := notMem_free hs ht (start_mem_units b) (start_mem_units b)
      refine hs.of_cover_eq (cover_all_update s _ _ t _ ?_)
      rw [ht, cover_insert hnf, bag_none, bag_some, cover_zero, cover_singleton]
      abel
  | hand t b ht =>
      refine hs.of_cover_eq (cover_all_update s _ _ t _ ?_)
      rw [ht, bag_none, bag_some, cover_zero, cover_singleton, cover_cons]
      abel
  | take t b hb ht =>
      have hcons : cover s.live = b.units + cover (s.live.erase b) := by
        rw [← cover_cons, Multiset.cons_erase hb]
      refine hs.of_cover_eq (cover_all_update s _ _ t _ ?_)
      rw [ht, bag_none, bag_some, cover_zero, cover_singleton, hcons]
      abel

end ArenaAlligator.BlockOwnership
