import Mathlib.Data.Finset.Union
import Mathlib.Data.Multiset.Bind
import Mathlib.Data.Nat.Bitwise
import Mathlib.Order.Interval.Finset.Nat
import Mathlib.Order.Interval.Multiset
import Mathlib.Tactic.Abel
import Mathlib.Tactic.Ring

namespace ArenaAlligator.AlignedBlocks

/-- The naturally aligned block of 2^order units that starts at unit
index * 2^order. -/
structure Block where
  order : Nat
  index : Nat
deriving DecidableEq, Repr

namespace Block

def units (b : Block) : Multiset Nat :=
  Multiset.Ico (b.index * 2 ^ b.order) ((b.index + 1) * 2 ^ b.order)

def buddy (b : Block) : Block := ⟨b.order, b.index ^^^ 1⟩

def parent (b : Block) : Block := ⟨b.order + 1, b.index / 2⟩

theorem mem_units (b : Block) (u : Nat) : u ∈ b.units ↔ u / 2 ^ b.order = b.index := by
  rw [units, Multiset.mem_Ico, Nat.div_eq_iff (Nat.two_pow_pos _), Nat.succ_mul]
  have := Nat.two_pow_pos b.order
  omega

theorem nodup_units (b : Block) : b.units.Nodup := Multiset.nodup_Ico

theorem card_units (b : Block) : b.units.card = 2 ^ b.order := by
  have h : b.units.card = (b.index + 1) * 2 ^ b.order - b.index * 2 ^ b.order := Nat.card_Ico _ _
  rw [h, Nat.succ_mul, Nat.add_sub_cancel_left]

theorem start_mem_units (b : Block) : b.index * 2 ^ b.order ∈ b.units :=
  (mem_units b _).mpr (Nat.mul_div_cancel _ (Nat.two_pow_pos _))

theorem units_children (o i : Nat) :
    units ⟨o, i * 2⟩ + units ⟨o, i * 2 + 1⟩ = units ⟨o + 1, i⟩ := by
  have hs : i * 2 * 2 ^ o = i * 2 ^ (o + 1) := by rw [pow_succ]; ring
  have he : (i * 2 + 1 + 1) * 2 ^ o = (i + 1) * 2 ^ (o + 1) := by rw [pow_succ]; ring
  have hl : i * 2 * 2 ^ o ≤ (i * 2 + 1) * 2 ^ o := Nat.mul_le_mul_right _ (by omega)
  have hr : (i * 2 + 1) * 2 ^ o ≤ (i * 2 + 1 + 1) * 2 ^ o := Nat.mul_le_mul_right _ (by omega)
  rw [hs] at hl
  rw [he] at hr
  simp only [units, hs, he]
  exact Multiset.Ico_add_Ico_eq_Ico hl hr

theorem buddy_cases (b : Block) :
    b.index = b.index / 2 * 2 ∧ b.buddy.index = b.index / 2 * 2 + 1 ∨
      b.index = b.index / 2 * 2 + 1 ∧ b.buddy.index = b.index / 2 * 2 := by
  simp only [buddy]
  rcases Nat.even_or_odd b.index with hi | hi
  · left
    rw [Nat.xor_one_of_even hi]
    have := Nat.even_iff.mp hi
    omega
  · right
    rw [Nat.xor_one_of_odd hi]
    have := Nat.odd_iff.mp hi
    omega

theorem units_add_buddy (b : Block) : b.units + b.buddy.units = b.parent.units := by
  have h := units_children b.order (b.index / 2)
  rcases buddy_cases b with ⟨hb, hb'⟩ | ⟨hb, hb'⟩
  · rw [← hb', ← hb] at h
    exact h
  · rw [← hb, ← hb', add_comm] at h
    exact h

theorem buddy_buddy (b : Block) : b.buddy.buddy = b := by
  simp [buddy]

theorem buddy_ne (b : Block) : b.buddy ≠ b := by
  intro h
  have hi := congrArg index h
  rcases buddy_cases b with hb | hb <;> omega

/-- Blocks are nested or disjoint: a block that shares a unit with one of at
most its own order contains it. -/
theorem units_subset {b c : Block} (hbc : b.order ≤ c.order) {u : Nat} (hb : u ∈ b.units)
    (hc : u ∈ c.units) {v : Nat} (hv : v ∈ b.units) : v ∈ c.units := by
  rw [mem_units] at hb hc hv ⊢
  obtain ⟨d, hd⟩ := Nat.exists_eq_add_of_le hbc
  rw [hd, pow_add, ← Nat.div_div_eq_div_mul] at hc ⊢
  rw [hv, ← hb, hc]

theorem eq_of_order_eq {b c : Block} (ho : b.order = c.order) {u : Nat} (hb : u ∈ b.units)
    (hc : u ∈ c.units) : b = c := by
  rw [mem_units] at hb hc
  obtain ⟨o, i⟩ := b
  obtain ⟨o', j⟩ := c
  simp only at ho
  subst ho
  exact congrArg (mk o) (hb.symm.trans hc)

def Inside (n : Nat) (b : Block) : Prop := b.order ≤ n ∧ b.index < 2 ^ (n - b.order)

instance (n : Nat) (b : Block) : Decidable (b.Inside n) := inferInstanceAs (Decidable (_ ∧ _))

theorem inside_of_unit_lt {n : Nat} {b : Block} (ho : b.order ≤ n) {u : Nat} (hu : u ∈ b.units)
    (hlt : u < 2 ^ n) : b.Inside n := by
  refine ⟨ho, ?_⟩
  rw [← (mem_units b u).mp hu, Nat.div_lt_iff_lt_mul (Nat.two_pow_pos _), ← pow_add,
    Nat.sub_add_cancel ho]
  exact hlt

theorem unit_lt_of_inside {n : Nat} {b : Block} (h : b.Inside n) {u : Nat} (hu : u ∈ b.units) :
    u < 2 ^ n := by
  have hi := h.2
  rw [← (mem_units b u).mp hu, Nat.div_lt_iff_lt_mul (Nat.two_pow_pos _), ← pow_add,
    Nat.sub_add_cancel h.1] at hi
  exact hi

theorem Inside.buddy {n : Nat} {b : Block} (h : b.Inside n) (ho : b.order < n) : b.buddy.Inside n := by
  refine ⟨h.1, ?_⟩
  have hi := h.2
  have hp : 2 ^ (n - b.order) = 2 ^ (n - b.order - 1) * 2 := by
    rw [← pow_succ, Nat.sub_add_cancel (by omega)]
  rw [hp] at hi
  rw [show b.buddy.order = b.order from rfl, hp]
  rcases buddy_cases b with hb | hb <;> omega

theorem Inside.child {n o i j : Nat} (h : Inside n ⟨o + 1, i⟩) (hj : j / 2 = i) :
    Inside n ⟨o, j⟩ := by
  have ho : o + 1 ≤ n := h.1
  have hi : i < 2 ^ (n - (o + 1)) := h.2
  have hp : 2 ^ (n - o) = 2 ^ (n - (o + 1)) * 2 := by
    rw [← pow_succ]
    congr 1
    omega
  exact ⟨Nat.le_of_succ_le ho, show j < 2 ^ (n - o) by omega⟩

end Block

open Block

def cover (m : Multiset Block) : Multiset Nat := m.bind units

@[simp] theorem cover_zero : cover 0 = 0 := rfl

@[simp] theorem cover_singleton (b : Block) : cover {b} = b.units := Multiset.singleton_bind _ _

@[simp] theorem cover_add (m k : Multiset Block) : cover (m + k) = cover m + cover k :=
  Multiset.add_bind _ _ _

@[simp] theorem cover_cons (b : Block) (m : Multiset Block) : cover (b ::ₘ m) = b.units + cover m :=
  Multiset.cons_bind _ _ _

theorem mem_cover {m : Multiset Block} {u : Nat} : u ∈ cover m ↔ ∃ b ∈ m, u ∈ b.units :=
  Multiset.mem_bind

theorem card_cover (m : Multiset Block) : (cover m).card = (m.map fun b => 2 ^ b.order).sum := by
  simp [cover, Multiset.card_bind, card_units]

theorem count_cover (m : Multiset Block) (u : Nat) : (cover m).count u = m.countP fun b => u ∈ b.units := by
  induction m using Multiset.induction with
  | empty => simp
  | cons b m ih =>
      rw [cover_cons, Multiset.count_add, ih, Multiset.countP_cons, add_comm]
      congr 1
      split
      next h => exact Multiset.count_eq_one_of_mem (nodup_units b) h
      next h => exact Multiset.count_eq_zero_of_notMem h

theorem eq_of_shared_unit {m : Multiset Block} (hm : (cover m).Nodup) {b c : Block} (hb : b ∈ m)
    (hc : c ∈ m) {u : Nat} (hub : u ∈ b.units) (huc : u ∈ c.units) : b = c := by
  by_contra hne
  obtain ⟨k, rfl⟩ := Multiset.exists_cons_of_mem hb
  have hck : c ∈ k := (Multiset.mem_cons.mp hc).resolve_left (Ne.symm hne)
  rw [cover_cons, Multiset.nodup_add] at hm
  exact Multiset.disjoint_left.mp hm.2.2 hub (mem_cover.mpr ⟨c, hck, huc⟩)

theorem pairwise_disjoint {l : List Block} (h : (cover (l : Multiset Block)).Nodup) :
    l.Pairwise fun b c => ∀ u ∈ b.units, u ∉ c.units := by
  induction l with
  | nil => exact List.Pairwise.nil
  | cons b l ih =>
      rw [← Multiset.cons_coe, cover_cons, Multiset.nodup_add] at h
      refine List.pairwise_cons.mpr ⟨fun c hc u hu hu' => ?_, ih h.2.1⟩
      exact Multiset.disjoint_left.mp h.2.2 hu (mem_cover.mpr ⟨c, hc, hu'⟩)

/-- The bag tiles the root block of order n: every unit is covered once, and
no block sticks out. -/
def Tiles (n : Nat) (m : Multiset Block) : Prop := cover m = units ⟨n, 0⟩

theorem mem_root_units (n u : Nat) : u ∈ units ⟨n, 0⟩ ↔ u < 2 ^ n := by
  simp [units]

theorem Tiles.nodup {n : Nat} {m : Multiset Block} (h : Tiles n m) : (cover m).Nodup := by
  rw [h]
  exact nodup_units _

theorem Tiles.countP {n : Nat} {m : Multiset Block} (h : Tiles n m) {u : Nat} (hu : u < 2 ^ n) :
    m.countP (fun b => u ∈ b.units) = 1 := by
  rw [← count_cover, h]
  exact Multiset.count_eq_one_of_mem (nodup_units _) ((mem_root_units n u).mpr hu)

theorem Tiles.sum_sizes {n : Nat} {m : Multiset Block} (h : Tiles n m) :
    (m.map fun b => 2 ^ b.order).sum = 2 ^ n := by
  rw [← card_cover, h, card_units]

theorem Tiles.of_cover_eq {n : Nat} {m k : Multiset Block} (h : Tiles n m) (hc : cover k = cover m) :
    Tiles n k := hc.trans h

theorem Tiles.inside {n : Nat} {m : Multiset Block} (h : Tiles n m) {b : Block} (hb : b ∈ m) : b.Inside n := by
  obtain ⟨k, rfl⟩ := Multiset.exists_cons_of_mem hb
  have hsum := h.sum_sizes
  rw [Multiset.map_cons, Multiset.sum_cons] at hsum
  have hle : 2 ^ b.order ≤ 2 ^ n := by omega
  have hu : b.index * 2 ^ b.order ∈ units ⟨n, 0⟩ := by
    rw [← h]
    exact mem_cover.mpr ⟨b, hb, start_mem_units b⟩
  exact inside_of_unit_lt ((Nat.pow_le_pow_iff_right (by decide)).mp hle) (start_mem_units b)
    ((mem_root_units n _).mp hu)

theorem Tiles.notMem {n : Nat} {b c : Block} {m : Multiset Block} (h : Tiles n (b ::ₘ m)) {u : Nat}
    (hb : u ∈ b.units) (hc : u ∈ c.units) : c ∉ m := by
  intro hcm
  have hnd := h.nodup
  rw [cover_cons, Multiset.nodup_add] at hnd
  exact Multiset.disjoint_left.mp hnd.2.2 hb (mem_cover.mpr ⟨c, hcm, hc⟩)

theorem cover_children (o i : Nat) (m : Multiset Block) :
    cover (⟨o, i * 2 + 1⟩ ::ₘ ⟨o, i * 2⟩ ::ₘ m) = cover (⟨o + 1, i⟩ ::ₘ m) := by
  simp only [cover_cons, ← units_children o i]
  abel

theorem cover_parent (b : Block) (m : Multiset Block) :
    cover (b.parent ::ₘ m) = cover (b.buddy ::ₘ b ::ₘ m) := by
  simp only [cover_cons, ← units_add_buddy b]
  abel

theorem Tiles.root {n : Nat} : Tiles n {⟨n, 0⟩} := cover_singleton _

/-- No two buddies below the top order are both in the set. -/
def Coalesced (n : Nat) (F : Finset Block) : Prop := ∀ b ∈ F, b.order < n → b.buddy ∉ F

theorem Coalesced.subset {n : Nat} {F G : Finset Block} (h : Coalesced n F) (hG : G ⊆ F) : Coalesced n G :=
  fun b hb hlt hm => h b (hG hb) hlt (hG hm)

theorem Coalesced.insert {n : Nat} {F : Finset Block} (h : Coalesced n F) {b : Block}
    (hb : b.order < n → b.buddy ∉ F) : Coalesced n (insert b F) := by
  intro c hc hlt
  rw [Finset.mem_insert] at hc ⊢
  rcases hc with rfl | hc
  · rintro (he | hm)
    · exact buddy_ne _ he
    · exact hb hlt hm
  · rintro (he | hm)
    · have hcb : c = b.buddy := by rw [← show c.buddy = b from he, buddy_buddy]
      exact hb (by rw [hcb] at hlt; exact hlt) (hcb ▸ hc)
    · exact h c hc hlt hm

/-- In a coalesced set, a block all of whose units are covered lies inside one
member. -/
theorem exists_containing {n : Nat} {F : Finset Block} (hF : Coalesced n F) (o i : Nat) (ho : o ≤ n)
    (hcov : ∀ u ∈ units ⟨o, i⟩, u ∈ cover F.val) :
    ∃ c ∈ F, o ≤ c.order ∧ ∀ u ∈ units ⟨o, i⟩, u ∈ c.units := by
  induction o generalizing i with
  | zero =>
      obtain ⟨c, hc, hu⟩ := mem_cover.mp (hcov _ (start_mem_units ⟨0, i⟩))
      exact ⟨c, hc, Nat.zero_le _, fun v hv =>
        units_subset (Nat.zero_le _) (start_mem_units ⟨0, i⟩) hu hv⟩
  | succ o ih =>
      have hsplit := units_children o i
      have hleft (u : Nat) (hu : u ∈ units ⟨o, i * 2⟩) : u ∈ units ⟨o + 1, i⟩ := by
        rw [← hsplit]
        exact Multiset.mem_add.mpr (Or.inl hu)
      have hright (u : Nat) (hu : u ∈ units ⟨o, i * 2 + 1⟩) : u ∈ units ⟨o + 1, i⟩ := by
        rw [← hsplit]
        exact Multiset.mem_add.mpr (Or.inr hu)
      obtain ⟨c, hc, hco, hcu⟩ := ih (i * 2) (by omega) fun u hu => hcov u (hleft u hu)
      obtain ⟨d, hd, hdo, hdu⟩ := ih (i * 2 + 1) (by omega) fun u hu => hcov u (hright u hu)
      have hcl := hcu _ (start_mem_units ⟨o, i * 2⟩)
      have hdr := hdu _ (start_mem_units ⟨o, i * 2 + 1⟩)
      rcases Nat.lt_or_ge o c.order with hlt | hge
      · exact ⟨c, hc, hlt, fun v hv =>
          units_subset (b := ⟨o + 1, i⟩) hlt (hleft _ (start_mem_units ⟨o, i * 2⟩)) hcl hv⟩
      rcases Nat.lt_or_ge o d.order with hlt' | hge'
      · exact ⟨d, hd, hlt', fun v hv =>
          units_subset (b := ⟨o + 1, i⟩) hlt' (hright _ (start_mem_units ⟨o, i * 2 + 1⟩)) hdr hv⟩
      have hce : (⟨o, i * 2⟩ : Block) = c :=
        eq_of_order_eq (by simp only; omega) (start_mem_units ⟨o, i * 2⟩) hcl
      have hde : (⟨o, i * 2 + 1⟩ : Block) = d :=
        eq_of_order_eq (by simp only; omega) (start_mem_units ⟨o, i * 2 + 1⟩) hdr
      have hbud : c.buddy = d := by
        rw [← hce, ← hde]
        simp only [buddy, Block.mk.injEq, true_and]
        exact Nat.xor_one_of_even (by simp)
      exact absurd (hbud ▸ hd) (hF c hc (by rw [← hce]; simp only; omega))

/-- Only one coalesced set completes a given bag to a tiling. -/
theorem coalesced_unique {n : Nat} {L : Multiset Block} {F G : Finset Block}
    (hF : Tiles n (F.val + L)) (hG : Tiles n (G.val + L))
    (hcF : Coalesced n F) (hcG : Coalesced n G) (hoF : ∀ b ∈ F, b.order ≤ n) (hoG : ∀ b ∈ G, b.order ≤ n) :
    F = G := by
  have key {A B : Finset Block} (hA : Tiles n (A.val + L)) (hB : Tiles n (B.val + L))
      (hcB : Coalesced n B) (hoA : ∀ b ∈ A, b.order ≤ n) {b : Block} (hb : b ∈ A) :
      ∃ c ∈ B, b.order ≤ c.order ∧ ∀ u ∈ b.units, u ∈ c.units := by
    refine exists_containing hcB b.order b.index (hoA b hb) fun u hu => ?_
    have huA : u ∈ cover A.val := mem_cover.mpr ⟨b, hb, hu⟩
    have hnd := hA.nodup
    rw [cover_add, Multiset.nodup_add] at hnd
    have huB : u ∈ cover (B.val + L) := by
      rw [hB, ← hA, cover_add]
      exact Multiset.mem_add.mpr (Or.inl huA)
    rw [cover_add] at huB
    exact (Multiset.mem_add.mp huB).resolve_right (Multiset.disjoint_left.mp hnd.2.2 huA)
  have half {A B : Finset Block} (hA : Tiles n (A.val + L)) (hB : Tiles n (B.val + L))
      (hcA : Coalesced n A) (hcB : Coalesced n B) (hoA : ∀ b ∈ A, b.order ≤ n)
      (hoB : ∀ b ∈ B, b.order ≤ n) : A ⊆ B := by
    intro b hb
    obtain ⟨c, hc, hbc, hsub⟩ := key hA hB hcB hoA hb
    obtain ⟨d, hd, hcd, hsub'⟩ := key hB hA hcA hoB hc
    have hub := start_mem_units b
    have huc := hsub _ hub
    have hnd := hA.nodup
    rw [cover_add, Multiset.nodup_add] at hnd
    have hbd : b = d := eq_of_shared_unit hnd.1 hb hd hub (hsub' _ huc)
    have hbc' : b = c := eq_of_order_eq (by rw [← hbd] at hcd; omega) hub huc
    exact hbc' ▸ hc
  exact Finset.Subset.antisymm (half hF hG hcF hcG hoF hoG) (half hG hF hcG hcF hoG hoF)

theorem coalesced_root {n : Nat} {F : Finset Block} (hF : Tiles n F.val) (hc : Coalesced n F)
    (ho : ∀ b ∈ F, b.order ≤ n) : F = {⟨n, 0⟩} := by
  refine coalesced_unique (L := 0) (by simpa using hF) (by simpa using Tiles.root) hc ?_ ho ?_
  · intro b hb hlt
    rw [Finset.mem_singleton] at hb
    subst hb
    exact absurd hlt (lt_irrefl n)
  · intro b hb
    rw [Finset.mem_singleton] at hb
    exact (congrArg order hb).le

end ArenaAlligator.AlignedBlocks
