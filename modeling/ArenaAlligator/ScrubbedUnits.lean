import Mathlib.Data.Nat.Basic
import Mathlib.Order.Basic

namespace ArenaAlligator.ScrubbedUnits

variable {α : Type} [Zero α]

def ZeroOn (m : Nat → α) (lo hi : Nat) : Prop := ∀ i, lo ≤ i → i < hi → m i = 0

/-- Memory in units of one size. A unit that is marked and that nobody owns
holds only zeros. The mark of an owned unit says nothing. -/
def Clean (size : Nat) (marked owned : Nat → Prop) (m : Nat → α) : Prop :=
  ∀ u, marked u → ¬owned u → ZeroOn m (u * size) ((u + 1) * size)

variable {size p q : Nat} {marked marked' owned owned' : Nat → Prop} {m m' : Nat → α}

theorem Clean.own (h : Clean size marked owned m) (hsub : ∀ u, owned u → owned' u) : Clean size marked owned' m :=
  fun u hu hfree => h u hu fun ho => hfree (hsub u ho)

theorem outside_of_unit {u i : Nat} (hu : u < p ∨ q ≤ u) (hlo : u * size ≤ i) (hhi : i < (u + 1) * size) :
    i < p * size ∨ q * size ≤ i := by
  cases hu with
  | inl hlt => exact Or.inl (hhi.trans_le (Nat.mul_le_mul_right size hlt))
  | inr hge => exact Or.inr ((Nat.mul_le_mul_right size hge).trans hlo)

theorem Clean.store (h : Clean size marked owned m) (hown : ∀ u, p ≤ u → u < q → owned u)
    (hout : ∀ i, i < p * size ∨ q * size ≤ i → m' i = m i) : Clean size marked owned m' := by
  intro u hu hfree i hlo hhi
  have hside : u < p ∨ q ≤ u := by
    by_contra hin
    exact hfree (hown u (by omega) (by omega))
  rw [hout i (outside_of_unit hside hlo hhi)]
  exact h u hu hfree i hlo hhi

theorem Clean.scrub (h : Clean size marked owned m) (hzero : ZeroOn m' (p * size) (q * size))
    (hout : ∀ i, i < p * size ∨ q * size ≤ i → m' i = m i) (hmark : ∀ u, marked' u → marked u ∨ p ≤ u ∧ u < q)
    (hown : ∀ u, owned u → owned' u ∨ p ≤ u ∧ u < q) : Clean size marked' owned' m' := by
  intro u hu hfree i hlo hhi
  by_cases hin : p ≤ u ∧ u < q
  · apply hzero i
    · exact (Nat.mul_le_mul_right size hin.1).trans hlo
    · exact hhi.trans_le (Nat.mul_le_mul_right size hin.2)
  · have hmarked : marked u := (hmark u hu).resolve_right hin
    have hfree' : ¬owned u := fun ho => (hown u ho).elim hfree hin
    rw [hout i (outside_of_unit (by omega) hlo hhi)]
    exact h u hmarked hfree' i hlo hhi

theorem Clean.zeroOn (h : Clean size marked owned m) (hin : ∀ u, p ≤ u → u < q → marked u ∧ ¬owned u) :
    ZeroOn m (p * size) (q * size) := by
  intro i hlo hhi
  have hsize : 0 < size := by
    by_contra hzero
    simp [Nat.eq_zero_of_not_pos hzero] at hhi
  have hp : p ≤ i / size := (Nat.le_div_iff_mul_le hsize).mpr hlo
  have hq : i / size < q := (Nat.div_lt_iff_lt_mul hsize).mpr hhi
  obtain ⟨hmarked, hfree⟩ := hin (i / size) hp hq
  apply h (i / size) hmarked hfree i
  · exact Nat.div_mul_le_self i size
  · exact Nat.lt_mul_of_div_lt (Nat.lt_succ_self _) hsize

end ArenaAlligator.ScrubbedUnits
