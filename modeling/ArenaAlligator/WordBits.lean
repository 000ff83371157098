import Mathlib.Data.Nat.Bitwise

namespace ArenaAlligator.WordBits

variable {w : Nat}

theorem getLsbD_mask {k : Nat} (hk : k < w) (j : Nat) : (1#w <<< k).getLsbD j = decide (j = k) := by
  rw [BitVec.getLsbD_shiftLeft, BitVec.getLsbD_one]
  by_cases h : j = k
  · subst h; simp [hk]; omega
  · rcases Nat.lt_or_gt_of_ne h with h' | h'
    · simp [h, h']
    · simp [h, show j - k ≠ 0 by omega]

theorem and_mask_ne_zero {k : Nat} (hk : k < w) (x : BitVec w) :
    x &&& 1#w <<< k ≠ 0#w ↔ x.getLsbD k = true := by
  constructor
  · intro h
    by_contra hx
    apply h
    apply BitVec.eq_of_getLsbD_eq
    intro i hi
    by_cases hik : i = k
    · subst hik; simp [hx]
    · rw [BitVec.getLsbD_and, getLsbD_mask hk]
      simp [hik]
  · intro hx h
    have hb := congrArg (fun y => y.getLsbD k) h
    simp [getLsbD_mask hk, hx] at hb

theorem getLsbD_clear {k : Nat} (hk : k < w) (x : BitVec w) (j : Nat) :
    (x &&& ~~~(1#w <<< k)).getLsbD j = (x.getLsbD j && decide (j ≠ k)) := by
  rw [BitVec.getLsbD_and, BitVec.getLsbD_not, getLsbD_mask hk]
  rcases Nat.lt_or_ge j w with hj | hj
  · simp [hj]
  · simp [BitVec.getLsbD_of_ge x j hj]

theorem getLsbD_set {k : Nat} (hk : k < w) (x : BitVec w) (j : Nat) :
    (x ||| 1#w <<< k).getLsbD j = (x.getLsbD j || decide (j = k)) := by
  rw [BitVec.getLsbD_or, getLsbD_mask hk]

theorem ne_zero_iff (x : BitVec w) : x ≠ 0#w ↔ ∃ j, j < w ∧ x.getLsbD j = true := by
  constructor
  · intro h
    by_contra hn
    apply h
    apply BitVec.eq_of_getLsbD_eq
    intro i hi
    have := fun hx => hn ⟨i, hi, hx⟩
    simpa using this
  · rintro ⟨j, -, hj⟩ rfl
    simp at hj

theorem getLsbD_lowMask {k : Nat} (hk : k < w) (j : Nat) :
    (1#w <<< k - 1#w).getLsbD j = decide (j < k) := by
  have hw : 0 < w := by omega
  have hp : 2 ^ k < 2 ^ w := Nat.pow_lt_pow_right (by decide) hk
  have h1 : 1 < 2 ^ w := Nat.one_lt_two_pow (by omega)
  have hm : (1#w <<< k).toNat = 2 ^ k := by
    rw [BitVec.toNat_shiftLeft, BitVec.toNat_ofNat, Nat.mod_eq_of_lt h1, Nat.shiftLeft_eq, Nat.one_mul,
      Nat.mod_eq_of_lt hp]
  have hn : (1#w <<< k - 1#w).toNat = 2 ^ k - 1 := by
    rw [BitVec.toNat_sub, hm, BitVec.toNat_ofNat, Nat.mod_eq_of_lt h1]
    have := Nat.two_pow_pos k
    rw [show 2 ^ w - 1 + 2 ^ k = 2 ^ k - 1 + 2 ^ w by omega, Nat.add_mod_right, Nat.mod_eq_of_lt (by omega)]
  rw [BitVec.getLsbD, hn, Nat.testBit_two_pow_sub_one]

theorem getLsbD_ctz {x : BitVec w} (h : x ≠ 0#w) : x.getLsbD x.ctz.toNat = true :=
  BitVec.getLsbD_true_ctz_of_ne_zero h

theorem ctz_lt {x : BitVec w} (h : x ≠ 0#w) : x.ctz.toNat < w := by
  by_contra hge
  have := getLsbD_ctz h
  rw [BitVec.getLsbD_of_ge x _ (by omega)] at this
  exact absurd this (by decide)

end ArenaAlligator.WordBits
