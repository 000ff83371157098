import ArenaAlligator.WordBits

namespace ArenaAlligator

/-- A machine word of the 64-bit targets: usize, and the Word of the bitmaps. -/
abbrev Word := BitVec 64

def usizeBits : Nat := 64

def usizeMax : Nat := 2 ^ usizeBits - 1

def isizeMax : Nat := 2 ^ (usizeBits - 1) - 1

structure NonZeroUsize where
  get : Nat
  pos : 0 < get
  le_max : get ≤ usizeMax

def NonZeroUsize.max (m n : NonZeroUsize) : NonZeroUsize := if m.get ≤ n.get then n else m

theorem NonZeroUsize.max_get (m n : NonZeroUsize) : (NonZeroUsize.max m n).get = Max.max m.get n.get := by
  unfold NonZeroUsize.max
  split
  · next h => exact (max_eq_right h).symm
  · next h => exact (max_eq_left (not_le.mp h).le).symm

namespace Usize

/-- fetch_add on an AtomicUsize, which wraps. -/
def fetchAdd (x n : Nat) : Nat := (x + n) % 2 ^ usizeBits

/-- fetch_sub on an AtomicUsize, which wraps below zero. -/
def fetchSub (x n : Nat) : Nat := (x + (2 ^ usizeBits - n)) % 2 ^ usizeBits

def leastPowerOfTwo (n : Nat) : Nat := if n ≤ 1 then 1 else 2 ^ ((n - 1).log2 + 1)

/-- usize::next_power_of_two in release mode: the result wraps to 0 above
2^63. -/
def nextPowerOfTwo (n : Nat) : Nat := leastPowerOfTwo n % 2 ^ usizeBits

/-- The left shift of usize in release mode: the amount is taken modulo the
width, and the bits shifted out are lost. -/
def shl (x n : Nat) : Nat := (x <<< (n % usizeBits)) % 2 ^ usizeBits

def checked (n : Nat) : Option Nat := if n ≤ usizeMax then some n else none

def checkedAdd (x y : Nat) : Option Nat := checked (x + y)

def checkedMul (x y : Nat) : Option Nat := checked (x * y)

def checkedNextPowerOfTwo (n : Nat) : Option Nat := checked (leastPowerOfTwo n)

def isPowerOfTwo (n : Nat) : Bool := decide (n ≠ 0 ∧ n &&& (n - 1) = 0)

def leadingZeros (n : Nat) : Nat := (BitVec.ofNat usizeBits n).clz.toNat

/-- usize::trailing_zeros; 64 for zero. -/
def trailingZeros (n : Nat) : Nat := (BitVec.ofNat usizeBits n).ctz.toNat

theorem leastPowerOfTwo_isPow (n : Nat) : ∃ k, leastPowerOfTwo n = 2 ^ k := by
  unfold leastPowerOfTwo
  split
  · exact ⟨0, rfl⟩
  · exact ⟨_, rfl⟩

theorem le_leastPowerOfTwo (n : Nat) : n ≤ leastPowerOfTwo n := by
  unfold leastPowerOfTwo
  split
  · assumption
  · have := Nat.lt_log2_self (n := n - 1)
    omega

theorem leastPowerOfTwo_le {n k : Nat} (h : n ≤ 2 ^ k) : leastPowerOfTwo n ≤ 2 ^ k := by
  unfold leastPowerOfTwo
  split
  · exact Nat.one_le_two_pow
  · have hlt : n - 1 < 2 ^ k := by omega
    exact Nat.pow_le_pow_right (by decide) ((Nat.log2_lt (by omega)).mpr hlt)

theorem leastPowerOfTwo_two_pow (k : Nat) : leastPowerOfTwo (2 ^ k) = 2 ^ k :=
  (leastPowerOfTwo_le (le_refl _)).antisymm (le_leastPowerOfTwo _)

theorem leastPowerOfTwo_mono {m n : Nat} (h : m ≤ n) : leastPowerOfTwo m ≤ leastPowerOfTwo n := by
  obtain ⟨k, hk⟩ := leastPowerOfTwo_isPow n
  rw [hk]
  exact leastPowerOfTwo_le (h.trans (hk ▸ le_leastPowerOfTwo n))

theorem leastPowerOfTwo_max (m n : Nat) : leastPowerOfTwo (max (leastPowerOfTwo m) n) = leastPowerOfTwo (max m n) := by
  have hle := le_leastPowerOfTwo m
  refine Nat.le_antisymm ?_ (leastPowerOfTwo_mono (by omega))
  obtain ⟨k, hk⟩ := leastPowerOfTwo_isPow (max m n)
  have hm : leastPowerOfTwo m ≤ 2 ^ k := hk ▸ leastPowerOfTwo_mono (le_max_left m n)
  have hn : n ≤ 2 ^ k := hk ▸ (le_max_right m n).trans (le_leastPowerOfTwo _)
  rw [hk]
  exact leastPowerOfTwo_le (max_le hm hn)

theorem le_top_of_isPow {n : Nat} (hpow : ∃ k, n = 2 ^ k) (h : n ≤ usizeMax) : n ≤ 2 ^ 63 := by
  obtain ⟨k, rfl⟩ := hpow
  have hlt : 2 ^ k < 2 ^ 64 := Nat.lt_of_le_pred (by decide) h
  have := (Nat.pow_lt_pow_iff_right (by decide)).mp hlt
  exact Nat.pow_le_pow_right (by decide) (by omega)

theorem leastPowerOfTwo_blocks {t j : Nat} (h : 2 ^ j ≤ t) :
    leastPowerOfTwo ((t + (2 ^ j - 1)) / 2 ^ j) * 2 ^ j = leastPowerOfTwo t := by
  have hpos : 0 < 2 ^ j := Nat.two_pow_pos j
  obtain ⟨e, he⟩ := leastPowerOfTwo_isPow t
  obtain ⟨i, hi⟩ := leastPowerOfTwo_isPow ((t + (2 ^ j - 1)) / 2 ^ j)
  have hje : j ≤ e := (Nat.pow_le_pow_iff_right (by decide)).mp (h.trans (he ▸ le_leastPowerOfTwo t))
  apply Nat.le_antisymm
  · have hblocks : (t + (2 ^ j - 1)) / 2 ^ j ≤ 2 ^ (e - j) := by
      refine Nat.le_of_lt_succ ((Nat.div_lt_iff_lt_mul hpos).mpr ?_)
      have ht : t ≤ 2 ^ (e - j) * 2 ^ j := by
        rw [← pow_add, Nat.sub_add_cancel hje, ← he]
        exact le_leastPowerOfTwo t
      rw [Nat.succ_mul]
      omega
    calc leastPowerOfTwo ((t + (2 ^ j - 1)) / 2 ^ j) * 2 ^ j ≤ 2 ^ (e - j) * 2 ^ j :=
          Nat.mul_le_mul_right _ (leastPowerOfTwo_le hblocks)
      _ = leastPowerOfTwo t := by rw [← pow_add, Nat.sub_add_cancel hje, he]
  · rw [hi, ← pow_add]
    refine leastPowerOfTwo_le ?_
    have hle := le_leastPowerOfTwo ((t + (2 ^ j - 1)) / 2 ^ j)
    rw [hi, Nat.le_iff_lt_add_one, Nat.div_lt_iff_lt_mul hpos, Nat.succ_mul] at hle
    rw [pow_add]
    omega

theorem fetchAdd_mod (x k : Nat) : fetchAdd (x % 2 ^ usizeBits) k = (x + k) % 2 ^ usizeBits := Nat.mod_add_mod x _ k

theorem fetchSub_add (x y : Nat) (h : x + y < 2 ^ usizeBits) : fetchSub (x + y) x = y := by
  rw [fetchSub, show x + y + (2 ^ usizeBits - x) = y + 2 ^ usizeBits by omega, Nat.add_mod_right]
  exact Nat.mod_eq_of_lt (by omega)

/-- The difference of two totals whose counters may have wrapped. -/
theorem fetchSub_mod {x y : Nat} (h : y < 2 ^ usizeBits) :
    fetchSub ((x + y) % 2 ^ usizeBits) (x % 2 ^ usizeBits) = y := by
  simp only [fetchSub, usizeBits] at h ⊢
  omega

theorem checked_eq_some {n m : Nat} : checked n = some m ↔ n ≤ usizeMax ∧ n = m := by
  unfold checked
  split <;> simp_all

theorem checked_of_le {n : Nat} (h : n ≤ usizeMax) : checked n = some n := if_pos h

theorem checked_of_lt {n : Nat} (h : usizeMax < n) : checked n = none := if_neg (not_le.mpr h)

theorem isPowerOfTwo_iff {n : Nat} : isPowerOfTwo n = true ↔ ∃ k, n = 2 ^ k := by
  rw [isPowerOfTwo, decide_eq_true_eq]
  exact Nat.ne_zero_and_sub_one_eq_zero_iff_isPowerOfTwo

/-- Above 2^63 there is no power of two to round up to. -/
theorem nextPowerOfTwo_wraps {n : Nat} (hgt : 2 ^ 63 < n) (hlt : n ≤ usizeMax) : nextPowerOfTwo n = 0 := by
  obtain ⟨k, hk⟩ := leastPowerOfTwo_isPow n
  have hle : n ≤ 2 ^ 64 := hlt.trans (by decide)
  have h63 : 63 < k := by
    refine (Nat.pow_lt_pow_iff_right (by decide : 1 < 2)).mp ?_
    exact hgt.trans_le (hk ▸ le_leastPowerOfTwo n)
  have h64 : k ≤ 64 := (Nat.pow_le_pow_iff_right (by decide)).mp (hk ▸ leastPowerOfTwo_le hle)
  obtain rfl : k = 64 := by omega
  rw [nextPowerOfTwo, hk]
  rfl

theorem nextPowerOfTwo_eq {n : Nat} (h : n ≤ 2 ^ 63) : nextPowerOfTwo n = leastPowerOfTwo n :=
  Nat.mod_eq_of_lt ((leastPowerOfTwo_le h).trans_lt (by decide))

theorem shl_two_pow {j n : Nat} (h : j + n < usizeBits) : shl (2 ^ j) n = 2 ^ (j + n) := by
  rw [shl, Nat.mod_eq_of_lt (by omega : n < usizeBits), Nat.shiftLeft_eq, ← pow_add,
    Nat.mod_eq_of_lt (Nat.pow_lt_pow_right (by decide) h)]

theorem shl_zero_left (n : Nat) : shl 0 n = 0 := by simp [shl]

theorem two_pow_leadingZeros {n : Nat} (hpos : 0 < n) (hle : n ≤ usizeMax) :
    ∃ j, j < usizeBits ∧ usizeBits - 1 - leadingZeros n = j ∧ 2 ^ j ≤ n ∧ n < 2 ^ (j + 1) := by
  have hval : (BitVec.ofNat usizeBits n).toNat = n := by
    rw [BitVec.toNat_ofNat, Nat.mod_eq_of_lt (Nat.lt_of_le_pred (by decide) hle)]
  have hne : BitVec.ofNat usizeBits n ≠ BitVec.ofNat usizeBits 0 := by
    intro h
    rw [h] at hval
    exact hpos.ne hval
  have hlow := BitVec.two_pow_sub_clz_le_toNat_of_ne_zero (by decide) hne
  have hhigh := BitVec.toNat_lt_two_pow_sub_clz (x := BitVec.ofNat usizeBits n)
  rw [hval] at hlow hhigh
  refine ⟨usizeBits - 1 - leadingZeros n, ?_, rfl, hlow, hhigh.trans_le ?_⟩
  · rw [usizeBits]
    omega
  · refine Nat.pow_le_pow_right (by decide) ?_
    rw [leadingZeros]
    omega

theorem trailingZeros_two_pow {k : Nat} (hk : k < usizeBits) : trailingZeros (2 ^ k) = k := by
  have hbit (j : Nat) : (BitVec.ofNat usizeBits (2 ^ k)).getLsbD j = (decide (j < usizeBits) && decide (k = j)) := by
    rw [BitVec.getLsbD_ofNat, Nat.testBit_two_pow]
  have hne : BitVec.ofNat usizeBits (2 ^ k) ≠ BitVec.ofNat usizeBits 0 :=
    (WordBits.ne_zero_iff _).mpr ⟨k, hk, by rw [hbit]; simp [hk]⟩
  have hctz := WordBits.getLsbD_ctz hne
  rw [hbit, Bool.and_eq_true, decide_eq_true_eq, decide_eq_true_eq] at hctz
  exact hctz.2.symm

end Usize

end ArenaAlligator
