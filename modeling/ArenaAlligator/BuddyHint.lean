import ArenaAlligator.Usize
import Mathlib.Order.Bounds.Basic

namespace ArenaAlligator

open Usize

inductive BuildError
  | sizeOverflow
  | invalidAlignment
  | invalidGeometry
  | slotSizeExceedsBacking
  | zeroUsableSlots
  | nullPointer
deriving DecidableEq

inductive BuddyHint
  | minAlloc (size : Nat)
deriving DecidableEq

namespace BuddyHint

def prevPowerOfTwo (n : Nat) : Nat := if n = 0 then 0 else shl 1 (usizeBits - 1 - leadingZeros n)

def minBlock (size blockLen : Nat) : Option Nat :=
  let up := nextPowerOfTwo size
  if up > blockLen then
    let down := prevPowerOfTwo size
    if down = 0 ∨ down > blockLen then none else some down
  else some up

/-- The loop that looks for the top order. Nothing bounds it in the source: it
is run with fuel, and gives none when the fuel is used up. -/
def orderLoop (block blockLen : Nat) : Nat → Nat → Option Nat
  | 0, _ => none
  | fuel + 1, maxOrder =>
      let above := fetchAdd maxOrder 1
      if shl block above ≤ blockLen then orderLoop block blockLen fuel above else some maxOrder

def resolve (fuel : Nat) : BuddyHint → Nat → Option (Except BuildError (Nat × Nat))
  | .minAlloc size, blockLen =>
      match minBlock size blockLen with
      | none => some (.error .zeroUsableSlots)
      | some block => (orderLoop block blockLen fuel 0).map fun maxOrder =>
          if shl block maxOrder = 0 then .error .zeroUsableSlots else .ok (block, maxOrder)

def PowerOfTwo : Set Nat := Set.range fun j => 2 ^ j

theorem isLeast_leastPowerOfTwo (n : Nat) : IsLeast {x | x ∈ PowerOfTwo ∧ n ≤ x} (leastPowerOfTwo n) := by
  obtain ⟨k, hk⟩ := leastPowerOfTwo_isPow n
  refine ⟨⟨⟨k, hk.symm⟩, le_leastPowerOfTwo n⟩, ?_⟩
  rintro _ ⟨⟨j, rfl⟩, hle⟩
  exact leastPowerOfTwo_le hle

theorem prevPowerOfTwo_eq {n : Nat} (hpos : 0 < n) (hle : n ≤ usizeMax) :
    ∃ j, j < usizeBits ∧ prevPowerOfTwo n = 2 ^ j ∧ IsGreatest {x | x ∈ PowerOfTwo ∧ x ≤ n} (2 ^ j) := by
  obtain ⟨j, hj, hlz, hlow, hhigh⟩ := two_pow_leadingZeros hpos hle
  refine ⟨j, hj, ?_, ⟨⟨j, rfl⟩, hlow⟩, ?_⟩
  · rw [prevPowerOfTwo, if_neg hpos.ne', hlz]
    have h := shl_two_pow (j := 0) (n := j) (by omega)
    rwa [pow_zero, Nat.zero_add] at h
  · rintro _ ⟨⟨i, rfl⟩, hi⟩
    have := (Nat.pow_lt_pow_iff_right (by decide)).mp (hi.trans_lt hhigh)
    exact Nat.pow_le_pow_right (by decide) (by omega)

theorem orderLoop_eq {j blockLen top : Nat} (htop : 2 ^ (j + top) ≤ blockLen) (hlt : blockLen < 2 ^ (j + (top + 1)))
    (hbits : j + (top + 1) < usizeBits) {fuel maxOrder : Nat} (hle : maxOrder ≤ top) (hfuel : top - maxOrder < fuel) :
    orderLoop (2 ^ j) blockLen fuel maxOrder = some top := by
  induction fuel generalizing maxOrder with
  | zero => omega
  | succ fuel ih =>
      have habove : fetchAdd maxOrder 1 = maxOrder + 1 :=
        Nat.mod_eq_of_lt ((by omega : maxOrder + 1 < usizeBits).trans Nat.lt_two_pow_self)
      rw [orderLoop, habove, shl_two_pow (by omega)]
      rcases Nat.lt_or_eq_of_le hle with hmore | rfl
      · have hfits : 2 ^ (j + (maxOrder + 1)) ≤ blockLen :=
          (Nat.pow_le_pow_right (by decide) (by omega)).trans htop
        rw [if_pos hfits]
        exact ih hmore (by omega)
      · rw [if_neg (not_le.mpr hlt)]

theorem orderLoop_zero (blockLen fuel maxOrder : Nat) : orderLoop 0 blockLen fuel maxOrder = none := by
  induction fuel generalizing maxOrder with
  | zero => rfl
  | succ fuel ih => rw [orderLoop, shl_zero_left, if_pos (Nat.zero_le _), ih]

theorem exists_orderLoop {j blockLen : Nat} (hfits : 2 ^ j ≤ blockLen) (hlen : blockLen ≤ isizeMax) :
    ∃ top, 2 ^ j * 2 ^ top ≤ blockLen ∧ blockLen < 2 ^ j * 2 ^ (top + 1) ∧
      shl (2 ^ j) top = 2 ^ j * 2 ^ top ∧ shl (2 ^ j) (top + 1) = 2 ^ j * 2 ^ (top + 1) ∧
      ∀ fuel, top < fuel → orderLoop (2 ^ j) blockLen fuel 0 = some top := by
  have hne : blockLen ≠ 0 := (Nat.two_pow_pos j |>.trans_le hfits).ne'
  have hlow : 2 ^ blockLen.log2 ≤ blockLen := Nat.log2_self_le hne
  have hhigh : blockLen < 2 ^ (blockLen.log2 + 1) := Nat.lt_log2_self
  have hlog : blockLen.log2 < 63 := (Nat.log2_lt hne).mpr (Nat.lt_of_le_pred (by decide) hlen)
  have hj : j < blockLen.log2 + 1 := (Nat.pow_lt_pow_iff_right (by decide)).mp (hfits.trans_lt hhigh)
  obtain ⟨top, htop⟩ := Nat.exists_eq_add_of_le (Nat.le_of_lt_succ hj)
  have hbits : j + (top + 1) < usizeBits := by
    rw [usizeBits]
    omega
  rw [htop] at hlow
  rw [htop, Nat.add_assoc] at hhigh
  refine ⟨top, pow_add 2 j top ▸ hlow, pow_add 2 j (top + 1) ▸ hhigh, ?_, ?_, fun fuel hfuel => ?_⟩
  · rw [shl_two_pow (by omega), pow_add]
  · rw [shl_two_pow hbits, pow_add]
  · exact orderLoop_eq hlow hhigh hbits (Nat.zero_le _) (by omega)

/-- The answer that the docs of the hint promise: the largest geometry of
rounded blocks that fits, or an error when no block fits. Here up and down are
the powers of two next to the hint. -/
structure Resolved (size blockLen : Nat) (r : Except BuildError (Nat × Nat)) : Prop where
  error_or_ok : r = .error .zeroUsableSlots ∨ ∃ m k, r = .ok (m, k)
  error_iff : ∀ down, IsGreatest {x | x ∈ PowerOfTwo ∧ x ≤ size} down → (r = .error .zeroUsableSlots ↔ blockLen < down)
  rounded : ∀ m k, r = .ok (m, k) → ∀ up down, IsLeast {x | x ∈ PowerOfTwo ∧ size ≤ x} up →
    IsGreatest {x | x ∈ PowerOfTwo ∧ x ≤ size} down → m = if up ≤ blockLen then up else down
  maximal : ∀ m k, r = .ok (m, k) → m * 2 ^ k ≤ blockLen ∧ blockLen < m * 2 ^ (k + 1) ∧
    shl m k = m * 2 ^ k ∧ shl m (k + 1) = m * 2 ^ (k + 1)
  inside : ∀ m k, r = .ok (m, k) → ∀ o ≤ k, ∀ i < 2 ^ (k - o), i * (m * 2 ^ o) + m * 2 ^ o ≤ blockLen

/-- From some amount of fuel on, resolve gives one answer, and it is the one
promised. -/
def Resolves (size blockLen : Nat) : Prop :=
  ∃ fuel r, (∀ n, fuel ≤ n → resolve n (.minAlloc size) blockLen = some r) ∧ Resolved size blockLen r

theorem block_inside {m k blockLen o i : Nat} (hle : m * 2 ^ k ≤ blockLen) (ho : o ≤ k) (hi : i < 2 ^ (k - o)) :
    i * (m * 2 ^ o) + m * 2 ^ o ≤ blockLen := by
  refine le_trans ?_ hle
  calc i * (m * 2 ^ o) + m * 2 ^ o = (i + 1) * (m * 2 ^ o) := (Nat.succ_mul _ _).symm
    _ ≤ 2 ^ (k - o) * (m * 2 ^ o) := Nat.mul_le_mul_right _ hi
    _ = m * 2 ^ k := by rw [mul_left_comm, ← pow_add, Nat.sub_add_cancel ho]

theorem resolved_error {size blockLen down : Nat} (hdown : IsGreatest {x | x ∈ PowerOfTwo ∧ x ≤ size} down)
    (hlt : blockLen < down) : Resolved size blockLen (.error .zeroUsableSlots) where
  error_or_ok := Or.inl rfl
  error_iff d hd := by
    rw [hd.unique hdown]
    exact iff_of_true rfl hlt
  rounded _ _ h := by cases h
  maximal _ _ h := by cases h
  inside _ _ h := by cases h

theorem resolves_error {size blockLen down : Nat} (hdown : IsGreatest {x | x ∈ PowerOfTwo ∧ x ≤ size} down)
    (hlt : blockLen < down) (hblock : minBlock size blockLen = none) : Resolves size blockLen :=
  ⟨0, _, fun n _ => by simp only [resolve, hblock], resolved_error hdown hlt⟩

theorem resolves_ok {size blockLen j down : Nat} (hlen : blockLen ≤ isizeMax)
    (hdown : IsGreatest {x | x ∈ PowerOfTwo ∧ x ≤ size} down) (hfits : 2 ^ j ≤ blockLen) (hle : down ≤ blockLen)
    (hround : 2 ^ j = if leastPowerOfTwo size ≤ blockLen then leastPowerOfTwo size else down)
    (hblock : minBlock size blockLen = some (2 ^ j)) : Resolves size blockLen := by
  obtain ⟨top, hlow, hhigh, hshl, hshl', hloop⟩ := exists_orderLoop hfits hlen
  have hne : shl (2 ^ j) top ≠ 0 := by
    rw [hshl]
    exact (Nat.mul_pos (Nat.two_pow_pos j) (Nat.two_pow_pos top)).ne'
  refine ⟨top + 1, .ok (2 ^ j, top), fun n hn => ?_, ?_⟩
  · simp only [resolve, hblock, hloop n hn, Option.map_some, if_neg hne]
  refine ⟨Or.inr ⟨_, _, rfl⟩, fun d hd => ?_, ?_, ?_, ?_⟩
  · rw [hd.unique hdown]
    exact iff_of_false (fun h => by cases h) (not_lt.mpr hle)
  · rintro _ _ ⟨⟩ up d hup hd
    rw [hup.unique (isLeast_leastPowerOfTwo size), hd.unique hdown, hround]
  · rintro _ _ ⟨⟩
    exact ⟨hlow, hhigh, hshl, hshl'⟩
  · rintro _ _ ⟨⟩ o ho i hi
    exact block_inside hlow ho hi

theorem resolves_of_le {size blockLen : Nat} (hpos : 0 < size) (hsize : size ≤ 2 ^ 63) (hlen : blockLen ≤ isizeMax) :
    Resolves size blockLen := by
  obtain ⟨j, -, hprev, hdown⟩ := prevPowerOfTwo_eq hpos (hsize.trans (by decide))
  obtain ⟨k, hk⟩ := leastPowerOfTwo_isPow size
  have hup := nextPowerOfTwo_eq hsize
  have hzero : ¬2 ^ j = 0 := (Nat.two_pow_pos j).ne'
  by_cases hfits : leastPowerOfTwo size ≤ blockLen
  · have hle : 2 ^ j ≤ blockLen := hdown.1.2.trans ((le_leastPowerOfTwo size).trans hfits)
    refine resolves_ok (j := k) hlen hdown (hk ▸ hfits) hle (by rw [if_pos hfits, hk]) ?_
    simp only [minBlock, hup, gt_iff_lt, if_neg (not_lt.mpr hfits)]
    rw [hk]
  · by_cases hle : 2 ^ j ≤ blockLen
    · refine resolves_ok (j := j) hlen hdown hle hle (by rw [if_neg hfits]) ?_
      simp only [minBlock, hup, gt_iff_lt, if_pos (not_le.mp hfits), hprev, hzero, not_lt.mpr hle, or_self, if_false]
    · refine resolves_error hdown (not_le.mp hle) ?_
      simp only [minBlock, hup, gt_iff_lt, if_pos (not_le.mp hfits), hprev, if_pos (Or.inr (not_le.mp hle))]

/-- Above 2^63 the rounded block is 0 and the loop never ends. -/
theorem resolve_diverges {size : Nat} (hgt : 2 ^ 63 < size) (hsize : size ≤ usizeMax) (blockLen fuel : Nat) :
    resolve fuel (.minAlloc size) blockLen = none := by
  have hblock : minBlock size blockLen = some 0 := by
    simp only [minBlock, nextPowerOfTwo_wraps hgt hsize, gt_iff_lt, Nat.not_lt_zero, if_false]
  simp only [resolve, hblock, orderLoop_zero, Option.map_none]

/-- The hint is resolved as promised, and at all, for exactly the sizes up to
2^63. -/
theorem resolve_maximal_iff (size blockLen : Nat) (hpos : 0 < size) (hsize : size ≤ usizeMax)
    (hlen : blockLen ≤ isizeMax) : Resolves size blockLen ↔ size ≤ 2 ^ 63 := by
  refine ⟨fun h => ?_, fun h => resolves_of_le hpos h hlen⟩
  by_contra hgt
  obtain ⟨fuel, r, hr, -⟩ := h
  have hnone := resolve_diverges (not_le.mp hgt) hsize blockLen fuel
  rw [hr fuel le_rfl] at hnone
  cases hnone

theorem resolve_maximal_small :
    resolve 64 (.minAlloc 100) 5000 = some (.ok (128, 5)) ∧ Resolves 100 5000 :=
  ⟨by rfl, (resolve_maximal_iff 100 5000 (by decide) (by decide) (by decide)).mpr (by decide)⟩

theorem oversized_hint_diverges :
    2 ^ 63 + 1 ≤ usizeMax ∧ 4096 ≤ isizeMax ∧
    ¬∃ fuel, (resolve fuel (.minAlloc (2 ^ 63 + 1)) 4096).isSome = true := by
  refine ⟨by decide, by decide, ?_⟩
  rintro ⟨fuel, h⟩
  rw [resolve_diverges (by decide) (by decide)] at h
  cases h

end BuddyHint

end ArenaAlligator
