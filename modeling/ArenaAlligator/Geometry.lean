import ArenaAlligator.BuddyArena
import ArenaAlligator.BuddyHint

namespace ArenaAlligator

open Usize BuddyHint

def okOr {α : Type} (o : Option α) (e : BuildError) : Except BuildError α :=
  match o with
  | some x => .ok x
  | none => .error e

def snapToValidGeometry (totalHint minBlock : Nat) : Except BuildError (Nat × Nat) := do
  let t := max totalHint minBlock
  let sum ← okOr (checkedAdd t (minBlock - 1)) .sizeOverflow
  let pow2Blocks ← okOr (checkedNextPowerOfTwo (sum / minBlock)) .sizeOverflow
  let total ← okOr (checkedMul pow2Blocks minBlock) .sizeOverflow
  return (total, trailingZeros pow2Blocks)

def validateBuddyGeometry (totalSize minBlockSize : Nat) : Option Nat :=
  if ¬isPowerOfTwo minBlockSize then none
  else if totalSize < minBlockSize then none
  else if totalSize % minBlockSize ≠ 0 then none
  else
    let blocks := totalSize / minBlockSize
    if ¬isPowerOfTwo blocks then none
    else
      let maxOrder := trailingZeros blocks
      if maxOrder ≥ usizeBits then none else some maxOrder

theorem snap_of_le {hint j : Nat} (h : leastPowerOfTwo (max hint (2 ^ j)) ≤ usizeMax) :
    ∃ k, snapToValidGeometry hint (2 ^ j) = .ok (2 ^ j <<< k, k) ∧
      2 ^ j <<< k = leastPowerOfTwo (max hint (2 ^ j)) := by
  have hle : 2 ^ j ≤ max hint (2 ^ j) := le_max_right _ _
  have hmul := leastPowerOfTwo_blocks hle
  obtain ⟨k, hk⟩ := leastPowerOfTwo_isPow ((max hint (2 ^ j) + (2 ^ j - 1)) / 2 ^ j)
  have hkj : leastPowerOfTwo (max hint (2 ^ j)) = 2 ^ (k + j) := by rw [← hmul, hk, pow_add]
  have htop : 2 ^ (k + j) ≤ 2 ^ 63 := le_top_of_isPow ⟨_, rfl⟩ (hkj ▸ h)
  have h63 : k + j ≤ 63 := (Nat.pow_le_pow_iff_right (by decide)).mp htop
  have hj63 : 2 ^ j ≤ 2 ^ 63 := Nat.pow_le_pow_right (by decide) (by omega)
  have hk63 : 2 ^ k ≤ 2 ^ 63 := Nat.pow_le_pow_right (by decide) (by omega)
  have hsum : max hint (2 ^ j) + (2 ^ j - 1) ≤ usizeMax := by
    have := le_leastPowerOfTwo (max hint (2 ^ j))
    simp only [usizeMax, usizeBits]
    omega
  refine ⟨k, ?_, by rw [Nat.shiftLeft_eq, hkj, Nat.add_comm, pow_add]⟩
  have hadd : checkedAdd (max hint (2 ^ j)) (2 ^ j - 1) = some (max hint (2 ^ j) + (2 ^ j - 1)) := checked_of_le hsum
  have hnext : checkedNextPowerOfTwo ((max hint (2 ^ j) + (2 ^ j - 1)) / 2 ^ j) = some (2 ^ k) := by
    rw [checkedNextPowerOfTwo, hk]
    exact checked_of_le (hk63.trans (by decide))
  have hprod : checkedMul (2 ^ k) (2 ^ j) = some (2 ^ j <<< k) := by
    rw [checkedMul, ← pow_add, checked_of_le (htop.trans (by decide)), Nat.shiftLeft_eq, Nat.add_comm, pow_add]
  simp only [snapToValidGeometry, hadd, okOr, bind, Except.bind, hnext, hprod, pure, Except.pure]
  rw [trailingZeros_two_pow (by rw [usizeBits]; omega)]

theorem snap_of_lt {hint j : Nat} (h : usizeMax < leastPowerOfTwo (max hint (2 ^ j))) :
    snapToValidGeometry hint (2 ^ j) = .error .sizeOverflow := by
  have hmul := leastPowerOfTwo_blocks (le_max_right hint (2 ^ j))
  have hsnd : ∀ sum, checkedAdd (max hint (2 ^ j)) (2 ^ j - 1) = some sum →
      ∀ blocks, checkedNextPowerOfTwo (sum / 2 ^ j) = some blocks → checkedMul blocks (2 ^ j) = none := by
    intro sum hsum blocks hblocks
    obtain ⟨_, rfl⟩ := checked_eq_some.mp hsum
    obtain ⟨_, rfl⟩ := checked_eq_some.mp hblocks
    rw [checkedMul, hmul]
    exact checked_of_lt h
  rw [snapToValidGeometry]
  cases hadd : checkedAdd (max hint (2 ^ j)) (2 ^ j - 1) with
  | none => simp [okOr, bind, Except.bind]
  | some sum =>
      cases hnext : checkedNextPowerOfTwo (sum / 2 ^ j) with
      | none => simp [okOr, hnext, bind, Except.bind]
      | some blocks => simp [okOr, hnext, hsnd sum hadd blocks hnext, bind, Except.bind]

theorem snap_sound {hint minBlock : Nat} (hpow : ∃ j, minBlock = 2 ^ j) {r : Nat × Nat}
    (h : snapToValidGeometry hint minBlock = .ok r) :
    r.1 = minBlock <<< r.2 ∧ r.1 < 2 ^ usizeBits ∧ r.1 = leastPowerOfTwo (max hint minBlock) := by
  obtain ⟨j, rfl⟩ := hpow
  by_cases hle : leastPowerOfTwo (max hint (2 ^ j)) ≤ usizeMax
  · obtain ⟨k, hk, htotal⟩ := snap_of_le hle
    obtain rfl : (2 ^ j <<< k, k) = r := Except.ok.inj (hk.symm.trans h)
    exact ⟨rfl, htotal ▸ Nat.lt_of_le_pred (by decide) hle, htotal⟩
  · rw [snap_of_lt (not_le.mp hle)] at h
    cases h

theorem validate_eq_some_iff {t m k : Nat} (ht : t ≤ usizeMax) :
    validateBuddyGeometry t m = some k ↔ (∃ j, m = 2 ^ j) ∧ t = m <<< k := by
  have hpos {j : Nat} : 0 < 2 ^ j := Nat.two_pow_pos j
  constructor
  · intro h
    simp only [validateBuddyGeometry] at h
    split_ifs at h with hm hlt hmod hblocks hbits
    obtain ⟨j, rfl⟩ := isPowerOfTwo_iff.mp (by simpa using hm)
    obtain ⟨i, hi⟩ := isPowerOfTwo_iff.mp (by simpa using hblocks)
    have hmul : t = 2 ^ j * 2 ^ i := by
      rw [← hi, Nat.mul_div_cancel' (Nat.dvd_of_mod_eq_zero (not_not.mp hmod))]
    have hi64 : i < usizeBits := by
      have hle : 2 ^ i ≤ t := hmul ▸ Nat.le_mul_of_pos_left _ hpos
      exact (Nat.pow_lt_pow_iff_right (by decide)).mp (hle.trans_lt (Nat.lt_of_le_pred (by decide) ht))
    rw [hi, trailingZeros_two_pow hi64, Option.some_inj] at h
    exact ⟨⟨j, rfl⟩, by rw [← h, Nat.shiftLeft_eq, hmul]⟩
  · rintro ⟨⟨j, rfl⟩, rfl⟩
    rw [Nat.shiftLeft_eq] at ht ⊢
    have hk64 : k < usizeBits := by
      have hle : 2 ^ k ≤ 2 ^ j * 2 ^ k := Nat.le_mul_of_pos_left _ hpos
      exact (Nat.pow_lt_pow_iff_right (by decide)).mp ((hle.trans ht).trans_lt (by decide))
    have hdiv : 2 ^ j * 2 ^ k / 2 ^ j = 2 ^ k := Nat.mul_div_cancel_left _ hpos
    have hj : isPowerOfTwo (2 ^ j) = true := isPowerOfTwo_iff.mpr ⟨j, rfl⟩
    have hk : isPowerOfTwo (2 ^ k) = true := isPowerOfTwo_iff.mpr ⟨k, rfl⟩
    have hle : ¬2 ^ j * 2 ^ k < 2 ^ j := not_lt.mpr (Nat.le_mul_of_pos_right _ hpos)
    rw [validateBuddyGeometry, if_neg (by simp [hj]), if_neg hle, if_neg (by simp), hdiv]
    simp [hk, trailingZeros_two_pow hk64, hk64]

namespace BuddyGeometry

theorem valid_of_validate {t m : NonZeroUsize} {k : Nat} (h : validateBuddyGeometry t.get m.get = some k) :
    (∃ j, m.get = 2 ^ j) ∧ t.get = m.get <<< k :=
  (validate_eq_some_iff t.le_max).mp h

theorem get_lt (t : NonZeroUsize) : t.get < 2 ^ usizeBits := Nat.lt_of_le_pred (by decide) t.le_max

def exact (totalSize minBlockSize : NonZeroUsize) : Except BuildError BuddyGeometry :=
  match h : validateBuddyGeometry totalSize.get minBlockSize.get with
  | none => .error .invalidGeometry
  | some maxOrder => .ok
      { totalSize := totalSize.get
        minBlockSize := minBlockSize.get
        maxOrder := maxOrder
        alignment := 1
        capCapacity := false
        minBlockSize_pow := (valid_of_validate h).1
        totalSize_eq := (valid_of_validate h).2
        totalSize_lt := get_lt totalSize }

/-- The end that nearest and with_alignment share: the total is snapped to
blocks of a size that is already a power of two. -/
def snapped (totalHint minBlock alignment : Nat) (capCapacity : Bool) (hpow : ∃ j, minBlock = 2 ^ j) :
    Except BuildError BuddyGeometry :=
  match h : snapToValidGeometry totalHint minBlock with
  | .error e => .error e
  | .ok r => .ok
      { totalSize := r.1
        minBlockSize := minBlock
        maxOrder := r.2
        alignment := alignment
        capCapacity := capCapacity
        minBlockSize_pow := hpow
        totalSize_eq := (snap_sound hpow h).1
        totalSize_lt := (snap_sound hpow h).2.1 }

theorem isPow_of_next {n minBlock : Nat} (h : checkedNextPowerOfTwo n = some minBlock) : ∃ j, minBlock = 2 ^ j := by
  obtain ⟨_, rfl⟩ := checked_eq_some.mp h
  exact leastPowerOfTwo_isPow n

def nearest (totalSize minBlockSize : NonZeroUsize) : Except BuildError BuddyGeometry :=
  match h : checkedNextPowerOfTwo minBlockSize.get with
  | none => .error .sizeOverflow
  | some minBlock => snapped totalSize.get minBlock 1 true (isPow_of_next h)

def withAlignment (g : BuddyGeometry) (alignment : NonZeroUsize) : Except BuildError BuddyGeometry :=
  if h : isPowerOfTwo alignment.get = true then
    if alignment.get ≤ g.minBlockSize then .ok { g with alignment := alignment.get }
    else if g.capCapacity = false then .error .invalidGeometry
    else snapped g.totalSize alignment.get alignment.get g.capCapacity (isPowerOfTwo_iff.mp h)
  else .error .invalidAlignment

/-- The geometries a caller can have. -/
inductive Obtained : BuddyGeometry → Prop
  | exact {t m : NonZeroUsize} {g : BuddyGeometry} : exact t m = .ok g → Obtained g
  | nearest {t m : NonZeroUsize} {g : BuddyGeometry} : nearest t m = .ok g → Obtained g
  | withAlignment {g g' : BuddyGeometry} {a : NonZeroUsize} :
      Obtained g → g.withAlignment a = .ok g' → Obtained g'

def sizes (g : BuddyGeometry) : Nat × Nat := (g.totalSize, g.minBlockSize)

/-- The order is what the two sizes leave open. -/
theorem maxOrder_eq_of_sizes {g h : BuddyGeometry} (hsizes : g.sizes = h.sizes) : g.maxOrder = h.maxOrder := by
  obtain ⟨htotal, hmin⟩ := Prod.mk.inj hsizes
  obtain ⟨k, hk⟩ := h.minBlockSize_pow
  have hshift : 2 ^ k * 2 ^ g.maxOrder = 2 ^ k * 2 ^ h.maxOrder := by
    rw [← Nat.shiftLeft_eq, ← Nat.shiftLeft_eq, ← hk, ← h.totalSize_eq, ← hmin, ← g.totalSize_eq, htotal]
  exact Nat.pow_right_injective (le_refl 2) (Nat.eq_of_mul_eq_mul_left (Nat.two_pow_pos k) hshift)

theorem exact_cases (t m : NonZeroUsize) :
    (validateBuddyGeometry t.get m.get = none ∧ exact t m = .error .invalidGeometry) ∨
      ∃ g, exact t m = .ok g ∧ validateBuddyGeometry t.get m.get = some g.maxOrder ∧
        g.sizes = (t.get, m.get) ∧ g.alignment = 1 := by
  unfold exact
  split
  · exact .inl ⟨by assumption, rfl⟩
  · exact .inr ⟨_, rfl, by assumption, rfl, rfl⟩

theorem exact_ok {t m : NonZeroUsize} {g : BuddyGeometry} (h : exact t m = .ok g) :
    validateBuddyGeometry t.get m.get = some g.maxOrder ∧ g.sizes = (t.get, m.get) ∧ g.alignment = 1 := by
  rcases exact_cases t m with ⟨_, herror⟩ | ⟨g', hok, hg'⟩
  · rw [herror] at h
    cases h
  · obtain rfl : g' = g := Except.ok.inj (hok.symm.trans h)
    exact hg'

section

variable {hint minBlock alignment : Nat} {capCapacity : Bool} (hpow : ∃ j, minBlock = 2 ^ j)

theorem snapped_of_le (h : leastPowerOfTwo (max hint minBlock) ≤ usizeMax) :
    ∃ g, snapped hint minBlock alignment capCapacity hpow = .ok g ∧
      g.sizes = (leastPowerOfTwo (max hint minBlock), minBlock) ∧ g.alignment = alignment ∧
      g.capCapacity = capCapacity := by
  unfold snapped
  split
  · next e herror =>
      obtain ⟨j, rfl⟩ := hpow
      obtain ⟨k, hk, _⟩ := snap_of_le h
      rw [hk] at herror
      cases herror
  · next r hr => exact ⟨_, rfl, Prod.ext (snap_sound hpow hr).2.2 rfl, rfl, rfl⟩

theorem snapped_of_lt (h : usizeMax < leastPowerOfTwo (max hint minBlock)) :
    snapped hint minBlock alignment capCapacity hpow = .error .sizeOverflow := by
  unfold snapped
  obtain ⟨j, rfl⟩ := hpow
  have herror := snap_of_lt h
  split
  · next e he => exact congrArg _ (Except.error.inj (he.symm.trans herror))
  · next r hr =>
      rw [herror] at hr
      cases hr

end

theorem leastPowerOfTwo_max_right (t m : Nat) :
    leastPowerOfTwo (max t (leastPowerOfTwo m)) = leastPowerOfTwo (max t m) := by
  rw [max_comm, leastPowerOfTwo_max, max_comm]

theorem nearest_of_le {t m : NonZeroUsize} (h : leastPowerOfTwo (max t.get m.get) ≤ usizeMax) :
    ∃ g, nearest t m = .ok g ∧ g.sizes = (leastPowerOfTwo (max t.get m.get), leastPowerOfTwo m.get) ∧
      g.alignment = 1 ∧ g.capCapacity = true := by
  have hm : checkedNextPowerOfTwo m.get = some (leastPowerOfTwo m.get) :=
    checked_of_le ((leastPowerOfTwo_mono (le_max_right _ _)).trans h)
  unfold nearest
  split
  · next hnone =>
      rw [hm] at hnone
      cases hnone
  · next minBlock hsome =>
      obtain rfl : leastPowerOfTwo m.get = minBlock := Option.some.inj (hm.symm.trans hsome)
      rw [← leastPowerOfTwo_max_right] at h ⊢
      exact snapped_of_le _ h

theorem nearest_of_lt {t m : NonZeroUsize} (h : usizeMax < leastPowerOfTwo (max t.get m.get)) :
    nearest t m = .error .sizeOverflow := by
  unfold nearest
  split
  · rfl
  · next minBlock hsome =>
      obtain ⟨_, rfl⟩ := checked_eq_some.mp hsome
      rw [← leastPowerOfTwo_max_right] at h
      exact snapped_of_lt _ h

theorem nearest_ok {t m : NonZeroUsize} {g : BuddyGeometry} (h : nearest t m = .ok g) :
    leastPowerOfTwo (max t.get m.get) ≤ usizeMax ∧
      g.sizes = (leastPowerOfTwo (max t.get m.get), leastPowerOfTwo m.get) ∧ g.alignment = 1 ∧
      g.capCapacity = true := by
  by_cases hle : leastPowerOfTwo (max t.get m.get) ≤ usizeMax
  · obtain ⟨g', hok, hg'⟩ := nearest_of_le hle
    obtain rfl : g' = g := Except.ok.inj (hok.symm.trans h)
    exact ⟨hle, hg'⟩
  · rw [nearest_of_lt (not_le.mp hle)] at h
    cases h

theorem withAlignment_ok {g g' : BuddyGeometry} {a : NonZeroUsize} (h : g.withAlignment a = .ok g') :
    isPowerOfTwo a.get = true ∧ g'.alignment = a.get ∧ a.get ≤ g'.minBlockSize := by
  unfold withAlignment at h
  split_ifs at h with hpow hle hcap
  · obtain rfl := Except.ok.inj h
    exact ⟨hpow, rfl, hle⟩
  · rcases le_or_gt (leastPowerOfTwo (max g.totalSize a.get)) usizeMax with hfits | hlarge
    · obtain ⟨s, hok, hsizes, halign, _⟩ := snapped_of_le (isPowerOfTwo_iff.mp hpow) hfits
      obtain rfl : s = g' := Except.ok.inj (hok.symm.trans h)
      exact ⟨hpow, halign, (Prod.mk.inj hsizes).2.ge⟩
    · rw [snapped_of_lt _ hlarge] at h
      cases h

theorem withAlignment_of_nearest {t m a : NonZeroUsize} {g : BuddyGeometry} (h : nearest t m = .ok g)
    (ha : isPowerOfTwo a.get = true) :
    ∃ g', g.withAlignment a = .ok g' ∧
      g'.sizes = (leastPowerOfTwo (max t.get (max m.get a.get)), leastPowerOfTwo (max m.get a.get)) := by
  obtain ⟨hfits, hsizes, _, hcap⟩ := nearest_ok h
  obtain ⟨htotal, hmin⟩ := Prod.mk.inj hsizes
  obtain ⟨e, he⟩ := isPowerOfTwo_iff.mp ha
  have hround : leastPowerOfTwo (max g.totalSize a.get) = leastPowerOfTwo (max t.get (max m.get a.get)) := by
    rw [htotal, leastPowerOfTwo_max, max_assoc]
  have hblock : leastPowerOfTwo (max g.minBlockSize a.get) = leastPowerOfTwo (max m.get a.get) := by
    rw [hmin, leastPowerOfTwo_max]
  unfold withAlignment
  rw [dif_pos ha]
  by_cases hle : a.get ≤ g.minBlockSize
  · rw [if_pos hle]
    have hle' : a.get ≤ g.totalSize := by
      rw [htotal]
      exact hle.trans (hmin ▸ leastPowerOfTwo_mono (le_max_right _ _))
    obtain ⟨i, hi⟩ := leastPowerOfTwo_isPow (max t.get m.get)
    obtain ⟨j, hj⟩ := g.minBlockSize_pow
    rw [max_eq_left hle', htotal, hi, leastPowerOfTwo_two_pow] at hround
    rw [max_eq_left hle, hj, leastPowerOfTwo_two_pow] at hblock
    exact ⟨_, rfl, Prod.ext ((htotal.trans hi).trans hround) (hj.trans hblock)⟩
  · have hlt : g.minBlockSize < a.get := not_le.mp hle
    have hsnap : leastPowerOfTwo (max g.totalSize a.get) ≤ usizeMax := by
      have ha63 : a.get ≤ 2 ^ 63 := le_top_of_isPow ⟨e, he⟩ a.le_max
      have htotal63 : g.totalSize ≤ 2 ^ 63 := htotal ▸ le_top_of_isPow (leastPowerOfTwo_isPow _) hfits
      exact (leastPowerOfTwo_le (max_le htotal63 ha63)).trans (by decide)
    obtain ⟨g', hok, hsizes', _⟩ := snapped_of_le (isPowerOfTwo_iff.mp ha) hsnap
    refine ⟨g', ?_, hsizes'.trans (Prod.ext hround ?_)⟩
    · rw [if_neg hle, if_neg (by rw [hcap]; decide)]
      exact hok
    · show a.get = leastPowerOfTwo (max m.get a.get)
      rw [← hblock, max_eq_right hlt.le, he, leastPowerOfTwo_two_pow]

theorem Obtained.alignment_isPow {g : BuddyGeometry} (h : Obtained g) :
    (∃ j, g.alignment = 2 ^ j) ∧ g.alignment ≤ g.minBlockSize := by
  have hone {g : BuddyGeometry} (ha : g.alignment = 1) : (∃ j, g.alignment = 2 ^ j) ∧ g.alignment ≤ g.minBlockSize := by
    obtain ⟨k, hk⟩ := g.minBlockSize_pow
    exact ⟨⟨0, ha⟩, ha ▸ hk ▸ Nat.two_pow_pos k⟩
  cases h with
  | exact hok => exact hone (exact_ok hok).2.2
  | nearest hok => exact hone (nearest_ok hok).2.2.1
  | withAlignment _ hok =>
      obtain ⟨hpow, halign, hle⟩ := withAlignment_ok hok
      rw [halign]
      exact ⟨isPowerOfTwo_iff.mp hpow, hle⟩

theorem Obtained.alignment_dvd {g : BuddyGeometry} (h : Obtained g) : g.alignment ∣ g.minBlockSize := by
  obtain ⟨⟨j, hj⟩, hle⟩ := h.alignment_isPow
  obtain ⟨k, hk⟩ := g.minBlockSize_pow
  rw [hj, hk] at hle ⊢
  exact Nat.pow_dvd_pow 2 ((Nat.pow_le_pow_iff_right (by decide)).mp hle)

theorem dvd_blockOffset {g : BuddyGeometry} (h : Obtained g) {a : BuddyArenaInner} (ha : a.geometry = g)
    (order blockIdx : Nat) : g.alignment ∣ a.blockOffset order blockIdx := by
  subst ha
  rw [BuddyArenaInner.blockOffset, BuddyArenaInner.blockSize, Nat.shiftLeft_eq]
  exact ((h.alignment_dvd).mul_right _).mul_left _

theorem exact_iff (t m : NonZeroUsize) (k : Nat) :
    (∃ g, exact t m = .ok g ∧ g.maxOrder = k) ↔ m.get ∈ PowerOfTwo ∧ t.get = m.get * 2 ^ k := by
  have hvalid : validateBuddyGeometry t.get m.get = some k ↔ m.get ∈ PowerOfTwo ∧ t.get = m.get * 2 ^ k := by
    rw [validate_eq_some_iff t.le_max, Nat.shiftLeft_eq]
    exact and_congr_left fun _ => exists_congr fun _ => eq_comm
  rw [← hvalid]
  constructor
  · rintro ⟨g, hok, rfl⟩
    exact (exact_ok hok).1
  · intro h
    rcases exact_cases t m with ⟨hnone, _⟩ | ⟨g, hok, hsome, _⟩
    · rw [hnone] at h
      cases h
    · exact ⟨g, hok, Option.some.inj (hsome.symm.trans h)⟩

/-- Where exact accepts, there is nothing to round. -/
theorem nearest_of_exact {t m : NonZeroUsize} {g : BuddyGeometry} (h : exact t m = .ok g) :
    ∃ n, nearest t m = .ok n ∧ n.sizes = g.sizes ∧ n.alignment = g.alignment := by
  obtain ⟨hvalid, hsizes, halign⟩ := exact_ok h
  obtain ⟨⟨j, hj⟩, ht⟩ := valid_of_validate hvalid
  have hle : m.get ≤ t.get := by
    rw [ht, Nat.shiftLeft_eq]
    exact Nat.le_mul_of_pos_right _ (Nat.two_pow_pos _)
  have htotal : leastPowerOfTwo (max t.get m.get) = t.get := by
    rw [max_eq_left hle, ht, hj, Nat.shiftLeft_eq, ← pow_add, leastPowerOfTwo_two_pow]
  have hmin : leastPowerOfTwo m.get = m.get := by rw [hj, leastPowerOfTwo_two_pow]
  obtain ⟨n, hn, hnsizes, hnalign, _⟩ := nearest_of_le (htotal.le.trans t.le_max)
  exact ⟨n, hn, by rw [hnsizes, htotal, hmin, hsizes], hnalign.trans halign.symm⟩

theorem map_sizes_withAlignment (t m : NonZeroUsize) {a : NonZeroUsize} (ha : isPowerOfTwo a.get = true) :
    ((nearest t m).bind fun g => g.withAlignment a).map sizes = (nearest t (NonZeroUsize.max m a)).map sizes := by
  have hget := NonZeroUsize.max_get m a
  rcases le_or_gt (leastPowerOfTwo (max t.get m.get)) usizeMax with hfits | hlarge
  · obtain ⟨g, hok, _⟩ := nearest_of_le hfits
    obtain ⟨g', hok', hsizes⟩ := withAlignment_of_nearest hok ha
    have hfits' : leastPowerOfTwo (max t.get (NonZeroUsize.max m a).get) ≤ usizeMax := by
      rw [hget, ← (Prod.mk.inj hsizes).1]
      exact Nat.le_pred_of_lt g'.totalSize_lt
    obtain ⟨n, hn, hnsizes, _⟩ := nearest_of_le hfits'
    rw [hok, hn]
    show (g.withAlignment a).map sizes = Except.ok n.sizes
    rw [hok', hnsizes, hget, ← hsizes]
    rfl
  · have hlarge' : usizeMax < leastPowerOfTwo (max t.get (NonZeroUsize.max m a).get) := by
      rw [hget]
      exact hlarge.trans_le (leastPowerOfTwo_mono (by omega))
    rw [nearest_of_lt hlarge, nearest_of_lt hlarge']
    rfl

/-- A geometry is always valid, and nearest rounds to the least one. -/
theorem geometry_valid_and_least (t m : NonZeroUsize) :
    (∀ k, (∃ g, exact t m = .ok g ∧ g.maxOrder = k) ↔ m.get ∈ PowerOfTwo ∧ t.get = m.get * 2 ^ k) ∧
    (∀ g, exact t m = .ok g → g.totalSize = t.get ∧ g.minBlockSize = m.get) ∧
    (∃ p, IsLeast {x | x ∈ PowerOfTwo ∧ max t.get m.get ≤ x} p ∧
      (nearest t m = .error .sizeOverflow ↔ usizeMax < p)) ∧
    (nearest t m ≠ .error .sizeOverflow → ∃ g, nearest t m = .ok g ∧
      IsLeast {x | x ∈ PowerOfTwo ∧ m.get ≤ x} g.minBlockSize ∧
      IsLeast {x | x ∈ PowerOfTwo ∧ max t.get g.minBlockSize ≤ x} g.totalSize) ∧
    (∀ g, exact t m = .ok g → ∃ n, nearest t m = .ok n ∧ n.totalSize = g.totalSize ∧
      n.minBlockSize = g.minBlockSize ∧ n.maxOrder = g.maxOrder ∧ n.alignment = g.alignment) ∧
    (∀ g, Obtained g → g.totalSize = g.minBlockSize <<< g.maxOrder ∧ g.totalSize ≤ usizeMax ∧
      g.alignment ∈ PowerOfTwo ∧ g.alignment ∣ g.minBlockSize ∧
      ∀ a : BuddyArenaInner, a.geometry = g → ∀ order blockIdx, g.alignment ∣ a.blockOffset order blockIdx) ∧
    ∀ a : NonZeroUsize, a.get ∈ PowerOfTwo →
      ((nearest t m).bind fun g => g.withAlignment a).map sizes = (nearest t (NonZeroUsize.max m a)).map sizes := by
  refine ⟨exact_iff t m, fun g hg => Prod.mk.inj (exact_ok hg).2.1, ⟨_, isLeast_leastPowerOfTwo _, ?_, nearest_of_lt⟩,
    fun hne => ?_, fun g hg => ?_, fun g hg => ?_, fun a ha => ?_⟩
  · intro herror
    by_contra hle
    obtain ⟨g, hok, _⟩ := nearest_of_le (not_lt.mp hle)
    rw [herror] at hok
    cases hok
  · rcases le_or_gt (leastPowerOfTwo (max t.get m.get)) usizeMax with hfits | hlarge
    · obtain ⟨g, hok, hsizes, _⟩ := nearest_of_le hfits
      obtain ⟨htotal, hmin⟩ := Prod.mk.inj hsizes
      refine ⟨g, hok, hmin ▸ isLeast_leastPowerOfTwo _, ?_⟩
      rw [htotal, hmin, ← leastPowerOfTwo_max_right]
      exact isLeast_leastPowerOfTwo _
    · exact absurd (nearest_of_lt hlarge) hne
  · obtain ⟨n, hn, hsizes, halign⟩ := nearest_of_exact hg
    obtain ⟨htotal, hmin⟩ := Prod.mk.inj hsizes
    exact ⟨n, hn, htotal, hmin, maxOrder_eq_of_sizes hsizes, halign⟩
  · obtain ⟨⟨j, hj⟩, _⟩ := hg.alignment_isPow
    exact ⟨g.totalSize_eq, Nat.le_pred_of_lt g.totalSize_lt, ⟨j, hj.symm⟩, hg.alignment_dvd,
      fun _ => dvd_blockOffset hg⟩
  · obtain ⟨e, he⟩ := ha
    have hpow : isPowerOfTwo a.get = true := isPowerOfTwo_iff.mpr ⟨e, he.symm⟩
    exact map_sizes_withAlignment t m hpow

end BuddyGeometry

end ArenaAlligator
