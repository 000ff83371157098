import ArenaAlligator.AtomicBitmap
import Mathlib.Data.Finset.Card

namespace ArenaAlligator.AtomicBitmap

open Function WordBits Usize

def bit (b : AtomicBitmap) (slot : Nat) : Bool :=
  (b.load (slot / bitsPerWord)).getLsbD (slot % bitsPerWord)

/-- No bit at or above the slot count is set. -/
def PaddingClear (b : AtomicBitmap) : Prop := ∀ slot, b.bit slot = true → slot < b.slotCount

structure SameShape (b c : AtomicBitmap) : Prop where
  slotCount : c.slotCount = b.slotCount
  scanWords : c.scanWords = b.scanWords
  wordMask : c.wordMask = b.wordMask

theorem SameShape.refl (b : AtomicBitmap) : SameShape b b := ⟨rfl, rfl, rfl⟩

theorem SameShape.trans {b c d : AtomicBitmap} (h : SameShape b c) (h' : SameShape c d) : SameShape b d :=
  ⟨h'.slotCount.trans h.slotCount, h'.scanWords.trans h.scanWords, h'.wordMask.trans h.wordMask⟩

theorem le_wordsFor (slotCount : Nat) : slotCount ≤ wordsFor slotCount * bitsPerWord := by
  have h := le_leastPowerOfTwo (max (divCeil slotCount bitsPerWord) 1)
  have hd : divCeil slotCount bitsPerWord ≤ wordsFor slotCount := (le_max_left _ _).trans h
  simp only [divCeil, bitsPerWord] at hd ⊢
  omega

theorem mod_lt_bits (slot : Nat) : slot % bitsPerWord < 64 := Nat.mod_lt _ (by decide)

theorem slot_ext {s t : Nat} (hd : s / bitsPerWord = t / bitsPerWord)
    (hm : s % bitsPerWord = t % bitsPerWord) : s = t := by
  simp only [bitsPerWord] at hd hm
  omega

theorem div_lt_scanWords (b : AtomicBitmap) {slot : Nat} (h : slot < b.slotCount) :
    slot / bitsPerWord < b.scanWords :=
  (Nat.div_lt_iff_lt_mul (by decide)).mpr (h.trans_le (b.scanWords_eq ▸ le_wordsFor _))

theorem load_eq_zero_of_ge (b : AtomicBitmap) {i : Nat} (h : b.scanWords ≤ i) : b.load i = 0#64 := by
  rw [load, List.getD_eq_default _ _ (by rw [b.length_words]; exact h)]

theorem load_store (b : AtomicBitmap) (i j : Nat) (x : Word) :
    (b.store i x).load j = if j = i ∧ i < b.scanWords then x else b.load j := by
  simp only [load, store, List.getD_eq_getElem?_getD, List.getElem?_set, b.length_words]
  by_cases hij : i = j
  · subst hij
    by_cases hi : i < b.scanWords
    · simp [hi]
    · simp [hi, List.getElem?_eq_none (show b.words.length ≤ i by rw [b.length_words]; omega)]
  · simp [hij, Ne.symm hij]

theorem store_shape (b : AtomicBitmap) (i : Nat) (x : Word) : SameShape b (b.store i x) := ⟨rfl, rfl, rfl⟩

theorem isFree_eq_bit (b : AtomicBitmap) (slot : Nat) : b.isFree slot = b.bit slot := by
  rw [Bool.eq_iff_iff, isFree, decide_eq_true_iff]
  exact and_mask_ne_zero (mod_lt_bits slot) _

theorem bit_fetchOr (b : AtomicBitmap) {slot : Nat} (h : slot < b.slotCount) :
    (b.fetchOr (slot / bitsPerWord) (slotMask slot)).2.bit = update b.bit slot true := by
  funext t
  simp only [bit, fetchOr, load_store, b.div_lt_scanWords h, and_true]
  by_cases hd : t / bitsPerWord = slot / bitsPerWord
  · rw [if_pos hd, slotMask, getLsbD_set (mod_lt_bits slot)]
    by_cases hm : t % bitsPerWord = slot % bitsPerWord
    · have := slot_ext hd hm
      subst this
      simp
    · have hne : t ≠ slot := fun he => hm (he ▸ rfl)
      simp [hm, hne, bit, hd]
  · have hne : t ≠ slot := fun he => hd (he ▸ rfl)
    rw [if_neg hd, update_of_ne hne]
    rfl

theorem slot_div_mod {i k : Nat} (hk : k < 64) :
    (i * bitsPerWord + k) / bitsPerWord = i ∧ (i * bitsPerWord + k) % bitsPerWord = k := by
  simp only [bitsPerWord]
  omega

theorem bit_fetchAnd (b : AtomicBitmap) {i k : Nat} (hi : i < b.scanWords) (hk : k < 64) :
    (b.fetchAnd i (~~~(1#64 <<< k))).2.bit = update b.bit (i * bitsPerWord + k) false := by
  obtain ⟨hdiv, hmod⟩ := slot_div_mod (i := i) hk
  funext t
  simp only [bit, fetchAnd, load_store, hi, and_true]
  by_cases hd : t / bitsPerWord = i
  · rw [if_pos hd, getLsbD_clear hk]
    by_cases hm : t % bitsPerWord = k
    · have : t = i * bitsPerWord + k := slot_ext (hd.trans hdiv.symm) (hm.trans hmod.symm)
      subst this
      simp [hm]
    · have hne : t ≠ i * bitsPerWord + k := fun he => hm (by rw [he, hmod])
      simp [hm, hne, bit, hd]
  · have hne : t ≠ i * bitsPerWord + k := fun he => hd (by rw [he, hdiv])
    rw [if_neg hd, update_of_ne hne]
    rfl

theorem bit_word (b : AtomicBitmap) {i k : Nat} (hk : k < 64) :
    b.bit (i * bitsPerWord + k) = (b.load i).getLsbD k := by
  rw [bit, (slot_div_mod hk).1, (slot_div_mod hk).2]

theorem div_mul_add_mod (slot : Nat) : slot / bitsPerWord * bitsPerWord + slot % bitsPerWord = slot :=
  Nat.div_add_mod' slot bitsPerWord

theorem free_bit (b : AtomicBitmap) {slot : Nat} (h : slot < b.slotCount) :
    (b.free slot).bit = update b.bit slot true :=
  bit_fetchOr (b.debugAssert _) h

theorem free_shape (b : AtomicBitmap) (slot : Nat) : SameShape b (b.free slot) := ⟨rfl, rfl, rfl⟩

theorem free_asserts (b : AtomicBitmap) {slot : Nat} (h : slot < b.slotCount) (hb : b.bit slot = false) :
    (b.free slot).asserts = b.asserts := by
  have hz : b.load (slot / bitsPerWord) &&& slotMask slot = 0#64 := by
    by_contra hne
    have := (and_mask_ne_zero (mod_lt_bits slot) (b.load (slot / bitsPerWord))).mp hne
    simp [bit, this] at hb
  have ha : (b.free slot).asserts = ((b.asserts && decide (slot < b.slotCount)) &&
      decide (b.load (slot / bitsPerWord) &&& slotMask slot = 0#64)) := rfl
  rw [ha, decide_eq_true h, decide_eq_true hz, Bool.and_true, Bool.and_true]

theorem tryClaimExact_fst (b : AtomicBitmap) (slot : Nat) : (b.tryClaimExact slot).1 = b.bit slot :=
  isFree_eq_bit b slot

theorem tryClaimExact_bit (b : AtomicBitmap) {slot : Nat} (h : slot < b.slotCount) :
    (b.tryClaimExact slot).2.bit = update b.bit slot false := by
  have hb := bit_fetchAnd (b.debugAssert (slot < b.slotCount)) (b.div_lt_scanWords h) (mod_lt_bits slot)
  rw [div_mul_add_mod] at hb
  exact hb

theorem tryClaimExact_shape (b : AtomicBitmap) (slot : Nat) : SameShape b (b.tryClaimExact slot).2 :=
  ⟨rfl, rfl, rfl⟩

theorem tryClaimExact_asserts (b : AtomicBitmap) {slot : Nat} (h : slot < b.slotCount) :
    (b.tryClaimExact slot).2.asserts = b.asserts := by
  simp [tryClaimExact, fetchAnd, debugAssert, store, h]

theorem update_paddingClear {b c : AtomicBitmap} (hb : b.PaddingClear) (hs : SameShape b c) {slot : Nat}
    {v : Bool} (hv : v = true → slot < b.slotCount) (hc : c.bit = update b.bit slot v) : c.PaddingClear := by
  intro t ht
  rw [hs.slotCount]
  rw [hc] at ht
  by_cases h : t = slot
  · subst h
    rw [update_self] at ht
    exact hv ht
  · rw [update_of_ne h] at ht
    exact hb t ht

theorem words_eq_of_bit_eq {b c : AtomicBitmap} (hs : c.slotCount = b.slotCount) (h : c.bit = b.bit) :
    c.words = b.words := by
  have hlen : c.words.length = b.words.length := by
    rw [c.length_words, b.length_words, c.scanWords_eq, b.scanWords_eq, hs]
  refine List.ext_getElem hlen fun i hi hi' => ?_
  have hload : c.load i = b.load i := by
    refine BitVec.eq_of_getLsbD_eq fun k hk => ?_
    rw [← bit_word c hk, ← bit_word b hk, h]
  rw [load, load, List.getD_eq_getElem _ _ hi, List.getD_eq_getElem _ _ hi'] at hload
  exact hload

theorem anyFree_iff (b : AtomicBitmap) (hb : b.PaddingClear) : b.anyFree = true ↔ ∃ slot, b.bit slot = true := by
  simp only [anyFree, List.any_eq_true, List.mem_range, decide_eq_true_eq]
  constructor
  · rintro ⟨i, -, hi⟩
    obtain ⟨k, hk, hbit⟩ := (ne_zero_iff _).mp hi
    exact ⟨i * bitsPerWord + k, by rw [bit_word b hk]; exact hbit⟩
  · rintro ⟨slot, hslot⟩
    refine ⟨slot / bitsPerWord, ?_, (ne_zero_iff _).mpr ⟨_, mod_lt_bits slot, hslot⟩⟩
    have := hb slot hslot
    simp only [actualWords, divCeil, bitsPerWord]
    omega

def freeSlots (b : AtomicBitmap) : Finset Nat := (Finset.range b.slotCount).filter fun slot => b.bit slot

theorem mem_freeSlots {b : AtomicBitmap} (hb : b.PaddingClear) {slot : Nat} :
    slot ∈ freeSlots b ↔ b.bit slot = true := by
  rw [freeSlots, Finset.mem_filter, Finset.mem_range]
  exact ⟨And.right, fun h => ⟨hb slot h, h⟩⟩

theorem freeSlots_congr {b c : AtomicBitmap} (hs : SameShape b c) (h : c.bit = b.bit) : freeSlots c = freeSlots b := by
  rw [freeSlots, freeSlots, hs.slotCount, h]

theorem freeSlots_erase {b c : AtomicBitmap} (hs : SameShape b c) {slot : Nat} (h : c.bit = update b.bit slot false) :
    freeSlots c = (freeSlots b).erase slot := by
  ext t
  simp only [freeSlots, Finset.mem_filter, Finset.mem_range, Finset.mem_erase, hs.slotCount, h]
  by_cases ht : t = slot <;> simp [ht]

theorem freeSlots_insert {b c : AtomicBitmap} (hs : SameShape b c) {slot : Nat} (hlt : slot < b.slotCount)
    (h : c.bit = update b.bit slot true) : freeSlots c = insert slot (freeSlots b) := by
  ext t
  simp only [freeSlots, Finset.mem_filter, Finset.mem_range, Finset.mem_insert, hs.slotCount, h]
  by_cases ht : t = slot <;> simp [ht, hlt]

/-- What an allocation scan did: it took a free slot and cleared only that
bit, or it found nothing. -/
structure Claimed (b : AtomicBitmap) (r : Option Nat × AtomicBitmap) : Prop where
  shape : SameShape b r.2
  asserts : r.2.asserts = b.asserts
  some_spec : ∀ slot, r.1 = some slot → b.bit slot = true ∧ r.2.bit = update b.bit slot false
  none_spec : r.1 = none → r.2.bit = b.bit

theorem Claimed.paddingClear {b : AtomicBitmap} {r : Option Nat × AtomicBitmap} (h : Claimed b r)
    (hb : b.PaddingClear) : r.2.PaddingClear := by
  cases hr : r.1 with
  | some slot => exact update_paddingClear hb h.shape (by simp) (h.some_spec slot hr).2
  | none =>
      intro slot hs
      rw [h.none_spec hr] at hs
      rw [h.shape.slotCount]
      exact hb slot hs

theorem fetchAddCursor_claimed (b : AtomicBitmap) : Claimed b (none, b.fetchAddCursor.2) :=
  ⟨⟨rfl, rfl, rfl⟩, rfl, fun _ he => by simp at he, fun _ => rfl⟩

theorem claimBit_claimed (b : AtomicBitmap) (i k : Nat) : Claimed b (b.claimBit i k) := by
  have hshape : SameShape b (b.claimBit i k).2 := ⟨rfl, rfl, rfl⟩
  by_cases hin : i < b.scanWords ∧ k < 64
  · obtain ⟨hi, hk⟩ := hin
    have hbit := bit_fetchAnd b hi hk
    refine ⟨hshape, rfl, fun slot hs => ?_, fun hs => ?_⟩
    · simp only [claimBit, Option.ite_none_right_eq_some, Option.some.injEq] at hs
      obtain ⟨hset, rfl⟩ := hs
      rw [bit_word b hk]
      exact ⟨(and_mask_ne_zero hk _).mp hset, hbit⟩
    · simp only [claimBit, ite_eq_right_iff, reduceCtorEq, imp_false] at hs
      have hclear : b.bit (i * bitsPerWord + k) = false := by
        rw [bit_word b hk, Bool.eq_false_iff]
        exact fun h => hs ((and_mask_ne_zero hk _).mpr h)
      change (b.fetchAnd i (~~~(1#64 <<< k))).2.bit = b.bit
      rw [hbit, ← hclear]
      exact update_eq_self _ _
  · have hzero : b.load i = 0#64 ∨ (1#64 <<< k : Word) = 0#64 := by
      rcases Nat.lt_or_ge i b.scanWords with hi | hi
      · right
        exact BitVec.shiftLeft_eq_zero (by omega)
      · exact Or.inl (b.load_eq_zero_of_ge hi)
    have hnone : (b.claimBit i k).1 = none := by
      have : b.load i &&& 1#64 <<< k = 0#64 := by rcases hzero with h | h <;> simp [h]
      simp [claimBit, fetchAnd, this]
    have hsame : b.load i &&& ~~~(1#64 <<< k) = b.load i := by
      rcases hzero with h | h
      · simp [h]
      · rw [h, BitVec.not_zero, BitVec.and_allOnes]
    refine ⟨hshape, rfl, fun slot hs => by rw [hnone] at hs; simp at hs, fun _ => ?_⟩
    funext slot
    simp only [bit, claimBit, fetchAnd, load_store, hsame]
    split
    next h => rw [h.1]
    next => rfl

theorem claimBit_isSome (b : AtomicBitmap) (i k : Nat) :
    (b.claimBit i k).1.isSome = true ↔ k < 64 ∧ b.bit (i * bitsPerWord + k) = true := by
  by_cases hk : k < 64
  · rw [bit_word b hk, ← and_mask_ne_zero hk]
    by_cases hset : b.load i &&& 1#64 <<< k = 0#64 <;> simp [claimBit, fetchAnd, hk, hset]
  · have hzero : (1#64 <<< k : Word) = 0#64 := BitVec.shiftLeft_eq_zero (Nat.le_of_not_lt hk)
    simp [claimBit, fetchAnd, hk, hzero]

theorem claimBit_ctz {b : AtomicBitmap} {i : Nat} (h : b.load i ≠ 0#64) :
    (b.claimBit i (b.load i).ctz.toNat).1.isSome = true := by
  rw [claimBit_isSome, bit_word b (ctz_lt h)]
  exact ⟨ctz_lt h, getLsbD_ctz h⟩

theorem tryClaimWord_zero {b : AtomicBitmap} {i : Nat} (h : b.load i = 0#64) (fuel base : Nat) :
    tryClaimWord fuel b i base = (none, b) := by
  cases fuel with
  | zero => rfl
  | succ fuel => simp [tryClaimWord, h]

/-- Run alone, the claim loop succeeds in its first round: the lowest set bit
is still set when the word is updated. -/
theorem tryClaimWord_pos {b : AtomicBitmap} {i : Nat} (h : b.load i ≠ 0#64) (fuel base : Nat) :
    tryClaimWord (fuel + 1) b i base =
      (some (base + (b.load i).ctz.toNat), (b.fetchAnd i (~~~(1#64 <<< (b.load i).ctz.toNat))).2) := by
  have hm := (and_mask_ne_zero (ctz_lt h) (b.load i)).mpr (getLsbD_ctz h)
  have hp : (b.fetchAnd i (~~~(1#64 <<< (b.load i).ctz.toNat))).1 &&& 1#64 <<< (b.load i).ctz.toNat ≠ 0#64 := hm
  simp only [tryClaimWord]
  rw [if_neg h, if_pos hp]

theorem tryClaimWord_claimed (b : AtomicBitmap) (i : Nat) :
    Claimed b (tryClaimWord bitsPerWord b i (i * bitsPerWord)) := by
  by_cases h : b.load i = 0#64
  · rw [tryClaimWord_zero h]
    exact ⟨SameShape.refl b, rfl, fun _ he => by simp at he, fun _ => rfl⟩
  · have hi : i < b.scanWords := by
      by_contra hge
      exact h (b.load_eq_zero_of_ge (by omega))
    rw [show bitsPerWord = 63 + 1 from rfl, tryClaimWord_pos h 63]
    refine ⟨store_shape _ _ _, rfl, ?_, fun he => by simp at he⟩
    rintro slot ⟨⟩
    exact ⟨(bit_word b (ctz_lt h)).trans (getLsbD_ctz h), bit_fetchAnd b hi (ctz_lt h)⟩

theorem scan_claimed (start n i : Nat) (b : AtomicBitmap) : Claimed b (scan start n i b) := by
  induction n generalizing i b with
  | zero => exact ⟨SameShape.refl b, rfl, fun _ he => by simp [scan] at he, fun _ => rfl⟩
  | succ n ih =>
      have hw := tryClaimWord_claimed b ((start + i) &&& b.wordMask)
      simp only [scan]
      cases hr : (tryClaimWord bitsPerWord b ((start + i) &&& b.wordMask)
          (((start + i) &&& b.wordMask) * bitsPerWord)).1 with
      | some slot =>
          refine ⟨hw.shape, hw.asserts, ?_, fun he => by simp at he⟩
          rintro slot' ⟨⟩
          exact hw.some_spec _ hr
      | none =>
          have hs := ih (i + 1) (tryClaimWord bitsPerWord b ((start + i) &&& b.wordMask)
            (((start + i) &&& b.wordMask) * bitsPerWord)).2
          have hbit := hw.none_spec hr
          refine ⟨hw.shape.trans hs.shape, hs.asserts.trans hw.asserts, ?_, ?_⟩
          · intro slot he
            have := hs.some_spec slot he
            rwa [hbit] at this
          · intro he
            exact (hs.none_spec he).trans hbit

theorem scan_none (start n i : Nat) (b : AtomicBitmap) (h : (scan start n i b).1 = none) :
    ∀ j, i ≤ j → j < i + n → b.load ((start + j) &&& b.wordMask) = 0#64 := by
  induction n generalizing i b with
  | zero => intro j hij hj; omega
  | succ n ih =>
      have hz : b.load ((start + i) &&& b.wordMask) = 0#64 := by
        by_contra hne
        simp [scan, bitsPerWord, tryClaimWord_pos hne 63] at h
      rw [scan, tryClaimWord_zero hz] at h
      intro j hij hj
      rcases Nat.eq_or_lt_of_le hij with rfl | hlt
      · exact hz
      · exact ih (i + 1) b h j hlt (by omega)

theorem scanWords_pos (b : AtomicBitmap) : 0 < b.scanWords := by
  rw [b.scanWords_eq]
  exact lt_of_lt_of_le (Nat.lt_of_lt_of_le Nat.zero_lt_one (Nat.le_max_right _ 1)) (le_leastPowerOfTwo _)

/-- The cyclic scan from any start visits every word. -/
theorem exists_scan_index (b : AtomicBitmap) (start : Nat) {w : Nat} (hw : w < b.scanWords) :
    ∃ j < b.scanWords, (start + j) &&& b.wordMask = w := by
  obtain ⟨k, hk⟩ : ∃ k, b.scanWords = 2 ^ k := b.scanWords_eq ▸ leastPowerOfTwo_isPow _
  have hp := Nat.two_pow_pos k
  rw [b.wordMask_eq, hk]
  rw [hk] at hw
  refine ⟨(w + (2 ^ k - start % 2 ^ k)) % 2 ^ k, Nat.mod_lt _ hp, ?_⟩
  rw [Nat.and_two_pow_sub_one_eq_mod, Nat.add_mod_mod]
  have hs := Nat.mod_lt start hp
  have hd := Nat.div_add_mod start (2 ^ k)
  rw [show start + (w + (2 ^ k - start % 2 ^ k)) = w + 2 ^ k * (start / 2 ^ k + 1) by
    rw [Nat.mul_add, Nat.mul_one]; omega, Nat.add_mul_mod_self_left, Nat.mod_eq_of_lt hw]

theorem tryAlloc_claimed (b : AtomicBitmap) : Claimed b b.tryAlloc := by
  unfold tryAlloc
  split
  · exact ⟨SameShape.refl b, rfl, fun _ he => by simp at he, fun _ => rfl⟩
  · have hs := scan_claimed (b.fetchAddCursor.1.toNat &&& b.wordMask) b.scanWords 0 b.fetchAddCursor.2
    exact ⟨⟨hs.shape.slotCount, hs.shape.scanWords, hs.shape.wordMask⟩, hs.asserts, hs.some_spec,
      hs.none_spec⟩

/-- An undisturbed allocation fails only on a bitmap without free slots. -/
theorem tryAlloc_none {b : AtomicBitmap} (hb : b.PaddingClear) (h : b.tryAlloc.1 = none) (slot : Nat) :
    b.bit slot = false := by
  by_contra hbit
  rw [Bool.not_eq_false] at hbit
  have hlt := hb slot hbit
  obtain ⟨j, hj, hidx⟩ := b.exists_scan_index (b.fetchAddCursor.1.toNat &&& b.wordMask)
    (b.div_lt_scanWords hlt)
  have hne : b.slotCount ≠ 0 := by omega
  rw [tryAlloc, if_neg hne] at h
  have hz := scan_none _ _ _ _ h j (Nat.zero_le _) (by omega)
  have hz' : b.load (slot / bitsPerWord) = 0#64 := by
    rw [← hidx]
    exact hz
  simp [bit, hz'] at hbit

theorem load_withAllocationState (n : Nat) (initiallyFree : Bool) {i : Nat} (hi : i < wordsFor n) :
    (withAllocationState n initiallyFree).load i = initialWord n initiallyFree i := by
  simp [load, withAllocationState, List.getD_eq_getElem?_getD, hi]

theorem newEmpty_bit (n slot : Nat) : (newEmpty n).bit slot = false := by
  have hz : (newEmpty n).load (slot / bitsPerWord) = 0#64 := by
    rcases Nat.lt_or_ge (slot / bitsPerWord) (wordsFor n) with h | h
    · rw [newEmpty, load_withAllocationState n false h]
      simp [initialWord]
    · exact load_eq_zero_of_ge _ h
  simp [bit, hz]

theorem newEmpty_paddingClear (n : Nat) : (newEmpty n).PaddingClear := by
  intro slot h
  rw [newEmpty_bit] at h
  exact absurd h (by decide)

theorem initialWord_bit (n i : Nat) {k : Nat} (hk : k < 64) :
    (initialWord n true i).getLsbD k = decide (i * bitsPerWord + k < n) := by
  simp only [initialWord, if_true]
  split
  next hs =>
    have : ¬ i * bitsPerWord + k < n := by omega
    simp [this]
  next hs =>
    split
    next hv =>
      simp only [bitsPerWord] at hs hv ⊢
      have hn : i * 64 + k < n := by omega
      rw [BitVec.getLsbD_allOnes, decide_eq_true hk]
      exact (decide_eq_true hn).symm
    next hv =>
      simp only [bitsPerWord] at hs hv ⊢
      rw [getLsbD_lowMask (by omega)]
      congr 1
      apply propext
      omega

theorem new_bit (n slot : Nat) : (new n).bit slot = decide (slot < n) := by
  rcases Nat.lt_or_ge (slot / bitsPerWord) (wordsFor n) with h | h
  · rw [bit, new, load_withAllocationState n true h, initialWord_bit n _ (mod_lt_bits slot), div_mul_add_mod]
  · have hn : ¬ slot < n := by
      have := le_wordsFor n
      have hd := div_mul_add_mod slot
      have := Nat.mul_le_mul_right bitsPerWord h
      omega
    have hz : (new n).load (slot / bitsPerWord) = 0#64 := load_eq_zero_of_ge _ h
    simp [bit, hz, hn]

theorem new_paddingClear (n : Nat) : (new n).PaddingClear := by
  intro slot h
  rw [new_bit] at h
  exact of_decide_eq_true h

end ArenaAlligator.AtomicBitmap
