import ArenaAlligator.BitmapSlots

namespace ArenaAlligator.AtomicBitmap

open WordBits

/-- The mask m of word w has the bits of the slots of a range. -/
def Covers (start fin w : Nat) (m : Word) : Prop :=
  ∀ u, u / bitsPerWord = w → (m.getLsbD (u % bitsPerWord) = true ↔ start ≤ u ∧ u < fin)

theorem getLsbD_highMask {s : Nat} (hs : s < 64) {j : Nat} (hj : j < 64) :
    (~~~(1#64 <<< s - 1#64)).getLsbD j = decide (s ≤ j) := by
  rw [BitVec.getLsbD_not, getLsbD_lowMask hs, decide_eq_true hj, Bool.true_and, ← decide_not]
  exact decide_eq_decide.mpr Nat.not_lt

theorem lowMask_bit (e : Nat) {j : Nat} (hj : j < 64) : (lowMask e).getLsbD j = decide (j < e) := by
  unfold lowMask
  split
  next he =>
    rw [BitVec.getLsbD_allOnes, decide_eq_true hj, decide_eq_true (hj.trans_le he)]
  next he => exact getLsbD_lowMask (Nat.lt_of_not_le he) j

variable {b : AtomicBitmap} {start fin w : Nat} {m : Word}

theorem covers_range (hfirst : start / bitsPerWord = w) (hlast : (fin - 1) / bitsPerWord = w) :
    Covers start fin w (rangeMask (start % bitsPerWord) (fin - w * bitsPerWord)) := by
  intro u hu
  have hj := mod_lt_bits u
  rw [rangeMask, BitVec.getLsbD_and, lowMask_bit _ hj, getLsbD_highMask (mod_lt_bits start) hj]
  rw [Bool.and_eq_true, decide_eq_true_iff, decide_eq_true_iff]
  simp only [bitsPerWord] at *
  omega

theorem covers_first (hfirst : start / bitsPerWord = w) (hlast : w < (fin - 1) / bitsPerWord) :
    Covers start fin w (~~~(1#64 <<< (start % bitsPerWord) - 1#64)) := by
  intro u hu
  rw [getLsbD_highMask (mod_lt_bits start) (mod_lt_bits u), decide_eq_true_iff]
  simp only [bitsPerWord] at *
  omega

theorem covers_middle (hfirst : start / bitsPerWord < w) (hlast : w < (fin - 1) / bitsPerWord) :
    Covers start fin w (BitVec.allOnes 64) := by
  intro u hu
  rw [BitVec.getLsbD_allOnes, decide_eq_true_iff]
  have hj := mod_lt_bits u
  simp only [bitsPerWord] at *
  omega

theorem covers_last (hfirst : start / bitsPerWord < w) (hlast : (fin - 1) / bitsPerWord = w) :
    Covers start fin w (lowMask (fin - w * bitsPerWord)) := by
  intro u hu
  rw [lowMask_bit _ (mod_lt_bits u), decide_eq_true_iff]
  simp only [bitsPerWord] at *
  omega

theorem load_and_eq_iff (hm : Covers start fin w m) :
    b.load w &&& m = m ↔ ∀ u, u / bitsPerWord = w → start ≤ u → u < fin → b.bit u = true := by
  constructor
  · intro heq u hu hstart hfin
    have hbit := congrArg (fun x => x.getLsbD (u % bitsPerWord)) heq
    simp only [BitVec.getLsbD_and, (hm u hu).mpr ⟨hstart, hfin⟩, Bool.and_true] at hbit
    rw [bit, hu, hbit]
  · intro hall
    apply BitVec.eq_of_getLsbD_eq
    intro j hj
    rw [BitVec.getLsbD_and]
    cases hbit : m.getLsbD j with
    | false => exact Bool.and_false _
    | true =>
        have hdiv : (w * bitsPerWord + j) / bitsPerWord = w := by simp only [bitsPerWord]; omega
        have hmod : (w * bitsPerWord + j) % bitsPerWord = j := by simp only [bitsPerWord]; omega
        have hin := hm _ hdiv
        rw [hmod] at hin
        obtain ⟨hstart, hfin⟩ := hin.mp hbit
        rw [← bit_word b hj, hall _ hdiv hstart hfin]
        rfl

theorem fetchOr_bit (hm : Covers start fin w m) (hw : w < b.scanWords) (u : Nat) :
    (b.fetchOr w m).2.bit u = true ↔ b.bit u = true ∨ u / bitsPerWord = w ∧ start ≤ u ∧ u < fin := by
  simp only [bit, fetchOr, load_store, hw, and_true]
  split
  next hu =>
    rw [BitVec.getLsbD_or, Bool.or_eq_true, hm u hu, hu]
    simp only [true_and]
  next hu => simp [hu]

theorem allSetInRange_iff (h : start < fin) :
    b.allSetInRange start fin = true ↔ ∀ u, start ≤ u → u < fin → b.bit u = true := by
  have hle : start / bitsPerWord ≤ (fin - 1) / bitsPerWord := Nat.div_le_div_right (by omega)
  rw [allSetInRange, if_neg h.ne]
  simp only
  split
  next heq =>
    rw [decide_eq_true_iff, load_and_eq_iff (covers_range rfl heq.symm)]
    refine ⟨fun hall u hs hf => hall u ?_ hs hf, fun hall u _ hs hf => hall u hs hf⟩
    simp only [bitsPerWord] at *
    omega
  next hne =>
    have hlt := lt_of_le_of_ne hle hne
    simp only [Bool.and_eq_true, decide_eq_true_eq, List.all_eq_true, List.mem_range'_1,
      load_and_eq_iff (covers_first rfl hlt), load_and_eq_iff (covers_last hlt rfl)]
    constructor
    · rintro ⟨⟨hfirst, hmiddle⟩, hlast⟩ u hs hf
      by_cases hu : u / bitsPerWord = start / bitsPerWord
      · exact hfirst u hu hs hf
      by_cases hu' : u / bitsPerWord = (fin - 1) / bitsPerWord
      · exact hlast u hu' hs hf
      have hlo : start / bitsPerWord ≤ u / bitsPerWord := Nat.div_le_div_right hs
      have hhi : u / bitsPerWord ≤ (fin - 1) / bitsPerWord := Nat.div_le_div_right (by omega)
      have hall := hmiddle (u / bitsPerWord) (by omega)
      rw [bit, hall, BitVec.getLsbD_allOnes, decide_eq_true (mod_lt_bits u)]
    · intro hall
      refine ⟨⟨fun u _ => hall u, fun v hv => ?_⟩, fun u _ => hall u⟩
      have hcover : Covers start fin v (BitVec.allOnes 64) := covers_middle (by omega) (by omega)
      rw [← BitVec.and_allOnes (x := b.load v)]
      exact (load_and_eq_iff hcover).mpr fun u _ => hall u

theorem fetchOr_shape (b : AtomicBitmap) (w : Nat) (m : Word) : SameShape b (b.fetchOr w m).2 := ⟨rfl, rfl, rfl⟩

theorem foldl_fetchOr_shape (l : List Nat) (b : AtomicBitmap) :
    SameShape b (l.foldl (fun b w => (b.fetchOr w (BitVec.allOnes 64)).2) b) := by
  induction l generalizing b with
  | nil => exact .refl b
  | cons w l ih => exact (fetchOr_shape b w _).trans (ih _)

theorem setRange_shape (b : AtomicBitmap) (start fin : Nat) : SameShape b (b.setRange start fin) := by
  unfold setRange
  split
  · exact .refl b
  · simp only
    split
    · exact fetchOr_shape b _ _
    · exact ((fetchOr_shape b _ _).trans (foldl_fetchOr_shape _ _)).trans (fetchOr_shape _ _ _)

theorem foldl_fetchOr_bit {l : List Nat} (hl : ∀ w ∈ l, start / bitsPerWord < w ∧ w < (fin - 1) / bitsPerWord)
    (b : AtomicBitmap) (hfin : (fin - 1) / bitsPerWord < b.scanWords) (u : Nat) :
    (l.foldl (fun b w => (b.fetchOr w (BitVec.allOnes 64)).2) b).bit u = true ↔
      b.bit u = true ∨ u / bitsPerWord ∈ l ∧ start ≤ u ∧ u < fin := by
  induction l generalizing b with
  | nil => simp
  | cons w l ih =>
      obtain ⟨hw, hl⟩ := List.forall_mem_cons.mp hl
      rw [List.foldl_cons, ih hl (b.fetchOr w (BitVec.allOnes 64)).2 hfin,
        fetchOr_bit (covers_middle hw.1 hw.2) (hw.2.trans hfin), List.mem_cons, or_and_right, or_assoc]

theorem setRange_bit (h : start < fin) (hfin : fin ≤ b.slotCount) (u : Nat) :
    (b.setRange start fin).bit u = true ↔ b.bit u = true ∨ start ≤ u ∧ u < fin := by
  have hlast : (fin - 1) / bitsPerWord < b.scanWords := b.div_lt_scanWords (by omega)
  have hle : start / bitsPerWord ≤ (fin - 1) / bitsPerWord := Nat.div_le_div_right (by omega)
  rw [setRange, if_neg h.ne]
  simp only
  split
  next heq =>
    rw [fetchOr_bit (covers_range rfl heq.symm) (heq ▸ hlast)]
    refine or_congr_right ⟨fun hu => hu.2, fun hu => ⟨?_, hu⟩⟩
    simp only [bitsPerWord] at *
    omega
  next hne =>
    have hlt := lt_of_le_of_ne hle hne
    let l := List.range' (start / bitsPerWord + 1) ((fin - 1) / bitsPerWord - (start / bitsPerWord + 1))
    have hl : ∀ w ∈ l, start / bitsPerWord < w ∧ w < (fin - 1) / bitsPerWord := by
      intro w hw
      rw [List.mem_range'_1] at hw
      omega
    have hshape := foldl_fetchOr_shape l
      (b.fetchOr (start / bitsPerWord) (~~~(1#64 <<< (start % bitsPerWord) - 1#64))).2
    have hmiddle := foldl_fetchOr_bit hl
      (b.fetchOr (start / bitsPerWord) (~~~(1#64 <<< (start % bitsPerWord) - 1#64))).2 hlast u
    rw [fetchOr_bit (covers_last hlt rfl) (hshape.scanWords ▸ hlast), hmiddle,
      fetchOr_bit (covers_first rfl hlt) (hlt.trans hlast)]
    have hmem : u / bitsPerWord ∈ l ↔
        start / bitsPerWord < u / bitsPerWord ∧ u / bitsPerWord < (fin - 1) / bitsPerWord := by
      rw [List.mem_range'_1]
      omega
    rw [hmem]
    have hlo : start ≤ u → start / bitsPerWord ≤ u / bitsPerWord := fun hs => Nat.div_le_div_right hs
    have hhi : u < fin → u / bitsPerWord ≤ (fin - 1) / bitsPerWord := fun hf => Nat.div_le_div_right (by omega)
    constructor
    · rintro (((hu | hu) | hu) | hu)
      · exact Or.inl hu
      all_goals exact Or.inr hu.2
    · rintro (hu | ⟨hs, hf⟩)
      · exact Or.inl (Or.inl (Or.inl hu))
      · have := hlo hs
        have := hhi hf
        rcases Nat.lt_trichotomy (u / bitsPerWord) ((fin - 1) / bitsPerWord) with hu | hu | hu
        · by_cases hfirst : u / bitsPerWord = start / bitsPerWord
          · exact Or.inl (Or.inl (Or.inr ⟨hfirst, hs, hf⟩))
          · exact Or.inl (Or.inr ⟨⟨by omega, hu⟩, hs, hf⟩)
        · exact Or.inr ⟨hu, hs, hf⟩
        · omega

end ArenaAlligator.AtomicBitmap
