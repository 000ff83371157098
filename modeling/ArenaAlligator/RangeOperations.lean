import ArenaAlligator.BitmapRanges

namespace ArenaAlligator.RangeOperations

open AtomicBitmap

/-- The range operations are given with every panic they contain, as none: the
bounds check of each access to the word array and the debug assertions. -/
def loadChecked (b : AtomicBitmap) (wordIdx : Nat) : Option Word :=
  if wordIdx < b.words.length then some (b.load wordIdx) else none

def fetchOrChecked (b : AtomicBitmap) (wordIdx : Nat) (mask : Word) : Option AtomicBitmap :=
  if wordIdx < b.words.length then some (b.fetchOr wordIdx mask).2 else none

def rangeMaskChecked (startBit endBit : Nat) : Option Word :=
  if startBit ≤ endBit ∧ endBit ≤ bitsPerWord then some (rangeMask startBit endBit) else none

def allFullLoop (b : AtomicBitmap) : List Nat → Option Bool
  | [] => some true
  | w :: rest => do
      let bits ← loadChecked b w
      if bits = BitVec.allOnes 64 then allFullLoop b rest else some false

def fillLoop : AtomicBitmap → List Nat → Option AtomicBitmap
  | b, [] => some b
  | b, w :: rest => do
      let b ← fetchOrChecked b w (BitVec.allOnes 64)
      fillLoop b rest

def allSetInRangeChecked (b : AtomicBitmap) (start fin : Nat) : Option Bool :=
  if fin ≤ b.slotCount ∧ start ≤ fin then
    if start = fin then some true
    else
      let firstWord := start / bitsPerWord
      let lastWord := (fin - 1) / bitsPerWord
      if firstWord = lastWord then do
        let mask ← rangeMaskChecked (start % bitsPerWord) (fin - firstWord * bitsPerWord)
        let bits ← loadChecked b firstWord
        some (bits &&& mask = mask)
      else do
        let firstMask := ~~~(1#64 <<< (start % bitsPerWord) - 1#64)
        let first ← loadChecked b firstWord
        if first &&& firstMask ≠ firstMask then some false
        else
          let full ← allFullLoop b (List.range' (firstWord + 1) (lastWord - (firstWord + 1)))
          if full then
            let lastMask := lowMask (fin - lastWord * bitsPerWord)
            let last ← loadChecked b lastWord
            some (last &&& lastMask = lastMask)
          else some false
  else none

def setRangeChecked (b : AtomicBitmap) (start fin : Nat) : Option AtomicBitmap :=
  if fin ≤ b.slotCount ∧ start ≤ fin then
    if start = fin then some b
    else
      let firstWord := start / bitsPerWord
      let lastWord := (fin - 1) / bitsPerWord
      if firstWord = lastWord then do
        let mask ← rangeMaskChecked (start % bitsPerWord) (fin - firstWord * bitsPerWord)
        fetchOrChecked b firstWord mask
      else do
        let b ← fetchOrChecked b firstWord (~~~(1#64 <<< (start % bitsPerWord) - 1#64))
        let b ← fillLoop b (List.range' (firstWord + 1) (lastWord - (firstWord + 1)))
        fetchOrChecked b lastWord (lowMask (fin - lastWord * bitsPerWord))
  else none

def setRanges : AtomicBitmap → List (Nat × Nat) → Option AtomicBitmap
  | b, [] => some b
  | b, r :: rest => do
      let b ← setRangeChecked b r.1 r.2
      setRanges b rest

variable {b : AtomicBitmap} {start fin w : Nat}

theorem loadChecked_eq (h : w < b.words.length) : loadChecked b w = some (b.load w) := if_pos h

theorem fetchOrChecked_eq (h : w < b.words.length) (m : Word) : fetchOrChecked b w m = some (b.fetchOr w m).2 :=
  if_pos h

theorem rangeMaskChecked_eq (h : start < fin) (hword : start / bitsPerWord = (fin - 1) / bitsPerWord) :
    rangeMaskChecked (start % bitsPerWord) (fin - start / bitsPerWord * bitsPerWord) =
      some (rangeMask (start % bitsPerWord) (fin - start / bitsPerWord * bitsPerWord)) := by
  apply if_pos
  simp only [bitsPerWord] at *
  omega

theorem allFullLoop_eq {l : List Nat} (hl : ∀ w ∈ l, w < b.words.length) :
    allFullLoop b l = some (l.all fun w => b.load w = BitVec.allOnes 64) := by
  induction l with
  | nil => rfl
  | cons w l ih =>
      obtain ⟨hw, hl⟩ := List.forall_mem_cons.mp hl
      rw [allFullLoop, loadChecked_eq hw, Option.bind_eq_bind, Option.bind_some, List.all_cons]
      split
      next hfull => rw [ih hl, decide_eq_true hfull, Bool.true_and]
      next hfull => rw [decide_eq_false hfull, Bool.false_and]

theorem fillLoop_eq {l : List Nat} (b : AtomicBitmap) (hl : ∀ w ∈ l, w < b.words.length) :
    fillLoop b l = some (l.foldl (fun b w => (b.fetchOr w (BitVec.allOnes 64)).2) b) := by
  induction l generalizing b with
  | nil => rfl
  | cons w l ih =>
      obtain ⟨hw, hl⟩ := List.forall_mem_cons.mp hl
      have hlen : (b.fetchOr w (BitVec.allOnes 64)).2.words.length = b.words.length := by
        rw [length_words, length_words]
        rfl
      rw [fillLoop, fetchOrChecked_eq hw, Option.bind_eq_bind, Option.bind_some, ih _ (hlen ▸ hl), List.foldl_cons]

theorem word_lt (hfin : fin ≤ b.slotCount) (h : start < fin) (hw : w ≤ (fin - 1) / bitsPerWord) :
    w < b.words.length := by
  rw [b.length_words]
  exact hw.trans_lt (b.div_lt_scanWords (by omega))

theorem allSetInRangeChecked_eq (h : start ≤ fin) (hfin : fin ≤ b.slotCount) :
    allSetInRangeChecked b start fin = some (b.allSetInRange start fin) := by
  rw [allSetInRangeChecked, if_pos ⟨hfin, h⟩, allSetInRange]
  split
  · rfl
  next hne =>
    have hlt : start < fin := lt_of_le_of_ne h hne
    have hle : start / bitsPerWord ≤ (fin - 1) / bitsPerWord := Nat.div_le_div_right (by omega)
    have hfirst : start / bitsPerWord < b.words.length := word_lt hfin hlt hle
    have hlast : (fin - 1) / bitsPerWord < b.words.length := word_lt hfin hlt le_rfl
    simp only
    split
    next hword => simp [rangeMaskChecked_eq hlt hword, loadChecked_eq hfirst]
    next hword =>
      have hmiddle : ∀ w ∈ List.range' (start / bitsPerWord + 1) ((fin - 1) / bitsPerWord - (start / bitsPerWord + 1)),
          w < b.words.length := by
        intro w hw
        rw [List.mem_range'_1] at hw
        exact word_lt hfin hlt (by omega)
      rw [loadChecked_eq hfirst, allFullLoop_eq hmiddle, loadChecked_eq hlast]
      simp only [Option.bind_eq_bind, Option.bind_some]
      split
      next hf => simp only [decide_eq_false hf, Bool.false_and]
      next hf =>
        rw [not_not] at hf
        simp only [decide_eq_true hf, Bool.true_and]
        split
        next hall => rw [hall, Bool.true_and]
        next hall => rw [Bool.eq_false_iff.mpr hall, Bool.false_and]

theorem setRangeChecked_eq (h : start ≤ fin) (hfin : fin ≤ b.slotCount) :
    setRangeChecked b start fin = some (b.setRange start fin) := by
  rw [setRangeChecked, if_pos ⟨hfin, h⟩, setRange]
  split
  · rfl
  next hne =>
    have hlt : start < fin := lt_of_le_of_ne h hne
    have hle : start / bitsPerWord ≤ (fin - 1) / bitsPerWord := Nat.div_le_div_right (by omega)
    have hfirst : start / bitsPerWord < b.words.length := word_lt hfin hlt hle
    simp only
    split
    next hword =>
      rw [rangeMaskChecked_eq hlt hword, Option.bind_eq_bind, Option.bind_some, fetchOrChecked_eq hfirst]
    next hword =>
      have hlen (c : AtomicBitmap) (hc : SameShape b c) (w : Nat) (hw : w ≤ (fin - 1) / bitsPerWord) :
          w < c.words.length := by
        rw [c.length_words, hc.scanWords, ← b.length_words]
        exact word_lt hfin hlt hw
      rw [fetchOrChecked_eq hfirst, Option.bind_eq_bind, Option.bind_some, fillLoop_eq, Option.bind_some,
        fetchOrChecked_eq]
      · apply hlen _ ?_ _ le_rfl
        exact (fetchOr_shape b _ _).trans (foldl_fetchOr_shape _ _)
      · intro w hw
        rw [List.mem_range'_1] at hw
        exact hlen _ (fetchOr_shape b _ _) w (by omega)

theorem allSetInRange_iff_of_le (h : start ≤ fin) :
    b.allSetInRange start fin = true ↔ ∀ i, start ≤ i → i < fin → b.bit i = true := by
  rcases Nat.eq_or_lt_of_le h with rfl | hlt
  · refine ⟨fun _ i hlo hhi => absurd hhi (Nat.not_lt.mpr hlo), fun _ => ?_⟩
    rw [allSetInRange, if_pos rfl]
  · exact allSetInRange_iff hlt

theorem setRange_bit_of_le (h : start ≤ fin) (hfin : fin ≤ b.slotCount) (i : Nat) :
    (b.setRange start fin).bit i = true ↔ b.bit i = true ∨ start ≤ i ∧ i < fin := by
  rcases Nat.eq_or_lt_of_le h with rfl | hlt
  · rw [setRange, if_pos rfl]
    refine ⟨Or.inl, fun hi => hi.resolve_right fun hin => ?_⟩
    exact absurd hin.2 (Nat.not_lt.mpr hin.1)
  · exact setRange_bit hlt hfin i

/-- The bitmap c is b with the bits of some slots set and nothing else
changed. -/
structure Filled (b : AtomicBitmap) (slots : Nat → Prop) (c : AtomicBitmap) : Prop where
  shape : SameShape b c
  cursor : c.cursor = b.cursor
  asserts : c.asserts = b.asserts
  bit : ∀ i, c.bit i = true ↔ b.bit i = true ∨ slots i

variable {c c' : AtomicBitmap} {slots slots' : Nat → Prop}

theorem Filled.unique (h : Filled b slots c) (h' : Filled b slots' c') (hsame : ∀ i, slots i ↔ slots' i) : c = c' := by
  have hcount : c'.slotCount = c.slotCount := h'.shape.slotCount.trans h.shape.slotCount.symm
  have hbit : c'.bit = c.bit := by
    funext i
    rw [Bool.eq_iff_iff, h'.bit, h.bit, hsame]
  have hwords := words_eq_of_bit_eq hcount hbit
  have hscan := h.shape.scanWords.trans h'.shape.scanWords.symm
  have hmask := h.shape.wordMask.trans h'.shape.wordMask.symm
  have hcursor := h.cursor.trans h'.cursor.symm
  have hasserts := h.asserts.trans h'.asserts.symm
  cases c
  cases c'
  simp only at hwords hscan hmask hcursor hasserts hcount
  subst hwords hscan hmask hcursor hasserts hcount
  rfl

theorem foldl_fetchOr_rest (l : List Nat) (b : AtomicBitmap) :
    (l.foldl (fun b w => (b.fetchOr w (BitVec.allOnes 64)).2) b).cursor = b.cursor ∧
      (l.foldl (fun b w => (b.fetchOr w (BitVec.allOnes 64)).2) b).asserts = b.asserts := by
  induction l generalizing b with
  | nil => exact ⟨rfl, rfl⟩
  | cons w l ih => exact ih (b.fetchOr w (BitVec.allOnes 64)).2

theorem setRange_filled (h : start ≤ fin) (hfin : fin ≤ b.slotCount) :
    Filled b (fun i => start ≤ i ∧ i < fin) (b.setRange start fin) := by
  have hrest : (b.setRange start fin).cursor = b.cursor ∧ (b.setRange start fin).asserts = b.asserts := by
    unfold setRange
    split
    · exact ⟨rfl, rfl⟩
    · simp only
      split
      · exact ⟨rfl, rfl⟩
      · exact foldl_fetchOr_rest _ _
  exact ⟨setRange_shape b start fin, hrest.1, hrest.2, setRange_bit_of_le h hfin⟩

theorem setRanges_filled {ranges : List (Nat × Nat)} (h : ∀ r ∈ ranges, r.1 ≤ r.2 ∧ r.2 ≤ b.slotCount) :
    ∃ c, setRanges b ranges = some c ∧ Filled b (fun i => ∃ r ∈ ranges, r.1 ≤ i ∧ i < r.2) c := by
  induction ranges generalizing b with
  | nil => exact ⟨b, rfl, .refl b, rfl, rfl, fun i => by simp⟩
  | cons r rest ih =>
      obtain ⟨⟨hle, hfin⟩, hrest⟩ := List.forall_mem_cons.mp h
      have hfirst := setRange_filled hle hfin
      obtain ⟨c, hc, hfilled⟩ := ih (b := b.setRange r.1 r.2) (hfirst.shape.slotCount.symm ▸ hrest)
      refine ⟨c, ?_, hfirst.shape.trans hfilled.shape, hfilled.cursor.trans hfirst.cursor,
        hfilled.asserts.trans hfirst.asserts, fun i => ?_⟩
      · rw [setRanges, setRangeChecked_eq hle hfin]
        exact hc
      · rw [hfilled.bit, hfirst.bit, or_assoc]
        simp only [List.mem_cons, exists_eq_or_imp]

/-- On every bitmap and for ranges up to its slot count: no access is out of
bounds, all_set_in_range asks for every bit of the range, and set_range sets
these bits and leaves all others alone, those of the padding included. A
sequence of calls sets the union of its ranges in whatever order they come,
and a range is then set exactly if what was set before and the union cover
it. -/
theorem range_operations_exact (b : AtomicBitmap) (start fin : Nat) (h : start ≤ fin) (hfin : fin ≤ b.slotCount)
    (ranges : List (Nat × Nat)) (hranges : ∀ r ∈ ranges, r.1 ≤ r.2 ∧ r.2 ≤ b.slotCount) :
    (∃ r, allSetInRangeChecked b start fin = some r ∧ (r = true ↔ ∀ i, start ≤ i → i < fin → b.bit i = true)) ∧
    (∃ c, setRangeChecked b start fin = some c ∧ Filled b (fun i => start ≤ i ∧ i < fin) c) ∧
    ∃ c, setRanges b ranges = some c ∧ Filled b (fun i => ∃ r ∈ ranges, r.1 ≤ i ∧ i < r.2) c ∧
      (∀ others, others.Perm ranges → setRanges b others = some c) ∧
      ∃ r, allSetInRangeChecked c start fin = some r ∧
        (r = true ↔ ∀ i, start ≤ i → i < fin → b.bit i = true ∨ ∃ r ∈ ranges, r.1 ≤ i ∧ i < r.2) ∧
        ((∀ i, b.bit i = false) →
          (r = true ↔ ∀ i, start ≤ i → i < fin → ∃ r ∈ ranges, r.1 ≤ i ∧ i < r.2)) := by
  refine ⟨⟨_, allSetInRangeChecked_eq h hfin, allSetInRange_iff_of_le h⟩,
    ⟨_, setRangeChecked_eq h hfin, setRange_filled h hfin⟩, ?_⟩
  obtain ⟨c, hc, hfilled⟩ := setRanges_filled hranges
  have hcovered : c.allSetInRange start fin = true ↔
      ∀ i, start ≤ i → i < fin → b.bit i = true ∨ ∃ r ∈ ranges, r.1 ≤ i ∧ i < r.2 := by
    rw [allSetInRange_iff_of_le h]
    exact forall_congr' fun i => forall_congr' fun _ => forall_congr' fun _ => hfilled.bit i
  refine ⟨c, hc, hfilled, fun others hperm => ?_, _, allSetInRangeChecked_eq h (hfilled.shape.slotCount ▸ hfin),
    hcovered, fun hempty => ?_⟩
  · have hothers : ∀ r ∈ others, r.1 ≤ r.2 ∧ r.2 ≤ b.slotCount := fun r hr => hranges r (hperm.mem_iff.mp hr)
    obtain ⟨c', hc', hfilled'⟩ := setRanges_filled hothers
    rw [hc', hfilled'.unique hfilled]
    intro i
    exact exists_congr fun r => and_congr_left fun _ => hperm.mem_iff
  · rw [hcovered]
    refine forall_congr' fun i => forall_congr' fun _ => forall_congr' fun _ => ?_
    rw [hempty i]
    exact ⟨fun hi => hi.resolve_left Bool.false_ne_true, Or.inr⟩

theorem range_operations_exact_words :
    ∃ c, setRanges (newEmpty 200) [(100, 150), (60, 100)] = some c ∧
      setRanges (newEmpty 200) [(60, 100), (100, 150)] = some c ∧ allSetInRangeChecked c 63 129 = some true := by
  obtain ⟨-, -, c, hc, -, hperm, r, hr, -, hcovered⟩ := range_operations_exact (newEmpty 200) 63 129 (by decide)
    (by decide) [(100, 150), (60, 100)] (by decide)
  refine ⟨c, hc, hperm _ (List.Perm.swap _ _ _), ?_⟩
  have htrue : r = true := by
    apply (hcovered (newEmpty_bit 200)).mpr
    intro i hlo hhi
    by_cases hi : i < 100
    · exact ⟨(60, 100), by simp, by simp only; omega⟩
    · exact ⟨(100, 150), by simp, by simp only; omega⟩
  rw [hr, htrue]

end ArenaAlligator.RangeOperations
