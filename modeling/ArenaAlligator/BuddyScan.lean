import ArenaAlligator.BuddyBlocks

namespace ArenaAlligator.BuddyArenaInner

open Function AlignedBlocks AtomicBitmap WordBits

theorem bitmap_setBitmap_of_ne (a : BuddyArenaInner) {o o' : Nat} (h : o' ≠ o) (b : AtomicBitmap) :
    (a.setBitmap o b).bitmap o' = a.bitmap o' := by
  simp only [bitmap, setBitmap, List.getD_eq_getElem?_getD, List.getElem?_set_ne h.symm]

theorem bitmap_setBitmap_tryAlloc (a : BuddyArenaInner) (o o' : Nat) :
    (a.setBitmap o (a.bitmap o).tryAlloc.2).bitmap o' = if o' = o then (a.bitmap o).tryAlloc.2 else a.bitmap o' := by
  by_cases h : o' = o
  · subst h
    rw [if_pos rfl]
    rcases Nat.lt_or_ge o' a.freeBitmaps.length with hlt | hge
    · simp only [bitmap, setBitmap, List.getD_eq_getElem?_getD, List.getElem?_set_self hlt, Option.getD_some]
    · have hempty : a.bitmap o' = newEmpty 0 := List.getD_eq_default _ _ hge
      rw [setBitmap, List.set_eq_of_length_le hge, hempty]
      rfl
  · rw [if_neg h, bitmap_setBitmap_of_ne a h]

/-- What a pass over the orders did: it took one free block and cleared only
that bit, or it found nothing and moved only cursors. -/
structure Scanned (a : BuddyArenaInner) (r : Option (Nat × Nat) × BuddyArenaInner) : Prop where
  rest : r.2 = { a with freeBitmaps := r.2.freeBitmaps, nonemptyOrders := r.2.nonemptyOrders }
  length : r.2.freeBitmaps.length = a.freeBitmaps.length
  shape : ∀ o, SameShape (a.bitmap o) (r.2.bitmap o)
  asserts : ∀ o, (r.2.bitmap o).asserts = (a.bitmap o).asserts
  some_spec : ∀ o i, r.1 = some (o, i) → a.freeBit ⟨o, i⟩ = true ∧ r.2.freeBit = update a.freeBit ⟨o, i⟩ false
  none_spec : r.1 = none → r.2.freeBit = a.freeBit ∧ r.2.nonemptyOrders = a.nonemptyOrders

namespace Scanned

variable {a : BuddyArenaInner} {r q : Option (Nat × Nat) × BuddyArenaInner}

theorem nothing (a : BuddyArenaInner) : Scanned a (none, a) :=
  ⟨rfl, rfl, fun _ => .refl _, fun _ => rfl, (fun _ _ h => by cases h), fun _ => ⟨rfl, rfl⟩⟩

theorem backing (h : Scanned a r) : SameBacking a r.2 := by
  rw [h.rest]
  exact ⟨rfl, rfl, rfl, rfl, rfl⟩

theorem maxOrder (h : Scanned a r) : r.2.maxOrder = a.maxOrder := congrArg BuddyGeometry.maxOrder h.backing.geometry

theorem freeBit_le (h : Scanned a r) {b : Block} (hb : r.2.freeBit b = true) : a.freeBit b = true := by
  cases hr : r.1 with
  | none => rwa [(h.none_spec hr).1] at hb
  | some p =>
      rw [(h.some_spec p.1 p.2 hr).2, update_apply] at hb
      split at hb
      · cases hb
      · exact hb

theorem padding (h : Scanned a r) (hp : ∀ o, (a.bitmap o).PaddingClear) (o : Nat) : (r.2.bitmap o).PaddingClear := by
  intro i hi
  rw [(h.shape o).slotCount]
  exact hp o i (h.freeBit_le (b := ⟨o, i⟩) hi)

theorem after (h : Scanned a r) (hr : r.1 = none) (hq : Scanned r.2 q) : Scanned a q := by
  obtain ⟨hfree, hsummary⟩ := h.none_spec hr
  refine ⟨?_, hq.length.trans h.length, fun o => (h.shape o).trans (hq.shape o),
    fun o => (hq.asserts o).trans (h.asserts o), fun o i hs => ?_, fun hn => ?_⟩
  · rw [hq.rest, h.rest]
  · rw [← hfree]
    exact hq.some_spec o i hs
  · exact ⟨(hq.none_spec hn).1.trans hfree, (hq.none_spec hn).2.trans hsummary⟩

end Scanned

theorem freeBit_congr {a c : BuddyArenaInner} (h : c.freeBitmaps = a.freeBitmaps) : c.freeBit = a.freeBit := by
  funext b
  simp only [freeBit, bitmap, h]

theorem tryAlloc_shape (a : BuddyArenaInner) (o o' : Nat) :
    SameShape (a.bitmap o') ((a.setBitmap o (a.bitmap o).tryAlloc.2).bitmap o') := by
  rw [bitmap_setBitmap_tryAlloc]
  split
  next h =>
    rw [h]
    exact (tryAlloc_claimed _).shape
  next => exact .refl _

theorem tryAlloc_asserts (a : BuddyArenaInner) (o o' : Nat) :
    ((a.setBitmap o (a.bitmap o).tryAlloc.2).bitmap o').asserts = (a.bitmap o').asserts := by
  rw [bitmap_setBitmap_tryAlloc]
  split
  next h =>
    rw [h]
    exact (tryAlloc_claimed _).asserts
  next => rfl

theorem miss_scanned (a : BuddyArenaInner) {o : Nat} (hr : (a.bitmap o).tryAlloc.1 = none) :
    Scanned a (none, a.setBitmap o (a.bitmap o).tryAlloc.2) := by
  refine ⟨rfl, List.length_set, tryAlloc_shape a o, tryAlloc_asserts a o, (fun _ _ h => by cases h), fun _ => ⟨?_, rfl⟩⟩
  funext b
  rw [freeBit, bitmap_setBitmap_tryAlloc]
  split
  next h =>
    rw [(tryAlloc_claimed _).none_spec hr, freeBit, h]
  next => rfl

theorem hit_scanned (a : BuddyArenaInner) {o i : Nat} (hr : (a.bitmap o).tryAlloc.1 = some i) :
    Scanned a (some (o, i), (a.setBitmap o (a.bitmap o).tryAlloc.2).maybeClearSummary o) := by
  obtain ⟨hset, hbit⟩ := (tryAlloc_claimed _).some_spec i hr
  obtain ⟨hbs, -⟩ := maybeClearSummary_bitmaps (a.setBitmap o (a.bitmap o).tryAlloc.2) o
  have hbm (o' : Nat) : ((a.setBitmap o (a.bitmap o).tryAlloc.2).maybeClearSummary o).bitmap o' =
      (a.setBitmap o (a.bitmap o).tryAlloc.2).bitmap o' := by rw [bitmap, hbs]; rfl
  refine ⟨?_, ?_, fun o' => ?_, fun o' => ?_, ?_, fun h => by cases h⟩
  · simp only [maybeClearSummary]
    split <;> rfl
  · rw [hbs]
    exact List.length_set
  · rw [hbm]
    exact tryAlloc_shape a o o'
  · rw [hbm]
    exact tryAlloc_asserts a o o'
  · rintro _ _ ⟨⟩
    refine ⟨hset, ?_⟩
    funext b
    rw [freeBit_congr hbs, freeBit, bitmap_setBitmap_tryAlloc]
    by_cases hb : b = ⟨o, i⟩
    · rw [hb, update_self, if_pos rfl, hbit, update_self]
    · rw [update_of_ne hb]
      split
      next ho =>
        have hi : b.index ≠ i := fun hi => hb (by cases b; cases ho; cases hi; rfl)
        rw [hbit, update_of_ne hi, freeBit, ho]
      next => rfl

theorem tryAllocateFromOrders_scanned (summary : Option Word) (orders : List Nat) (a : BuddyArenaInner) :
    Scanned a (tryAllocateFromOrders summary orders a) := by
  induction orders generalizing a with
  | nil => exact .nothing a
  | cons order orders ih =>
      simp only [tryAllocateFromOrders]
      split
      · exact ih a
      · split
        next i hr => exact hit_scanned a hr
        next hr => exact (miss_scanned a hr).after rfl (ih _)

theorem mem_ordersFrom {a : BuddyArenaInner} {t o : Nat} : o ∈ a.ordersFrom t ↔ t ≤ o ∧ o ≤ a.maxOrder := by
  rw [ordersFrom, List.mem_range'_1]
  omega

theorem tryAllocateFromOrders_mem (summary : Option Word) (orders : List Nat) (a : BuddyArenaInner) {o i : Nat}
    (h : (tryAllocateFromOrders summary orders a).1 = some (o, i)) : o ∈ orders := by
  induction orders generalizing a with
  | nil => simp [tryAllocateFromOrders] at h
  | cons order orders ih =>
      simp only [tryAllocateFromOrders] at h
      split at h
      · exact List.mem_cons_of_mem _ (ih a h)
      · split at h
        · cases h
          exact List.mem_cons_self
        · exact List.mem_cons_of_mem _ (ih _ h)

theorem tryAllocateFromOrders_misses (summary : Option Word) (orders : List Nat) {a : BuddyArenaInner}
    (hp : ∀ o, (a.bitmap o).PaddingClear) (h : (tryAllocateFromOrders summary orders a).1 = none) {o : Nat}
    (ho : o ∈ orders) (hskip : skips summary o = false) (i : Nat) : a.freeBit ⟨o, i⟩ = false := by
  induction orders generalizing a with
  | nil => cases ho
  | cons order orders ih =>
      simp only [tryAllocateFromOrders] at h
      split at h
      next hs =>
        have hne : o ≠ order := fun he => by rw [he, hs] at hskip; cases hskip
        exact ih hp h ((List.mem_cons.mp ho).resolve_left hne)
      next =>
        split at h
        next => cases h
        next hr =>
          have hmiss := miss_scanned a hr
          rcases List.mem_cons.mp ho with rfl | ho
          · exact tryAlloc_none (hp o) hr i
          · rw [← (hmiss.none_spec rfl).1]
            exact ih (hmiss.padding hp) h ho

/-- A pass over increasing orders takes from the first visited order that has
anything. -/
theorem tryAllocateFromOrders_first (summary : Option Word) {orders : List Nat} (hsort : orders.Pairwise (· < ·))
    {a : BuddyArenaInner} (hp : ∀ o, (a.bitmap o).PaddingClear) {o i : Nat}
    (h : (tryAllocateFromOrders summary orders a).1 = some (o, i)) {o' : Nat} (ho' : o' ∈ orders) (hlt : o' < o)
    (hskip : skips summary o' = false) (j : Nat) : a.freeBit ⟨o', j⟩ = false := by
  induction orders generalizing a with
  | nil => cases ho'
  | cons order orders ih =>
      obtain ⟨hhead, hsort⟩ := List.pairwise_cons.mp hsort
      simp only [tryAllocateFromOrders] at h
      split at h
      next hs =>
        have hne : o' ≠ order := fun he => by rw [he, hs] at hskip; cases hskip
        exact ih hsort hp h ((List.mem_cons.mp ho').resolve_left hne)
      next =>
        split at h
        next =>
          cases h
          rcases List.mem_cons.mp ho' with he | hm
          · omega
          · have := hhead o' hm
            omega
        next hr =>
          have hmiss := miss_scanned a hr
          rcases List.mem_cons.mp ho' with rfl | hm
          · exact tryAlloc_none (hp o') hr j
          · rw [← (hmiss.none_spec rfl).1]
            exact ih hsort (hmiss.padding hp) h hm

theorem tryAllocateBlock_scanned (a : BuddyArenaInner) (t : Nat) : Scanned a (a.tryAllocateBlock t) := by
  have hsum := tryAllocateFromOrders_scanned (some a.nonemptyOrders) (a.ordersFrom t) a
  simp only [tryAllocateBlock, tryAllocateFromSummary]
  split
  next p hr =>
    rw [← hr]
    exact hsum
  next hr => exact hsum.after hr (tryAllocateFromOrders_scanned none _ _)

/-- The summary may be stale: the full scan after it decides. -/
theorem tryAllocateBlock_none {a : BuddyArenaInner} (hp : ∀ o, (a.bitmap o).PaddingClear) {t : Nat}
    (h : (a.tryAllocateBlock t).1 = none) {b : Block} (hb : t ≤ b.order) (hmax : b.order ≤ a.maxOrder) :
    a.freeBit b = false := by
  have hsum := tryAllocateFromOrders_scanned (some a.nonemptyOrders) (a.ordersFrom t) a
  simp only [tryAllocateBlock, tryAllocateFromSummary, tryAllocateFromFullScan] at h
  split at h
  next => cases h
  next hr =>
    rw [← (hsum.none_spec hr).1]
    refine tryAllocateFromOrders_misses none _ (hsum.padding hp) h (mem_ordersFrom.mpr ⟨hb, ?_⟩) rfl b.index
    rw [hsum.maxOrder]
    exact hmax

theorem tryAllocateBlock_mem {a : BuddyArenaInner} {t o i : Nat} (h : (a.tryAllocateBlock t).1 = some (o, i)) :
    t ≤ o ∧ o ≤ a.maxOrder := by
  have hsum := tryAllocateFromOrders_scanned (some a.nonemptyOrders) (a.ordersFrom t) a
  simp only [tryAllocateBlock, tryAllocateFromSummary, tryAllocateFromFullScan] at h
  split at h
  next block hb =>
    cases h
    exact mem_ordersFrom.mp (tryAllocateFromOrders_mem _ _ _ hb)
  next =>
    rw [← hsum.maxOrder]
    exact mem_ordersFrom.mp (tryAllocateFromOrders_mem _ _ _ h)

section Allocate

variable {a : BuddyArenaInner} {len t o i : Nat}

theorem allocate_of_none (ht : a.orderForRequest len = some t) (hr : (a.tryAllocateBlock t).1 = none) :
    a.allocate len = (.error .arenaFull, (a.tryAllocateBlock t).2.recordAllocFailure) := by
  simp only [allocate, ht, hr]

def carved (a : BuddyArenaInner) (t o i : Nat) : BuddyArenaInner := ((a.tryAllocateBlock t).2.splitDown o i t).2

theorem carved_backing (a : BuddyArenaInner) (t o i : Nat) : SameBacking a (a.carved t o i) :=
  (tryAllocateBlock_scanned a t).backing.trans (splitDown_backing _ _ _ _)

theorem allocate_of_some (ht : a.orderForRequest len = some t) (hr : (a.tryAllocateBlock t).1 = some (o, i)) :
    a.allocate len = (.ok ((a.carved t o i).handOut len t (i * 2 ^ (o - t))).1,
      ((a.carved t o i).handOut len t (i * 2 ^ (o - t))).2) := by
  have hsplit : ((a.tryAllocateBlock t).2.splitDown o i t).1 = (t, i * 2 ^ (o - t)) :=
    splitLoop_fst i 0 _ (tryAllocateBlock_mem hr).1
  simp only [allocate, ht, hr, hsplit]
  rfl

theorem allocate_cases {buf : Buffer} {c : BuddyArenaInner} (h : a.allocate len = (.ok buf, c)) :
    ∃ t o i, a.orderForRequest len = some t ∧ (a.tryAllocateBlock t).1 = some (o, i) ∧
      (a.carved t o i).handOut len t (i * 2 ^ (o - t)) = (buf, c) := by
  cases ht : a.orderForRequest len with
  | none => simp [allocate, ht] at h
  | some t =>
      cases hr : (a.tryAllocateBlock t).1 with
      | none => simp [allocate_of_none ht hr] at h
      | some block =>
          refine ⟨t, block.1, block.2, rfl, hr, ?_⟩
          rw [allocate_of_some ht hr] at h
          simpa [Prod.ext_iff] using h

theorem allocate_error_backing {e : AllocError} (h : (a.allocate len).1 = .error e) :
    SameBacking a (a.allocate len).2 := by
  cases ht : a.orderForRequest len with
  | none =>
      simp only [allocate, ht]
      exact ⟨rfl, rfl, rfl, rfl, rfl⟩
  | some t =>
      cases hr : (a.tryAllocateBlock t).1 with
      | none =>
          rw [allocate_of_none ht hr]
          exact (tryAllocateBlock_scanned a t).backing.trans ⟨rfl, rfl, rfl, rfl, rfl⟩
      | some block => simp [allocate_of_some ht hr] at h

theorem allocate_geometry (a : BuddyArenaInner) (len : Nat) : (a.allocate len).2.geometry = a.geometry := by
  cases hr : (a.allocate len).1 with
  | error e => exact (allocate_error_backing hr).geometry
  | ok buf =>
      obtain ⟨t, o, i, -, -, hout⟩ := allocate_cases (c := (a.allocate len).2) (Prod.ext hr rfl)
      rw [← congrArg Prod.snd hout]
      exact (zeroOnAllocate_bitmaps _ _ _).1.trans (a.carved_backing t o i).geometry

theorem allocate_ok_iff (ht : a.orderForRequest len = some t) :
    (∃ buf, (a.allocate len).1 = .ok buf) ↔ ∃ o i, (a.tryAllocateBlock t).1 = some (o, i) := by
  cases hr : (a.tryAllocateBlock t).1 with
  | none => simp [allocate_of_none ht hr]
  | some block =>
      rw [allocate_of_some ht hr]
      exact ⟨fun _ => ⟨block.1, block.2, rfl⟩, fun _ => ⟨_, rfl⟩⟩

theorem handOut_offset (a : BuddyArenaInner) (len o i : Nat) : (a.handOut len o i).1.offset = a.blockOffset o i := by
  simp only [handOut, blockOffset, blockSize, (zeroOnAllocate_bitmaps a o i).1]

end Allocate

theorem skips_summary (bits : Word) {o : Nat} (ho : o < 64) : skips (some bits) o = !bits.getLsbD o := by
  have h := and_mask_ne_zero ho bits
  simp only [skips]
  cases hb : bits.getLsbD o with
  | true => simp [h.mpr hb]
  | false =>
      have hz : ¬bits &&& 1#64 <<< o ≠ 0#64 := fun hne => by simp [h.mp hne] at hb
      simp [not_not.mp hz]

theorem tryAllocateFromOrders_congr (summary : Option Word) {orders : List Nat} (hnd : orders.Nodup)
    {a c : BuddyArenaInner} (h : ∀ o ∈ orders, a.bitmap o = c.bitmap o) :
    (tryAllocateFromOrders summary orders a).1 = (tryAllocateFromOrders summary orders c).1 := by
  induction orders generalizing a c with
  | nil => rfl
  | cons order orders ih =>
      obtain ⟨hnot, hnd⟩ := List.nodup_cons.mp hnd
      have hrest (o : Nat) (ho : o ∈ orders) : a.bitmap o = c.bitmap o := h o (List.mem_cons_of_mem order ho)
      simp only [tryAllocateFromOrders, ← h order List.mem_cons_self]
      split
      · exact ih hnd hrest
      · split
        · rfl
        · refine ih hnd fun o ho => ?_
          have hne : o ≠ order := ne_of_mem_of_not_mem ho hnot
          rw [bitmap_setBitmap_of_ne a hne, bitmap_setBitmap_of_ne c hne, hrest o ho]

theorem tryAllocateFromOrders_summary (bits : Word) {orders : List Nat} (hnd : orders.Nodup) {a : BuddyArenaInner}
    (hskip : ∀ o ∈ orders, skips (some bits) o = true → (a.bitmap o).tryAlloc.1 = none) :
    (tryAllocateFromOrders (some bits) orders a).1 = (tryAllocateFromOrders none orders a).1 := by
  induction orders generalizing a with
  | nil => rfl
  | cons order orders ih =>
      obtain ⟨hnot, hnd'⟩ := List.nodup_cons.mp hnd
      have hne {o : Nat} (ho : o ∈ orders) : o ≠ order := ne_of_mem_of_not_mem ho hnot
      have hrest (o : Nat) (ho : o ∈ orders) : skips (some bits) o = true → (a.bitmap o).tryAlloc.1 = none :=
        hskip o (List.mem_cons_of_mem order ho)
      have hnone : ¬skips none order = true := by simp [skips]
      simp only [tryAllocateFromOrders]
      rw [if_neg hnone]
      split
      next hs =>
        simp only [hskip order List.mem_cons_self hs]
        rw [ih hnd' hrest]
        exact tryAllocateFromOrders_congr none hnd' fun o ho => (bitmap_setBitmap_of_ne a (hne ho) _).symm
      next =>
        split
        · rfl
        · refine ih hnd' fun o ho => ?_
          rw [bitmap_setBitmap_of_ne a (hne ho)]
          exact hrest o ho

theorem ordersFrom_sorted (a : BuddyArenaInner) (t : Nat) : (a.ordersFrom t).Pairwise (· < ·) :=
  List.pairwise_lt_range'

theorem ordersFrom_nodup (a : BuddyArenaInner) (t : Nat) : (a.ordersFrom t).Nodup := List.nodup_range'

/-- With an exact summary the block is the one that the full scan finds. -/
theorem tryAllocateBlock_exact {a : BuddyArenaInner} (hp : ∀ o, (a.bitmap o).PaddingClear)
    (hex : ∀ o ≤ a.maxOrder, a.nonemptyOrders.getLsbD o = true ↔ ∃ i, a.freeBit ⟨o, i⟩ = true) (t : Nat) :
    (a.tryAllocateBlock t).1 = (a.tryAllocateFromFullScan t).1 := by
  have hskip (o : Nat) (ho : o ∈ a.ordersFrom t) (hs : skips (some a.nonemptyOrders) o = true) :
      (a.bitmap o).tryAlloc.1 = none := by
    have hmax := (mem_ordersFrom.mp ho).2
    rw [skips_summary _ (hmax.trans_lt a.geometry.maxOrder_lt), Bool.not_eq_true'] at hs
    cases hr : (a.bitmap o).tryAlloc.1 with
    | none => rfl
    | some i =>
        have hfree := (hex o hmax).mpr ⟨i, ((tryAlloc_claimed _).some_spec i hr).1⟩
        rw [hs] at hfree
        cases hfree
  have hsum := tryAllocateFromOrders_summary a.nonemptyOrders (a.ordersFrom_nodup t) hskip
  cases hr : (a.tryAllocateFromSummary t).1 with
  | some block =>
      have hblock : (a.tryAllocateBlock t).1 = some block := by simp only [tryAllocateBlock, hr]
      rw [hblock, tryAllocateFromFullScan, ← hsum]
      exact hr.symm
  | none =>
      -- Both passes find nothing: the first one moved only cursors.
      have hfull : (a.tryAllocateFromFullScan t).1 = none := by
        rw [tryAllocateFromFullScan, ← hsum]
        exact hr
      rw [hfull]
      cases hb : (a.tryAllocateBlock t).1 with
      | none => rfl
      | some block =>
          obtain ⟨hmem, hmax⟩ := tryAllocateBlock_mem hb
          obtain ⟨hset, -⟩ := (tryAllocateBlock_scanned a t).some_spec _ _ hb
          rw [tryAllocateFromOrders_misses none _ hp hfull (mem_ordersFrom.mpr ⟨hmem, hmax⟩) rfl] at hset
          cases hset

/-- Whatever the summary holds, the two passes together find a block exactly
when there is one, and take only it. An exact summary finds the block that the
full scan alone would find. -/
theorem stale_summary_harmless (a : BuddyArenaInner) (hp : ∀ o, (a.bitmap o).PaddingClear) (t : Nat) :
    ((∃ o i, (a.tryAllocateBlock t).1 = some (o, i)) ↔
      ∃ o i, t ≤ o ∧ o ≤ a.maxOrder ∧ a.isBlockFree o i = true) ∧
    (∀ o i, (a.tryAllocateBlock t).1 = some (o, i) →
      t ≤ o ∧ o ≤ a.maxOrder ∧ a.isBlockFree o i = true ∧
      ∀ o' i', (a.tryAllocateBlock t).2.isBlockFree o' i' =
        if o' = o ∧ i' = i then false else a.isBlockFree o' i') ∧
    ((a.tryAllocateBlock t).1 = none → ∀ o i, (a.tryAllocateBlock t).2.isBlockFree o i = a.isBlockFree o i) ∧
    ((∀ o ≤ a.maxOrder, a.nonemptyOrders.getLsbD o = true ↔ ∃ i, a.isBlockFree o i = true) →
      (a.tryAllocateBlock t).1 = (a.tryAllocateFromFullScan t).1) := by
  have hscan := tryAllocateBlock_scanned a t
  simp only [isBlockFree_eq]
  refine ⟨⟨?_, ?_⟩, ?_, ?_, fun hex => tryAllocateBlock_exact hp hex t⟩
  · rintro ⟨o, i, hr⟩
    obtain ⟨hle, hmax⟩ := tryAllocateBlock_mem hr
    exact ⟨o, i, hle, hmax, (hscan.some_spec o i hr).1⟩
  · rintro ⟨o, i, hle, hmax, hfree⟩
    cases hr : (a.tryAllocateBlock t).1 with
    | some block => exact ⟨block.1, block.2, rfl⟩
    | none =>
        rw [tryAllocateBlock_none hp hr hle hmax] at hfree
        cases hfree
  · intro o i hr
    obtain ⟨hset, hbit⟩ := hscan.some_spec o i hr
    obtain ⟨hle, hmax⟩ := tryAllocateBlock_mem hr
    refine ⟨hle, hmax, hset, fun o' i' => ?_⟩
    rw [hbit, update_apply]
    simp only [Block.mk.injEq]
  · intro hr o i
    rw [(hscan.none_spec hr).1]

/-- A summary that names only the empty top order of the pair, with one small
block free. -/
def misled : BuddyArenaInner :=
  let a := build pairGeometry false .uninit fun _ => 0
  { a with freeBitmaps := [AtomicBitmap.newEmpty 2 |>.free 1, AtomicBitmap.newEmpty 1], nonemptyOrders := 2#64 }

theorem misled_paddingClear (o : Nat) : (misled.bitmap o).PaddingClear := by
  match o with
  | 0 =>
      refine update_paddingClear (newEmpty_paddingClear 2) ((newEmpty 2).free_shape 1) (fun _ => ?_)
        ((newEmpty 2).free_bit ?_) <;> decide
  | 1 => exact newEmpty_paddingClear 1
  | o + 2 => exact newEmpty_paddingClear 0

theorem stale_summary_harmless_misled :
    (misled.tryAllocateFromSummary 0).1 = none ∧ ∃ o i, (misled.tryAllocateBlock 0).1 = some (o, i) :=
  ⟨by decide, (stale_summary_harmless misled misled_paddingClear 0).1.mpr ⟨0, 1, by decide, by decide, by decide⟩⟩

end ArenaAlligator.BuddyArenaInner
