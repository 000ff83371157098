import ArenaAlligator.BuddyRuns

namespace ArenaAlligator.BuddyArenaInner

open Function AlignedBlocks AlignedBlocks.Block AtomicBitmap Usize

/-- Each split makes one block more and each merge one less, starting from
the whole arena: the free blocks and n others. The counters wrap. -/
def Accounted (a : BuddyArenaInner) (n : Nat) : Prop :=
  ∃ splits coalesces, a.metrics.splits = splits % 2 ^ usizeBits ∧ a.metrics.coalesces = coalesces % 2 ^ usizeBits ∧
    splits + 1 = coalesces + a.freeBlocks.card + n

variable {g : BuddyGeometry} {a c : BuddyArenaInner} {m : Multiset Block} {n : Nat}

theorem Accounted.congr (h : a.Accounted n) (hs : c.metrics.splits = a.metrics.splits)
    (hc : c.metrics.coalesces = a.metrics.coalesces) (hf : c.freeBlocks = a.freeBlocks) : c.Accounted n := by
  rw [Accounted, hs, hc, hf]
  exact h

theorem maybeClearSummary_metrics (a : BuddyArenaInner) (o : Nat) : (a.maybeClearSummary o).metrics = a.metrics := by
  unfold maybeClearSummary
  split <;> rfl

theorem zeroOnAllocate_metrics (a : BuddyArenaInner) (o i : Nat) : (a.zeroOnAllocate o i).metrics = a.metrics := by
  unfold zeroOnAllocate
  split
  · split <;> rfl
  · rfl

theorem scrubOnRelease_metrics (a : BuddyArenaInner) (o i : Nat) : (a.scrubOnRelease o i).metrics = a.metrics := by
  unfold scrubOnRelease
  split <;> rfl

theorem splitLoop_metrics (target order idx steps : Nat) (a : BuddyArenaInner) :
    (splitLoop target order idx steps a).2.2.metrics = a.metrics := by
  induction order generalizing idx steps a with
  | zero => rfl
  | succ child ih =>
      rw [splitLoop]
      split
      · exact ih _ _ _
      · rfl

theorem carved_metrics (a : BuddyArenaInner) (t o i : Nat) :
    ∃ splits, (a.carved t o i).metrics = { a.metrics with splits := splits } := by
  have hscan : (a.tryAllocateBlock t).2.metrics = a.metrics := by rw [(tryAllocateBlock_scanned a t).rest]
  have hloop := (splitLoop_metrics t o i 0 (a.tryAllocateBlock t).2).trans hscan
  rw [carved, splitDown, recordSplits]
  split
  · exact ⟨fetchAdd a.metrics.splits _, congrArg (MetricsState.recordSplits · _) hloop⟩
  · exact ⟨a.metrics.splits, hloop⟩

theorem handOut_metrics (a : BuddyArenaInner) (len o i : Nat) :
    (a.handOut len o i).2.metrics = a.metrics.recordAllocSuccess (a.blockSize o) :=
  congrArg (MetricsState.recordAllocSuccess · (a.blockSize o)) (zeroOnAllocate_metrics a o i)

theorem allocate_error_metrics {len : Nat} {e : AllocError} (he : (a.allocate len).1 = .error e) :
    (a.allocate len).2.metrics = a.metrics.recordAllocFailure := by
  cases ht : a.orderForRequest len with
  | none => simp only [allocate, ht, recordAllocFailure]
  | some t =>
      cases hr : (a.tryAllocateBlock t).1 with
      | none =>
          rw [allocate_of_none ht hr, (tryAllocateBlock_scanned a t).rest]
          rfl
      | some block => simp [allocate_of_some ht hr] at he

theorem coalesceLoop_metrics (above order idx : Nat) (a : BuddyArenaInner) :
    ∃ coalesces, (coalesceLoop above order idx a).2.metrics = { a.metrics with coalesces := coalesces } := by
  induction above generalizing order idx a with
  | zero => exact ⟨a.metrics.coalesces, rfl⟩
  | succ above ih =>
      rw [coalesceLoop]
      split
      · simp only
        split
        · obtain ⟨coalesces, hloop⟩ := ih (order + 1) (idx / 2) _
          refine ⟨coalesces, hloop.trans ?_⟩
          simp only [maybeClearSummary_metrics]
          rfl
        · exact ⟨a.metrics.coalesces, rfl⟩
      · exact ⟨a.metrics.coalesces, rfl⟩

theorem release_metrics (a : BuddyArenaInner) (o i : Nat) :
    ∃ coalesces, (a.release o i).2.metrics =
      { a.metrics.recordFree (a.blockSize o) with coalesces := coalesces } := by
  obtain ⟨coalesces, hloop⟩ := coalesceLoop_metrics (a.maxOrder - o) o i
    (scrubOnRelease { a with metrics := a.metrics.recordFree (a.blockSize o) } o i)
  rw [scrubOnRelease_metrics] at hloop
  exact ⟨coalesces, hloop⟩

theorem Accounted.publish {b : Block} (h : a.Accounted (n + 1)) (hbal : a.Balanced g (b ::ₘ m)) :
    ((a.setSummary b.order).freeBlock b.order b.index).Accounted n := by
  obtain ⟨splits, coalesces, hs, hc, hsum⟩ := h
  obtain ⟨hnf, -, hf⟩ := hbal.publish_freeBlocks
  refine ⟨splits, coalesces, hs, hc, ?_⟩
  rw [hf, Finset.card_insert_of_notMem hnf]
  omega

theorem splitLoop_accounts (target order idx steps : Nat) (hbal : a.Balanced g (⟨order, idx⟩ ::ₘ m))
    (ht : target ≤ order) :
    (splitLoop target order idx steps a).2.1 = steps + (order - target) ∧
    (splitLoop target order idx steps a).2.2.freeBlocks.card = a.freeBlocks.card + (order - target) := by
  induction order generalizing idx steps a with
  | zero => simp [splitLoop]
  | succ child ih =>
      rw [splitLoop]
      split
      next hgt =>
        have hkids := hbal.retile (cover_children child idx m)
        obtain ⟨hnf, -, hf⟩ := hkids.publish_freeBlocks
        obtain ⟨hsteps, hcard⟩ := ih (idx * 2) (steps + 1) (splitStep_balanced hbal) (by omega)
        have hlength : steps + 1 + (child - target) = steps + (child + 1 - target) := by omega
        refine ⟨hsteps.trans hlength, hcard.trans ?_⟩
        rw [hf, Finset.card_insert_of_notMem hnf]
        omega
      next hle =>
        obtain rfl : target = child + 1 := by omega
        simp

theorem splitDown_accounted {o i t : Nat} (hbal : a.Balanced g (⟨o, i⟩ ::ₘ m)) (ht : t ≤ o) (h : a.Accounted n) :
    (a.splitDown o i t).2.Accounted n := by
  obtain ⟨splits, coalesces, hs, hc, hsum⟩ := h
  obtain ⟨hsteps, hcard⟩ := splitLoop_accounts t o i 0 hbal ht
  have hmetrics := splitLoop_metrics t o i 0 a
  rw [splitDown, recordSplits, hsteps, zero_add]
  split
  next hpos =>
    refine ⟨splits + (o - t), coalesces, ?_, ?_, ?_⟩
    · simp only [MetricsState.recordSplits, hmetrics, hs, fetchAdd_mod]
    · simp only [MetricsState.recordSplits, hmetrics, hc]
    · change _ = _ + (splitLoop t o i 0 a).2.2.freeBlocks.card + n
      omega
  next hzero =>
    refine ⟨splits, coalesces, by rw [hmetrics, hs], by rw [hmetrics, hc], ?_⟩
    change _ = _ + (splitLoop t o i 0 a).2.2.freeBlocks.card + n
    omega

theorem mergeStep_accounted {order idx : Nat} (hbal : a.Balanced g (⟨order, idx⟩ ::ₘ m)) (hlt : order < a.maxOrder)
    (hset : a.freeBit ⟨order, idx ^^^ 1⟩ = true) (h : a.Accounted n)
    (hf : c.freeBlocks = ((a.claimExact order (idx ^^^ 1)).maybeClearSummary order).freeBlocks)
    (hmetrics : c.metrics = a.metrics.recordCoalesce) : c.Accounted n := by
  obtain ⟨splits, coalesces, hs, hc, hsum⟩ := h
  have hcard := Finset.card_erase_add_one ((mem_freeBlocks hbal.sound).mpr hset)
  refine ⟨splits, coalesces + 1, by rw [hmetrics, ← hs]; rfl, ?_, ?_⟩
  · rw [hmetrics, ← fetchAdd_mod, ← hc]
    rfl
  · rw [hf, (mergeStep_balanced hbal hlt hset).2]
    omega

theorem coalesceLoop_accounted (above order idx : Nat) (hbal : a.Balanced g (⟨order, idx⟩ ::ₘ m))
    (habove : above = a.maxOrder - order) (h : a.Accounted n) : (coalesceLoop above order idx a).2.Accounted n := by
  induction above generalizing order idx a with
  | zero => exact h
  | succ above ih =>
      rw [coalesceLoop]
      have hlt : order < a.maxOrder := by omega
      simp only [if_pos hlt, tryClaimExact_fst]
      split
      next hset =>
        obtain ⟨hmerged, -⟩ := mergeStep_balanced hbal hlt hset
        have hmax := mergeStep_maxOrder a order (idx ^^^ 1)
        have hmetrics := maybeClearSummary_metrics (a.claimExact order (idx ^^^ 1)) order
        refine ih (order + 1) (idx / 2) (hmerged.congr rfl rfl rfl) ?_ ?_
        · change above = ((a.claimExact order (idx ^^^ 1)).maybeClearSummary order).maxOrder - (order + 1)
          omega
        · refine mergeStep_accounted hbal hlt hset h rfl ?_
          exact congrArg MetricsState.recordCoalesce hmetrics
      next hclear =>
        rw [Bool.not_eq_true] at hclear
        exact h.congr rfl rfl (keepStep_balanced hbal hlt hclear).2

theorem tryAllocateBlock_accounted {t o i : Nat} (hbal : a.Balanced g m) (h : a.Accounted n)
    (hr : (a.tryAllocateBlock t).1 = some (o, i)) : (a.tryAllocateBlock t).2.Accounted (n + 1) := by
  obtain ⟨splits, coalesces, hs, hc, hsum⟩ := h
  have hscan := tryAllocateBlock_scanned a t
  obtain ⟨hfree, hbit⟩ := hscan.some_spec o i hr
  have hsound := ((BuddyRuns.tryAllocateBlock_balanced hbal t).1 o i hr).2.sound
  have hmetrics : (a.tryAllocateBlock t).2.metrics = a.metrics := by rw [hscan.rest]
  refine ⟨splits, coalesces, by rw [hmetrics, hs], by rw [hmetrics, hc], ?_⟩
  have hcard := Finset.card_erase_add_one ((mem_freeBlocks hbal.sound).mpr hfree)
  rw [freeBlocks_erase hbal.sound hsound hbit]
  omega

theorem allocate_ok_accounted {len : Nat} {buf : Buffer} (hbal : a.Balanced g m) (h : a.Accounted n)
    (hok : a.allocate len = (.ok buf, c)) : c.Accounted (n + 1) := by
  obtain ⟨t, o, i, -, hr, hout⟩ := allocate_cases hok
  obtain ⟨hto, hfound⟩ := (BuddyRuns.tryAllocateBlock_balanced hbal t).1 o i hr
  have hcarved : (a.carved t o i).Accounted (n + 1) :=
    splitDown_accounted hfound hto (tryAllocateBlock_accounted hbal h hr)
  have hsound : (a.carved t o i).Sound := (BuddyRuns.splitDown_balanced hfound hto).sound
  obtain ⟨hg, hb⟩ := zeroOnAllocate_bitmaps (a.carved t o i) t (i * 2 ^ (o - t))
  have hmetrics := handOut_metrics (a.carved t o i) len t (i * 2 ^ (o - t))
  obtain rfl : ((a.carved t o i).handOut len t (i * 2 ^ (o - t))).2 = c := congrArg Prod.snd hout
  refine hcarved.congr ?_ ?_ (freeBlocks_of_bitmaps hsound hg hb)
  · rw [hmetrics]
    rfl
  · rw [hmetrics]
    rfl

theorem allocate_error_accounted {len : Nat} {e : AllocError} (hbal : a.Balanced g m) (h : a.Accounted n)
    (he : (a.allocate len).1 = .error e) : (a.allocate len).2.Accounted n := by
  have hmetrics := allocate_error_metrics he
  have hsound := ((BuddyRuns.allocate_balanced hbal len).2 e he).sound
  refine h.congr (by rw [hmetrics]; rfl) (by rw [hmetrics]; rfl) (freeBlocks_congr hbal.sound hsound ?_)
  cases ht : a.orderForRequest len with
  | none =>
      simp only [allocate, ht]
      rfl
  | some t =>
      cases hr : (a.tryAllocateBlock t).1 with
      | none =>
          rw [allocate_of_none ht hr]
          exact ((tryAllocateBlock_scanned a t).none_spec hr).1
      | some block => simp [allocate_of_some ht hr] at he

theorem releaseBlock_accounted {b : Block} (hbal : a.Balanced g (b ::ₘ m)) (h : a.Accounted (n + 1)) :
    (a.releaseBlock b.order b.index).2.Accounted n := by
  obtain ⟨hs, hmax⟩ := BuddyRuns.scrubOnRelease_balanced hbal b.order b.index
  obtain ⟨hg, hb⟩ := scrubOnRelease_bitmaps a b.order b.index
  have hmetrics := scrubOnRelease_metrics a b.order b.index
  have hscrub : (a.scrubOnRelease b.order b.index).Accounted (n + 1) :=
    h.congr (by rw [hmetrics]) (by rw [hmetrics]) (freeBlocks_of_bitmaps hbal.sound hg hb)
  have hloop := (coalesceLoop_balanced (a.maxOrder - b.order) b.order b.index hs (by rw [hmax])).1
  have hcount := coalesceLoop_accounted (a.maxOrder - b.order) b.order b.index hs (by rw [hmax]) hscrub
  rw [releaseBlock]
  generalize coalesceLoop (a.maxOrder - b.order) b.order b.index (a.scrubOnRelease b.order b.index) = r
    at hloop hcount ⊢
  exact hcount.publish (b := ⟨r.1.1, r.1.2⟩) hloop

theorem release_accounted {b : Block} (hbal : a.Balanced g (b ::ₘ m)) (h : a.Accounted (n + 1)) :
    (a.release b.order b.index).2.Accounted n :=
  releaseBlock_accounted (hbal.congr rfl rfl rfl) (h.congr rfl rfl (freeBlocks_of_bitmaps hbal.sound rfl rfl))

theorem build_accounted (g : BuddyGeometry) (autoSpill : Bool) (initPolicy : InitPolicy) (memory : Memory) :
    (build g autoSpill initPolicy memory).Accounted 0 :=
  ⟨0, 0, rfl, rfl, by rw [build_freeBlocks, Finset.card_singleton]⟩

end ArenaAlligator.BuddyArenaInner
