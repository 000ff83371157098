import ArenaAlligator.Lifecycle
import ArenaAlligator.MetricsAccounts

namespace ArenaAlligator.SpillCounts

open Lifecycle MetricsAccounts Usize

def plain : Holder → Bool
  | .buffer buf => !buf.isSpilled
  | .region _ => true
  | .bytes _ _ => false
  | .gone => false

/-- A spill or a freeze is counted once, and only for what was plain. -/
inductive Noted (m : MetricsState) (x : Holder) (m' : MetricsState) (x' : Holder) : Prop
  | quiet (hs : m'.spills = m.spills) (hf : m'.frozen = m.frozen) (hplain : plain x' = true → plain x = true)
  | spill (hs : m'.spills = fetchAdd m.spills 1) (hf : m'.frozen = m.frozen) (hplain : plain x = true)
      (hreads : x'.reads = false)
  | freeze (hs : m'.spills = m.spills) (hf : m'.frozen = fetchAdd m.frozen 1) (hplain : plain x = true)
      (hfrozen : plain x' = false)

variable {m m' m'' : MetricsState} {x x' : Holder} {s s' : Store} {buf : Buffer}

theorem reads_of_plain (h : plain x = true) : x.reads = true := by
  cases x with
  | buffer buf => exact h
  | region raw => rfl
  | bytes handle views => cases h
  | gone => cases h

theorem Noted.trans {c : Buffer} (h₁ : Noted m x m' x') (h₂ : Noted m' x' m'' (.buffer c)) :
    Noted m x m'' (.buffer c) := by
  cases h₁ with
  | quiet hs hf hplain =>
      cases h₂ with
      | quiet hs' hf' hplain' => exact .quiet (hs'.trans hs) (hf'.trans hf) fun h => hplain (hplain' h)
      | spill hs' hf' hplain' hreads => exact .spill (by rw [hs', hs]) (hf'.trans hf) (hplain hplain') hreads
      | freeze hs' hf' hplain' hfrozen => exact .freeze (hs'.trans hs) (by rw [hf', hf]) (hplain hplain') hfrozen
  | spill hs hf hplain hreads =>
      have hgone : plain x' ≠ true := fun h => by rw [reads_of_plain h] at hreads; cases hreads
      cases h₂ with
      | quiet hs' hf' hplain' =>
          exact .spill (hs'.trans hs) (hf'.trans hf) hplain (Bool.eq_false_iff.mpr fun h => hgone (hplain' h))
      | spill _ _ hplain' => exact absurd hplain' hgone
      | freeze _ _ hplain' => exact absurd hplain' hgone
  | freeze hs hf hplain hfrozen =>
      have hgone : plain x' ≠ true := by rw [hfrozen]; decide
      cases h₂ with
      | quiet hs' hf' hplain' =>
          exact .freeze (hs'.trans hs) (hf'.trans hf) hplain (Bool.eq_false_iff.mpr fun h => hgone (hplain' h))
      | spill _ _ hplain' => exact absurd hplain' hgone
      | freeze _ _ hplain' => exact absurd hplain' hgone

theorem release_counts {k : AllocationKind} (h : s.release k = some s') :
    s'.arena.metrics.spills = s.arena.metrics.spills ∧ s'.arena.metrics.frozen = s.arena.metrics.frozen := by
  obtain ⟨coalesces, hmetrics⟩ := release_metrics (Store.release_eq_some h).1
  rw [hmetrics]
  exact ⟨rfl, rfl⟩

theorem chunkMut_noted {r : Store × Buffer} (h : buf.chunkMut s = some r) :
    Noted s.arena.metrics (.buffer buf) r.1.arena.metrics (.buffer r.2) := by
  rw [Buffer.chunkMut] at h
  split at h
  next hfull =>
    obtain ⟨s', hs', rfl⟩ := Option.map_eq_some_iff.mp h
    obtain ⟨hs, hf⟩ := release_counts hs'
    simp only [ArenaRef.metrics_recordSpill] at hs hf
    have hnone : buf.spilled = none := by
      simp only [Bool.and_eq_true, Option.isNone_iff_eq_none] at hfull
      exact hfull.1.1
    exact .spill hs hf (by simp [plain, Buffer.isSpilled, hnone]) rfl
  next =>
    cases h
    exact .quiet rfl rfl id

theorem fill_noted (s : Store) (buf : Buffer) (data : List UInt8) :
    Noted s.arena.metrics (.buffer buf) (buf.fill s data).2.1.arena.metrics (.buffer (buf.fill s data).2.2) := by
  cases hspilled : buf.spilled with
  | some heap =>
      simp only [Buffer.fill, hspilled]
      exact .quiet rfl rfl fun h => (by cases h)
  | none =>
      have hplain : plain (.buffer buf) = true := by simp [plain, Buffer.isSpilled, hspilled]
      simp only [Buffer.fill, hspilled]
      split
      · exact .quiet (by simp) (by simp) fun _ => hplain
      · exact .quiet (by simp) (by simp) fun _ => hplain

theorem putLoop_noted (h : BytesMut) (fuel : Nat) (s : Store) (buf : Buffer) (src : List UInt8) :
    Noted s.arena.metrics (.buffer buf) (buf.putLoop h fuel s src).2.1.arena.metrics
      (.buffer (buf.putLoop h fuel s src).2.2) := by
  induction fuel generalizing s buf src with
  | zero => exact .quiet rfl rfl id
  | succ fuel ih =>
      rw [Buffer.putLoop]
      split
      · exact .quiet rfl rfl id
      · split
        · exact .quiet rfl rfl id
        next r hr =>
          simp only
          have hchunk := (chunkMut_noted hr).trans
            (fill_noted r.1 r.2 (src.take (min src.length (r.2.chunkLen h))))
          split
          · exact hchunk.trans (ih _ _ _)
          · exact hchunk

theorem putSlice_noted (h : BytesMut) (s : Store) (buf : Buffer) (src : List UInt8) :
    Noted s.arena.metrics (.buffer buf) (buf.putSlice h s src).2.1.arena.metrics
      (.buffer (buf.putSlice h s src).2.2) := by
  rw [Buffer.putSlice]
  split
  · exact .quiet rfl rfl id
  · exact putLoop_noted h _ s buf src

theorem tryPutSlice_noted (h : BytesMut) (s : Store) (buf : Buffer) (data : List UInt8) :
    Noted s.arena.metrics (.buffer buf) (buf.tryPutSlice h s data).2.1.arena.metrics
      (.buffer (buf.tryPutSlice h s data).2.2) := by
  simp only [Buffer.tryPutSlice]
  split
  · exact .quiet rfl rfl id
  · exact putSlice_noted h s buf data

theorem writeTo_metrics (s : Store) (k : AllocationKind) (pos : Nat) (byte : UInt8) :
    (writeTo s k pos byte).arena.metrics = s.arena.metrics := by
  simp only [writeTo]
  split
  · exact ArenaRef.metrics_setMemory _ _
  · rfl

theorem noted_release {k : AllocationKind} {r : Moved}
    (h : ((s.release k).map fun s => (⟨s, .gone, true⟩ : Moved)) = some r) :
    Noted s.arena.metrics x r.store.arena.metrics r.holder := by
  obtain ⟨s', hs', rfl⟩ := Option.map_eq_some_iff.mp h
  obtain ⟨hs, hf⟩ := release_counts hs'
  exact .quiet hs hf fun h => (by cases h)

theorem noted_frozen (s : Store) (handle : BufferHandle) (views : List (Nat × Nat)) (hplain : plain x = true) :
    Noted s.arena.metrics x s.arena.recordFrozen.metrics (.bytes handle views) := by
  rw [ArenaRef.metrics_recordFrozen]
  exact .freeze rfl rfl hplain rfl

theorem noted_drop {r : Moved} (h : ((buf.drop s).map fun s => (⟨s, .gone, true⟩ : Moved)) = some r) :
    Noted s.arena.metrics x r.store.arena.metrics r.holder := by
  rw [Buffer.drop] at h
  split at h
  · cases h
    exact .quiet rfl rfl fun h => (by cases h)
  · exact noted_release h

theorem actBuffer_noted (bc : BytesCrate) {call : OwnerCall} {r : Moved} (h : actBuffer bc s buf call = some r) :
    Noted s.arena.metrics (.buffer buf) r.store.arena.metrics r.holder := by
  cases call with
  | putSlice data =>
      cases h
      exact putSlice_noted bc.bytesMut s buf data
  | tryPutSlice data =>
      cases h
      exact tryPutSlice_noted bc.bytesMut s buf data
  | write pos byte =>
      cases h
      split
      · exact .quiet rfl rfl id
      · exact .quiet (by rw [writeTo_metrics]) (by rw [writeTo_metrics]) id
  | drop => exact noted_drop h
  | abandon => exact noted_drop h
  | freeze =>
      cases hspilled : buf.spilled with
      | none =>
          simp only [actBuffer, Buffer.freeze, hspilled] at h
          cases h
          exact noted_frozen s _ _ (by simp [plain, Buffer.isSpilled, hspilled])
      | some heap =>
          simp only [actBuffer, Buffer.freeze, hspilled, Option.map_map] at h
          exact noted_drop h
  | _ =>
      cases h
      exact .quiet rfl rfl id

theorem actRegion_noted {raw : RawRegion} {call : OwnerCall} {r : Moved} (h : actRegion s raw call = some r) :
    Noted s.arena.metrics (.region raw) r.store.arena.metrics r.holder := by
  cases call with
  | write pos byte =>
      cases h
      exact .quiet (by rw [writeTo_metrics]) (by rw [writeTo_metrics]) id
  | drop => exact noted_release h
  | freezeRange start fin =>
      by_cases hbad : start > fin ∨ fin > raw.capacity
      · simp only [actRegion, RawRegion.freeze, if_pos hbad, Option.map_map] at h
        exact noted_release h
      · simp only [actRegion, RawRegion.freeze, if_neg hbad] at h
        cases h
        exact noted_frozen s _ _ rfl
  | _ =>
      cases h
      exact .quiet rfl rfl id

theorem actBytes_noted (bc : BytesCrate) {handle : BufferHandle} {views : List (Nat × Nat)} {call : OwnerCall}
    {r : Moved} (h : actBytes bc s handle views call = some r) :
    Noted s.arena.metrics (.bytes handle views) r.store.arena.metrics r.holder := by
  cases call with
  | cloneBytes view =>
      cases h
      exact .quiet rfl rfl id
  | sliceBytes view start fin =>
      rw [actBytes] at h
      split at h
      · cases h
        exact .quiet rfl rfl id
      · split at h <;>
          cases h <;>
          exact .quiet rfl rfl id
  | dropBytes view =>
      simp only [actBytes] at h
      split at h
      · exact noted_release h
      · cases h
        exact .quiet rfl rfl id
  | _ =>
      cases h
      exact .quiet rfl rfl id

theorem act_noted (bc : BytesCrate) {call : OwnerCall} {r : Moved} (h : x.act bc s call = some r) :
    Noted s.arena.metrics x r.store.arena.metrics r.holder := by
  cases x with
  | buffer buf => exact actBuffer_noted bc h
  | region raw => exact actRegion_noted h
  | bytes handle views => exact actBytes_noted bc h
  | gone =>
      cases h
      exact .quiet rfl rfl id

end ArenaAlligator.SpillCounts
