import ArenaAlligator.BufferVector
import ArenaAlligator.Lifecycle

namespace ArenaAlligator.ReleasedOnce

open BufferVector Lifecycle

/-- What stands over allocation k agrees with the arena about it. -/
inductive Coherent (a : ArenaRef) (k : AllocationKind) : Holder → Prop
  | buffer {v : List UInt8} {buf : Buffer} (hk : buf.allocation = k) (hv : Holds v a buf)
      (hstart : (a.block k).1 ≤ buf.offset) (hfin : buf.offset + buf.capacity ≤ (a.block k).1 + (a.block k).2) :
      Coherent a k (.buffer buf)
  | region {raw : RawRegion} (hk : raw.allocation = k) : Coherent a k (.region raw)
  | bytes {handle : BufferHandle} {views : List (Nat × Nat)} (hk : handle.allocation = k) (hviews : views ≠ []) :
      Coherent a k (.bytes handle views)
  | gone : Coherent a k .gone

structure Acted (a : ArenaRef) (k : AllocationKind) (holder : Holder) (r : Moved) : Prop where
  coherent : Coherent r.store.arena k r.holder
  steps : OwnSteps k (a.block k).1 (a.block k).2 (⟨a, []⟩, !holder.reads) (r.store, !r.holder.reads)
  owners : r.holder.keeps.toNat + r.ownerDropped.toNat = holder.keeps.toNat

variable {a c : ArenaRef} {k : AllocationKind} {holder : Holder}

theorem Coherent.congr (h : Coherent a k holder) (hserves : ∀ l, c.Serves l ↔ a.Serves l) (hblock : c.block = a.block) :
    Coherent c k holder := by
  cases h with
  | buffer hk hv hstart hfin =>
      rw [← hblock] at hstart hfin
      cases hv with
      | inArena hspilled hserved hlen hreleased =>
          exact .buffer hk (.inArena hspilled ((hserves _).mpr hserved) hlen hreleased) hstart hfin
      | onHeap hspilled hauto hreleased hbig => exact .buffer hk (.onHeap hspilled hauto hreleased hbig) hstart hfin
  | region hk => exact .region hk
  | bytes hk hviews => exact .bytes hk hviews
  | gone => exact .gone

theorem Coherent.allocated {n : Nat} {buf : Buffer} (h : a.allocate n = (.ok buf, c)) :
    Coherent c buf.allocation (.buffer buf) := by
  obtain ⟨hoffset, hcapacity⟩ := ArenaRef.allocate_inside h
  have hblock : c.block = a.block := by
    have := a.allocate_block n
    rwa [h] at this
  rw [← hblock] at hoffset hcapacity
  exact .buffer rfl (Holds.allocated h) hoffset.ge (by omega)

theorem acted_idle (h : Coherent a k holder) : Acted a k holder ⟨⟨a, []⟩, holder, false⟩ :=
  ⟨h, .refl, rfl⟩

theorem acted_release (hserves : a.Serves k) (hreads : holder.reads = true) (hkeeps : holder.keeps = true) :
    ∃ r, ((Store.release ⟨a, []⟩ k).map fun s => (⟨s, .gone, true⟩ : Moved)) = some r ∧ Acted a k holder r := by
  obtain ⟨s, hs⟩ := Store.exists_release (s := ⟨a, []⟩) hserves
  refine ⟨⟨s, .gone, true⟩, by rw [hs]; rfl, .gone, ?_, ?_⟩
  · rw [hreads]
    exact .single (.release hs)
  · rw [hkeeps]
    rfl

theorem acted_letGo {buf : Buffer} (hspilled : buf.isSpilled = true) :
    Acted a k (.buffer buf) ⟨⟨a, []⟩, .gone, true⟩ := by
  refine ⟨.gone, ?_, rfl⟩
  simp only [Holder.reads, hspilled, Bool.not_true, Bool.not_false]
  exact .refl

theorem acted_frozen {handle : BufferHandle} (hk : handle.allocation = k) (hreads : holder.reads = true)
    (hkeeps : holder.keeps = true) :
    Acted a k holder ⟨⟨a.recordFrozen, []⟩, .bytes handle [(0, handle.len)], false⟩ := by
  refine ⟨.bytes hk (by simp), ?_, ?_⟩
  · rw [hreads]
    exact .single .recordFrozen
  · rw [hkeeps]
    rfl

theorem acted_write (h : Coherent a k holder) (hreads : holder.reads = true) (pos : Nat) (byte : UInt8) :
    Acted a k holder ⟨writeTo ⟨a, []⟩ k pos byte, holder, false⟩ := by
  by_cases hpos : pos < (a.block k).2
  · let m : Memory := Regions.write a.memory ((a.block k).1 + pos) [byte]
    have hwrite : writeTo ⟨a, []⟩ k pos byte = ⟨a.setMemory m, []⟩ := by simp [writeTo, hpos, m]
    rw [hwrite]
    refine ⟨h.congr (fun l => ArenaRef.serves_setMemory m) (a.block_setMemory m), ?_, rfl⟩
    rw [hreads]
    apply Relation.ReflTransGen.single
    apply OwnStep.store
    intro i hi
    exact Regions.write_outside _ (by simp only [List.length_singleton]; omega)
  · have hwrite : writeTo ⟨a, []⟩ k pos byte = ⟨a, []⟩ := by simp [writeTo, hpos]
    rw [hwrite]
    exact acted_idle h

theorem acted_call (h : BytesMut) {v : List UInt8} {buf : Buffer} (hk : buf.allocation = k) (hv : Holds v a buf)
    (hstart : (a.block k).1 ≤ buf.offset) (hfin : buf.offset + buf.capacity ≤ (a.block k).1 + (a.block k).2)
    (x : Call) :
    Acted a k (.buffer buf) ⟨(call h ⟨a, []⟩ buf x).2.1, .buffer (call h ⟨a, []⟩ buf x).2.2, false⟩ := by
  obtain ⟨v', hwrote⟩ := call_wrote (s := ⟨a, []⟩) h hv x
  have hsteps := Relation.ReflTransGen.mono (fun _ _ => OwnStep.mono hstart hfin) _ _ hwrote.steps
  rw [hk] at hsteps
  refine ⟨?_, ?_, rfl⟩
  · refine .buffer (hwrote.same.allocation.trans hk) hwrote.holds ?_ ?_
    · rw [hwrote.same.offset, OwnSteps.block hsteps]
      exact hstart
    · rw [hwrote.same.offset, hwrote.same.capacity, OwnSteps.block hsteps]
      exact hfin
  · simpa [Holder.reads] using hsteps

theorem actBuffer_acted (bc : BytesCrate) {buf : Buffer} (h : Coherent a k (.buffer buf)) (hserves : a.Serves k)
    (x : OwnerCall) : ∃ r, actBuffer bc ⟨a, []⟩ buf x = some r ∧ Acted a k (.buffer buf) r := by
  have hcoherent := h
  cases h with
  | buffer hk hv hstart hfin =>
      have hdrop : ∃ r, ((buf.drop ⟨a, []⟩).map fun s => (⟨s, .gone, true⟩ : Moved)) = some r ∧
          Acted a k (.buffer buf) r := by
        cases hv with
        | inArena hspilled _ _ hreleased =>
            rw [Buffer.drop, hreleased, hk]
            exact acted_release hserves (by simp [Holder.reads, Buffer.isSpilled, hspilled]) rfl
        | onHeap hspilled _ hreleased _ =>
            exact ⟨_, by rw [Buffer.drop, hreleased]; rfl, acted_letGo (by simp [Buffer.isSpilled, hspilled])⟩
      cases x with
      | putSlice data => exact ⟨_, rfl, acted_call bc.bytesMut hk hv hstart hfin (.putSlice data)⟩
      | tryPutSlice data => exact ⟨_, rfl, acted_call bc.bytesMut hk hv hstart hfin (.tryPutSlice data)⟩
      | write pos byte =>
          cases hspilled : buf.isSpilled with
          | true => exact ⟨_, by rw [actBuffer, hspilled]; rfl, acted_idle hcoherent⟩
          | false =>
              refine ⟨_, by rw [actBuffer, hspilled, hk], ?_⟩
              exact acted_write hcoherent (by simp [Holder.reads, hspilled]) pos byte
      | drop => exact hdrop
      | abandon => exact hdrop
      | freeze =>
          cases hv with
          | inArena hspilled =>
              refine ⟨_, by simp only [actBuffer, Buffer.freeze, hspilled]; rfl, ?_⟩
              exact acted_frozen hk (by simp [Holder.reads, Buffer.isSpilled, hspilled]) rfl
          | onHeap hspilled _ hreleased _ =>
              refine ⟨⟨⟨a, []⟩, .gone, true⟩, ?_, acted_letGo (by simp [Buffer.isSpilled, hspilled])⟩
              simp [actBuffer, Buffer.freeze, Buffer.drop, hspilled, hreleased]
      | _ => exact ⟨_, rfl, acted_idle hcoherent⟩

theorem actRegion_acted {raw : RawRegion} (hk : raw.allocation = k) (hserves : a.Serves k) (x : OwnerCall) :
    ∃ r, actRegion ⟨a, []⟩ raw x = some r ∧ Acted a k (.region raw) r := by
  cases x with
  | write pos byte =>
      exact ⟨_, by rw [actRegion, hk], acted_write (.region hk) rfl pos byte⟩
  | drop =>
      rw [actRegion, RawRegion.drop, hk]
      exact acted_release hserves rfl rfl
  | freezeRange start fin =>
      by_cases hbad : start > fin ∨ fin > raw.capacity
      · obtain ⟨r, hr, hacted⟩ := @acted_release a k (.region raw) hserves rfl rfl
        refine ⟨r, ?_, hacted⟩
        rw [← hr]
        simp [actRegion, RawRegion.freeze, RawRegion.drop, hbad, hk, Function.comp_def]
      · refine ⟨_, by simp only [actRegion, RawRegion.freeze, if_neg hbad]; rfl, ?_⟩
        exact acted_frozen hk rfl rfl
  | _ => exact ⟨_, rfl, acted_idle (.region hk)⟩

theorem actBytes_acted (bc : BytesCrate) {handle : BufferHandle} {views : List (Nat × Nat)}
    (hk : handle.allocation = k) (hviews : views ≠ []) (hserves : a.Serves k) (x : OwnerCall) :
    ∃ r, actBytes bc ⟨a, []⟩ handle views x = some r ∧ Acted a k (.bytes handle views) r := by
  have hreads : (Holder.bytes handle views).reads = true := by simp [Holder.reads, hviews]
  have hpinned : ∀ more : List (Nat × Nat), more ≠ [] →
      Acted a k (.bytes handle views) ⟨⟨a, []⟩, .bytes handle more, false⟩ := by
    intro more hmore
    have hmore' : (Holder.bytes handle more).reads = true := by simp [Holder.reads, hmore]
    refine ⟨.bytes hk hmore, ?_, ?_⟩
    · rw [hreads, hmore']
    · change (Holder.bytes handle more).reads.toNat + 0 = (Holder.bytes handle views).reads.toNat
      rw [hmore', hreads, add_zero]
  cases x with
  | cloneBytes view => exact ⟨_, rfl, hpinned _ (by simp [hviews])⟩
  | sliceBytes view start fin =>
      rw [actBytes]
      split
      · exact ⟨_, rfl, hpinned views hviews⟩
      · split
        · exact ⟨_, rfl, hpinned _ (by simp)⟩
        · exact ⟨_, rfl, hpinned views hviews⟩
  | dropBytes view =>
      simp only [actBytes]
      split
      · rw [BufferHandle.drop, hk]
        exact acted_release hserves hreads hreads
      next hrest => exact ⟨_, rfl, hpinned _ hrest⟩
  | _ => exact ⟨_, rfl, hpinned views hviews⟩

theorem act_acted (bc : BytesCrate) (h : Coherent a k holder) (hserves : a.Serves k) (x : OwnerCall) :
    ∃ r, holder.act bc ⟨a, []⟩ x = some r ∧ Acted a k holder r := by
  have hcoherent := h
  cases h with
  | buffer => exact actBuffer_acted bc hcoherent hserves x
  | region hk => exact actRegion_acted hk hserves x
  | bytes hk hviews => exact actBytes_acted bc hk hviews hserves x
  | gone => exact ⟨_, rfl, acted_idle .gone⟩

/-- What a call releases: the allocation, if this call is where it stops being
readable. -/
theorem Acted.releases {r : Moved} (h : Acted a k holder r) :
    r.store.releases ++ (if holder.reads then [] else [k]) = if r.holder.reads then [] else [k] := by
  obtain ⟨hlog, hmono⟩ := h.steps.releases
  rw [hlog]
  cases hbefore : holder.reads <;> cases hafter : r.holder.reads <;> simp_all

/-- What holds of one slot: it is served, agrees with the arena, and has been
released once it is no longer readable. -/
structure SlotSound (w : World) (id : Nat) (slot : Slot) : Prop where
  serves : w.arena.Serves slot.allocation
  coherent : Coherent w.arena slot.allocation slot.holder
  releases : w.releasesOf id = if slot.holder.reads then [] else [slot.allocation]

/-- The invariant, in the middle of a call that holds refs references to the
arena beside those of the slots and of the arena values. -/
structure Sound (ptr len refs : Nat) (w : World) : Prop where
  slots : ∀ id slot, w.slots[id]? = some slot → SlotSound w id slot
  fresh : ∀ id, w.slots.length ≤ id → w.releasesOf id = []
  strong : w.strong = w.handles + w.slots.countP (fun slot => slot.holder.keeps) + refs
  region : w.ptr = ptr ∧ w.deallocLen = len
  inUse : w.strong ≠ 0 → w.deallocations = [] ∧ w.dealloc = .erased
  ended : w.strong = 0 → w.deallocations = [(ptr, len)] ∧ ∀ e ∈ w.log.tail, e.deallocation = none

variable {ptr len refs : Nat} {w : World}

theorem SlotSound.congr {w' : World} {id : Nat} {slot : Slot} (h : SlotSound w id slot) (harena : w'.arena = w.arena)
    (hlog : w'.releasesOf id = w.releasesOf id) : SlotSound w' id slot := by
  refine ⟨?_, ?_, hlog.trans h.releases⟩
  · rw [harena]
    exact h.serves
  · rw [harena]
    exact h.coherent

theorem reads_keeps (h : holder.keeps = false) : holder.reads = false := by
  cases holder with
  | buffer buf => cases h
  | region raw => cases h
  | bytes handle views => exact h
  | gone => rfl

theorem filterMap_releaseOf_self (id : Nat) (ks : List AllocationKind) :
    (ks.map (Event.released id)).filterMap (Event.releaseOf id) = ks := by
  induction ks with
  | nil => rfl
  | cons k ks ih => simp [Event.releaseOf, ih]

theorem filterMap_releaseOf_of_ne {id j : Nat} (h : id ≠ j) (ks : List AllocationKind) :
    (ks.map (Event.released id)).filterMap (Event.releaseOf j) = [] := by
  induction ks with
  | nil => rfl
  | cons k ks ih => simp [Event.releaseOf, h, ih]

theorem filterMap_deallocation (id : Nat) (ks : List AllocationKind) :
    (ks.map (Event.released id)).filterMap Event.deallocation = [] := by
  induction ks with
  | nil => rfl
  | cons k ks ih => exact (List.filterMap_cons_none rfl).trans ih

theorem Sound.dropRef (h : Sound ptr len (refs + 1) w) : Sound ptr len refs w.dropRef := by
  have hpos : w.strong ≠ 0 := by have := h.strong; omega
  obtain ⟨hnone, herased⟩ := h.inUse hpos
  by_cases hone : w.strong - 1 = 0
  · have hdrop : w.dropRef =
        { w with strong := 0, dealloc := .noop, log := .deallocated w.ptr w.deallocLen :: w.log } := by
      simp [World.dropRef, World.dropInner, hone, herased]
    have hreleases : ∀ id, w.dropRef.releasesOf id = w.releasesOf id := by
      intro id
      rw [hdrop]
      exact List.filterMap_cons_none rfl
    constructor
    · intro id slot hslot
      rw [hdrop] at hslot
      exact (h.slots id slot hslot).congr (by rw [hdrop]) (hreleases id)
    · intro id hid
      rw [hdrop] at hid
      exact (hreleases id).trans (h.fresh id hid)
    · rw [hdrop]
      have := h.strong
      simp only
      omega
    · rw [hdrop]
      exact h.region
    · rw [hdrop]
      exact fun hne => absurd rfl hne
    · intro _
      rw [hdrop]
      refine ⟨?_, fun e he => List.filterMap_eq_nil_iff.mp hnone e he⟩
      simp only [World.deallocations] at hnone ⊢
      rw [List.filterMap_cons_some (b := (ptr, len)) (by simp [Event.deallocation, h.region.1, h.region.2]), hnone]
  · have hdrop : w.dropRef = { w with strong := w.strong - 1 } := by simp [World.dropRef, hone]
    rw [hdrop]
    refine ⟨fun id slot hslot => ?_, h.fresh, ?_, h.region, fun _ => ⟨hnone, herased⟩, fun hzero => absurd hzero hone⟩
    · exact (h.slots id slot hslot).congr rfl rfl
    · have := h.strong
      simp only
      omega

theorem countP_set_add {α : Type} {l : List α} {i : Nat} {x : α} (h : l[i]? = some x) (p : α → Bool) (y : α) :
    (l.set i y).countP p + (p x).toNat = l.countP p + (p y).toNat := by
  obtain ⟨hlt, hget⟩ := List.getElem?_eq_some_iff.mp h
  rw [List.countP_set hlt, hget]
  have hpos : p x = true → 0 < l.countP p := fun hx => List.countP_pos_iff.mpr ⟨x, List.mem_of_getElem? h, hx⟩
  cases hx : p x with
  | false => cases p y <;> simp
  | true =>
      have := hpos hx
      cases p y <;> simp <;> omega

theorem Acted.releases_of_unread {r : Moved} (h : Acted a k holder r) (hreads : holder.reads = false) :
    r.store.releases = [] := by
  rw [h.steps.releases.1, if_neg (by simp [hreads])]
  rfl

theorem Sound.settle (h : Sound ptr len 0 w) {id : Nat} {slot : Slot} (hslot : w.slots[id]? = some slot) {r : Moved}
    (hacted : Acted w.arena slot.allocation slot.holder r) : Sound ptr len 0 (w.settle id slot.allocation r) := by
  obtain ⟨hlt, hget⟩ := List.getElem?_eq_some_iff.mp hslot
  have hsound := h.slots id slot hslot
  let w' : World := { w with
    arena := r.store.arena
    slots := w.slots.set id ⟨slot.allocation, r.holder⟩
    log := r.store.releases.map (.released id) ++ w.log }
  have hself : w'.releasesOf id = if r.holder.reads then [] else [slot.allocation] := by
    rw [← hacted.releases, ← hsound.releases]
    simp only [World.releasesOf, w', List.filterMap_append, filterMap_releaseOf_self]
  have hother : ∀ j, id ≠ j → w'.releasesOf j = w.releasesOf j := by
    intro j hne
    simp only [World.releasesOf, w', List.filterMap_append, filterMap_releaseOf_of_ne hne, List.nil_append]
  have hdealloc : w'.deallocations = w.deallocations := by
    simp only [World.deallocations, w', List.filterMap_append, filterMap_deallocation, List.nil_append]
  have hw' : Sound ptr len r.ownerDropped.toNat w' := by
    constructor
    · intro j other hj
      by_cases hne : id = j
      · subst hne
        rw [List.getElem?_set_self hlt] at hj
        cases hj
        exact ⟨(hacted.steps.serves _).mpr hsound.serves, hacted.coherent, hself⟩
      · rw [List.getElem?_set_ne hne] at hj
        obtain ⟨hserves, hcoherent, hlog⟩ := h.slots j other hj
        exact ⟨(hacted.steps.serves _).mpr hserves, hcoherent.congr hacted.steps.serves hacted.steps.block,
          (hother j hne).trans hlog⟩
    · intro j hj
      rw [List.length_set] at hj
      exact (hother j (by omega)).trans (h.fresh j hj)
    · have howners := hacted.owners
      have hcount : w'.slots.countP (fun slot => slot.holder.keeps) + slot.holder.keeps.toNat =
          w.slots.countP (fun slot => slot.holder.keeps) + r.holder.keeps.toNat :=
        countP_set_add hslot (fun slot => slot.holder.keeps) ⟨slot.allocation, r.holder⟩
      have := h.strong
      change w.strong = w.handles + w'.slots.countP (fun slot => slot.holder.keeps) + r.ownerDropped.toNat
      omega
    · exact h.region
    · intro hne
      exact ⟨hdealloc.trans (h.inUse hne).1, (h.inUse hne).2⟩
    · intro hzero
      replace hzero : w.strong = 0 := hzero
      have hcount : w.slots.countP (fun slot => slot.holder.keeps) = 0 := by have := h.strong; omega
      have hkeeps : slot.holder.keeps = false := by
        simpa using List.countP_eq_zero.mp hcount slot (List.mem_of_getElem? hslot)
      have hlog : w'.log = w.log := by
        simp only [w', hacted.releases_of_unread (reads_keeps hkeeps), List.map_nil, List.nil_append]
      rw [hlog]
      exact ⟨hdealloc.trans (h.ended hzero).1, (h.ended hzero).2⟩
  cases hdrop : r.ownerDropped with
  | false =>
      have hsettle : w.settle id slot.allocation r = w' := by simp [World.settle, hdrop, w']
      rw [hsettle]
      simpa [hdrop] using hw'
  | true =>
      have hsettle : w.settle id slot.allocation r = w'.dropRef := by simp [World.settle, hdrop, w']
      rw [hsettle]
      rw [hdrop] at hw'
      exact hw'.dropRef

theorem Sound.setArena (h : Sound ptr len refs w) {c : ArenaRef} (hserves : ∀ l, c.Serves l ↔ w.arena.Serves l)
    (hblock : c.block = w.arena.block) : Sound ptr len refs { w with arena := c } := by
  refine ⟨fun id slot hslot => ?_, h.fresh, h.strong, h.region, h.inUse, h.ended⟩
  obtain ⟨hserved, hcoherent, hlog⟩ := h.slots id slot hslot
  exact ⟨(hserves _).mpr hserved, hcoherent.congr hserves hblock, hlog⟩

theorem Sound.addSlot (h : Sound ptr len refs w) (hhandles : w.handles ≠ 0) (hserves : w.arena.Serves k)
    (hcoherent : Coherent w.arena k holder) (hreads : holder.reads = true) (hkeeps : holder.keeps = true) :
    Sound ptr len refs (w.addSlot k holder) := by
  have hpos : w.strong ≠ 0 := by have := h.strong; omega
  constructor
  · intro id slot hslot
    rw [World.addSlot, List.getElem?_append] at hslot
    split at hslot
    · exact (h.slots id slot hslot).congr rfl rfl
    next hge =>
      obtain rfl : slot = ⟨k, holder⟩ := List.mem_singleton.mp (List.mem_of_getElem? hslot)
      exact ⟨hserves, hcoherent, by rw [hreads]; exact h.fresh id (Nat.le_of_not_lt hge)⟩
  · intro id hid
    rw [World.addSlot, List.length_append] at hid
    exact h.fresh id (by omega)
  · have := h.strong
    simp only [World.addSlot, List.countP_append, List.countP_singleton, hkeeps, if_true]
    omega
  · exact h.region
  · exact fun _ => h.inUse hpos
  · intro hzero
    exact absurd hzero (Nat.succ_ne_zero _)

inductive HandedOut (w : World) (n : Nat) : World → Prop
  | idle : HandedOut w n w
  | refused {e : AllocError} (he : (w.arena.allocate n).1 = .error e) :
      HandedOut w n { w with arena := (w.arena.allocate n).2 }
  | served {buf : Buffer} {holder : Holder} (hhandles : w.handles ≠ 0) (hbuf : (w.arena.allocate n).1 = .ok buf)
      (hcoherent : Coherent (w.arena.allocate n).2 buf.allocation holder) (hreads : holder.reads = true)
      (hkeeps : holder.keeps = true) :
      HandedOut w n (World.addSlot { w with arena := (w.arena.allocate n).2 } buf.allocation holder)

theorem step_allocate (bc : BytesCrate) (w : World) (n : Nat) :
    ∃ w', step bc w (.allocate n) = some w' ∧ HandedOut w n w' := by
  by_cases hzero : w.handles = 0
  · exact ⟨w, by simp [Lifecycle.step, hzero], .idle⟩
  · cases hr : (w.arena.allocate n).1 with
    | error e => exact ⟨_, by simp only [Lifecycle.step, if_neg hzero, hr], .refused hr⟩
    | ok buf =>
        obtain ⟨-, -, -, -, hspilled⟩ := ArenaRef.allocate_fresh (Prod.ext hr rfl)
        refine ⟨_, by simp only [Lifecycle.step, if_neg hzero, hr]; rfl, ?_⟩
        apply HandedOut.served hzero hr (Coherent.allocated (Prod.ext hr rfl))
        · simp [Holder.reads, Buffer.isSpilled, hspilled]
        · rfl

theorem step_rawAlloc (bc : BytesCrate) (w : World) (n : Nat) :
    ∃ w', step bc w (.rawAlloc n) = some w' ∧ HandedOut w n w' := by
  by_cases hzero : w.handles = 0
  · exact ⟨w, by simp [Lifecycle.step, hzero], .idle⟩
  · cases hr : (w.arena.allocate n).1 with
    | error e => exact ⟨_, by simp only [Lifecycle.step, RawRegion.rawAlloc, if_neg hzero, hr, Except.map], .refused hr⟩
    | ok buf =>
        refine ⟨_, by simp only [Lifecycle.step, RawRegion.rawAlloc, if_neg hzero, hr, Except.map]; rfl, ?_⟩
        exact .served hzero hr (.region rfl) rfl rfl

theorem Sound.handOut {n : Nat} {w' : World} (h : Sound ptr len refs w) (hout : HandedOut w n w') :
    Sound ptr len refs w' := by
  have harena := h.setArena (ArenaRef.allocate_serves w.arena n) (ArenaRef.allocate_block w.arena n)
  cases hout with
  | idle => exact h
  | refused => exact harena
  | served hhandles hbuf hcoherent hreads hkeeps =>
      obtain ⟨hserves, -⟩ := ArenaRef.allocate_fresh (Prod.ext hbuf rfl)
      exact harena.addSlot hhandles hserves hcoherent hreads hkeeps

theorem Sound.step (bc : BytesCrate) (h : Sound ptr len 0 w) (x : Action) :
    ∃ w', step bc w x = some w' ∧ Sound ptr len 0 w' := by
  cases x with
  | cloneArena =>
      refine ⟨_, rfl, ?_⟩
      split_ifs with hzero
      · exact h
      · have hpos : w.strong ≠ 0 := by have := h.strong; omega
        refine ⟨fun id slot hslot => ?_, h.fresh, ?_, h.region, fun _ => h.inUse hpos, fun hne => ?_⟩
        · exact (h.slots id slot hslot).congr rfl rfl
        · have := h.strong
          simp only
          omega
        · exact absurd hne (Nat.succ_ne_zero _)
  | dropArena =>
      refine ⟨_, rfl, ?_⟩
      split_ifs with hzero
      · exact h
      · apply Sound.dropRef
        refine ⟨fun id slot hslot => ?_, h.fresh, ?_, h.region, h.inUse, h.ended⟩
        · exact (h.slots id slot hslot).congr rfl rfl
        · have := h.strong
          simp only
          omega
  | allocate n =>
      obtain ⟨w', hstep, hout⟩ := step_allocate bc w n
      exact ⟨w', hstep, h.handOut hout⟩
  | rawAlloc n =>
      obtain ⟨w', hstep, hout⟩ := step_rawAlloc bc w n
      exact ⟨w', hstep, h.handOut hout⟩
  | own id x =>
      cases hslot : w.slots[id]? with
      | none => exact ⟨w, by simp [Lifecycle.step, hslot], h⟩
      | some slot =>
          have hsound := h.slots id slot hslot
          obtain ⟨r, hr, hacted⟩ := act_acted bc hsound.coherent hsound.serves x
          exact ⟨_, by simp only [Lifecycle.step, hslot, hr, Option.map_some], h.settle hslot hacted⟩

theorem Sound.build (b : Builder) (ptr : Nat) (initPolicy : InitPolicy) (memory : Memory) :
    Sound ptr b.regionLen 0 (b.build ptr initPolicy memory) := by
  refine ⟨fun id slot hslot => ?_, fun _ _ => rfl, rfl, ⟨rfl, rfl⟩, fun _ => ⟨rfl, rfl⟩, fun hzero => ?_⟩
  · cases hslot
  · cases hzero

theorem Sound.run (bc : BytesCrate) (h : Sound ptr len 0 w) (acts : List Action) :
    ∃ w', run bc w acts = some w' ∧ Sound ptr len 0 w' := by
  induction acts generalizing w with
  | nil => exact ⟨w, rfl, h⟩
  | cons x xs ih =>
      obtain ⟨w', hstep, hw'⟩ := h.step bc x
      obtain ⟨w'', hrun, hw''⟩ := ih hw'
      exact ⟨w'', by rw [Lifecycle.run, hstep]; exact hrun, hw''⟩

theorem dropRef_slots (w : World) : w.dropRef.slots = w.slots ∧ w.dropRef.arena = w.arena := by
  unfold World.dropRef
  simp only
  split <;> exact ⟨rfl, rfl⟩

theorem settle_slots (w : World) (id : Nat) (k : AllocationKind) (r : Moved) :
    (w.settle id k r).slots = w.slots.set id ⟨k, r.holder⟩ ∧ (w.settle id k r).arena = r.store.arena := by
  unfold World.settle
  simp only
  split
  · exact dropRef_slots _
  · exact ⟨rfl, rfl⟩

inductive Stepped (bc : BytesCrate) (w : World) : World → Prop
  | quiet {w' : World} (harena : w'.arena = w.arena) (hslots : w'.slots = w.slots) : Stepped bc w w'
  | out {n : Nat} {w' : World} (hout : HandedOut w n w') : Stepped bc w w'
  | own {id : Nat} {slot : Slot} {x : OwnerCall} {r : Moved} (hslot : w.slots[id]? = some slot)
      (hr : slot.holder.act bc ⟨w.arena, []⟩ x = some r) (hacted : Acted w.arena slot.allocation slot.holder r) :
      Stepped bc w (w.settle id slot.allocation r)

theorem Sound.stepped {bc : BytesCrate} (h : Sound ptr len 0 w) {x : Action} {w' : World}
    (hstep : Lifecycle.step bc w x = some w') : Stepped bc w w' := by
  cases x with
  | cloneArena =>
      cases hstep
      split_ifs <;> exact .quiet rfl rfl
  | dropArena =>
      cases hstep
      split_ifs
      · exact .quiet rfl rfl
      · obtain ⟨hslots, harena⟩ := dropRef_slots { w with handles := w.handles - 1 }
        exact .quiet harena hslots
  | allocate n =>
      obtain ⟨v, hv, hout⟩ := step_allocate bc w n
      rw [hstep] at hv
      cases hv
      exact .out hout
  | rawAlloc n =>
      obtain ⟨v, hv, hout⟩ := step_rawAlloc bc w n
      rw [hstep] at hv
      cases hv
      exact .out hout
  | own id x =>
      cases hslot : w.slots[id]? with
      | none =>
          simp only [Lifecycle.step, hslot] at hstep
          cases hstep
          exact .quiet rfl rfl
      | some slot =>
          have hsound := h.slots id slot hslot
          obtain ⟨r, hr, hacted⟩ := act_acted bc hsound.coherent hsound.serves x
          simp only [Lifecycle.step, hslot, hr, Option.map_some] at hstep
          cases hstep
          exact .own hslot hr hacted

theorem Sound.run_invariant (bc : BytesCrate) (hw : Sound ptr len 0 w) (P : World → Prop)
    (hstep : ∀ v v', P v → Stepped bc v v' → P v') (h : P w) (acts : List Action) :
    ∃ w', Lifecycle.run bc w acts = some w' ∧ P w' := by
  induction acts generalizing w with
  | nil => exact ⟨w, rfl, h⟩
  | cons x xs ih =>
      obtain ⟨v, hv, hsound⟩ := hw.step bc x
      obtain ⟨w', hrun, h'⟩ := ih hsound (hstep w v h (hw.stepped hv))
      exact ⟨w', by rw [Lifecycle.run, hv]; exact hrun, h'⟩

theorem Sound.strong_eq_zero_iff (h : Sound ptr len 0 w) : w.strong = 0 ↔ w.inUse = false := by
  rw [h.strong, World.inUse, Bool.or_eq_false_iff, List.any_eq_false, decide_eq_false_iff_not, add_zero,
    Nat.add_eq_zero_iff, List.countP_eq_zero, Nat.not_lt, Nat.le_zero]

/-- In every run, an allocation has been passed to release once if it has
spilled or nothing stands over it any more, and not at all as long as its
memory can be read. The region is deallocated, with its own pointer and
length, exactly when the last arena value, buffer, region and Bytes is gone,
and nothing happens after it. -/
theorem allocation_released_once (bc : BytesCrate) (b : Builder) (ptr : Nat) (initPolicy : InitPolicy)
    (memory : Memory) (acts : List Action) :
    ∃ w, run bc (b.build ptr initPolicy memory) acts = some w ∧
      (∀ id slot, w.slots[id]? = some slot →
        w.releasesOf id = if slot.holder.reads then [] else [slot.allocation]) ∧
      (∀ id, w.slots.length ≤ id → w.releasesOf id = []) ∧
      w.deallocations = (if w.inUse then [] else [(ptr, b.regionLen)]) ∧
      ∀ e ∈ w.log.tail, e.deallocation = none := by
  obtain ⟨w, hrun, hw⟩ := (Sound.build b ptr initPolicy memory).run bc acts
  refine ⟨w, hrun, fun id slot hslot => (hw.slots id slot hslot).releases, hw.fresh, ?_, ?_⟩
  · cases huse : w.inUse with
    | true =>
        have hpos : w.strong ≠ 0 := fun hzero => by simp [hw.strong_eq_zero_iff.mp hzero] at huse
        exact (hw.inUse hpos).1
    | false => exact (hw.ended (hw.strong_eq_zero_iff.mpr huse)).1
  · by_cases hzero : w.strong = 0
    · exact (hw.ended hzero).2
    · intro e he
      exact List.filterMap_eq_nil_iff.mp (hw.inUse hzero).1 e (List.mem_of_mem_tail he)

end ArenaAlligator.ReleasedOnce
