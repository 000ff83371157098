import ArenaAlligator.ZeroPolicy

namespace ArenaAlligator.PrivateBytes

open Regions AlignedBlocks AlignedBlocks.Block AtomicBitmap BuddyArenaInner BufferVector Lifecycle ReleasedOnce
open UnitOwnership ZeroPolicy

/-- An allocation as its owner sees it. A buffer is a byte vector, which has
spilled once it is longer than its capacity; frozen Bytes are one byte string
for each view. -/
inductive Owned
  | buffer (bytes : List UInt8) (capacity : Nat) (autoSpill : Bool)
  | region (cells : List UInt8)
  | bytes (views : List (List UInt8))
  | gone
deriving DecidableEq

namespace Owned

def room (h : BytesMut) (v : List UInt8) (capacity : Nat) (autoSpill : Bool) : Nat :=
  if capacity < v.length then h.limit - v.length
  else if autoSpill then usizeMax
  else capacity - v.length

def put (h : BytesMut) (v : List UInt8) (capacity : Nat) (autoSpill : Bool) (data : List UInt8) : Owned :=
  if data.length ≤ room h v capacity autoSpill then buffer (v ++ data) capacity autoSpill
  else buffer v capacity autoSpill

def actBuffer (bc : BytesCrate) (v : List UInt8) (capacity : Nat) (autoSpill : Bool) : OwnerCall → Owned
  | .putSlice data => put bc.bytesMut v capacity autoSpill data
  | .tryPutSlice data => put bc.bytesMut v capacity autoSpill data
  | .write pos byte =>
      if capacity < v.length then buffer v capacity autoSpill else buffer (v.set pos byte) capacity autoSpill
  | .drop => gone
  | .abandon => gone
  | .freeze => if capacity < v.length then gone else bytes [v]
  | _ => buffer v capacity autoSpill

def actRegion (cells : List UInt8) : OwnerCall → Owned
  | .write pos byte => region (cells.set pos byte)
  | .drop => gone
  | .freezeRange start fin =>
      if start > fin ∨ fin > cells.length then gone else bytes [(cells.drop start).take (fin - start)]
  | _ => region cells

def actBytes (bc : BytesCrate) (views : List (List UInt8)) : OwnerCall → Owned
  | .cloneBytes view => bytes (views ++ views[view]?.toList)
  | .sliceBytes view start fin =>
      match views[view]? with
      | none => bytes views
      | some v =>
          if start ≤ fin ∧ fin ≤ v.length ∧ (start < fin ∨ bc.emptySliceKeeps = true) then
            bytes (views ++ [(v.drop start).take (fin - start)])
          else bytes views
  | .dropBytes view => if views.eraseIdx view = [] then gone else bytes (views.eraseIdx view)
  | _ => bytes views

def act (bc : BytesCrate) (x : OwnerCall) : Owned → Owned
  | buffer v capacity autoSpill => actBuffer bc v capacity autoSpill x
  | region cells => actRegion cells x
  | bytes views => actBytes bc views x
  | gone => gone

end Owned

/-- The capacity that the arena grants to a request, if it serves it. -/
def grant (w : World) (n : Nat) : Option Nat :=
  if w.handles = 0 then none
  else
    match (w.arena.allocate n).1 with
    | .error _ => none
    | .ok buf => some buf.capacity

/-- One action on objects that share nothing, by what the arena grants. Only a
new region shows bytes that its owner did not write, and under policy Zero they
are zero. -/
inductive PrivateStep (bc : BytesCrate) (autoSpill : Bool) (initPolicy : InitPolicy) (granted : Nat → Option Nat) :
    List Owned → Action → List Owned → Prop
  | cloneArena {objs : List Owned} : PrivateStep bc autoSpill initPolicy granted objs .cloneArena objs
  | dropArena {objs : List Owned} : PrivateStep bc autoSpill initPolicy granted objs .dropArena objs
  | allocateRefused {objs : List Owned} {n : Nat} (hnone : granted n = none) :
      PrivateStep bc autoSpill initPolicy granted objs (.allocate n) objs
  | rawAllocRefused {objs : List Owned} {n : Nat} (hnone : granted n = none) :
      PrivateStep bc autoSpill initPolicy granted objs (.rawAlloc n) objs
  | allocate {objs : List Owned} {n capacity : Nat} (hsome : granted n = some capacity) :
      PrivateStep bc autoSpill initPolicy granted objs (.allocate n) (objs ++ [.buffer [] capacity autoSpill])
  | rawAlloc {objs : List Owned} {n : Nat} {cells : List UInt8} (hsome : granted n = some cells.length)
      (hzero : initPolicy = .zero → cells = List.replicate cells.length 0) :
      PrivateStep bc autoSpill initPolicy granted objs (.rawAlloc n) (objs ++ [.region cells])
  | own {objs : List Owned} {id : Nat} {x : OwnerCall} :
      PrivateStep bc autoSpill initPolicy granted objs (.own id x) (objs.modify id (Owned.act bc x))

def observe (m : Memory) : Holder → Owned
  | .buffer buf => .buffer (buf.spilled.getD (read m buf.offset buf.len)) buf.capacity buf.autoSpill
  | .region raw => .region (read m raw.offset raw.capacity)
  | .bytes handle views => .bytes (views.map fun v => read m (handle.offset + v.1) v.2)
  | .gone => .gone

def Within (a : ArenaRef) (k : AllocationKind) : Holder → Prop
  | .buffer buf => buf.offset = (a.block k).1
  | .region raw => raw.offset = (a.block k).1 ∧ raw.capacity ≤ (a.block k).2
  | .bytes handle views => (a.block k).1 ≤ handle.offset ∧
      handle.offset + handle.len ≤ (a.block k).1 + (a.block k).2 ∧ ∀ v ∈ views, v.1 + v.2 ≤ handle.len
  | .gone => True

variable {a c : ArenaRef} {k : AllocationKind} {holder : Holder} {live : Multiset AllocationKind}

theorem Within.congr (h : Within a k holder) (hblock : c.block = a.block) : Within c k holder := by
  cases holder with
  | gone => trivial
  | _ => rwa [Within, hblock]

/-- What a holder shows depends on the block of its allocation only, and on
nothing in the arena once it does not read any more. -/
theorem observe_congr (hcoherent : Coherent a k holder) (hwithin : Within a k holder) {m : Memory}
    (hm : holder.reads = true → ∀ i, (a.block k).1 ≤ i → i < (a.block k).1 + (a.block k).2 → m i = a.memory i) :
    observe m holder = observe a.memory holder := by
  cases hcoherent with
  | buffer hk hv hstart hfin =>
      cases hv with
      | inArena hspilled hserves hlen =>
          have hread := hm (by simp [Holder.reads, Buffer.isSpilled, hspilled])
          simp only [observe, hspilled, Option.getD_none, Owned.buffer.injEq, and_true]
          exact read_congr fun i hlo hhi => hread i (by omega) (by omega)
      | onHeap hspilled => simp only [observe, hspilled, Option.getD_some]
  | region hk =>
      obtain ⟨hoffset, hcapacity⟩ := hwithin
      simp only [observe, Owned.region.injEq]
      exact read_congr fun i hlo hhi => hm rfl i (by omega) (by omega)
  | bytes hk hviews =>
      obtain ⟨hstart, hfin, hall⟩ := hwithin
      have hread := hm (by simp [Holder.reads, hviews])
      simp only [observe, Owned.bytes.injEq]
      apply List.map_congr_left
      intro v hv
      have hle := hall v hv
      exact read_congr fun i hlo hhi => hread i (by omega) (by omega)
  | gone => rfl

theorem observe_of_holds {v : List UInt8} {buf : Buffer} (hv : Holds v a buf) :
    observe a.memory (.buffer buf) = .buffer v buf.capacity buf.autoSpill := by
  cases hv with
  | inArena hspilled => simp only [observe, hspilled, Option.getD_none]
  | onHeap hspilled => simp only [observe, hspilled, Option.getD_some]

theorem isSpilled_of_holds {v : List UInt8} {buf : Buffer} (hv : Holds v a buf) :
    buf.isSpilled = true ↔ buf.capacity < v.length := by
  cases hv with
  | inArena hspilled hserves hlen => simp [Buffer.isSpilled, hspilled, hlen]
  | onHeap hspilled hauto hreleased hbig => simp [Buffer.isSpilled, hspilled, hbig]

theorem remainingMut_of_holds {v : List UInt8} {buf : Buffer} (h : BytesMut) (hv : Holds v a buf) :
    buf.remainingMut h = Owned.room h v buf.capacity buf.autoSpill := by
  cases hv with
  | inArena hspilled hserves hlen =>
      simp only [Buffer.remainingMut, hspilled, Owned.room, length_read, Nat.not_lt.mpr hlen, if_false]
  | onHeap hspilled hauto hreleased hbig =>
      simp only [Buffer.remainingMut, hspilled, Owned.room, hbig, if_true, BytesMut.remainingMut]

theorem call_observe (h : BytesMut) {v : List UInt8} {buf : Buffer} (hv : Holds v a buf) (x : Call) :
    observe (call h ⟨a, []⟩ buf x).2.1.arena.memory (.buffer (call h ⟨a, []⟩ buf x).2.2) =
        Owned.put h v buf.capacity buf.autoSpill x.data ∧
      SameBlock buf (call h ⟨a, []⟩ buf x).2.2 := by
  have hroom := remainingMut_of_holds h hv
  by_cases hrem : buf.remainingMut h < x.data.length
  · rw [call_of_not_fits (s := ⟨a, []⟩) hrem, Owned.put, if_neg (by omega)]
    exact ⟨observe_of_holds hv, rfl, rfl, rfl, rfl⟩
  · have hfits : Room v buf x.data.length := by
      cases hauto : buf.autoSpill with
      | true => exact Or.inl hauto
      | false =>
          obtain ⟨hspilled, hlen, hle⟩ := Holds.notSpilled (s := ⟨a, []⟩) hv hauto
          simp only [Buffer.remainingMut, hspilled, hauto, Bool.false_eq_true, if_false] at hrem
          exact Or.inr (by omega)
    obtain ⟨s', c, hloop, hwrote⟩ := putLoop_wrote (s := ⟨a, []⟩) (h := h) hv le_rfl hfits
    rw [call_of_fits (Nat.le_of_not_lt hrem) hloop, Owned.put, if_pos (by omega)]
    refine ⟨?_, hwrote.same⟩
    rw [observe_of_holds hwrote.holds, hwrote.same.capacity, hwrote.same.autoSpill]

theorem writeTo_memory (s : Store) {pos : Nat} (byte : UInt8) (h : pos < (s.arena.block k).2) :
    (writeTo s k pos byte).arena.memory = write s.arena.memory ((s.arena.block k).1 + pos) [byte] := by
  simp [writeTo, h]

theorem read_writeTo (s : Store) {len : Nat} (hlen : len ≤ (s.arena.block k).2) (pos : Nat) (byte : UInt8) :
    read (writeTo s k pos byte).arena.memory (s.arena.block k).1 len =
      (read s.arena.memory (s.arena.block k).1 len).set pos byte := by
  by_cases hpos : pos < (s.arena.block k).2
  · rw [writeTo_memory s byte hpos]
    exact read_write_cell _ _ _ _ _
  · have hsame : writeTo s k pos byte = s := by simp [writeTo, hpos]
    rw [hsame, List.set_eq_of_length_le]
    rw [length_read]
    omega

theorem block_writeTo (s : Store) (pos : Nat) (byte : UInt8) : (writeTo s k pos byte).arena.block = s.arena.block := by
  simp only [writeTo]
  split
  · exact ArenaRef.block_setMemory _ _
  · rfl

structure Mirrored (bc : BytesCrate) (a : ArenaRef) (k : AllocationKind) (holder : Holder) (x : OwnerCall) (r : Moved) :
    Prop where
  shows : observe r.store.arena.memory r.holder = (observe a.memory holder).act bc x
  within : Within r.store.arena k r.holder

variable {bc : BytesCrate} {x : OwnerCall} {r : Moved}

theorem mirrored_gone (hr : r.holder = .gone) (hx : (observe a.memory holder).act bc x = .gone) :
    Mirrored bc a k holder x r := by
  refine ⟨?_, ?_⟩
  · rw [hr, hx]
    rfl
  · rw [hr]
    trivial

theorem actBuffer_mirrored {v : List UInt8} {buf : Buffer} (hk : buf.allocation = k) (hv : Holds v a buf)
    (hfin : buf.offset + buf.capacity ≤ (a.block k).1 + (a.block k).2) (hwithin : buf.offset = (a.block k).1)
    (hacted : Acted a k (.buffer buf) r) (hr : actBuffer bc ⟨a, []⟩ buf x = some r) :
    Mirrored bc a k (.buffer buf) x r := by
  have hshows := observe_of_holds hv
  have hspill := isSpilled_of_holds hv
  have hput (y : Call) (hy : (call bc.bytesMut ⟨a, []⟩ buf y).2.1 = r.store ∧
      .buffer (call bc.bytesMut ⟨a, []⟩ buf y).2.2 = r.holder)
      (hx : Owned.actBuffer bc v buf.capacity buf.autoSpill x =
        Owned.put bc.bytesMut v buf.capacity buf.autoSpill y.data) :
      Mirrored bc a k (.buffer buf) x r := by
    obtain ⟨hcall, hsame⟩ := call_observe bc.bytesMut hv y
    refine ⟨?_, ?_⟩
    · rw [hshows, ← hy.1, ← hy.2, hcall]
      exact hx.symm
    · rw [← hy.2, Within, hsame.offset, OwnSteps.block hacted.steps]
      exact hwithin
  cases x with
  | putSlice data =>
      cases hr
      exact hput (.putSlice data) ⟨rfl, rfl⟩ rfl
  | tryPutSlice data =>
      cases hr
      exact hput (.tryPutSlice data) ⟨rfl, rfl⟩ rfl
  | write pos byte =>
      cases hr
      rw [hk]
      cases hspilled : buf.isSpilled with
      | true =>
          refine ⟨?_, hwithin⟩
          rw [hshows]
          simp only [if_true, Owned.act, Owned.actBuffer, if_pos (hspill.mp hspilled)]
          exact hshows
      | false =>
          have hnot : ¬buf.capacity < v.length := fun hlt => by rw [hspill.mpr hlt] at hspilled; cases hspilled
          refine ⟨?_, ?_⟩
          · rw [hshows]
            simp only [Bool.false_eq_true, if_false, Owned.act, Owned.actBuffer, if_neg hnot]
            cases hv with
            | inArena hnone hserves hlen =>
                simp only [observe, hnone, Option.getD_none, hwithin, Owned.buffer.injEq, and_true]
                exact read_writeTo ⟨a, []⟩ (by simp only; omega) pos byte
            | onHeap hsome hauto hreleased hbig => exact absurd hbig hnot
          · simp only [Bool.false_eq_true, if_false, Within]
            rw [block_writeTo]
            exact hwithin
  | drop =>
      obtain ⟨s, -, rfl⟩ := Option.map_eq_some_iff.mp hr
      exact mirrored_gone rfl (by rw [hshows]; rfl)
  | abandon =>
      obtain ⟨s, -, rfl⟩ := Option.map_eq_some_iff.mp hr
      exact mirrored_gone rfl (by rw [hshows]; rfl)
  | freeze =>
      cases hv with
      | inArena hspilled hserves hlen hreleased =>
          simp only [actBuffer, Buffer.freeze, hspilled, Option.map_some, Option.some.injEq] at hr
          cases hr
          refine ⟨?_, ?_⟩
          · rw [hshows]
            simp only [observe, List.map_cons, List.map_nil, add_zero, ArenaRef.memory_recordFrozen, Owned.act,
              Owned.actBuffer, length_read, if_neg (Nat.not_lt.mpr hlen)]
          · simp only [Within, ArenaRef.block_recordFrozen, List.mem_singleton, forall_eq]
            omega
      | onHeap hspilled hauto hreleased hbig =>
          simp only [actBuffer, Buffer.freeze, Buffer.drop, hspilled, hreleased, if_true, Option.map_some,
            Option.some.injEq] at hr
          cases hr
          exact mirrored_gone rfl (by rw [hshows]; exact if_pos hbig)
  | _ =>
      cases hr
      exact ⟨by rw [hshows]; rfl, hwithin⟩

theorem actRegion_mirrored {raw : RawRegion} (hk : raw.allocation = k) (hwithin : Within a k (.region raw))
    (hr : actRegion ⟨a, []⟩ raw x = some r) : Mirrored bc a k (.region raw) x r := by
  obtain ⟨hoffset, hcapacity⟩ := hwithin
  cases x with
  | write pos byte =>
      cases hr
      refine ⟨?_, ?_⟩
      · simp only [observe, hoffset, hk, Owned.act, Owned.actRegion]
        rw [read_writeTo ⟨a, []⟩ hcapacity]
      · simp only [Within]
        rw [block_writeTo]
        exact ⟨hoffset, hcapacity⟩
  | drop =>
      obtain ⟨s, -, rfl⟩ := Option.map_eq_some_iff.mp hr
      exact mirrored_gone rfl rfl
  | freezeRange start fin =>
      by_cases hbad : start > fin ∨ fin > raw.capacity
      · simp only [actRegion, RawRegion.freeze, if_pos hbad] at hr
        obtain ⟨s, hs, rfl⟩ := Option.map_eq_some_iff.mp hr
        obtain ⟨s', -, rfl⟩ := Option.map_eq_some_iff.mp hs
        exact mirrored_gone rfl (if_pos (by rwa [length_read]))
      · simp only [actRegion, RawRegion.freeze, if_neg hbad, Option.map_some, Option.some.injEq] at hr
        cases hr
        have hpart : start + (fin - start) ≤ raw.capacity := by omega
        refine ⟨?_, ?_⟩
        · simp only [observe, List.map_cons, List.map_nil, add_zero, ArenaRef.memory_recordFrozen, Owned.act,
            Owned.actRegion, length_read, if_neg hbad]
          rw [read_part a.memory raw.offset hpart]
        · simp only [Within, ArenaRef.block_recordFrozen, List.mem_singleton, forall_eq]
          omega
  | _ =>
      cases hr
      exact ⟨rfl, hoffset, hcapacity⟩

theorem actBytes_mirrored {handle : BufferHandle} {views : List (Nat × Nat)}
    (hwithin : Within a k (.bytes handle views)) (hr : actBytes bc ⟨a, []⟩ handle views x = some r) :
    Mirrored bc a k (.bytes handle views) x r := by
  obtain ⟨hstart, hfin, hall⟩ := hwithin
  have hview (view : Nat) : (views.map fun v => read a.memory (handle.offset + v.1) v.2)[view]? =
      views[view]?.map fun v => read a.memory (handle.offset + v.1) v.2 := List.getElem?_map
  cases x with
  | cloneBytes view =>
      cases hr
      refine ⟨?_, hstart, hfin, ?_⟩
      · simp only [observe, Owned.act, Owned.actBytes, hview, List.map_append]
        cases views[view]? <;> rfl
      · intro v hv
        rcases List.mem_append.mp hv with hv | hv
        · exact hall v hv
        · exact hall v (List.mem_of_getElem? (Option.mem_toList.mp hv))
  | sliceBytes view start fin =>
      cases hv : views[view]? with
      | none =>
          simp only [actBytes, hv, Option.some.injEq] at hr
          cases hr
          exact ⟨by simp only [observe, Owned.act, Owned.actBytes, hview, hv, Option.map_none], hstart, hfin, hall⟩
      | some v =>
          simp only [actBytes, hv] at hr
          by_cases hok : start ≤ fin ∧ fin ≤ v.2 ∧ (start < fin ∨ bc.emptySliceKeeps = true)
          · rw [if_pos hok] at hr
            cases hr
            have hmem := hall v (List.mem_of_getElem? hv)
            refine ⟨?_, hstart, hfin, ?_⟩
            · simp only [observe, Owned.act, Owned.actBytes, hview, hv, Option.map_some, length_read, if_pos hok,
                List.map_append, List.map_cons, List.map_nil]
              rw [← Nat.add_assoc, read_part a.memory (handle.offset + v.1) (by omega : start + (fin - start) ≤ v.2)]
            · intro u hu
              rcases List.mem_append.mp hu with hu | hu
              · exact hall u hu
              · rw [List.mem_singleton.mp hu]
                simp only
                omega
          · rw [if_neg hok] at hr
            cases hr
            refine ⟨?_, hstart, hfin, hall⟩
            simp only [observe, Owned.act, Owned.actBytes, hview, hv, Option.map_some, length_read, if_neg hok]
  | dropBytes view =>
      have herase : (views.map fun v => read a.memory (handle.offset + v.1) v.2).eraseIdx view =
          (views.eraseIdx view).map fun v => read a.memory (handle.offset + v.1) v.2 := List.eraseIdx_map _ _ _
      by_cases hlast : views.eraseIdx view = []
      · simp only [actBytes, if_pos hlast] at hr
        obtain ⟨s, -, rfl⟩ := Option.map_eq_some_iff.mp hr
        refine mirrored_gone rfl (if_pos ?_)
        rw [herase, hlast, List.map_nil]
      · simp only [actBytes, if_neg hlast, Option.some.injEq] at hr
        cases hr
        refine ⟨?_, hstart, hfin, fun v hv => hall v (List.mem_of_mem_eraseIdx hv)⟩
        have hmore : (views.eraseIdx view).map (fun v => read a.memory (handle.offset + v.1) v.2) ≠ [] := by
          simpa using hlast
        simp only [observe, Owned.act, Owned.actBytes, herase, if_neg hmore]
  | _ =>
      cases hr
      exact ⟨rfl, hstart, hfin, hall⟩

theorem act_mirrored (hcoherent : Coherent a k holder) (hwithin : Within a k holder) (hacted : Acted a k holder r)
    (hr : holder.act bc ⟨a, []⟩ x = some r) : Mirrored bc a k holder x r := by
  cases hcoherent with
  | buffer hk hv hstart hfin => exact actBuffer_mirrored hk hv hfin hwithin hacted hr
  | region hk => exact actRegion_mirrored hk hwithin hr
  | bytes hk hviews => exact actBytes_mirrored hwithin hr
  | gone =>
      cases hr
      exact ⟨rfl, trivial⟩

theorem Kept.apart (h : Kept a (k ::ₘ live)) {u : Nat} (hlo : (span k).1 ≤ u) (hhi : u < (span k).2) :
    ¬OwnedBy live u := by
  cases a with
  | fixed inner =>
      obtain ⟨-, slots, hlive, hnodup, -⟩ := h
      obtain ⟨slotIdx, hs, rfl, rfl⟩ := (Multiset.map_eq_cons _ _ _ _).mpr hlive.symm
      rintro ⟨l, hl, hlo', hhi'⟩
      obtain ⟨other, ho, rfl⟩ := Multiset.mem_map.mp hl
      have hne := (hnodup.mem_erase_iff.mp ho).1
      simp only [span] at hlo hhi hlo' hhi'
      omega
  | buddy inner =>
      obtain ⟨blocks, hlive, hbal⟩ := h
      obtain ⟨b, hb, rfl, rfl⟩ := (Multiset.map_eq_cons _ _ _ _).mpr hlive.symm
      rw [ownedBy_map_kindOf]
      intro hcover
      have hnodup := hbal.tiles.nodup
      rw [← Multiset.cons_erase hb, cover_add, Multiset.nodup_add, cover_cons, Multiset.nodup_add] at hnodup
      exact Multiset.disjoint_left.mp hnodup.2.1.2.2 ((mem_span_iff b u).mp ⟨hlo, hhi⟩) hcover

theorem Kept.blocks_apart {l : AllocationKind} (h : Kept a (k ::ₘ live)) (hl : l ∈ live) :
    (a.block k).1 + (a.block k).2 ≤ (a.block l).1 ∨ (a.block l).1 + (a.block l).2 ≤ (a.block k).1 := by
  obtain ⟨hserves, hlt, -⟩ := h.span_le (Multiset.mem_cons_self k live)
  obtain ⟨hserves', hlt', -⟩ := h.span_le (Multiset.mem_cons_of_mem hl)
  obtain ⟨hstart, hend⟩ := block_end hserves hlt
  obtain ⟨hstart', hend'⟩ := block_end hserves' hlt'
  have hnot : (span k).2 ≤ (span l).1 ∨ (span l).2 ≤ (span k).1 := by
    by_contra hmeet
    refine Kept.apart h (u := max (span k).1 (span l).1) (by omega) (by omega) ⟨l, hl, by omega, by omega⟩
  rw [hend, hend', hstart, hstart']
  exact hnot.imp (Nat.mul_le_mul_right _) (Nat.mul_le_mul_right _)

theorem release_outside (h : a.release k = some c) {i : Nat}
    (hi : i < (a.block k).1 ∨ (a.block k).1 + (a.block k).2 ≤ i) : c.memory i = a.memory i := by
  cases ArenaRef.released h with
  | fixed inner slotIdx =>
      simp only [ArenaRef.memory, ArenaInner.release, ArenaInner.scrubOnRelease]
      cases inner.initPolicy with
      | zero => exact zeroizeRegion_outside _ hi
      | uninit => rfl
  | buddy inner order blockIdx =>
      simp only [ArenaRef.memory, (inner.release_backing order blockIdx).memory, scrubOnRelease]
      cases inner.initPolicy with
      | zero => exact zeroizeRegion_outside _ hi
      | uninit => rfl

theorem fixed_zeroOnAllocate_outside (inner : ArenaInner) (slotIdx : Nat) {i : Nat}
    (hi : i < inner.slotOffset slotIdx ∨ inner.slotOffset slotIdx + inner.slotCapacity ≤ i) :
    (inner.zeroOnAllocate slotIdx).memory i = inner.memory i := by
  unfold ArenaInner.zeroOnAllocate
  split
  · split
    · rfl
    · exact zeroizeRegion_outside _ hi
  · rfl

theorem buddy_zeroOnAllocate_outside (inner : BuddyArenaInner) (order blockIdx : Nat) {i : Nat}
    (hi : i < inner.blockOffset order blockIdx ∨ inner.blockOffset order blockIdx + inner.blockSize order ≤ i) :
    (inner.zeroOnAllocate order blockIdx).memory i = inner.memory i := by
  unfold zeroOnAllocate
  split
  · split
    · rfl
    · exact zeroizeRegion_outside _ hi
  · rfl

theorem allocate_outside {len : Nat} {buf : Buffer} (h : a.allocate len = (.ok buf, c)) {i : Nat}
    (hi : i < (a.block buf.allocation).1 ∨ (a.block buf.allocation).1 + (a.block buf.allocation).2 ≤ i) :
    c.memory i = a.memory i := by
  cases ArenaRef.allocated h with
  | fixed inner slotIdx =>
      exact fixed_zeroOnAllocate_outside { inner with bitmap := inner.bitmap.tryAlloc.2 } slotIdx hi
  | buddy inner t o i' =>
      have hcarved := inner.carved_backing t o i'
      rw [← ArenaRef.block_buddy hcarved.geometry] at hi
      refine (buddy_zeroOnAllocate_outside (inner.carved t o i') t (i' * 2 ^ (o - t)) hi).trans ?_
      rw [hcarved.memory]
      rfl

theorem allocate_error_memory {len : Nat} {e : AllocError} (h : (a.allocate len).1 = .error e) :
    (a.allocate len).2.memory = a.memory := by
  cases a with
  | fixed inner =>
      cases hr : inner.bitmap.tryAlloc.1 with
      | none => simp [ArenaRef.allocate, ArenaInner.allocate, hr, ArenaRef.memory]
      | some slotIdx =>
          rw [ArenaRef.allocate, ArenaInner.allocate_of_some hr] at h
          cases h
  | buddy inner => exact (allocate_error_backing h).memory

/-- Nothing outside the block changes, whatever its owner does. -/
theorem ownSteps_outside {offset size : Nat} {s t : Store × Bool} (h : OwnSteps k offset size s t)
    (hblock : s.1.arena.block k = (offset, size)) {i : Nat} (hi : i < offset ∨ offset + size ≤ i) :
    t.1.arena.memory i = s.1.arena.memory i := by
  induction h with
  | refl => rfl
  | tail hrun hstep ih =>
      rw [← ih]
      cases hstep with
      | store houtside => exact (congrFun (ArenaRef.memory_setMemory _ _) i).trans (houtside i hi)
      | recordSpill => exact congrFun (ArenaRef.memory_recordSpill _) i
      | recordFrozen => exact congrFun (ArenaRef.memory_recordFrozen _) i
      | release hrelease =>
          have hb := (congrFun (OwnSteps.block hrun) k).trans hblock
          apply release_outside (Store.release_eq_some hrelease).1
          rw [hb]
          exact hi

theorem Kept.ownSteps {offset size : Nat} {s t : Store × Bool} (hsteps : OwnSteps k offset size s t)
    (h : Kept s.1.arena (due k s.2 + live)) : Kept t.1.arena (due k t.2 + live) := by
  induction hsteps with
  | refl => exact h
  | tail _ hstep ih =>
      cases hstep with
      | store houtside => exact ih.setMemory _
      | recordSpill => exact ih.recordSpill
      | recordFrozen => exact ih.recordFrozen
      | release hrelease =>
          have hlive : due k true + live = live := zero_add live
          rw [hlive]
          exact Kept.release ih (Store.release_eq_some hrelease).1

theorem allocate_autoSpill (a : ArenaRef) (len : Nat) : (a.allocate len).2.autoSpill = a.autoSpill := by
  cases hr : (a.allocate len).1 with
  | ok buf =>
      generalize hc : (a.allocate len).2 = c
      have h : a.allocate len = (.ok buf, c) := Prod.ext hr hc
      cases ArenaRef.allocated h with
      | fixed inner slotIdx => exact ArenaRef.fixed_autoSpill { inner with bitmap := inner.bitmap.tryAlloc.2 } slotIdx
      | buddy inner t o i => exact (ArenaRef.buddy_autoSpill _ _ _).trans (inner.carved_backing t o i).autoSpill
  | error e =>
      cases a with
      | fixed inner =>
          cases hs : inner.bitmap.tryAlloc.1 with
          | none => simp [ArenaRef.allocate, ArenaInner.allocate, hs, ArenaRef.autoSpill]
          | some slotIdx =>
              rw [ArenaRef.allocate, ArenaInner.allocate_of_some hs] at hr
              cases hr
      | buddy inner => exact (allocate_error_backing hr).autoSpill

theorem release_autoSpill (h : a.release k = some c) : c.autoSpill = a.autoSpill := by
  cases ArenaRef.released h with
  | fixed inner slotIdx =>
      simp only [ArenaRef.autoSpill, ArenaInner.release, ArenaInner.scrubOnRelease]
      cases inner.initPolicy <;> rfl
  | buddy inner order blockIdx =>
      simp only [ArenaRef.autoSpill, (inner.release_backing order blockIdx).autoSpill, scrubOnRelease]
      cases inner.initPolicy <;> rfl

theorem ownSteps_autoSpill {offset size : Nat} {s t : Store × Bool} (h : OwnSteps k offset size s t) :
    t.1.arena.autoSpill = s.1.arena.autoSpill := by
  induction h with
  | refl => rfl
  | @tail y z _ hstep ih =>
      rw [← ih]
      cases hstep with
      | release hrelease => exact release_autoSpill (Store.release_eq_some hrelease).1
      | @store s m houtside => cases hs : s.arena <;> rfl
      | @recordSpill s => cases hs : s.arena <;> rfl
      | @recordFrozen s => cases hs : s.arena <;> rfl

theorem read_of_zeroOn {m : Memory} {pos len fin : Nat} (h : ScrubbedUnits.ZeroOn m pos fin) (hle : pos + len ≤ fin) :
    read m pos len = List.replicate len 0 := by
  refine List.eq_replicate_iff.mpr ⟨length_read _ _ _, fun y hy => ?_⟩
  obtain ⟨j, hj, rfl⟩ := List.mem_map.mp hy
  have hlt := List.mem_range.mp hj
  exact h _ (by omega) (by omega)

def objects (w : World) : List Owned := w.slots.map fun slot => observe w.arena.memory slot.holder

theorem mem_liveOf {slots : List Slot} {id : Nat} {slot : Slot} (h : slots[id]? = some slot)
    (hreads : slot.holder.reads = true) : slot.allocation ∈ liveOf slots := by
  obtain ⟨rest, hlive, -⟩ := liveOf_set h
  rw [hlive, hreads]
  exact Multiset.mem_add.mpr (Or.inl (Multiset.mem_singleton_self _))

theorem ownSteps_released {offset size : Nat} {s : Store} {t : Store × Bool}
    (h : OwnSteps k offset size (s, true) t) : t = (s, true) := by
  induction h with
  | refl => rfl
  | tail _ hstep ih =>
      subst ih
      cases hstep

structure Separate (ptr len : Nat) (autoSpill : Bool) (initPolicy : InitPolicy) (w : World) : Prop where
  sound : Sound ptr len 0 w
  kept : Kept w.arena (liveOf w.slots)
  within : ∀ (id : Nat) (slot : Slot), w.slots[id]? = some slot → Within w.arena slot.allocation slot.holder
  autoSpill : w.arena.autoSpill = autoSpill
  zeroing : initPolicy = .zero → Zeroing w.arena (liveOf w.slots)

variable {ptr len : Nat} {autoSpill : Bool} {initPolicy : InitPolicy} {w w' : World}

/-- A call on one object leaves what all others show. -/
theorem Separate.others (h : Separate ptr len autoSpill initPolicy w) {id j : Nat} {slot other : Slot}
    (hslot : w.slots[id]? = some slot) (hj : w.slots[j]? = some other) (hne : id ≠ j)
    (hacted : Acted w.arena slot.allocation slot.holder r) :
    observe r.store.arena.memory other.holder = observe w.arena.memory other.holder := by
  apply observe_congr (h.sound.slots j other hj).coherent (h.within j other hj)
  intro hreads i hlo hhi
  have hsteps := hacted.steps
  cases hbefore : slot.holder.reads with
  | false =>
      rw [hbefore] at hsteps
      exact congrFun (congrArg (fun p : Store × Bool => p.1.arena.memory) (ownSteps_released hsteps)) i
  | true =>
      obtain ⟨rest, hlive, hset⟩ := liveOf_set hslot
      have hrest : other.allocation ∈ rest := by
        have hj' : (w.slots.set id ⟨slot.allocation, .gone⟩)[j]? = some other := by rwa [List.getElem?_set_ne hne]
        have hmem := mem_liveOf hj' hreads
        rwa [hset, show due slot.allocation (!Holder.gone.reads) = 0 from rfl, zero_add] at hmem
      have hkept : Kept w.arena (slot.allocation ::ₘ rest) := by
        have := h.kept
        rwa [hlive, hbefore] at this
      have hapart := Kept.blocks_apart hkept hrest
      exact ownSteps_outside hsteps rfl (by omega)

theorem Separate.own (h : Separate ptr len autoSpill initPolicy w) {id : Nat} {slot : Slot}
    (hslot : w.slots[id]? = some slot)
    (hr : slot.holder.act bc ⟨w.arena, []⟩ x = some r) :
    Separate ptr len autoSpill initPolicy (w.settle id slot.allocation r) ∧
      objects (w.settle id slot.allocation r) = (objects w).modify id (Owned.act bc x) := by
  have hsound := h.sound.slots id slot hslot
  obtain ⟨r', hr', hacted⟩ := act_acted bc hsound.coherent hsound.serves x
  rw [hr] at hr'
  cases hr'
  obtain ⟨hslots, harena⟩ := settle_slots w id slot.allocation r
  obtain ⟨rest, hlive, hset⟩ := liveOf_set hslot
  have hmirrored := act_mirrored hsound.coherent (h.within id slot hslot) hacted hr
  obtain ⟨hlt, -⟩ := List.getElem?_eq_some_iff.mp hslot
  refine ⟨⟨h.sound.settle hslot hacted, ?_, ?_, ?_, ?_⟩, ?_⟩
  · rw [hslots, harena, hset]
    have hkept := h.kept
    rw [hlive] at hkept
    exact Kept.ownSteps hacted.steps hkept
  · intro j other hj
    rw [hslots] at hj
    rw [harena]
    by_cases hne : id = j
    · subst hne
      rw [List.getElem?_set_self hlt] at hj
      cases hj
      exact hmirrored.within
    · rw [List.getElem?_set_ne hne] at hj
      exact (h.within j other hj).congr hacted.steps.block
  · rw [harena]
    exact (ownSteps_autoSpill hacted.steps).trans h.autoSpill
  · exact fun hzero => (h.zeroing hzero).stepped (.own hslot hr hacted)
  · apply List.ext_getElem?
    intro j
    rw [objects, objects, hslots, harena, List.getElem?_modify, List.getElem?_map, List.getElem?_map]
    by_cases hne : id = j
    · subst hne
      rw [List.getElem?_set_self hlt, hslot]
      simp [hmirrored.shows]
    · rw [List.getElem?_set_ne hne]
      cases hj : w.slots[j]? with
      | none => rfl
      | some other => simp [hne, h.others hslot hj hne hacted]

theorem Separate.served (h : Separate ptr len autoSpill initPolicy w) {n : Nat} {buf : Buffer} (holder : Holder)
    (hhandles : w.handles ≠ 0) (hbuf : (w.arena.allocate n).1 = .ok buf)
    (hcoherent : Coherent (w.arena.allocate n).2 buf.allocation holder)
    (hwithin : Within (w.arena.allocate n).2 buf.allocation holder) (hreads : holder.reads = true)
    (hkeeps : holder.keeps = true) :
    Separate ptr len autoSpill initPolicy
        (World.addSlot { w with arena := (w.arena.allocate n).2 } buf.allocation holder) ∧
      objects (World.addSlot { w with arena := (w.arena.allocate n).2 } buf.allocation holder) =
        objects w ++ [observe (w.arena.allocate n).2.memory holder] := by
  have hout : HandedOut w n (World.addSlot { w with arena := (w.arena.allocate n).2 } buf.allocation holder) :=
    .served hhandles hbuf hcoherent hreads hkeeps
  obtain ⟨hkept, -⟩ := h.kept.allocate_ok (Prod.ext hbuf rfl)
  have hblock := w.arena.allocate_block n
  refine ⟨⟨h.sound.handOut hout, ?_, ?_, ?_, ?_⟩, ?_⟩
  · rw [liveOf_addSlot _ hreads]
    exact hkept
  · intro j other hj
    rw [World.addSlot, List.getElem?_append] at hj
    split at hj
    · exact (h.within j other hj).congr hblock
    · obtain rfl : other = ⟨buf.allocation, holder⟩ := List.mem_singleton.mp (List.mem_of_getElem? hj)
      exact hwithin
  · exact (allocate_autoSpill w.arena n).trans h.autoSpill
  · exact fun hzero => (h.zeroing hzero).handOut hout
  · simp only [objects, World.addSlot, List.map_append, List.map_cons, List.map_nil, List.append_cancel_right_eq]
    apply List.map_congr_left
    intro other hother
    obtain ⟨j, hj⟩ := List.mem_iff_getElem?.mp hother
    apply observe_congr (h.sound.slots j other hj).coherent (h.within j other hj)
    intro hlive i hlo hhi
    have hapart := Kept.blocks_apart hkept (mem_liveOf hj hlive)
    rw [hblock] at hapart
    exact allocate_outside (Prod.ext hbuf rfl) (by omega)

theorem Separate.refused (h : Separate ptr len autoSpill initPolicy w) {n : Nat} {e : AllocError}
    (he : (w.arena.allocate n).1 = .error e) :
    Separate ptr len autoSpill initPolicy { w with arena := (w.arena.allocate n).2 } ∧
      objects { w with arena := (w.arena.allocate n).2 } = objects w := by
  refine ⟨⟨h.sound.handOut (.refused he), h.kept.allocate_error he, ?_, ?_, ?_⟩, ?_⟩
  · exact fun j other hj => (h.within j other hj).congr (w.arena.allocate_block n)
  · exact (allocate_autoSpill w.arena n).trans h.autoSpill
  · exact fun hzero => (h.zeroing hzero).allocate_error he
  · simp only [objects, allocate_error_memory he]

theorem Separate.congr (h : Separate ptr len autoSpill initPolicy w) (hsound : Sound ptr len 0 w')
    (harena : w'.arena = w.arena)
    (hslots : w'.slots = w.slots) : Separate ptr len autoSpill initPolicy w' ∧ objects w' = objects w := by
  obtain ⟨-, hkept, hwithin, hspill, hzeroing⟩ := h
  rw [← harena, ← hslots] at hkept hzeroing
  rw [← harena] at hspill hwithin
  rw [← hslots] at hwithin
  refine ⟨⟨hsound, hkept, hwithin, hspill, hzeroing⟩, ?_⟩
  rw [objects, objects, harena, hslots]

theorem grant_of_error {n : Nat} {e : AllocError} (h : (w.arena.allocate n).1 = .error e) : grant w n = none := by
  simp only [grant, h, ite_self]

theorem grant_of_ok {n : Nat} {buf : Buffer} (hhandles : w.handles ≠ 0) (h : (w.arena.allocate n).1 = .ok buf) :
    grant w n = some buf.capacity := by
  simp only [grant, if_neg hhandles, h]

theorem Separate.step (bc : BytesCrate) (h : Separate ptr len autoSpill initPolicy w) (x : Action) :
    ∃ w', Lifecycle.step bc w x = some w' ∧ Separate ptr len autoSpill initPolicy w' ∧
      PrivateStep bc autoSpill initPolicy (grant w) (objects w) x (objects w') := by
  obtain ⟨w', hstep, hsound⟩ := h.sound.step bc x
  refine ⟨w', hstep, ?_⟩
  cases x with
  | cloneArena =>
      cases hstep
      have hsame := h.congr hsound (by split_ifs <;> rfl) (by split_ifs <;> rfl)
      exact ⟨hsame.1, hsame.2 ▸ .cloneArena⟩
  | dropArena =>
      cases hstep
      obtain ⟨hslots, harena⟩ := dropRef_slots { w with handles := w.handles - 1 }
      have hsame := h.congr hsound (by split_ifs; rfl; exact harena) (by split_ifs; rfl; exact hslots)
      exact ⟨hsame.1, hsame.2 ▸ .dropArena⟩
  | allocate n =>
      by_cases hzero : w.handles = 0
      · simp only [Lifecycle.step, if_pos hzero] at hstep
        cases hstep
        exact ⟨h, .allocateRefused (if_pos hzero)⟩
      · cases hr : (w.arena.allocate n).1 with
        | error e =>
            simp only [Lifecycle.step, if_neg hzero, hr] at hstep
            cases hstep
            exact ⟨(h.refused hr).1, (h.refused hr).2 ▸ .allocateRefused (grant_of_error hr)⟩
        | ok buf =>
            simp only [Lifecycle.step, if_neg hzero, hr] at hstep
            cases hstep
            obtain ⟨hserves, hspill, hlen, hreleased, hspilled⟩ := ArenaRef.allocate_fresh (Prod.ext hr rfl)
            obtain ⟨hoffset, -⟩ := ArenaRef.allocate_inside (Prod.ext hr rfl)
            rw [← w.arena.allocate_block n] at hoffset
            obtain ⟨hinv, hobjs⟩ := h.served (.buffer buf) hzero hr (Coherent.allocated (Prod.ext hr rfl))
              hoffset (by simp [Holder.reads, Buffer.isSpilled, hspilled]) rfl
            refine ⟨hinv, ?_⟩
            rw [hobjs, observe_of_holds (Holds.allocated (Prod.ext hr rfl)), hspill, h.autoSpill]
            exact .allocate (grant_of_ok hzero hr)
  | rawAlloc n =>
      by_cases hzero : w.handles = 0
      · simp only [Lifecycle.step, if_pos hzero] at hstep
        cases hstep
        exact ⟨h, .rawAllocRefused (if_pos hzero)⟩
      · cases hr : (w.arena.allocate n).1 with
        | error e =>
            simp only [Lifecycle.step, RawRegion.rawAlloc, if_neg hzero, hr, Except.map] at hstep
            cases hstep
            exact ⟨(h.refused hr).1, (h.refused hr).2 ▸ .rawAllocRefused (grant_of_error hr)⟩
        | ok buf =>
            simp only [Lifecycle.step, RawRegion.rawAlloc, if_neg hzero, hr, Except.map] at hstep
            cases hstep
            obtain ⟨hoffset, hcapacity⟩ := ArenaRef.allocate_inside (Prod.ext hr rfl)
            rw [← w.arena.allocate_block n] at hoffset hcapacity
            obtain ⟨hinv, hobjs⟩ := h.served (.region ⟨buf.allocation, buf.offset, buf.capacity⟩) hzero hr
              (.region rfl) ⟨hoffset, hcapacity⟩ rfl rfl
            refine ⟨hinv, ?_⟩
            rw [hobjs]
            apply PrivateStep.rawAlloc
            · rw [length_read]
              exact grant_of_ok hzero hr
            intro hpolicy
            have hz := ((h.zeroing hpolicy).allocate_ok (Prod.ext hr rfl)).2
            rw [← hoffset] at hz
            rw [length_read]
            exact read_of_zeroOn hz (Nat.add_le_add_left hcapacity _)
  | own id x =>
      cases hslot : w.slots[id]? with
      | none =>
          simp only [Lifecycle.step, hslot] at hstep
          -- a call on an allocation that was never made changes nothing, on either side
          cases hstep
          refine ⟨h, ?_⟩
          have hsame : (objects w).modify id (Owned.act bc x) = objects w := by
            apply List.modify_eq_self
            simpa [objects] using hslot
          have hown : PrivateStep bc autoSpill initPolicy (grant w) (objects w) (.own id x) _ := .own
          rwa [hsame] at hown
      | some slot =>
          simp only [Lifecycle.step, hslot] at hstep
          obtain ⟨r, hr, rfl⟩ := Option.map_eq_some_iff.mp hstep
          obtain ⟨hinv, hobjs⟩ := h.own hslot hr
          exact ⟨hinv, hobjs ▸ .own⟩

theorem Separate.run (bc : BytesCrate) (h : Separate ptr len autoSpill initPolicy w) (acts : List Action) :
    ∃ w', Lifecycle.run bc w acts = some w' ∧ Separate ptr len autoSpill initPolicy w' := by
  induction acts generalizing w with
  | nil => exact ⟨w, rfl, h⟩
  | cons x xs ih =>
      obtain ⟨v, hstep, hv, -⟩ := h.step bc x
      obtain ⟨w', hrun, hw'⟩ := ih hv
      exact ⟨w', by rw [Lifecycle.run, hstep]; exact hrun, hw'⟩

theorem kept_build (b : Builder) (memory : Memory) : Kept (b.arena initPolicy memory) 0 := by
  have hfixed (slotCount slotCapacity : Nat) (autoSpill : Bool) :
      Kept (.fixed (.build slotCount slotCapacity autoSpill initPolicy memory)) 0 :=
    ⟨ArenaInner.build_sound _ _ _ _ _, 0, rfl, Multiset.nodup_zero, fun _ h => absurd h (Multiset.notMem_zero _)⟩
  have hbuddy (g : BuddyGeometry) (autoSpill : Bool) : Kept (.buddy (.build g autoSpill initPolicy memory)) 0 :=
    ⟨0, rfl, BuddyRuns.build_balanced g autoSpill initPolicy memory⟩
  cases b with
  | fixed slotCount slotCapacity autoSpill => exact hfixed slotCount slotCapacity autoSpill
  | rawFixed slotCount slotCapacity len => exact hfixed slotCount slotCapacity false
  | buddy g autoSpill => exact hbuddy g autoSpill
  | rawBuddy g len => exact hbuddy g false

theorem Separate.build (b : Builder) (ptr : Nat) (initPolicy : InitPolicy) (memory : Memory) :
    Separate ptr b.regionLen (b.arena initPolicy memory).autoSpill initPolicy (b.build ptr initPolicy memory) := by
  refine ⟨Sound.build b ptr initPolicy memory, kept_build b memory, fun id slot hslot => ?_, rfl, ?_⟩
  · cases hslot
  · rintro rfl
    exact zeroing_build b memory

/-- A run over one arena is a run of objects that share nothing. Wherever a
run has got to, one more action shows in the objects as it would if each had
bytes of its own: a call changes the one object it is on, by what that object
shows, and an allocation adds one with the capacity that the arena grants and
changes no other, although all of them live in one memory that is handed out
again and again. -/
theorem arena_runs_as_private_objects (bc : BytesCrate) (b : Builder) (ptr : Nat) (initPolicy : InitPolicy)
    (memory : Memory) (acts : List Action) :
    ∃ w, Lifecycle.run bc (b.build ptr initPolicy memory) acts = some w ∧
      ∀ x, ∃ w', Lifecycle.step bc w x = some w' ∧
        PrivateStep bc (b.arena initPolicy memory).autoSpill initPolicy (grant w) (objects w) x (objects w') := by
  obtain ⟨w, hrun, hw⟩ := (Separate.build b ptr initPolicy memory).run bc acts
  refine ⟨w, hrun, fun x => ?_⟩
  obtain ⟨w', hstep, -, hprivate⟩ := hw.step bc x
  exact ⟨w', hstep, hprivate⟩

end ArenaAlligator.PrivateBytes
