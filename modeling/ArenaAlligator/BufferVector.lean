import ArenaAlligator.Buffers

namespace ArenaAlligator.BufferVector

open Regions

/-- A buffer that stands for the bytes v. Before the spill they are in its
block; from the spill on they are on the heap. -/
inductive Holds : List UInt8 → ArenaRef → Buffer → Prop
  | inArena {a : ArenaRef} {buf : Buffer} (hspilled : buf.spilled = none) (hserves : a.Serves buf.allocation)
      (hlen : buf.len ≤ buf.capacity) (hreleased : buf.released = false) :
      Holds (read a.memory buf.offset buf.len) a buf
  | onHeap {heap : List UInt8} {a : ArenaRef} {buf : Buffer} (hspilled : buf.spilled = some heap)
      (hauto : buf.autoSpill = true) (hreleased : buf.released = true) (hbig : buf.capacity < heap.length) :
      Holds heap a buf

structure SameBlock (buf c : Buffer) : Prop where
  allocation : c.allocation = buf.allocation
  autoSpill : c.autoSpill = buf.autoSpill
  offset : c.offset = buf.offset
  capacity : c.capacity = buf.capacity

/-- What a write did: the buffer now stands for v, and the arena saw only steps
of the buffer's own. -/
structure Wrote (v : List UInt8) (s : Store) (buf : Buffer) (s' : Store) (buf' : Buffer) : Prop where
  holds : Holds v s'.arena buf'
  same : SameBlock buf buf'
  steps : OwnSteps buf.allocation buf.offset buf.capacity (s, buf.isSpilled) (s', buf'.isSpilled)

variable {v : List UInt8} {s : Store} {buf : Buffer} {h : BytesMut}

theorem Wrote.nothing (hv : Holds v s.arena buf) : Wrote v s buf s buf :=
  ⟨hv, ⟨rfl, rfl, rfl, rfl⟩, .refl⟩

theorem Wrote.trans {v' : List UInt8} {s' s'' : Store} {buf' buf'' : Buffer} (h₁ : Wrote v s buf s' buf')
    (h₂ : Wrote v' s' buf' s'' buf'') : Wrote v' s buf s'' buf'' := by
  obtain ⟨hal, hau, hof, hca⟩ := h₁.same
  obtain ⟨hal', hau', hof', hca'⟩ := h₂.same
  have hsteps := h₂.steps
  rw [hal, hof, hca] at hsteps
  exact ⟨h₂.holds, ⟨hal'.trans hal, hau'.trans hau, hof'.trans hof, hca'.trans hca⟩, h₁.steps.trans hsteps⟩

theorem Holds.length (hv : Holds v s.arena buf) : buf.length = v.length := by
  cases hv with
  | inArena hspilled => simp [Buffer.length, hspilled]
  | onHeap hspilled => simp [Buffer.length, hspilled]

def Room (v : List UInt8) (buf : Buffer) (n : Nat) : Prop := buf.autoSpill = true ∨ v.length + n ≤ buf.capacity

theorem fill_onHeap {heap src : List UInt8} (hspilled : buf.spilled = some heap) (hauto : buf.autoSpill = true)
    (hreleased : buf.released = true) (hbig : buf.capacity ≤ heap.length)
    (hsrc : 0 < src.length) :
    ∃ cnt c, cnt = min src.length (buf.chunkLen h) ∧ 0 < cnt ∧ buf.fill s (src.take cnt) = (.done, s, c) ∧
      Wrote (heap ++ src.take cnt) s buf s c := by
  have hpos : 0 < min src.length (buf.chunkLen h) := by simp [Buffer.chunkLen, BytesMut.chunkLen, hspilled, hsrc]
  let c : Buffer := { buf with spilled := some (heap ++ src.take (min src.length (buf.chunkLen h))) }
  have hc : c.isSpilled = buf.isSpilled := by simp [Buffer.isSpilled, hspilled, c]
  refine ⟨_, c, rfl, hpos, ?_, ?_, ⟨rfl, rfl, rfl, rfl⟩, ?_⟩
  · simp [Buffer.fill, hspilled, c]
  · apply @Holds.onHeap _ s.arena c rfl hauto hreleased
    have hlen : c.capacity = buf.capacity := rfl
    simp only [List.length_append, List.length_take]
    omega
  · rw [hc]

theorem fill_inArena (hspilled : buf.spilled = none) (hserves : s.arena.Serves buf.allocation)
    (hreleased : buf.released = false) {data : List UInt8}
    (hfit : buf.len + data.length ≤ buf.capacity) :
    ∃ s' c, buf.fill s data = (.done, s', c) ∧
      Wrote (read s.arena.memory buf.offset buf.len ++ data) s buf s' c := by
  let s' : Store := ⟨s.arena.setMemory (write s.arena.memory (buf.offset + buf.len) data), s.releases⟩
  let c : Buffer := { buf with len := buf.len + data.length }
  refine ⟨s', c, ?_, ?_, ⟨rfl, rfl, rfl, rfl⟩, ?_⟩
  · simp [Buffer.fill, hspilled, hfit, s', c]
  · have hread : read s'.arena.memory c.offset c.len = read s.arena.memory buf.offset buf.len ++ data := by
      simp [s', c, read_write_append]
    rw [← hread]
    exact @Holds.inArena s'.arena c hspilled ((ArenaRef.serves_setMemory _).mpr hserves) hfit hreleased
  · have hflag : buf.isSpilled = false := by simp [Buffer.isSpilled, hspilled]
    have hflag' : c.isSpilled = false := hflag
    rw [hflag, hflag']
    apply Relation.ReflTransGen.single
    apply OwnStep.store
    intro i hi
    exact write_outside _ (by omega)

theorem doSpill_of_serves (hserves : s.arena.Serves buf.allocation) :
    ∃ s', buf.doSpill s =
        some (s', { buf with released := true, spilled := some (read s.arena.memory buf.offset buf.len) }) ∧
      Store.release { s with arena := s.arena.recordSpill } buf.allocation = some s' := by
  obtain ⟨s', hs'⟩ := Store.exists_release (s := { s with arena := s.arena.recordSpill })
    (ArenaRef.serves_recordSpill.mpr hserves)
  exact ⟨s', by simp [Buffer.doSpill, hs'], hs'⟩

/-- One round of the write loop: at least one byte goes to the chunk. -/
theorem round_wrote (hv : Holds v s.arena buf) {src : List UInt8} (hsrc : 0 < src.length)
    (hroom : Room v buf src.length) :
    ∃ r cnt s' c, buf.chunkMut s = some r ∧ cnt = min src.length (r.2.chunkLen h) ∧ 0 < cnt ∧
      r.2.fill r.1 (src.take cnt) = (.done, s', c) ∧ Wrote (v ++ src.take cnt) s buf s' c := by
  cases hv with
  | onHeap hspilled hauto hreleased hbig =>
      obtain ⟨cnt, c, hcnt, hpos, hfill, hwrote⟩ :=
        fill_onHeap (h := h) hspilled hauto hreleased hbig.le hsrc
      exact ⟨(s, buf), cnt, s, c, by simp [Buffer.chunkMut, hspilled], hcnt, hpos, hfill, hwrote⟩
  | inArena hspilled hserves hlen hreleased =>
      by_cases hspill : buf.autoSpill = true ∧ buf.capacity ≤ buf.len
      · obtain ⟨s', hdo, hrelease⟩ := doSpill_of_serves hserves
        let b : Buffer := { buf with released := true, spilled := some (read s.arena.memory buf.offset buf.len) }
        obtain ⟨cnt, c, hcnt, hpos, hfill, hwrote⟩ :=
          @fill_onHeap s' b h _ src rfl hspill.1 rfl (by simpa using hspill.2) hsrc
        have hflag : buf.isSpilled = false := by simp [Buffer.isSpilled, hspilled]
        have hsteps : OwnSteps buf.allocation buf.offset buf.capacity (s, buf.isSpilled) (s', b.isSpilled) := by
          rw [hflag]
          exact .head .recordSpill (.single (.release hrelease))
        refine ⟨(s', b), cnt, s', c, ?_, hcnt, hpos, hfill, hwrote.holds, ?_, hsteps.trans hwrote.steps⟩
        · simp only [Buffer.chunkMut, hspilled, hspill, hdo, b]
          rfl
        · exact ⟨hwrote.same.1, hwrote.same.2, hwrote.same.3, hwrote.same.4⟩
      · have hlt : buf.len < buf.capacity := by
          cases hroom with
          | inl hauto => exact Nat.lt_of_not_le fun hle => hspill ⟨hauto, hle⟩
          | inr hfit => rw [length_read] at hfit; omega
        have hchunk : buf.chunkLen h = buf.capacity - buf.len := by simp [Buffer.chunkLen, hspilled]
        have hfit : buf.len + (src.take (min src.length (buf.chunkLen h))).length ≤ buf.capacity := by
          rw [List.length_take]
          omega
        have hpos : 0 < min src.length (buf.chunkLen h) := by omega
        obtain ⟨s', c, hfill, hwrote⟩ := fill_inArena hspilled hserves hreleased hfit
        refine ⟨(s, buf), _, s', c, ?_, rfl, hpos, hfill, hwrote⟩
        simp only [Buffer.chunkMut, hspilled, Option.isNone_none, Bool.true_and, Bool.and_eq_true, decide_eq_true_eq]
        exact if_neg hspill

/-- The whole loop writes all of its source. -/
theorem putLoop_wrote (hv : Holds v s.arena buf) {fuel : Nat} {src : List UInt8} (hfuel : src.length ≤ fuel)
    (hroom : Room v buf src.length) :
    ∃ s' c, buf.putLoop h fuel s src = (.done, s', c) ∧ Wrote (v ++ src) s buf s' c := by
  induction fuel generalizing v s buf src with
  | zero =>
      have hnil : src = [] := List.length_eq_zero_iff.mp (Nat.le_zero.mp hfuel)
      subst hnil
      exact ⟨s, buf, rfl, by simpa using Wrote.nothing hv⟩
  | succ fuel ih =>
      by_cases hnil : src = []
      · subst hnil
        exact ⟨s, buf, rfl, by simpa using Wrote.nothing hv⟩
      · have hsrc : 0 < src.length := List.length_pos_iff.mpr hnil
        obtain ⟨r, cnt, s', c, hchunk, hcnt, hpos, hfill, hwrote⟩ := round_wrote (h := h) hv hsrc hroom
        have hle : cnt ≤ src.length := hcnt ▸ Nat.min_le_left _ _
        have hroom' : Room (v ++ src.take cnt) c (src.drop cnt).length := by
          rw [Room, hwrote.same.autoSpill, hwrote.same.capacity, List.length_append, List.length_take, List.length_drop]
          exact hroom.imp_right fun hfit => by omega
        obtain ⟨s'', c', hloop, hrest⟩ := ih hwrote.holds (by rw [List.length_drop]; omega) hroom'
        refine ⟨s'', c', ?_, ?_⟩
        · simp only [Buffer.putLoop, if_neg hnil, hchunk, ← hcnt, hfill, hloop]
        · rw [List.append_assoc, List.take_append_drop] at hrest
          exact hwrote.trans hrest

inductive Call
  | putSlice (data : List UInt8)
  | tryPutSlice (data : List UInt8)

def Call.data : Call → List UInt8
  | putSlice data => data
  | tryPutSlice data => data

inductive Reply
  | put (outcome : Outcome)
  | tried (result : Except BufferFullError Outcome)

def Call.taken : Call → Reply
  | putSlice _ => .put .done
  | tryPutSlice _ => .tried (.ok .done)

def Call.refused (remaining : Nat) : Call → Reply
  | putSlice _ => .put .panicked
  | tryPutSlice data => .tried (.error ⟨remaining, data.length⟩)

def call (h : BytesMut) (s : Store) (buf : Buffer) : Call → Reply × Store × Buffer
  | .putSlice data =>
      let r := buf.putSlice h s data
      (.put r.1, r.2)
  | .tryPutSlice data =>
      let r := buf.tryPutSlice h s data
      (.tried r.1, r.2)

def calls (h : BytesMut) : Store → Buffer → List Call → List Reply × Store × Buffer
  | s, buf, [] => ([], s, buf)
  | s, buf, x :: xs =>
      let r := call h s buf x
      let t := calls h r.2.1 r.2.2 xs
      (r.1 :: t.1, t.2)

/-- One call on a byte vector, which grows without bound or up to a capacity.
A call that does not fit leaves the vector as it was. -/
def vecCall (bound : Option Nat) (v : List UInt8) (x : Call) : Reply × List UInt8 :=
  match bound with
  | none => (x.taken, v ++ x.data)
  | some capacity =>
      if v.length + x.data.length ≤ capacity then (x.taken, v ++ x.data)
      else (x.refused (capacity - v.length), v)

def vecCalls (bound : Option Nat) : List UInt8 → List Call → List Reply × List UInt8
  | v, [] => ([], v)
  | v, x :: xs =>
      let r := vecCall bound v x
      let t := vecCalls bound r.2 xs
      (r.1 :: t.1, t.2)

def bound (autoSpill : Bool) (capacity : Nat) : Option Nat := if autoSpill then none else some capacity

def total (cs : List Call) : List UInt8 := (cs.map Call.data).flatten

theorem call_of_fits {x : Call} {s' : Store} {c : Buffer} (hrem : x.data.length ≤ buf.remainingMut h)
    (hloop : buf.putLoop h x.data.length s x.data = (.done, s', c)) : call h s buf x = (x.taken, s', c) := by
  have hnot : ¬buf.remainingMut h < x.data.length := Nat.not_lt.mpr hrem
  cases x with
  | putSlice data =>
      simp only [Call.data] at hnot hloop
      simp only [call, Buffer.putSlice, if_neg hnot, hloop, Call.taken]
  | tryPutSlice data =>
      simp only [Call.data] at hnot hloop
      simp only [call, Buffer.tryPutSlice, Buffer.putSlice, if_neg hnot, hloop, Call.taken]

theorem call_of_not_fits {x : Call} (hrem : buf.remainingMut h < x.data.length) :
    call h s buf x = (x.refused (buf.remainingMut h), s, buf) := by
  cases x with
  | putSlice data =>
      simp only [Call.data] at hrem
      simp only [call, Buffer.putSlice, if_pos hrem, Call.refused]
  | tryPutSlice data =>
      simp only [Call.data] at hrem
      simp only [call, Buffer.tryPutSlice, if_pos hrem, Call.refused]

theorem Holds.notSpilled (hv : Holds v s.arena buf) (hauto : buf.autoSpill = false) :
    buf.spilled = none ∧ v.length = buf.len ∧ buf.len ≤ buf.capacity := by
  cases hv with
  | inArena hspilled _ hlen => exact ⟨hspilled, length_read _ _ _, hlen⟩
  | onHeap _ hspill => rw [hspill] at hauto; cases hauto

theorem remainingMut_autoSpill (hv : Holds v s.arena buf) (hauto : buf.autoSpill = true) {n : Nat} (hn : n ≤ usizeMax)
    (hlimit : v.length + n ≤ h.limit) : n ≤ buf.remainingMut h := by
  cases hv with
  | inArena hspilled => simpa [Buffer.remainingMut, hspilled, hauto] using hn
  | onHeap hspilled =>
      simp only [Buffer.remainingMut, hspilled, BytesMut.remainingMut]
      omega

/-- One call does on the buffer what it does on the vector. -/
theorem call_refines (hv : Holds v s.arena buf) {x : Call} (hx : x.data.length ≤ usizeMax)
    (hlimit : buf.autoSpill = true → v.length + x.data.length ≤ h.limit) :
    ∃ s' c, call h s buf x = ((vecCall (bound buf.autoSpill buf.capacity) v x).1, s', c) ∧
      Wrote (vecCall (bound buf.autoSpill buf.capacity) v x).2 s buf s' c := by
  cases hauto : buf.autoSpill with
  | true =>
      obtain ⟨s', c, hloop, hwrote⟩ := putLoop_wrote (h := h) hv le_rfl (Or.inl hauto : Room v buf x.data.length)
      exact ⟨s', c, call_of_fits (remainingMut_autoSpill hv hauto hx (hlimit hauto)) hloop, hwrote⟩
  | false =>
      obtain ⟨hspilled, hlen, hle⟩ := hv.notSpilled hauto
      have hrem : buf.remainingMut h = buf.capacity - v.length := by
        simp [Buffer.remainingMut, hspilled, hauto, hlen]
      simp only [bound, vecCall, Bool.false_eq_true, if_false]
      split_ifs with hfit
      · obtain ⟨s', c, hloop, hwrote⟩ := putLoop_wrote (h := h) hv le_rfl (Or.inr hfit : Room v buf x.data.length)
        exact ⟨s', c, call_of_fits (by omega) hloop, hwrote⟩
      · refine ⟨s, buf, ?_, Wrote.nothing hv⟩
        rw [← hrem]
        exact call_of_not_fits (by omega)

/-- Whatever the data, a call writes all of it or changes nothing. -/
theorem call_wrote (h : BytesMut) (hv : Holds v s.arena buf) (x : Call) :
    ∃ v', Wrote v' s buf (call h s buf x).2.1 (call h s buf x).2.2 := by
  by_cases hrem : buf.remainingMut h < x.data.length
  · rw [call_of_not_fits hrem]
    exact ⟨v, Wrote.nothing hv⟩
  · have hroom : Room v buf x.data.length := by
      cases hauto : buf.autoSpill with
      | true => exact Or.inl hauto
      | false =>
          obtain ⟨hspilled, hlen, hle⟩ := hv.notSpilled hauto
          simp only [Buffer.remainingMut, hspilled, hauto, Bool.false_eq_true, if_false] at hrem
          exact Or.inr (by omega)
    obtain ⟨s', c, hloop, hwrote⟩ := putLoop_wrote (h := h) hv le_rfl hroom
    rw [call_of_fits (Nat.le_of_not_lt hrem) hloop]
    exact ⟨_, hwrote⟩

theorem vecCalls_none (v : List UInt8) (cs : List Call) :
    vecCalls none v cs = (cs.map Call.taken, v ++ total cs) := by
  induction cs generalizing v with
  | nil => simp [vecCalls, total]
  | cons x xs ih => simp [vecCalls, vecCall, ih, total]

theorem calls_refines (hv : Holds v s.arena buf) {cs : List Call} (hsize : ∀ x ∈ cs, x.data.length ≤ usizeMax)
    (hlimit : buf.autoSpill = true → v.length + (total cs).length ≤ h.limit) :
    ∃ s' c, calls h s buf cs = ((vecCalls (bound buf.autoSpill buf.capacity) v cs).1, s', c) ∧
      Wrote (vecCalls (bound buf.autoSpill buf.capacity) v cs).2 s buf s' c := by
  induction cs generalizing v s buf with
  | nil => exact ⟨s, buf, rfl, Wrote.nothing hv⟩
  | cons x xs ih =>
      have hsplit : (total (x :: xs)).length = x.data.length + (total xs).length := by simp [total]
      obtain ⟨s', c, hcall, hwrote⟩ := call_refines (h := h) hv (hsize x List.mem_cons_self)
        fun hauto => by have := hlimit hauto; omega
      have hlimit' : c.autoSpill = true →
          (vecCall (bound buf.autoSpill buf.capacity) v x).2.length + (total xs).length ≤ h.limit := by
        intro hauto
        rw [hwrote.same.autoSpill] at hauto
        have := hlimit hauto
        simp only [bound, hauto, if_true, vecCall, List.length_append]
        omega
      obtain ⟨s'', c', hrest, hwrote'⟩ := ih hwrote.holds (fun y hy => hsize y (List.mem_cons_of_mem x hy)) hlimit'
      rw [hwrote.same.autoSpill, hwrote.same.capacity] at hrest hwrote'
      refine ⟨s'', c', ?_, hwrote.trans hwrote'⟩
      simp only [calls, vecCalls, hcall, hrest]

theorem Holds.isEmpty (hv : Holds v s.arena buf) : buf.isEmpty = v.isEmpty := by
  cases hv with
  | inArena hspilled =>
      rw [Bool.eq_iff_iff, List.isEmpty_iff_length_eq_zero, length_read]
      simp [Buffer.isEmpty, hspilled]
  | onHeap hspilled => simp [Buffer.isEmpty, hspilled]

theorem Holds.isSpilled (hv : Holds v s.arena buf) :
    buf.isSpilled = true ↔ buf.autoSpill = true ∧ buf.capacity < v.length := by
  cases hv with
  | inArena hspilled _ hlen => simp [Buffer.isSpilled, hspilled, hlen]
  | onHeap hspilled hauto _ hbig => simp [Buffer.isSpilled, hspilled, hauto, hbig]

theorem Holds.freeze (hv : Holds v s.arena buf) :
    ∃ f s', buf.freeze s = some (f, s') ∧ f.contents s'.arena = v ∧ s'.releases = s.releases := by
  cases hv with
  | inArena hspilled =>
      refine ⟨.arena ⟨buf.allocation, buf.offset, buf.len⟩, { s with arena := s.arena.recordFrozen }, ?_, ?_, rfl⟩
      · simp [Buffer.freeze, hspilled]
      · simp [Frozen.contents, BufferHandle.asRef]
  | onHeap hspilled _ hreleased =>
      refine ⟨.heap v, s, ?_, rfl, rfl⟩
      simp [Buffer.freeze, Buffer.drop, hspilled, hreleased]

theorem Holds.allocated {a c : ArenaRef} {len : Nat} (ha : a.allocate len = (.ok buf, c)) :
    Holds [] c buf := by
  obtain ⟨hserves, -, hlen, hreleased, hspilled⟩ := ArenaRef.allocate_fresh ha
  have hread : read c.memory buf.offset buf.len = [] := by simp [hlen, Regions.read]
  rw [← hread]
  exact @Holds.inArena c buf hspilled hserves (by omega) hreleased

/-- Every sequence of put_slice and try_put_slice on a fresh buffer acts as on
a byte vector: one that grows if auto-spill is on, and one bounded by the
capacity if it is off. The slot is released at the spill, once, and a buffer
that does not spill writes nothing outside its capacity. -/
theorem buffer_refines_vector (h : BytesMut) (a c : ArenaRef) (len : Nat) (buf : Buffer)
    (ha : a.allocate len = (.ok buf, c)) (cs : List Call) (hsize : ∀ x ∈ cs, x.data.length ≤ usizeMax)
    (hlimit : a.autoSpill = true → (total cs).length ≤ h.limit) :
    ∃ rs s b v, calls h ⟨c, []⟩ buf cs = (rs, s, b) ∧
      vecCalls (bound a.autoSpill buf.capacity) [] cs = (rs, v) ∧
      b.length = v.length ∧ b.isEmpty = v.isEmpty ∧
      (∃ f s', b.freeze s = some (f, s') ∧ f.contents s'.arena = v ∧ s'.releases = s.releases) ∧
      (a.autoSpill = true → v = total cs ∧ rs = cs.map Call.taken) ∧
      (a.autoSpill = false → v.length ≤ buf.capacity ∧
        ∀ i, i < buf.offset ∨ buf.offset + buf.capacity ≤ i → s.arena.memory i = c.memory i) ∧
      (b.isSpilled = true ↔ a.autoSpill = true ∧ buf.capacity < v.length) ∧
      s.releases = if b.isSpilled then [buf.allocation] else [] := by
  have hauto : buf.autoSpill = a.autoSpill := (ArenaRef.allocate_fresh ha).2.1
  have hv := Holds.allocated ha
  rw [← hauto] at hlimit ⊢
  obtain ⟨s, b, hcalls, hwrote⟩ := calls_refines (h := h) (s := ⟨c, []⟩) hv hsize (by simpa using hlimit)
  have hholds := hwrote.holds
  have hsame := hwrote.same
  refine ⟨_, s, b, _, hcalls, rfl, hholds.length, hholds.isEmpty, hholds.freeze, fun hspill => ?_, fun hspill => ?_,
    ?_, ?_⟩
  · simp [bound, hspill, vecCalls_none]
  · obtain ⟨hspilled, hlen, hle⟩ := hholds.notSpilled (hsame.autoSpill.trans hspill)
    have hflag : b.isSpilled = false := by simp [Buffer.isSpilled, hspilled]
    exact ⟨by rw [hlen, ← hsame.capacity]; exact hle, fun i hi => hwrote.steps.memory hflag hi⟩
  · rw [hholds.isSpilled, hsame.autoSpill, hsame.capacity]
  · have hfresh : buf.isSpilled = false := by simp [Buffer.isSpilled, (ArenaRef.allocate_fresh ha).2.2.2.2]
    rw [hwrote.steps.releases.1]
    simp [hfresh]

/-- Three bytes and three more in a slot of four. -/
theorem buffer_refines_vector_straddling :
    ∃ buf c rs s b, (ArenaRef.fixed (.build 1 4 true .uninit fun _ => 7)).allocate 0 = (.ok buf, c) ∧
      calls ⟨100, fun _ => 1⟩ ⟨c, []⟩ buf [.putSlice [1, 2, 3], .tryPutSlice [4, 5, 6]] = (rs, s, b) ∧
      b.length = 6 ∧ b.isSpilled = true ∧ s.releases = [.fixed 0] := by
  have ha : ∃ buf c, (ArenaRef.fixed (.build 1 4 true .uninit fun _ => 7)).allocate 0 = (.ok buf, c) ∧
      buf.capacity = 4 ∧ buf.allocation = .fixed 0 := by
    have hfirst : (ArenaInner.build 1 4 true .uninit fun _ => 7).bitmap.tryAlloc.1 = some 0 := by decide +kernel
    exact ⟨_, _, by rw [ArenaRef.allocate, ArenaInner.allocate_of_some hfirst], rfl, rfl⟩
  obtain ⟨buf, c, ha, hcapacity, hallocation⟩ := ha
  obtain ⟨rs, s, b, v, hcalls, -, hlen, -, -, hv, -, hspilled, hlog⟩ :=
    buffer_refines_vector ⟨100, fun _ => 1⟩ _ c 0 buf ha [.putSlice [1, 2, 3], .tryPutSlice [4, 5, 6]]
      (by decide) (by decide)
  obtain ⟨hv, -⟩ := hv rfl
  have hsix : v.length = 6 := by rw [hv]; rfl
  have hspill : b.isSpilled = true := hspilled.mpr ⟨rfl, by omega⟩
  refine ⟨buf, c, rs, s, b, ha, hcalls, hlen.trans hsix, hspill, ?_⟩
  rw [hlog, if_pos hspill, hallocation]

end ArenaAlligator.BufferVector
