import Mathlib.Data.UInt
import ArenaAlligator.Allocation
import ArenaAlligator.BitmapRanges
import ArenaAlligator.ScrubRules
import Mathlib.Logic.Relation

namespace ArenaAlligator

namespace AtomicBitmap

/-- The words that set_range and all_set_in_range visit, with the bits that
they set or ask for in each. -/
def rangeOps (start fin : Nat) : List (Nat × Word) :=
  if start = fin then []
  else
    let firstWord := start / bitsPerWord
    let lastWord := (fin - 1) / bitsPerWord
    if firstWord = lastWord then [(firstWord, rangeMask (start % bitsPerWord) (fin - firstWord * bitsPerWord))]
    else
      (firstWord, ~~~(1#64 <<< (start % bitsPerWord) - 1#64)) ::
        ((List.range' (firstWord + 1) (lastWord - (firstWord + 1))).map (fun w => (w, BitVec.allOnes 64)) ++
          [(lastWord, lowMask (fin - lastWord * bitsPerWord))])

variable {b : AtomicBitmap} {start fin : Nat}

theorem setRange_eq_foldl (b : AtomicBitmap) (start fin : Nat) :
    b.setRange start fin = (rangeOps start fin).foldl (fun b op => (b.fetchOr op.1 op.2).2) b := by
  unfold setRange rangeOps
  split
  · rfl
  · simp only
    split
    · rfl
    · rw [List.foldl_cons, List.foldl_append, List.foldl_map]
      rfl

theorem allSetInRange_eq_all (b : AtomicBitmap) (start fin : Nat) :
    b.allSetInRange start fin = (rangeOps start fin).all fun op => b.load op.1 &&& op.2 = op.2 := by
  unfold allSetInRange rangeOps
  split
  · rfl
  · simp only
    split
    · simp
    · simp only [List.all_cons, List.all_append, List.all_map, List.all_nil, Function.comp_def, BitVec.and_allOnes,
        Bool.and_true, Bool.and_assoc]

theorem rangeOps_covers (h : start < fin) {op : Nat × Word} (hop : op ∈ rangeOps start fin) :
    Covers start fin op.1 op.2 := by
  have hle : start / bitsPerWord ≤ (fin - 1) / bitsPerWord := Nat.div_le_div_right (by omega)
  rw [rangeOps, if_neg h.ne] at hop
  simp only at hop
  split at hop
  next heq =>
    rw [List.mem_singleton.mp hop]
    exact covers_range rfl heq.symm
  next hne =>
    have hlt := lt_of_le_of_ne hle hne
    rcases List.mem_cons.mp hop with rfl | hop
    · exact covers_first rfl hlt
    · rcases List.mem_append.mp hop with hop | hop
      · obtain ⟨w, hw, rfl⟩ := List.mem_map.mp hop
        rw [List.mem_range'_1] at hw
        exact covers_middle (by omega) (by omega)
      · rw [List.mem_singleton.mp hop]
        exact covers_last hlt rfl

theorem exists_rangeOp {u : Nat} (hs : start ≤ u) (hf : u < fin) :
    ∃ op ∈ rangeOps start fin, op.1 = u / bitsPerWord := by
  have hlo : start / bitsPerWord ≤ u / bitsPerWord := Nat.div_le_div_right hs
  have hhi : u / bitsPerWord ≤ (fin - 1) / bitsPerWord := Nat.div_le_div_right (by omega)
  rw [rangeOps, if_neg (by omega)]
  simp only
  split
  next heq => exact ⟨_, List.mem_singleton_self _, by simp only; omega⟩
  next hne =>
    by_cases hfirst : u / bitsPerWord = start / bitsPerWord
    · exact ⟨_, List.mem_cons_self, hfirst.symm⟩
    by_cases hlast : u / bitsPerWord = (fin - 1) / bitsPerWord
    · exact ⟨_, List.mem_cons_of_mem _ (List.mem_append_right _ (List.mem_singleton_self _)), hlast.symm⟩
    have hw : u / bitsPerWord ∈
        List.range' (start / bitsPerWord + 1) ((fin - 1) / bitsPerWord - (start / bitsPerWord + 1)) := by
      rw [List.mem_range'_1]
      omega
    exact ⟨_, List.mem_cons_of_mem _ (List.mem_append_left _ (List.mem_map_of_mem hw)), rfl⟩

theorem fetchOr_range {w : Nat} {m : Word} (hm : Covers start fin w m) (u : Nat) :
    (b.bit u = true → (b.fetchOr w m).2.bit u = true) ∧
      ((b.fetchOr w m).2.bit u = true → b.bit u = true ∨ start ≤ u ∧ u < fin) := by
  by_cases hw : w < b.scanWords
  · rw [fetchOr_bit hm hw]
    exact ⟨Or.inl, Or.imp_right And.right⟩
  · have hsame : (b.fetchOr w m).2.bit u = b.bit u := by simp [bit, fetchOr, load_store, hw]
    rw [hsame]
    exact ⟨id, Or.inl⟩

end AtomicBitmap

namespace ZeroSteps

open Function AtomicBitmap ScrubbedUnits ScrubRules

structure Extent where
  offset : Nat
  size : Nat
  first : Nat
  last : Nat
deriving DecidableEq

/-- On return the memory is filled and then marked. On allocation the marks are
checked, and the memory is wiped if one is missing. -/
inductive ZeroPc
  | fill (i : Nat)
  | mark (k : Nat)
  | check (k : Nat)
  | wipe (i : Nat)
deriving DecidableEq

/-- One step, and none where the zeroing ends. Without a zeroed bitmap there is
nothing to mark or to check. -/
def advance (e : Extent) (m : Memory) (zeroedBitmap : Option AtomicBitmap) :
    ZeroPc → Memory × Option AtomicBitmap × Option ZeroPc
  | .fill i =>
      if i < e.size then (update m (e.offset + i) 0, zeroedBitmap, some (.fill (i + 1)))
      else (m, zeroedBitmap, some (.mark 0))
  | .mark k =>
      match zeroedBitmap, (rangeOps e.first e.last)[k]? with
      | some z, some op => (m, some (z.fetchOr op.1 op.2).2, some (.mark (k + 1)))
      | _, _ => (m, zeroedBitmap, none)
  | .check k =>
      match zeroedBitmap, (rangeOps e.first e.last)[k]? with
      | some z, some op => (m, zeroedBitmap, some (if z.load op.1 &&& op.2 = op.2 then .check (k + 1) else .wipe 0))
      | _, _ => (m, zeroedBitmap, none)
  | .wipe i =>
      if i < e.size then (update m (e.offset + i) 0, zeroedBitmap, some (.wipe (i + 1))) else (m, zeroedBitmap, none)

def Next (e : Extent) (x y : Memory × Option AtomicBitmap × Option ZeroPc) : Prop :=
  ∃ z, x.2.2 = some z ∧ y = advance e x.1 x.2.1 z

theorem zeroizeRegion_zero (m : Memory) (offset : Nat) : zeroizeRegion m offset 0 = m := by
  funext j
  exact if_neg (by omega)

theorem zeroizeRegion_succ (m : Memory) (offset i : Nat) :
    zeroizeRegion m offset (i + 1) = update (zeroizeRegion m offset i) (offset + i) 0 := by
  funext j
  by_cases hj : j = offset + i
  · rw [hj, update_self]
    exact if_pos (by omega)
  · rw [update_of_ne hj]
    exact if_congr (by omega) rfl rfl

theorem fill_loop (e : Extent) (zb : Option AtomicBitmap) (pc : Nat → ZeroPc)
    (hpc : ∀ (m : Memory) (i : Nat), i < e.size →
      advance e m zb (pc i) = (update m (e.offset + i) 0, zb, some (pc (i + 1)))) (m : Memory) :
    Relation.ReflTransGen (Next e) (m, zb, some (pc 0)) (zeroizeRegion m e.offset e.size, zb, some (pc e.size)) := by
  have hupto (i : Nat) (hi : i ≤ e.size) : Relation.ReflTransGen (Next e) (m, zb, some (pc 0))
      (zeroizeRegion m e.offset i, zb, some (pc i)) := by
    induction i with
    | zero => rw [zeroizeRegion_zero]
    | succ i ih =>
        refine (ih (by omega)).tail ⟨pc i, rfl, ?_⟩
        rw [hpc _ i (by omega), zeroizeRegion_succ]
  exact hupto e.size le_rfl

theorem mark_loop (e : Extent) (m : Memory) (b : AtomicBitmap) {k : Nat} {ops : List (Nat × Word)}
    (hops : (rangeOps e.first e.last).drop k = ops) :
    Relation.ReflTransGen (Next e) (m, some b, some (.mark k))
      (m, some (ops.foldl (fun b op => (b.fetchOr op.1 op.2).2) b), none) := by
  induction ops generalizing b k with
  | nil =>
      refine .single ⟨_, rfl, ?_⟩
      simp [advance, List.getElem?_eq_none_iff.mpr (List.drop_eq_nil_iff.mp hops)]
  | cons op ops ih =>
      have hk : (rangeOps e.first e.last)[k]? = some op := by
        rw [← List.head?_drop, hops, List.head?_cons]
      have htail : (rangeOps e.first e.last).drop (k + 1) = ops := by
        rw [← List.tail_drop, hops, List.tail_cons]
      refine .head ⟨_, rfl, ?_⟩ (ih (b.fetchOr op.1 op.2).2 htail)
      simp [advance, hk]

theorem check_loop (e : Extent) (m : Memory) (b : AtomicBitmap) {k : Nat} {ops : List (Nat × Word)}
    (hops : (rangeOps e.first e.last).drop k = ops) :
    Relation.ReflTransGen (Next e) (m, some b, some (.check k))
      (m, some b, if ops.all (fun op => b.load op.1 &&& op.2 = op.2) then none else some (.wipe 0)) := by
  induction ops generalizing k with
  | nil =>
      refine .single ⟨_, rfl, ?_⟩
      simp [advance, List.getElem?_eq_none_iff.mpr (List.drop_eq_nil_iff.mp hops)]
  | cons op ops ih =>
      have hk : (rangeOps e.first e.last)[k]? = some op := by
        rw [← List.head?_drop, hops, List.head?_cons]
      have htail : (rangeOps e.first e.last).drop (k + 1) = ops := by
        rw [← List.tail_drop, hops, List.tail_cons]
      by_cases hset : b.load op.1 &&& op.2 = op.2
      · rw [List.all_cons, decide_eq_true hset, Bool.true_and]
        refine .head ⟨_, rfl, ?_⟩ (ih htail)
        simp [advance, hk, hset]
      · refine .single ⟨_, rfl, ?_⟩
        simp [advance, hk, hset]

/-- The return path zeroes the memory and marks its units. -/
theorem scrub_settles (e : Extent) (m : Memory) (b : AtomicBitmap) :
    Relation.ReflTransGen (Next e) (m, some b, some (.fill 0))
      (zeroizeRegion m e.offset e.size, some (b.setRange e.first e.last), none) := by
  rw [setRange_eq_foldl]
  refine (fill_loop e (some b) .fill (fun m i hi => if_pos hi) m).trans
    (.head ⟨_, rfl, ?_⟩ (mark_loop e _ b List.drop_zero))
  exact (if_neg (lt_irrefl _)).symm

/-- The allocation path zeroes the memory unless all of its units are marked. -/
theorem prepare_settles (e : Extent) (m : Memory) (b : AtomicBitmap) :
    Relation.ReflTransGen (Next e) (m, some b, some (.check 0))
      (if b.allSetInRange e.first e.last then m else zeroizeRegion m e.offset e.size, some b, none) := by
  rw [allSetInRange_eq_all]
  refine (check_loop e m b rfl).trans ?_
  rw [List.drop_zero]
  split
  · exact .refl
  · refine (fill_loop e (some b) .wipe (fun m i hi => if_pos hi) m).trans (.single ⟨_, rfl, ?_⟩)
    exact (if_neg (lt_irrefl _)).symm

structure Extent.Fits (us : Nat) (e : Extent) : Prop where
  offset : e.offset = e.first * us
  fin : e.offset + e.size = e.last * us
  nonempty : e.first < e.last

def Extent.blank (e : Extent) (dirty : Bool) : Work := ⟨e.first, e.last, dirty, e.offset, fun _ => False⟩

def Extent.ready (e : Extent) : Work := ⟨e.first, e.last, false, e.offset + e.size, fun _ => False⟩

namespace ZeroPc

def dirty : ZeroPc → Bool
  | fill _ | mark _ => true
  | check _ | wipe _ => false

def work (e : Extent) : ZeroPc → Work
  | fill i => ⟨e.first, e.last, true, min (e.offset + i) (e.offset + e.size), fun _ => False⟩
  | mark _ => ⟨e.first, e.last, true, e.offset + e.size, fun _ => False⟩
  | check k => ⟨e.first, e.last, false, e.offset,
      fun u => (e.first ≤ u ∧ u < e.last) ∧ ∃ op ∈ (rangeOps e.first e.last).take k, op.1 = u / bitsPerWord⟩
  | wipe i => ⟨e.first, e.last, false, min (e.offset + i) (e.offset + e.size), fun _ => False⟩

def done (e : Extent) (z : ZeroPc) : Work := if z.dirty then e.blank false else e.ready

theorem work_dirty (e : Extent) (z : ZeroPc) : (z.work e).dirty = z.dirty := by
  cases z <;> rfl

end ZeroPc

variable {τ : Type} [DecidableEq τ] {us : Nat} {e : Extent} {s : Shared τ UInt8} {t : τ} {zb : AtomicBitmap}

theorem Extent.Fits.blank (he : e.Fits us) (dirty : Bool) : (e.blank dirty).Blank us :=
  ⟨he.offset.le, fun _ h => h⟩

def after (e : Extent) (s : Shared τ UInt8) (t : τ) (z : ZeroPc) (r : Memory × Option AtomicBitmap × Option ZeroPc) :
    Shared τ UInt8 :=
  ⟨r.1, fun u => ∃ b, r.2.1 = some b ∧ b.bit u = true, s.live,
    update s.work t (some (r.2.2.elim (z.done e) (ZeroPc.work e)))⟩

omit [DecidableEq τ] in
theorem marks_eq (hmarked : s.marked = fun u => zb.bit u = true) :
    (fun u => ∃ b, some zb = some b ∧ b.bit u = true) = s.marked := by
  rw [hmarked]
  funext u
  simp

theorem write_move {z z' : ZeroPc} {i : Nat} (hi : i < e.size) (hmarked : s.marked = fun u => zb.bit u = true)
    (ht : s.work t = some (z.work e)) (hz : (z.work e).zeroTo = min (e.offset + i) (e.offset + e.size))
    (hz' : z'.work e = { z.work e with zeroTo := min (e.offset + (i + 1)) (e.offset + e.size) }) :
    Move us s (after e s t z (update s.mem (e.offset + i) 0, some zb, some z')) := by
  have hmove : Move us s _ := .fill s t (z.work e) ht
  have hto : (z.work e).zeroTo = e.offset + i := by omega
  have hnext : min (e.offset + (i + 1)) (e.offset + e.size) = e.offset + i + 1 := by omega
  rw [after, marks_eq hmarked, Option.elim_some, hz', hnext]
  rwa [hto] at hmove

theorem Move.to_after {z : ZeroPc} {w : Work} {r : Option ZeroPc} (hmarked : s.marked = fun u => zb.bit u = true)
    (hw : r.elim (z.done e) (ZeroPc.work e) = w) (h : Move us s { s with work := update s.work t (some w) }) :
    Move us s (after e s t z (s.mem, some zb, r)) := by
  rw [after, marks_eq hmarked, hw]
  exact h

theorem fill_move (hmarked : s.marked = fun u => zb.bit u = true) {i : Nat}
    (ht : s.work t = some ((ZeroPc.fill i).work e)) :
    Move us s (after e s t (.fill i) (advance e s.mem (some zb) (.fill i))) := by
  simp only [advance]
  split
  next hi => exact write_move hi hmarked ht rfl rfl
  next hi =>
    refine Move.to_after hmarked rfl (.know s t _ (e.offset + e.size) (fun _ => False) ht ?_ fun u hu => hu.elim)
    simp only [ZeroPc.work]
    omega

theorem wipe_move (hmarked : s.marked = fun u => zb.bit u = true) {i : Nat}
    (ht : s.work t = some ((ZeroPc.wipe i).work e)) :
    Move us s (after e s t (.wipe i) (advance e s.mem (some zb) (.wipe i))) := by
  simp only [advance]
  split
  next hi => exact write_move hi hmarked ht rfl rfl
  next hi =>
    refine Move.to_after hmarked rfl (.know s t _ (e.offset + e.size) (fun _ => False) ht ?_ fun u hu => hu.elim)
    simp only [ZeroPc.work]
    omega

theorem mark_move (he : e.Fits us) (hmarked : s.marked = fun u => zb.bit u = true) {k : Nat}
    (ht : s.work t = some ((ZeroPc.mark k).work e)) :
    Move us s (after e s t (.mark k) (advance e s.mem (some zb) (.mark k))) := by
  cases hop : (rangeOps e.first e.last)[k]? with
  | none =>
      simp only [advance, hop]
      exact Move.to_after hmarked rfl (.scrubbed s t _ _ ht he.fin.ge rfl (he.blank false))
  | some op =>
      have hcovers := rangeOps_covers he.nonempty (List.mem_of_getElem? hop)
      have hmove : Move us s _ := .mark s t _ (fun u => (zb.fetchOr op.1 op.2).2.bit u = true) ht rfl
        (fun u hu => (fetchOr_range hcovers u).1 (by rwa [hmarked] at hu))
        (fun u hu => by rw [hmarked]; exact (fetchOr_range hcovers u).2 hu)
      have hwork : update s.work t (some ((ZeroPc.mark (k + 1)).work e)) = s.work := by
        rw [update_eq_iff]
        exact ⟨ht.symm, fun _ _ => rfl⟩
      simp only [advance, hop, after, Option.elim_some, hwork]
      simpa using hmove

theorem check_move (he : e.Fits us) (hmarked : s.marked = fun u => zb.bit u = true) {k : Nat}
    (ht : s.work t = some ((ZeroPc.check k).work e)) (hfree : ∀ u, e.first ≤ u → u < e.last → ¬Exposed s u) :
    Move us s (after e s t (.check k) (advance e s.mem (some zb) (.check k))) := by
  cases hop : (rangeOps e.first e.last)[k]? with
  | none =>
      have hlen : (rangeOps e.first e.last).length ≤ k := List.getElem?_eq_none_iff.mp hop
      have hmove : Move us s _ := .ready s t _ ht rfl (fun u hu => by
        obtain ⟨op, hmem, hw⟩ := exists_rangeOp hu.1 hu.2
        exact ⟨hu, op, by rwa [List.take_of_length_le hlen], hw⟩) (fun u hu => hfree u hu.1 hu.2)
      simp only [advance, hop]
      refine Move.to_after hmarked ?_ hmove
      simp only [Option.elim_none, ZeroPc.done, ZeroPc.dirty, Bool.false_eq_true, if_false, Extent.ready, he.fin,
        ZeroPc.work]
  | some op =>
      have hcovers := rangeOps_covers he.nonempty (List.mem_of_getElem? hop)
      simp only [advance, hop]
      split
      next hset =>
        refine Move.to_after hmarked rfl (.know s t _ e.offset _ ht le_rfl ?_)
        rintro u ⟨hin, op', hmem, hw⟩
        rw [List.take_add_one, hop] at hmem
        rcases List.mem_append.mp hmem with hmem | hmem
        · exact Or.inl ⟨hin, op', hmem, hw⟩
        · rw [Option.toList_some, List.mem_singleton] at hmem
          subst hmem
          rw [hmarked]
          exact Or.inr ((load_and_eq_iff hcovers).mp hset u hw.symm hin.1 hin.2)
      next =>
        refine Move.to_after hmarked rfl (.know s t _ _ (fun _ => False) ht ?_ fun u hu => hu.elim)
        simp only [ZeroPc.work]
        omega

/-- Each step of the zeroing follows the rules. -/
theorem advance_move (he : e.Fits us) (hmarked : s.marked = fun u => zb.bit u = true) {z : ZeroPc}
    (ht : s.work t = some (z.work e)) (hfree : z.dirty = false → ∀ u, e.first ≤ u → u < e.last → ¬Exposed s u) :
    Move us s (after e s t z (advance e s.mem (some zb) z)) := by
  cases z with
  | fill i => exact fill_move hmarked ht
  | mark k => exact mark_move he hmarked ht
  | check k => exact check_move he hmarked ht (hfree rfl)
  | wipe i => exact wipe_move hmarked ht

theorem advance_memory (e : Extent) (m : Memory) (zeroedBitmap : Option AtomicBitmap) (z : ZeroPc) {i : Nat}
    (hi : i < e.offset ∨ e.offset + e.size ≤ i) : (advance e m zeroedBitmap z).1 i = m i := by
  have hwrite (j : Nat) (hj : j < e.size) : update m (e.offset + j) 0 i = m i := update_of_ne (by omega) _ _
  cases z with
  | fill j =>
      simp only [advance]
      split
      next hj => exact hwrite j hj
      next => rfl
  | wipe j =>
      simp only [advance]
      split
      next hj => exact hwrite j hj
      next => rfl
  | mark k =>
      simp only [advance]
      split <;> rfl
  | check k =>
      simp only [advance]
      split <;> rfl

theorem advance_bitmap (e : Extent) (m : Memory) {zeroedBitmap : Option AtomicBitmap}
    (hz : zeroedBitmap = some zb) (z : ZeroPc) : ∃ b, (advance e m zeroedBitmap z).2.1 = some b := by
  subst hz
  cases z with
  | fill j =>
      simp only [advance]
      split <;> exact ⟨zb, rfl⟩
  | wipe j =>
      simp only [advance]
      split <;> exact ⟨zb, rfl⟩
  | mark k =>
      simp only [advance]
      split <;> exact ⟨_, rfl⟩
  | check k =>
      simp only [advance]
      split <;> exact ⟨zb, rfl⟩

structure Extent.Spans (us : Nat) (e : Extent) (w : Work) : Prop where
  first : w.first = e.first
  last : w.last = e.last
  bound : w.zeroTo ≤ w.last * us

namespace Extent.Fits

variable {d : Extent}

theorem spans_blank (he : e.Fits us) (dirty : Bool) : e.Spans us (e.blank dirty) := by
  refine ⟨rfl, rfl, ?_⟩
  have := he.fin
  simp only [Extent.blank]
  omega

theorem spans_ready (he : e.Fits us) : e.Spans us e.ready := ⟨rfl, rfl, he.fin.le⟩

theorem spans_work (he : e.Fits us) (z : ZeroPc) : e.Spans us (z.work e) := by
  have := he.fin
  cases z with
  | fill i => exact ⟨rfl, rfl, by simp only [ZeroPc.work]; omega⟩
  | mark k => exact ⟨rfl, rfl, by simp only [ZeroPc.work]; omega⟩
  | check k => exact ⟨rfl, rfl, by simp only [ZeroPc.work]; omega⟩
  | wipe i => exact ⟨rfl, rfl, by simp only [ZeroPc.work]; omega⟩

theorem blank_check (he : e.Fits us) : ((ZeroPc.check 0).work e).Blank us := by
  refine ⟨he.offset.le, ?_⟩
  rintro u ⟨-, op, hop, -⟩
  exact absurd hop List.not_mem_nil

theorem memory_apart (he : e.Fits us) (hd : d.Fits us) (h : e.last ≤ d.first ∨ d.last ≤ e.first) {i : Nat}
    (hlo : d.offset ≤ i) (hhi : i < d.offset + d.size) : i < e.offset ∨ e.offset + e.size ≤ i := by
  rw [hd.offset] at hlo
  rw [hd.fin] at hhi
  rw [he.fin, he.offset]
  exact h.symm.imp (fun hle => hhi.trans_le (Nat.mul_le_mul_right us hle))
    fun hle => (Nat.mul_le_mul_right us hle).trans hlo

omit [DecidableEq τ] in
theorem ready_zero (he : e.Fits us) (hs : Safe us s) (ht : s.work t = some e.ready) {i : Nat} (hlo : e.offset ≤ i)
    (hhi : i < e.offset + e.size) : s.mem i = 0 := by
  rw [he.offset] at hlo
  exact hs.zero t e.ready ht i hlo hhi

theorem store_move (he : e.Fits us) {pos : Nat} (hpos : pos < e.size) (byte : UInt8)
    (hlive : ∀ u, e.first ≤ u → u < e.last → s.live u)
    (hwork : ∀ t w, s.work t = some w → ∃ d : Extent, d.Spans us w ∧ (d.last ≤ e.first ∨ e.last ≤ d.first)) :
    Move us s { s with mem := update s.mem (e.offset + pos) byte } := by
  refine .store s e.first e.last _ hlive (fun t w hw => ?_) (fun t w hw => ?_) fun i hi => ?_
  · obtain ⟨d, hspans, hapart⟩ := hwork t w hw
    rwa [hspans.first, hspans.last]
  · obtain ⟨d, hspans, -⟩ := hwork t w hw
    exact hspans.bound
  · rw [← he.offset, ← he.fin] at hi
    exact update_of_ne (by omega) _ _

end Extent.Fits

/-- A thread of an arena: at a step of the arena's own, or within the zeroing
of an allocation. -/
inductive Fine (π κ : Type)
  | base (p : π)
  | zeroing (k : κ) (z : ZeroPc)
deriving DecidableEq

variable {π κ : Type} {pc : τ → Fine π κ} {p : Fine π κ} {k : κ} {z : ZeroPc}

namespace Fine

def coarse (scrub zero : κ → π) : Fine π κ → π
  | base p => p
  | zeroing k z => if z.dirty then scrub k else zero k

def Entered (zeroes : π → Bool) : Fine π κ → Prop
  | base p => zeroes p = false
  | zeroing _ _ => True

theorem Entered.of_base {zeroes : π → Bool} {q : π} (h : p.Entered zeroes) (hp : p = base q) : zeroes q = false := by
  subst hp
  exact h

theorem entered_update {zeroes : π → Bool} (h : ∀ u, (pc u).Entered zeroes) (hp : p.Entered zeroes) (u : τ) :
    (update pc t p u).Entered zeroes :=
  (forall_update_iff pc fun _ q => q.Entered zeroes).mpr ⟨hp, fun u _ => h u⟩ u

theorem entered_elim {zeroes : π → Bool} {p : π} (hp : zeroes p = false) (r : Option ZeroPc) :
    Entered zeroes (r.elim (base p) (zeroing k)) := by
  cases r with
  | none => exact hp
  | some z => trivial

def work (e : κ → Extent) (known : π → Option Work) : Fine π κ → Option Work
  | base p => known p
  | zeroing k z => some (z.work (e k))

end Fine

def view (m : Memory) (zeroedBitmap : Option AtomicBitmap) (live : Nat → Prop) (work : Fine π κ → Option Work)
    (pc : τ → Fine π κ) : Shared τ UInt8 where
  mem := m
  marked u := ∃ b, zeroedBitmap = some b ∧ b.bit u = true
  live := live
  work := work ∘ pc

variable {m m' : Memory} {zeroedBitmap zeroedBitmap' : Option AtomicBitmap} {live : Nat → Prop} {extent : κ → Extent}

theorem view_update (m : Memory) (zeroedBitmap : Option AtomicBitmap) (live : Nat → Prop)
    (work : Fine π κ → Option Work) (pc : τ → Fine π κ) (t : τ) (p : Fine π κ) :
    view m zeroedBitmap live work (update pc t p) =
      { view m zeroedBitmap live work pc with work := update (work ∘ pc) t (work p) } := by
  rw [view, comp_update]
  rfl

omit [DecidableEq τ] in
theorem safe_start (hb : zeroedBitmap = some zb) (hzb : ∀ u, zb.bit u = false) {work : Fine π κ → Option Work}
    (hwork : ∀ t, work (pc t) = none) : Safe us (view m zeroedBitmap live work pc) := by
  refine ⟨?_, fun t w hw => ?_, fun t w hw => ?_⟩
  · rintro u ⟨b, hsome, hu⟩
    cases hb.symm.trans hsome
    rw [hzb u] at hu
    cases hu
  · cases (hwork t).symm.trans hw
  · cases (hwork t).symm.trans hw

/-- A step within the zeroing of an allocation that the thread holds follows
the rules. After the last one the thread goes on at p. -/
theorem zeroing_move {known : π → Option Work} {p : π} (he : (extent k).Fits us) (hb : zeroedBitmap = some zb)
    (hpc : pc t = .zeroing k z) (hp : known p = some (z.done (extent k)))
    (hfree : z.dirty = false → ∀ u, (extent k).first ≤ u → u < (extent k).last →
      ¬Exposed (view m zeroedBitmap live (Fine.work extent known) pc) u) :
    Move us (view m zeroedBitmap live (Fine.work extent known) pc)
      (view (advance (extent k) m zeroedBitmap z).1 (advance (extent k) m zeroedBitmap z).2.1 live
        (Fine.work extent known)
        (update pc t ((advance (extent k) m zeroedBitmap z).2.2.elim (.base p) (.zeroing k)))) := by
  subst hb
  have hwork : (view m (some zb) live (Fine.work extent known) pc).work t = some (z.work (extent k)) := by
    simp only [view, comp_apply, hpc, Fine.work]
  have hmarked : (view m (some zb) live (Fine.work extent known) pc).marked = fun u => zb.bit u = true := by
    funext u
    simp [view]
  have hnext (r : Option ZeroPc) : Fine.work extent known (r.elim (.base p) (.zeroing k)) =
      some (r.elim (z.done (extent k)) (ZeroPc.work (extent k))) := by
    cases r with
    | none => exact hp
    | some z' => rfl
  rw [view_update, hnext]
  exact advance_move he hmarked hwork hfree

/-- How a step changes the memory and the zeroed bitmap: not at all, by a step
of zeroing, or by a store to an allocation. -/
inductive Wrote (extent : κ → Extent) (stores : κ → Prop) (pc : τ → Fine π κ) (m : Memory)
    (zeroedBitmap : Option AtomicBitmap) : Memory → Option AtomicBitmap → Prop
  | nothing : Wrote extent stores pc m zeroedBitmap m zeroedBitmap
  | zeroing (t : τ) (k : κ) (z : ZeroPc) (hpc : pc t = .zeroing k z) :
      Wrote extent stores pc m zeroedBitmap (advance (extent k) m zeroedBitmap z).1
        (advance (extent k) m zeroedBitmap z).2.1
  | store (k : κ) (pos : Nat) (byte : UInt8) (hk : stores k) (hpos : pos < (extent k).size) :
      Wrote extent stores pc m zeroedBitmap (update m ((extent k).offset + pos) byte) zeroedBitmap

namespace Wrote

variable {stores : κ → Prop}

omit [DecidableEq τ] in
theorem memory_eq (h : Wrote extent stores pc m zeroedBitmap m' zeroedBitmap') {i : Nat}
    (hz : ∀ t k z, pc t = .zeroing k z → i < (extent k).offset ∨ (extent k).offset + (extent k).size ≤ i)
    (hw : ∀ k, stores k → i < (extent k).offset ∨ (extent k).offset + (extent k).size ≤ i) : m' i = m i := by
  cases h with
  | nothing => rfl
  | zeroing t k z hpc => exact advance_memory _ _ _ z (hz t k z hpc)
  | store k pos byte hk hpos =>
      have hi := hw k hk
      exact update_of_ne (by omega) _ _

omit [DecidableEq τ] in
theorem bitmap (h : Wrote extent stores pc m zeroedBitmap m' zeroedBitmap') (hb : ∃ b, zeroedBitmap = some b) :
    ∃ b, zeroedBitmap' = some b := by
  obtain ⟨b, hb⟩ := hb
  cases h with
  | nothing | store => exact ⟨b, hb⟩
  | zeroing t k z hpc => exact advance_bitmap _ _ hb z

end Wrote

end ZeroSteps

end ArenaAlligator
