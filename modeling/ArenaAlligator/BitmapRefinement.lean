import ArenaAlligator.BitmapSlots
import Mathlib.Data.Nat.Count

namespace ArenaAlligator.BitmapRefinement

open AtomicBitmap Function

/-- The scan with the bounds check of every access to the word array; none is
the panic of an index out of range. -/
def scanChecked (start : Nat) : Nat → Nat → AtomicBitmap → Option (Option Nat × AtomicBitmap)
  | 0, _, b => some (none, b)
  | n + 1, i, b =>
      let wordIdx := (start + i) &&& b.wordMask
      if wordIdx < b.words.length then
        let r := tryClaimWord bitsPerWord b wordIdx (wordIdx * bitsPerWord)
        match r.1 with
        | some slot => some (some slot, r.2)
        | none => scanChecked start n (i + 1) r.2
      else none

def tryAllocChecked (b : AtomicBitmap) : Option (Option Nat × AtomicBitmap) :=
  if b.slotCount = 0 then some (none, b)
  else
    let r := b.fetchAddCursor
    scanChecked (r.1.toNat &&& b.wordMask) b.scanWords 0 r.2

def freeChecked (b : AtomicBitmap) (slot : Nat) : Option AtomicBitmap :=
  if slot / bitsPerWord < b.words.length then some (b.free slot) else none

def tryClaimExactChecked (b : AtomicBitmap) (slot : Nat) : Option (Bool × AtomicBitmap) :=
  if slot / bitsPerWord < b.words.length then some (b.tryClaimExact slot) else none

def isFreeChecked (b : AtomicBitmap) (slot : Nat) : Option Bool :=
  if slot / bitsPerWord < b.words.length then some (b.isFree slot) else none

def anyFreeLoop (b : AtomicBitmap) : List Nat → Option Bool
  | [] => some false
  | wordIdx :: rest =>
      if wordIdx < b.words.length then
        if b.load wordIdx ≠ 0#64 then some true else anyFreeLoop b rest
      else none

def anyFreeChecked (b : AtomicBitmap) : Option Bool := anyFreeLoop b (List.range b.actualWords)

def freeCountLoop (b : AtomicBitmap) : List Nat → Nat → Option Nat
  | [], total => some total
  | wordIdx :: rest, total =>
      if wordIdx < b.words.length then freeCountLoop b rest (total + (b.load wordIdx).cpop.toNat) else none

def freeCountChecked (b : AtomicBitmap) : Option Nat := freeCountLoop b (List.range b.actualWords) 0

theorem scan_index_lt (b : AtomicBitmap) (start i : Nat) : (start + i) &&& b.wordMask < b.words.length := by
  have hpos := b.scanWords_pos
  have hle : (start + i) &&& b.wordMask ≤ b.wordMask := Nat.and_le_right
  rw [b.wordMask_eq] at hle ⊢
  rw [b.length_words]
  omega

theorem scanChecked_eq (start n i : Nat) (b : AtomicBitmap) : scanChecked start n i b = some (scan start n i b) := by
  induction n generalizing i b with
  | zero => rfl
  | succ n ih =>
      simp only [scanChecked, scan, scan_index_lt, if_true]
      cases (tryClaimWord bitsPerWord b ((start + i) &&& b.wordMask)
          (((start + i) &&& b.wordMask) * bitsPerWord)).1 with
      | some slot => rfl
      | none => exact ih _ _

theorem tryAllocChecked_eq (b : AtomicBitmap) : tryAllocChecked b = some b.tryAlloc := by
  unfold tryAllocChecked tryAlloc
  split
  next => rfl
  next => exact scanChecked_eq _ _ _ _

theorem slot_word_lt (b : AtomicBitmap) {slot : Nat} (h : slot < b.slotCount) :
    slot / bitsPerWord < b.words.length := by
  rw [b.length_words]
  exact b.div_lt_scanWords h

theorem actualWords_le (b : AtomicBitmap) : b.actualWords ≤ b.words.length := by
  rw [b.length_words, b.scanWords_eq]
  exact (Nat.le_max_left _ 1).trans (Usize.le_leastPowerOfTwo _)

theorem anyFreeLoop_eq (b : AtomicBitmap) {l : List Nat} (h : ∀ i ∈ l, i < b.words.length) :
    anyFreeLoop b l = some (l.any fun i => b.load i ≠ 0#64) := by
  induction l with
  | nil => rfl
  | cons i l ih =>
      have hi : i < b.words.length := h i List.mem_cons_self
      have hl := ih fun j hj => h j (List.mem_cons_of_mem i hj)
      by_cases hz : b.load i = 0#64
      · simp [anyFreeLoop, hi, hz, hl]
      · simp [anyFreeLoop, hi, hz]

theorem anyFreeChecked_eq (b : AtomicBitmap) : anyFreeChecked b = some b.anyFree :=
  anyFreeLoop_eq b fun _ hi => (List.mem_range.mp hi).trans_le (actualWords_le b)

theorem freeCountLoop_eq (b : AtomicBitmap) {l : List Nat} (h : ∀ i ∈ l, i < b.words.length) (total : Nat) :
    freeCountLoop b l total = some (total + (l.map fun i => (b.load i).cpop.toNat).sum) := by
  induction l generalizing total with
  | nil => rfl
  | cons i l ih =>
      have hi : i < b.words.length := h i List.mem_cons_self
      rw [freeCountLoop, if_pos hi, ih (fun j hj => h j (List.mem_cons_of_mem i hj)), List.map_cons, List.sum_cons,
        Nat.add_assoc]

theorem freeCountChecked_eq (b : AtomicBitmap) : freeCountChecked b = some b.freeCount := by
  have h := freeCountLoop_eq b (l := List.range b.actualWords)
    (fun _ hi => (List.mem_range.mp hi).trans_le (actualWords_le b)) 0
  rw [Nat.zero_add] at h
  exact h

theorem cpop_eq_count {w : Nat} (x : BitVec w) : x.cpop.toNat = Nat.count (fun j => x.getLsbD j = true) w := by
  have h (n : Nat) : x.cpopNatRec n 0 = Nat.count (fun j => x.getLsbD j = true) n := by
    induction n with
    | zero => simp
    | succ n ih =>
        rw [BitVec.cpopNatRec_succ, BitVec.cpopNatRec_eq, ih, Nat.count_succ, Nat.zero_add]
        cases x.getLsbD n <;> rfl
  rw [BitVec.toNat_cpop, h]

theorem sum_cpop_eq_count (b : AtomicBitmap) (n : Nat) :
    ((List.range n).map fun i => (b.load i).cpop.toNat).sum =
      Nat.count (fun slot => b.bit slot = true) (n * bitsPerWord) := by
  induction n with
  | zero => simp
  | succ n ih =>
      have hword : (b.load n).cpop.toNat = Nat.count (fun k => b.bit (n * bitsPerWord + k) = true) bitsPerWord := by
        rw [cpop_eq_count, Nat.count_eq_card_filter_range, Nat.count_eq_card_filter_range]
        refine congrArg Finset.card (Finset.filter_congr fun k hk => ?_)
        rw [bit_word b (Finset.mem_range.mp hk)]
      rw [List.range_succ, List.map_append, List.sum_append, ih, Nat.succ_mul, Nat.count_add, List.map_singleton,
        List.sum_singleton, hword]

theorem freeCount_eq_card {b : AtomicBitmap} (hb : b.PaddingClear) : b.freeCount = (freeSlots b).card := by
  rw [freeCount, sum_cpop_eq_count, Nat.count_eq_card_filter_range]
  congr 1
  ext slot
  rw [Finset.mem_filter, mem_freeSlots hb, Finset.mem_range]
  refine ⟨And.right, fun h => ⟨?_, h⟩⟩
  have := hb slot h
  simp only [actualWords, divCeil, bitsPerWord]
  omega

theorem anyFree_eq_nonempty {b : AtomicBitmap} (hb : b.PaddingClear) :
    b.anyFree = decide (freeSlots b).Nonempty := by
  rw [Bool.eq_iff_iff, anyFree_iff b hb, decide_eq_true_iff]
  exact exists_congr fun slot => (mem_freeSlots hb).symm

theorem isFree_eq_mem {b : AtomicBitmap} (hb : b.PaddingClear) (slot : Nat) :
    b.isFree slot = decide (slot ∈ freeSlots b) := by
  rw [Bool.eq_iff_iff, isFree_eq_bit, decide_eq_true_iff, mem_freeSlots hb]

inductive Op where
  | tryAlloc
  | free (slot : Nat)
  | tryClaimExact (slot : Nat)
  | isFree (slot : Nat)
  | anyFree
  | freeCount
deriving DecidableEq

inductive Reply where
  | slot (s : Option Nat)
  | done
  | flag (b : Bool)
  | count (n : Nat)
deriving DecidableEq

inductive SetStep (n : Nat) : Finset Nat → Op → Reply → Finset Nat → Prop
  | allocNone : SetStep n ∅ .tryAlloc (.slot none) ∅
  | allocSome {F : Finset Nat} {s : Nat} (h : s ∈ F) : SetStep n F .tryAlloc (.slot (some s)) (F.erase s)
  | free {F : Finset Nat} {s : Nat} (hlt : s < n) (h : s ∉ F) : SetStep n F (.free s) .done (insert s F)
  | tryClaimExact (F : Finset Nat) (s : Nat) : SetStep n F (.tryClaimExact s) (.flag (s ∈ F)) (F.erase s)
  | isFree (F : Finset Nat) (s : Nat) : SetStep n F (.isFree s) (.flag (s ∈ F)) F
  | anyFree (F : Finset Nat) : SetStep n F .anyFree (.flag F.Nonempty) F
  | freeCount (F : Finset Nat) : SetStep n F .freeCount (.count F.card) F

inductive SetRun (n : Nat) : Finset Nat → List Op → List Reply → Finset Nat → Prop
  | nil (F : Finset Nat) : SetRun n F [] [] F
  | cons {F G H : Finset Nat} {op : Op} {r : Reply} {ops : List Op} {rs : List Reply}
      (h : SetStep n F op r G) (hs : SetRun n G ops rs H) : SetRun n F (op :: ops) (r :: rs) H

/-- One call, none when it panics on a word index. -/
def exec (b : AtomicBitmap) : Op → Option (Reply × AtomicBitmap)
  | .tryAlloc => (tryAllocChecked b).map fun r => (.slot r.1, r.2)
  | .free slot => (freeChecked b slot).map fun c => (.done, c)
  | .tryClaimExact slot => (tryClaimExactChecked b slot).map fun r => (.flag r.1, r.2)
  | .isFree slot => (isFreeChecked b slot).map fun r => (.flag r, b)
  | .anyFree => (anyFreeChecked b).map fun r => (.flag r, b)
  | .freeCount => (freeCountChecked b).map fun r => (.count r, b)

def execAll : AtomicBitmap → List Op → Option (List Reply × AtomicBitmap)
  | b, [] => some ([], b)
  | b, op :: ops => (exec b op).bind fun r => (execAll r.2 ops).map fun q => (r.1 :: q.1, q.2)

/-- The calls the bitmap is specified for: a slot argument is below the slot
count, and only an allocated slot is freed. -/
def Legal (b : AtomicBitmap) : Op → Prop
  | .free slot => slot < b.slotCount ∧ slot ∉ freeSlots b
  | .tryClaimExact slot => slot < b.slotCount
  | .isFree slot => slot < b.slotCount
  | _ => True

def LegalRun : AtomicBitmap → List Op → Prop
  | _, [] => True
  | b, op :: ops => Legal b op ∧ ∀ r c, exec b op = some (r, c) → LegalRun c ops

instance decidableLegal (b : AtomicBitmap) (op : Op) : Decidable (Legal b op) := by
  cases op <;> unfold Legal <;> infer_instance

instance decidableLegalRun : (b : AtomicBitmap) → (ops : List Op) → Decidable (LegalRun b ops)
  | _, [] => isTrue trivial
  | b, op :: ops =>
      match h : exec b op with
      | none => decidable_of_iff (Legal b op) ⟨fun ho => ⟨ho, fun r c hs => by simp [h] at hs⟩, And.left⟩
      | some (r, c) =>
          have := decidableLegalRun c ops
          decidable_of_iff (Legal b op ∧ LegalRun c ops)
            (and_congr_right fun _ => ⟨fun hm r' c' hs => by cases h.symm.trans hs; exact hm, fun hm => hm r c h⟩)

structure Kept (b c : AtomicBitmap) : Prop where
  shape : SameShape b c
  padding : c.PaddingClear
  asserts : c.asserts = b.asserts

theorem tryAlloc_step (n : Nat) {b : AtomicBitmap} (hb : b.PaddingClear) :
    SetStep n (freeSlots b) .tryAlloc (.slot b.tryAlloc.1) (freeSlots b.tryAlloc.2) := by
  have hc := tryAlloc_claimed b
  cases hr : b.tryAlloc.1 with
  | none =>
      have hempty : freeSlots b = ∅ := by
        refine Finset.eq_empty_of_forall_notMem fun s hs => ?_
        rw [mem_freeSlots hb, tryAlloc_none hb hr s] at hs
        exact Bool.false_ne_true hs
      rw [freeSlots_congr hc.shape (hc.none_spec hr), hempty]
      exact .allocNone
  | some s =>
      obtain ⟨hset, hbit⟩ := hc.some_spec s hr
      rw [freeSlots_erase hc.shape hbit]
      exact .allocSome ((mem_freeSlots hb).mpr hset)

/-- Every legal call returns, and it is a step of the set machine. -/
theorem exec_refines {b : AtomicBitmap} (hb : b.PaddingClear) {op : Op} (h : Legal b op) :
    ∃ r c, exec b op = some (r, c) ∧ SetStep b.slotCount (freeSlots b) op r (freeSlots c) ∧ Kept b c := by
  cases op with
  | tryAlloc =>
      have hc := tryAlloc_claimed b
      exact ⟨_, _, by rw [exec, tryAllocChecked_eq]; rfl, tryAlloc_step _ hb, hc.shape, hc.paddingClear hb, hc.asserts⟩
  | free slot =>
      obtain ⟨hlt, hslot⟩ := h
      have hclear : b.bit slot = false := by rwa [mem_freeSlots hb, Bool.not_eq_true] at hslot
      have hbit := b.free_bit hlt
      have hpadding := update_paddingClear hb (b.free_shape slot) (fun _ => hlt) hbit
      refine ⟨.done, b.free slot, ?_, ?_, b.free_shape slot, hpadding,
        b.free_asserts hlt hclear⟩
      · rw [exec, freeChecked, if_pos (slot_word_lt b hlt)]
        rfl
      · rw [freeSlots_insert (b.free_shape slot) hlt hbit]
        exact .free hlt hslot
  | tryClaimExact slot =>
      have hbit := b.tryClaimExact_bit h
      have hshape := b.tryClaimExact_shape slot
      refine ⟨.flag (b.tryClaimExact slot).1, (b.tryClaimExact slot).2, ?_, ?_, hshape,
        update_paddingClear hb hshape (by simp) hbit, b.tryClaimExact_asserts h⟩
      · rw [exec, tryClaimExactChecked, if_pos (slot_word_lt b h)]
        rfl
      · rw [freeSlots_erase hshape hbit, tryClaimExact_fst, ← isFree_eq_bit, isFree_eq_mem hb]
        exact .tryClaimExact _ slot
  | isFree slot =>
      refine ⟨.flag (b.isFree slot), b, ?_, ?_, .refl b, hb, rfl⟩
      · rw [exec, isFreeChecked, if_pos (slot_word_lt b h)]
        rfl
      · rw [isFree_eq_mem hb]
        exact .isFree _ slot
  | anyFree =>
      refine ⟨.flag b.anyFree, b, by rw [exec, anyFreeChecked_eq]; rfl, ?_, .refl b, hb, rfl⟩
      rw [anyFree_eq_nonempty hb]
      exact .anyFree _
  | freeCount =>
      refine ⟨.count b.freeCount, b, by rw [exec, freeCountChecked_eq]; rfl, ?_, .refl b, hb, rfl⟩
      rw [freeCount_eq_card hb]
      exact .freeCount _

theorem execAll_refines {b : AtomicBitmap} (hb : b.PaddingClear) {ops : List Op} (h : LegalRun b ops) :
    ∃ rs c, execAll b ops = some (rs, c) ∧ SetRun b.slotCount (freeSlots b) ops rs (freeSlots c) ∧ Kept b c := by
  induction ops generalizing b with
  | nil => exact ⟨[], b, rfl, .nil _, .refl b, hb, rfl⟩
  | cons op ops ih =>
      obtain ⟨r, c, he, hstep, hshape, hpad, hassert⟩ := exec_refines hb h.1
      obtain ⟨rs, d, hes, hrun, hshape', hpad', hassert'⟩ := ih hpad (h.2 r c he)
      rw [hshape.slotCount] at hrun
      refine ⟨r :: rs, d, ?_, .cons hstep hrun, hshape.trans hshape', hpad', hassert'.trans hassert⟩
      rw [execAll, he, Option.bind_some, hes, Option.map_some]

theorem legalRun_tryAlloc (b : AtomicBitmap) (n : Nat) : LegalRun b (List.replicate n .tryAlloc) := by
  induction n generalizing b with
  | zero => trivial
  | succ n ih => exact ⟨trivial, fun _ c _ => ih c⟩

/-- As many allocations as there are free slots hand out each of them once. -/
theorem drain_replies {n m : Nat} {F G : Finset Nat} {rs : List Reply} (hcard : F.card = m)
    (h : SetRun n F (List.replicate m .tryAlloc) rs G) :
    ∃ l : List Nat, rs = l.map (fun s => .slot (some s)) ∧ l.Nodup ∧ l.toFinset = F ∧ G = ∅ := by
  induction m generalizing F rs with
  | zero =>
      cases h
      have hF := Finset.card_eq_zero.mp hcard
      exact ⟨[], rfl, List.nodup_nil, hF.symm, hF⟩
  | succ m ih =>
      cases h with
      | cons hstep hrun =>
          cases hstep with
          | allocNone => simp at hcard
          | @allocSome _ s hs =>
              have hcard' : (F.erase s).card = m := by rw [Finset.card_erase_of_mem hs, hcard, Nat.add_sub_cancel]
              obtain ⟨l, hl, hnodup, hset, hG⟩ := ih hcard' hrun
              have hnot : s ∉ l := by
                rw [← List.mem_toFinset, hset]
                exact Finset.notMem_erase s F
              refine ⟨s :: l, by rw [hl, List.map_cons], List.nodup_cons.mpr ⟨hnot, hnodup⟩, ?_, hG⟩
              rw [List.toFinset_cons, hset, Finset.insert_erase hs]

def start (slotCount : Nat) (initiallyFree : Bool) (cursor : Word) : AtomicBitmap :=
  { (if initiallyFree then new slotCount else newEmpty slotCount) with cursor := cursor }

def startSlots (slotCount : Nat) (initiallyFree : Bool) : Finset Nat :=
  if initiallyFree then Finset.range slotCount else ∅

theorem start_slotCount (slotCount : Nat) (initiallyFree : Bool) (cursor : Word) :
    (start slotCount initiallyFree cursor).slotCount = slotCount := by
  cases initiallyFree <;> rfl

theorem start_bit (slotCount : Nat) (initiallyFree : Bool) (cursor : Word) (slot : Nat) :
    (start slotCount initiallyFree cursor).bit slot = (initiallyFree && decide (slot < slotCount)) := by
  cases initiallyFree with
  | false => exact newEmpty_bit slotCount slot
  | true => exact new_bit slotCount slot

theorem start_paddingClear (slotCount : Nat) (initiallyFree : Bool) (cursor : Word) :
    (start slotCount initiallyFree cursor).PaddingClear := by
  intro slot h
  rw [start_bit, Bool.and_eq_true, decide_eq_true_iff] at h
  rw [start_slotCount]
  exact h.2

theorem start_asserts (slotCount : Nat) (initiallyFree : Bool) (cursor : Word) :
    (start slotCount initiallyFree cursor).asserts = true := by
  cases initiallyFree <;> rfl

theorem start_freeSlots (slotCount : Nat) (initiallyFree : Bool) (cursor : Word) :
    freeSlots (start slotCount initiallyFree cursor) = startSlots slotCount initiallyFree := by
  ext slot
  rw [mem_freeSlots (start_paddingClear _ _ _), start_bit]
  cases initiallyFree <;> simp [startSlots]

/-- Every sequence of calls on a new bitmap returns without a word access out
of range, its replies are those of the set machine on the free slots, and no
debug assertion fails. Draining a full bitmap hands out every slot once. -/
theorem bitmap_refines_finite_set (slotCount : Nat) (initiallyFree : Bool) (cursor : Word) (ops : List Op)
    (h : LegalRun (start slotCount initiallyFree cursor) ops) :
    (∃ rs b, execAll (start slotCount initiallyFree cursor) ops = some (rs, b) ∧
      SetRun slotCount (startSlots slotCount initiallyFree) ops rs (freeSlots b) ∧
      b.PaddingClear ∧ b.asserts = true) ∧
    ∃ (l : List Nat) (b : AtomicBitmap), execAll (start slotCount true cursor) (List.replicate slotCount .tryAlloc) =
        some (l.map (fun s => .slot (some s)), b) ∧
      l.Perm (List.range slotCount) ∧ freeSlots b = ∅ := by
  constructor
  · obtain ⟨rs, b, he, hrun, hkept⟩ := execAll_refines (start_paddingClear slotCount initiallyFree cursor) h
    rw [start_slotCount, start_freeSlots] at hrun
    exact ⟨rs, b, he, hrun, hkept.padding, hkept.asserts.trans (start_asserts _ _ _)⟩
  · obtain ⟨rs, b, he, hrun, -⟩ := execAll_refines (start_paddingClear slotCount true cursor)
      (legalRun_tryAlloc _ slotCount)
    rw [start_slotCount, start_freeSlots] at hrun
    obtain ⟨l, hl, hnodup, hset, hempty⟩ := drain_replies (Finset.card_range slotCount) hrun
    refine ⟨l, b, hl ▸ he, ?_, hempty⟩
    rw [List.perm_ext_iff_of_nodup hnodup List.nodup_range]
    intro s
    rw [← List.mem_toFinset, hset, Finset.mem_range, List.mem_range]

def wrapOps : List Op := [.tryAlloc, .tryAlloc, .tryClaimExact 69, .free 64, .freeCount, .anyFree, .isFree 3]

/-- Seventy slots in two words, with the cursor about to wrap. -/
theorem bitmap_refines_finite_set_wrap :
    LegalRun (start 70 true (BitVec.allOnes 64)) wrapOps ∧
    execAll (start 70 true (BitVec.allOnes 64)) wrapOps =
      some ([.slot (some 64), .slot (some 0), .flag true, .done, .count 68, .flag true, .flag true],
        ((execAll (start 70 true (BitVec.allOnes 64)) wrapOps).getD ([], new 0)).2) ∧
    ∃ (l : List Nat) (b : AtomicBitmap), execAll (start 70 true (BitVec.allOnes 64)) (List.replicate 70 .tryAlloc) =
        some (l.map (fun s => .slot (some s)), b) ∧
      l.Perm (List.range 70) ∧ freeSlots b = ∅ := by
  have hlegal : LegalRun (start 70 true (BitVec.allOnes 64)) wrapOps := by decide +kernel
  exact ⟨hlegal, by decide +kernel, (bitmap_refines_finite_set 70 true (BitVec.allOnes 64) wrapOps hlegal).2⟩

end ArenaAlligator.BitmapRefinement
