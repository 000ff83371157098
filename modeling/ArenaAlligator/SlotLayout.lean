import ArenaAlligator.FixedArena
import ArenaAlligator.Geometry

namespace ArenaAlligator

open Usize BuddyHint

/-- Both masks of the builders clear the bits below the alignment. -/
def alignDown (val align : Nat) : Nat := (BitVec.ofNat usizeBits val &&& ~~~BitVec.ofNat usizeBits (align - 1)).toNat

def alignUp (value alignment : Nat) : Option Nat :=
  (checkedAdd value (alignment - 1)).map fun rounded => alignDown rounded alignment

inductive SlotSpec
  | count (n : NonZeroUsize)
  | size (n : NonZeroUsize)

def SlotSpec.resolve (blockLen alignment : Nat) : SlotSpec → Except BuildError (Nat × Nat)
  | count n =>
      let rawSize := blockLen / n.get
      let alignedSize := alignDown rawSize alignment
      if alignedSize = 0 then .error .zeroUsableSlots else .ok (n.get, alignedSize)
  | size n =>
      let alignedSize := alignDown n.get alignment
      if alignedSize = 0 then .error .zeroUsableSlots
      else if alignedSize > blockLen then .error .slotSizeExceedsBacking
      else
        let count := blockLen / alignedSize
        if count = 0 then .error .zeroUsableSlots else .ok (count, alignedSize)

/-- The configuration without the page size, which is an argument of the
builders. The default alignment is 1. -/
structure BuildConfig where
  alignment : Nat
  autoSpill : Bool
  initPolicy : InitPolicy
  alignment_le : alignment ≤ usizeMax

def BuildConfig.validateAlignment (config : BuildConfig) : Except BuildError Unit :=
  if isPowerOfTwo config.alignment then .ok () else .error .invalidAlignment

/-- Layout::from_size_align: the size, rounded up to the alignment, must not
pass isize::MAX. -/
def layoutFromSizeAlign (size align : Nat) : Option (Nat × Nat) :=
  if isPowerOfTwo align = true ∧ size ≤ isizeMax + 1 - align then some (size, align) else none

structure FixedArenaBuilder where
  slotCount : NonZeroUsize
  slotCapacity : NonZeroUsize
  config : BuildConfig

namespace FixedArenaBuilder

def withSlotCapacity (slotCount slotCapacity : NonZeroUsize) (config : BuildConfig) : FixedArenaBuilder where
  slotCount := slotCount
  slotCapacity := slotCapacity
  config := config

theorem perSlot_pos (slotCount arenaCapacity : NonZeroUsize) : 0 < divCeil arenaCapacity.get slotCount.get := by
  have := arenaCapacity.pos
  exact Nat.div_pos (by omega) slotCount.pos

theorem perSlot_le (slotCount arenaCapacity : NonZeroUsize) :
    divCeil arenaCapacity.get slotCount.get ≤ usizeMax := by
  refine le_trans ?_ arenaCapacity.le_max
  have hpos := arenaCapacity.pos
  refine Nat.le_of_lt_succ ((Nat.div_lt_iff_lt_mul slotCount.pos).mpr ?_)
  have := Nat.mul_le_mul_left arenaCapacity.get slotCount.pos
  rw [Nat.succ_mul]
  omega

def withArenaCapacity (slotCount arenaCapacity : NonZeroUsize) (config : BuildConfig) : FixedArenaBuilder where
  slotCount := slotCount
  slotCapacity :=
    { get := divCeil arenaCapacity.get slotCount.get
      pos := perSlot_pos slotCount arenaCapacity
      le_max := perSlot_le slotCount arenaCapacity }
  config := config

def buildInner (b : FixedArenaBuilder) (memory : Memory) : Except BuildError (ArenaInner × Nat) := do
  b.config.validateAlignment
  let alignedCapacity ← okOr (alignUp b.slotCapacity.get b.config.alignment) .sizeOverflow
  let totalSize ← okOr (checkedMul b.slotCount.get alignedCapacity) .sizeOverflow
  let layout ← okOr (layoutFromSizeAlign totalSize b.config.alignment) .sizeOverflow
  return (.build b.slotCount.get alignedCapacity b.config.autoSpill b.config.initPolicy memory, layout.1)

end FixedArenaBuilder

/-- A builder over the region of len bytes at ptr; a null pointer is 0. -/
structure RawBackedFixedArenaBuilder where
  ptr : Nat
  len : Nat
  spec : SlotSpec
  config : BuildConfig
  len_le : len ≤ usizeMax

def RawBackedFixedArenaBuilder.build (b : RawBackedFixedArenaBuilder) (memory : Memory) :
    Except BuildError (ArenaInner × Nat) := do
  if b.ptr = 0 then throw .nullPointer
  b.config.validateAlignment
  let r ← b.spec.resolve b.len b.config.alignment
  return (.build r.1 r.2 false b.config.initPolicy memory, b.len)

theorem alignDown_eq {v : Nat} (k : Nat) (hv : v ≤ usizeMax) : alignDown v (2 ^ k) = v / 2 ^ k * 2 ^ k := by
  have hmask : BitVec.ofNat usizeBits v &&& ~~~BitVec.ofNat usizeBits (2 ^ k - 1) =
      BitVec.ofNat usizeBits (v / 2 ^ k * 2 ^ k) := by
    apply BitVec.eq_of_getLsbD_eq
    intro i hi
    have hmul : (v / 2 ^ k * 2 ^ k).testBit i = (decide (k ≤ i) && v.testBit i) := by
      rw [← Nat.shiftRight_eq_div_pow, ← Nat.shiftLeft_eq, Nat.testBit_shiftLeft, Nat.testBit_shiftRight]
      by_cases h : k ≤ i
      · rw [Nat.add_sub_cancel' h]
      · simp [h]
    simp only [BitVec.getLsbD_and, BitVec.getLsbD_not, BitVec.getLsbD_ofNat, Nat.testBit_two_pow_sub_one, hmul, hi,
      decide_true, Bool.true_and]
    by_cases h : k ≤ i
    · simp [h]
    · simp [h, Nat.lt_of_not_le h]
  rw [alignDown, hmask, BitVec.toNat_ofNat, Nat.mod_eq_of_lt]
  exact (Nat.div_mul_le_self v (2 ^ k)).trans_lt (Nat.lt_of_le_pred (by decide) hv)

theorem isGreatest_alignDown {v : Nat} (k : Nat) (hv : v ≤ usizeMax) :
    IsGreatest {c | 2 ^ k ∣ c ∧ c ≤ v} (alignDown v (2 ^ k)) := by
  rw [alignDown_eq k hv]
  refine ⟨⟨Nat.dvd_mul_left _ _, Nat.div_mul_le_self _ _⟩, ?_⟩
  rintro c ⟨hdvd, hle⟩
  rw [← Nat.div_mul_cancel hdvd]
  exact Nat.mul_le_mul_right _ (Nat.div_le_div_right hle)

theorem add_le_of_dvd {x k m : Nat} (hdvd : 2 ^ k ∣ x) (hkm : k ≤ m) (hlt : x < 2 ^ m) : x + 2 ^ k ≤ 2 ^ m := by
  obtain ⟨q, rfl⟩ := hdvd
  rw [← Nat.add_sub_cancel' hkm, pow_add] at hlt ⊢
  have hq : q + 1 ≤ 2 ^ (m - k) := Nat.lt_of_mul_lt_mul_left hlt
  calc 2 ^ k * q + 2 ^ k = 2 ^ k * (q + 1) := (Nat.mul_succ _ _).symm
    _ ≤ 2 ^ k * 2 ^ (m - k) := Nat.mul_le_mul_left _ hq

theorem alignUp_some {v k u : Nat} (h : alignUp v (2 ^ k) = some u) : IsLeast {c | 2 ^ k ∣ c ∧ v ≤ c} u := by
  obtain ⟨rounded, hadd, rfl⟩ := Option.map_eq_some_iff.mp h
  obtain ⟨hle, rfl⟩ := checked_eq_some.mp hadd
  have hpos : 0 < 2 ^ k := Nat.two_pow_pos k
  rw [alignDown_eq k hle]
  refine ⟨⟨Nat.dvd_mul_left _ _, ?_⟩, ?_⟩
  · have hmod := Nat.mod_lt (v + (2 ^ k - 1)) hpos
    have hdiv := Nat.div_add_mod' (v + (2 ^ k - 1)) (2 ^ k)
    show v ≤ _
    omega
  · rintro c ⟨⟨q, rfl⟩, hc⟩
    rw [Nat.mul_comm (2 ^ k) q]
    refine Nat.mul_le_mul_right _ (Nat.le_of_lt_succ ((Nat.div_lt_iff_lt_mul hpos).mpr ?_))
    rw [Nat.succ_mul, Nat.mul_comm q]
    omega

/-- The addition only overflows when no multiple fits the word. -/
theorem alignUp_none {v k : Nat} (hk : k ≤ usizeBits) (h : alignUp v (2 ^ k) = none) {c : Nat} (hdvd : 2 ^ k ∣ c)
    (hc : v ≤ c) : usizeMax < c := by
  by_contra hle
  have hroom := add_le_of_dvd hdvd hk (Nat.lt_of_le_pred (by decide) (not_lt.mp hle))
  have hfits : v + (2 ^ k - 1) ≤ usizeMax := by
    have := Nat.two_pow_pos k
    rw [usizeMax]
    omega
  rw [alignUp, checkedAdd, checked_of_le hfits] at h
  cases h

structure SoundLayout (a : ArenaInner) (alignment len : Nat) : Prop where
  count_pos : 1 ≤ a.slotCount
  capacity_pos : 1 ≤ a.slotCapacity
  dvd : alignment ∣ a.slotCapacity
  bytes_le : a.slotCount * a.slotCapacity ≤ len
  len_le : len ≤ usizeMax
  inBounds : ∀ i < a.slotCount, a.slotOffset i + a.slotCapacity ≤ len
  aligned : ∀ i, alignment ∣ a.slotOffset i
  apart : ∀ i j, i < j → a.slotOffset i + a.slotCapacity ≤ a.slotOffset j

theorem slot_end_le (c : Nat) {i j : Nat} (h : i < j) : i * c + c ≤ j * c := by
  rw [← Nat.succ_mul]
  exact Nat.mul_le_mul_right c h

section

variable {n c alignment len : Nat} (autoSpill : Bool) (initPolicy : InitPolicy) (memory : Memory)

theorem soundLayout_build (hn : 1 ≤ n) (hc : 1 ≤ c) (hdvd : alignment ∣ c) (hle : n * c ≤ len)
    (hlen : len ≤ usizeMax) : SoundLayout (.build n c autoSpill initPolicy memory) alignment len where
  count_pos := hn
  capacity_pos := hc
  dvd := hdvd
  bytes_le := hle
  len_le := hlen
  inBounds _ hi := (slot_end_le c hi).trans hle
  aligned i := hdvd.mul_left i
  apart _ _ hij := slot_end_le c hij

end

theorem validateAlignment_error {config : BuildConfig} (h : config.alignment ∉ PowerOfTwo) :
    config.validateAlignment = .error .invalidAlignment := by
  refine if_neg fun hpow => h ?_
  obtain ⟨k, hk⟩ := isPowerOfTwo_iff.mp hpow
  exact ⟨k, hk.symm⟩

theorem validateAlignment_ok {config : BuildConfig} {k : Nat} (h : config.alignment = 2 ^ k) :
    config.validateAlignment = .ok () :=
  if_pos (isPowerOfTwo_iff.mpr ⟨k, h⟩)

theorem alignment_lt {config : BuildConfig} {k : Nat} (h : config.alignment = 2 ^ k) : k < usizeBits := by
  have hlt : 2 ^ k < 2 ^ usizeBits := Nat.lt_of_le_pred (by decide) (h ▸ config.alignment_le)
  exact (Nat.pow_lt_pow_iff_right (by decide)).mp hlt

theorem layoutFromSizeAlign_of_dvd {size k : Nat} (hk : k < usizeBits) (hdvd : 2 ^ k ∣ size) (h : size ≤ isizeMax) :
    layoutFromSizeAlign size (2 ^ k) = some (size, 2 ^ k) := by
  refine if_pos ⟨isPowerOfTwo_iff.mpr ⟨k, rfl⟩, ?_⟩
  have hroom := add_le_of_dvd hdvd (Nat.le_pred_of_lt hk) (Nat.lt_of_le_pred (by decide) h)
  have htop : isizeMax + 1 = 2 ^ (usizeBits - 1) := rfl
  rw [Nat.pred_eq_sub_one] at hroom
  omega

theorem layoutFromSizeAlign_of_lt {size align : Nat} (h : isizeMax < size) : layoutFromSizeAlign size align = none := by
  refine if_neg fun hok => ?_
  have hpos := Nat.pos_of_ne_zero fun hzero : align = 0 => by
    obtain ⟨k, hk⟩ := isPowerOfTwo_iff.mp hok.1
    exact (Nat.two_pow_pos k).ne' (hk.symm.trans hzero)
  omega

theorem buildInner_cases (b : FixedArenaBuilder) (memory : Memory) {k : Nat} (h : b.config.alignment = 2 ^ k) :
    (∃ c, IsLeast {c | 2 ^ k ∣ c ∧ b.slotCapacity.get ≤ c} c ∧ b.slotCount.get * c ≤ isizeMax ∧
      b.buildInner memory = .ok (.build b.slotCount.get c b.config.autoSpill b.config.initPolicy memory,
        b.slotCount.get * c)) ∨
    ((∀ c, 2 ^ k ∣ c → b.slotCapacity.get ≤ c → isizeMax < b.slotCount.get * c) ∧
      b.buildInner memory = .error .sizeOverflow) := by
  have hk := alignment_lt h
  have hvalid := validateAlignment_ok h
  have hwide : isizeMax ≤ usizeMax := by decide
  have hbuild : b.buildInner memory = (do
      let alignedCapacity ← okOr (alignUp b.slotCapacity.get (2 ^ k)) .sizeOverflow
      let totalSize ← okOr (checkedMul b.slotCount.get alignedCapacity) .sizeOverflow
      let layout ← okOr (layoutFromSizeAlign totalSize (2 ^ k)) .sizeOverflow
      return (.build b.slotCount.get alignedCapacity b.config.autoSpill b.config.initPolicy memory, layout.1)) := by
    rw [FixedArenaBuilder.buildInner, hvalid, h]
    rfl
  rw [hbuild]
  cases hup : alignUp b.slotCapacity.get (2 ^ k) with
  | none =>
      refine .inr ⟨fun c hdvd hc => ?_, rfl⟩
      have hlarge := alignUp_none hk.le hup hdvd hc
      exact (hwide.trans_lt hlarge).trans_le (Nat.le_mul_of_pos_left c b.slotCount.pos)
  | some u =>
      have hleast := alignUp_some hup
      by_cases hfits : b.slotCount.get * u ≤ isizeMax
      · refine .inl ⟨u, hleast, hfits, ?_⟩
        have hmul : checkedMul b.slotCount.get u = some (b.slotCount.get * u) := checked_of_le (hfits.trans hwide)
        have hlayout := layoutFromSizeAlign_of_dvd hk (hleast.1.1.mul_left b.slotCount.get) hfits
        simp only [okOr, bind, Except.bind, hmul, hlayout, pure, Except.pure]
      · refine .inr ⟨fun c hdvd hc => ?_, ?_⟩
        · exact (not_le.mp hfits).trans_le (Nat.mul_le_mul_left _ (hleast.2 ⟨hdvd, hc⟩))
        · cases hmul : checkedMul b.slotCount.get u with
          | none => simp only [okOr, bind, Except.bind, hmul]
          | some total =>
              obtain ⟨_, rfl⟩ := checked_eq_some.mp hmul
              have hlayout : layoutFromSizeAlign (b.slotCount.get * u) (2 ^ k) = none :=
                layoutFromSizeAlign_of_lt (not_le.mp hfits)
              simp only [okOr, bind, Except.bind, hmul, hlayout]

/-- What a builder over fresh memory answers: the least aligned capacity that
is enough, or an error when no such capacity fits the address space. -/
structure LeastLayout (r : Except BuildError (ArenaInner × Nat)) (n alignment : Nat) (enough : Nat → Prop) : Prop where
  sound : ∀ a len, r = .ok (a, len) →
    SoundLayout a alignment len ∧ a.slotCount = n ∧ IsLeast {c | alignment ∣ c ∧ enough c} a.slotCapacity
  error_iff : (∃ e, r = .error e) ↔ ¬∃ c, alignment ∣ c ∧ enough c ∧ n * c ≤ isizeMax

theorem buildInner_least (b : FixedArenaBuilder) (memory : Memory) (h : b.config.alignment ∈ PowerOfTwo) :
    LeastLayout (b.buildInner memory) b.slotCount.get b.config.alignment (b.slotCapacity.get ≤ ·) := by
  obtain ⟨k, hk⟩ := h
  rw [← hk]
  rcases buildInner_cases b memory hk.symm with ⟨c, hleast, hfits, hok⟩ | ⟨hlarge, herror⟩
  · rw [hok]
    refine ⟨fun a len heq => ?_, ⟨fun ⟨e, he⟩ => (by cases he),
      fun hno => absurd ⟨c, hleast.1.1, hleast.1.2, hfits⟩ hno⟩⟩
    obtain ⟨rfl, rfl⟩ := Prod.mk.inj (Except.ok.inj heq)
    have hc : 1 ≤ c := b.slotCapacity.pos.trans_le hleast.1.2
    exact ⟨soundLayout_build _ _ _ b.slotCount.pos hc hleast.1.1 (le_refl _) (hfits.trans (by decide)), rfl, hleast⟩
  · rw [herror]
    refine ⟨fun a len heq => (by cases heq), fun _ => ?_, fun _ => ⟨_, rfl⟩⟩
    rintro ⟨c, hdvd, hc, hfits⟩
    exact absurd hfits (not_le.mpr (hlarge c hdvd hc))

theorem divCeil_le_iff {total n c : Nat} (hn : 0 < n) : divCeil total n ≤ c ↔ total ≤ n * c := by
  rw [divCeil, Nat.le_iff_lt_add_one, Nat.div_lt_iff_lt_mul hn, Nat.succ_mul, Nat.mul_comm c]
  omega

theorem resolve_count_cases {len : Nat} (k : Nat) (n : NonZeroUsize) (hlen : len ≤ usizeMax) :
    (∃ c, 0 < c ∧ IsGreatest {c | 2 ^ k ∣ c ∧ n.get * c ≤ len} c ∧
      (SlotSpec.count n).resolve len (2 ^ k) = .ok (n.get, c)) ∨
    ((¬∃ c, 0 < c ∧ 2 ^ k ∣ c ∧ n.get * c ≤ len) ∧
      (SlotSpec.count n).resolve len (2 ^ k) = .error .zeroUsableSlots) := by
  have hgreatest := isGreatest_alignDown k ((Nat.div_le_self len n.get).trans hlen)
  have hset : {c | 2 ^ k ∣ c ∧ c ≤ len / n.get} = {c | 2 ^ k ∣ c ∧ n.get * c ≤ len} := by
    ext c
    rw [Set.mem_ofPred_eq, Set.mem_ofPred_eq, Nat.le_div_iff_mul_le n.pos, Nat.mul_comm c]
  rw [hset] at hgreatest
  by_cases hzero : alignDown (len / n.get) (2 ^ k) = 0
  · refine .inr ⟨?_, if_pos hzero⟩
    rintro ⟨c, hpos, hdvd, hle⟩
    have := hgreatest.2 ⟨hdvd, hle⟩
    omega
  · exact .inl ⟨_, Nat.pos_of_ne_zero hzero, hgreatest, if_neg hzero⟩

theorem resolve_size_cases {len : Nat} (k : Nat) (s : NonZeroUsize) :
    (∃ n c, 0 < n ∧ 0 < c ∧ IsGreatest {c | 2 ^ k ∣ c ∧ c ≤ s.get} c ∧ IsGreatest {n | n * c ≤ len} n ∧
      (SlotSpec.size s).resolve len (2 ^ k) = .ok (n, c)) ∨
    ((¬∃ n c, 0 < n ∧ 0 < c ∧ IsGreatest {c | 2 ^ k ∣ c ∧ c ≤ s.get} c ∧ n * c ≤ len) ∧
      ∃ e, (SlotSpec.size s).resolve len (2 ^ k) = .error e) := by
  have hgreatest := isGreatest_alignDown k s.le_max
  have hunique {c : Nat} (hc : IsGreatest {c | 2 ^ k ∣ c ∧ c ≤ s.get} c) : c = alignDown s.get (2 ^ k) :=
    hc.unique hgreatest
  simp only [SlotSpec.resolve]
  generalize alignDown s.get (2 ^ k) = c at hgreatest hunique ⊢
  by_cases hzero : c = 0
  · refine .inr ⟨?_, _, if_pos hzero⟩
    rintro ⟨n, c', _, hpos, hc', _⟩
    exact hpos.ne' ((hunique hc').trans hzero)
  have hpos : 0 < c := Nat.pos_of_ne_zero hzero
  rw [if_neg hzero]
  by_cases hlarge : c > len
  · refine .inr ⟨?_, _, if_pos hlarge⟩
    rintro ⟨n, c', hn, _, hc', hle⟩
    rw [hunique hc'] at hle
    exact absurd ((Nat.le_mul_of_pos_left c hn).trans hle) (not_le.mpr hlarge)
  have hcount : 0 < len / c := Nat.div_pos (not_lt.mp hlarge) hpos
  rw [if_neg hlarge, if_neg hcount.ne']
  refine .inl ⟨len / c, c, hcount, hpos, hgreatest, ⟨Nat.div_mul_le_self len c, ?_⟩, rfl⟩
  intro n hn
  exact (Nat.le_div_iff_mul_le hpos).mpr hn

theorem raw_build_eq (b : RawBackedFixedArenaBuilder) (memory : Memory) (hptr : b.ptr ≠ 0) {k : Nat}
    (h : b.config.alignment = 2 ^ k) :
    b.build memory = (b.spec.resolve b.len (2 ^ k)).map fun r =>
      (.build r.1 r.2 false b.config.initPolicy memory, b.len) := by
  rw [RawBackedFixedArenaBuilder.build, if_neg hptr, validateAlignment_ok h, h]
  cases b.spec.resolve b.len (2 ^ k) <;> rfl

/-- What a builder that slices a region into n slots answers: the largest
aligned capacity, or an error when there is none. -/
structure CountLayout (r : Except BuildError (ArenaInner × Nat)) (n alignment len : Nat) : Prop where
  sound : ∀ a l, r = .ok (a, l) → l = len ∧ SoundLayout a alignment len ∧ a.slotCount = n ∧
    IsGreatest {c | alignment ∣ c ∧ n * c ≤ len} a.slotCapacity
  error_iff : (∃ e, r = .error e) ↔ ¬∃ c, 0 < c ∧ alignment ∣ c ∧ n * c ≤ len

/-- What a builder that slices a region into slots of a size answers: as many
slots of the aligned size as fit, or an error when none does. -/
structure SizeLayout (r : Except BuildError (ArenaInner × Nat)) (size alignment len : Nat) : Prop where
  sound : ∀ a l, r = .ok (a, l) → l = len ∧ SoundLayout a alignment len ∧
    IsGreatest {c | alignment ∣ c ∧ c ≤ size} a.slotCapacity ∧ IsGreatest {n | n * a.slotCapacity ≤ len} a.slotCount
  error_iff : (∃ e, r = .error e) ↔
    ¬∃ n c, 0 < n ∧ 0 < c ∧ IsGreatest {c | alignment ∣ c ∧ c ≤ size} c ∧ n * c ≤ len

section

variable (b : RawBackedFixedArenaBuilder) (memory : Memory) (hptr : b.ptr ≠ 0) (h : b.config.alignment ∈ PowerOfTwo)

include hptr h

theorem raw_build_count {n : NonZeroUsize} (hspec : b.spec = .count n) :
    CountLayout (b.build memory) n.get b.config.alignment b.len := by
  obtain ⟨k, hk⟩ := h
  rw [raw_build_eq b memory hptr hk.symm, ← hk, hspec]
  rcases resolve_count_cases k n b.len_le with ⟨c, hpos, hgreatest, hok⟩ | ⟨hnone, herror⟩
  · rw [hok]
    refine ⟨fun a l heq => ?_, fun ⟨e, he⟩ => (by cases he), fun hno => absurd ⟨c, hpos, hgreatest.1⟩ hno⟩
    obtain ⟨rfl, rfl⟩ := Prod.mk.inj (Except.ok.inj heq)
    exact ⟨rfl, soundLayout_build _ _ _ n.pos hpos hgreatest.1.1 hgreatest.1.2 b.len_le, rfl, hgreatest⟩
  · rw [herror]
    exact ⟨fun a l heq => (by cases heq), fun _ => hnone, fun _ => ⟨_, rfl⟩⟩

theorem raw_build_size {s : NonZeroUsize} (hspec : b.spec = .size s) :
    SizeLayout (b.build memory) s.get b.config.alignment b.len := by
  obtain ⟨k, hk⟩ := h
  rw [raw_build_eq b memory hptr hk.symm, ← hk, hspec]
  rcases resolve_size_cases k s with ⟨n, c, hn, hpos, hgreatest, hcount, hok⟩ | ⟨hnone, e, herror⟩
  · rw [hok]
    refine ⟨fun a l heq => ?_, fun ⟨e, he⟩ => (by cases he),
      fun hno => absurd ⟨n, c, hn, hpos, hgreatest, hcount.1⟩ hno⟩
    obtain ⟨rfl, rfl⟩ := Prod.mk.inj (Except.ok.inj heq)
    exact ⟨rfl, soundLayout_build _ _ _ hn hpos hgreatest.1.1 hcount.1 b.len_le, hgreatest, hcount⟩
  · rw [herror]
    exact ⟨fun a l heq => (by cases heq), fun _ => hnone, fun _ => ⟨_, rfl⟩⟩

end

theorem buildInner_invalid {b : FixedArenaBuilder} (memory : Memory) (h : b.config.alignment ∉ PowerOfTwo) :
    b.buildInner memory = .error .invalidAlignment := by
  rw [FixedArenaBuilder.buildInner, validateAlignment_error h]
  rfl

theorem raw_build_null {b : RawBackedFixedArenaBuilder} (memory : Memory) (hptr : b.ptr = 0) :
    b.build memory = .error .nullPointer := by
  rw [RawBackedFixedArenaBuilder.build, if_pos hptr]
  rfl

theorem raw_build_invalid {b : RawBackedFixedArenaBuilder} (memory : Memory) (hptr : b.ptr ≠ 0)
    (h : b.config.alignment ∉ PowerOfTwo) : b.build memory = .error .invalidAlignment := by
  rw [RawBackedFixedArenaBuilder.build, if_neg hptr, validateAlignment_error h]
  rfl

theorem buildInner_layout {b : FixedArenaBuilder} {memory : Memory} {a : ArenaInner} {len : Nat}
    (h : b.buildInner memory = .ok (a, len)) : SoundLayout a b.config.alignment len := by
  by_cases hpow : b.config.alignment ∈ PowerOfTwo
  · exact ((buildInner_least b memory hpow).sound a len h).1
  · rw [buildInner_invalid memory hpow] at h
    cases h

theorem raw_build_layout {b : RawBackedFixedArenaBuilder} {memory : Memory} {a : ArenaInner} {len : Nat}
    (h : b.build memory = .ok (a, len)) : SoundLayout a b.config.alignment len := by
  by_cases hptr : b.ptr = 0
  · rw [raw_build_null memory hptr] at h
    cases h
  by_cases hpow : b.config.alignment ∈ PowerOfTwo
  · cases hspec : b.spec with
    | count n =>
        obtain ⟨rfl, hsound, -⟩ := (raw_build_count b memory hptr hpow hspec).sound a len h
        exact hsound
    | size n =>
        obtain ⟨rfl, hsound, -⟩ := (raw_build_size b memory hptr hpow hspec).sound a len h
        exact hsound
  · rw [raw_build_invalid memory hptr hpow] at h
    cases h

/-- The slots of every builder are in bounds, aligned and disjoint; fresh
memory gets the least capacity that is enough, a given region the largest that
fits. -/
theorem slot_layout_sound (memory : Memory) :
    (∀ slotCount slotCapacity config, config.alignment ∈ PowerOfTwo →
      LeastLayout ((FixedArenaBuilder.withSlotCapacity slotCount slotCapacity config).buildInner memory)
        slotCount.get config.alignment fun c => slotCapacity.get ≤ c) ∧
    (∀ slotCount arenaCapacity config, config.alignment ∈ PowerOfTwo →
      LeastLayout ((FixedArenaBuilder.withArenaCapacity slotCount arenaCapacity config).buildInner memory)
        slotCount.get config.alignment fun c => arenaCapacity.get ≤ slotCount.get * c) ∧
    (∀ b : FixedArenaBuilder, b.config.alignment ∉ PowerOfTwo → b.buildInner memory = .error .invalidAlignment) ∧
    (∀ b : RawBackedFixedArenaBuilder, b.ptr ≠ 0 → b.config.alignment ∈ PowerOfTwo →
      (∀ n, b.spec = .count n → CountLayout (b.build memory) n.get b.config.alignment b.len) ∧
      ∀ s, b.spec = .size s → SizeLayout (b.build memory) s.get b.config.alignment b.len) ∧
    (∀ b : RawBackedFixedArenaBuilder, b.ptr = 0 → b.build memory = .error .nullPointer) ∧
    ∀ b : RawBackedFixedArenaBuilder, b.ptr ≠ 0 → b.config.alignment ∉ PowerOfTwo →
      b.build memory = .error .invalidAlignment := by
  refine ⟨fun slotCount slotCapacity config h => buildInner_least _ memory h,
    fun slotCount arenaCapacity config h => ?_, fun b h => buildInner_invalid memory h,
    fun b hptr h => ⟨fun n => raw_build_count b memory hptr h, fun s => raw_build_size b memory hptr h⟩,
    fun b hptr => raw_build_null memory hptr, fun b hptr h => raw_build_invalid memory hptr h⟩
  have henough : (fun c => divCeil arenaCapacity.get slotCount.get ≤ c) =
      fun c => arenaCapacity.get ≤ slotCount.get * c := by
    funext c
    exact propext (divCeil_le_iff slotCount.pos)
  rw [← henough]
  exact buildInner_least (.withArenaCapacity slotCount arenaCapacity config) memory h

end ArenaAlligator
