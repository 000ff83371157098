import ArenaAlligator.Lifecycle
import ArenaAlligator.SlotLayout

namespace ArenaAlligator

open Usize BuddyHint

inductive PageSize
  | unknown
  | auto
  | size (n : NonZeroUsize)

/-- What sysconf answers for the page size is given. -/
def PageSize.resolve (osPageSize : NonZeroUsize) : PageSize → Option NonZeroUsize
  | unknown => none
  | auto => some osPageSize
  | size n => some n

/-- The loop of prefault_region, with fuel. The offset is a usize and would
wrap. -/
def prefaultLoop (len pageSize : Nat) : Nat → Nat → Memory → Option Memory
  | 0, _, _ => none
  | fuel + 1, offset, m =>
      if offset < len then prefaultLoop len pageSize fuel (fetchAdd offset pageSize) (Function.update m offset 0)
      else some m

def prefaultRegion (fuel : Nat) (m : Memory) (len pageSize : Nat) : Option Memory := prefaultLoop len pageSize fuel 0 m

def prefault (fuel : Nat) (pageSize : Option NonZeroUsize) (len : Nat) (a : ArenaRef) : Option ArenaRef :=
  match pageSize with
  | some ps => (prefaultRegion fuel a.memory len ps.get).map a.setMemory
  | none => some a

structure Unfaulted where
  totalSize : Nat
  pageSize : Option NonZeroUsize
  inner : ArenaRef

def Unfaulted.faultPages (fuel : Nat) (u : Unfaulted) : Option ArenaRef := prefault fuel u.pageSize u.totalSize u.inner

def Unfaulted.intoInner (u : Unfaulted) : ArenaRef := u.inner

/-- What a builder returns, with the length of the region of the arena. It is
none when a loop does not end. -/
abbrev Built := Option (Except BuildError (ArenaRef × Nat))

namespace FixedArenaBuilder

variable (osPageSize : NonZeroUsize) (pageSize : PageSize) (b : FixedArenaBuilder) (memory : Memory)

def buildFixed (fuel : Nat) : Built :=
  match b.buildInner memory with
  | .error e => some (.error e)
  | .ok (a, len) =>
      (prefault fuel (pageSize.resolve osPageSize) (a.slotCount * a.slotCapacity) (.fixed a)).map fun c => .ok (c, len)

def buildFixedUnfaulted : Except BuildError (Unfaulted × Nat) := do
  let (a, len) ← b.buildInner memory
  return (⟨a.slotCount * a.slotCapacity, pageSize.resolve osPageSize, .fixed a⟩, len)

end FixedArenaBuilder

/-- Every geometry that the API gives out is obtained from its constructors. -/
structure BuddyArenaBuilder where
  geometry : BuddyGeometry
  autoSpill : Bool
  initPolicy : InitPolicy
  pageSize : PageSize
  obtained : geometry.Obtained

namespace BuddyArenaBuilder

variable (osPageSize : NonZeroUsize) (b : BuddyArenaBuilder) (memory : Memory)

def buildRaw : Except BuildError (BuddyArenaInner × Nat) := do
  let layout ← okOr (layoutFromSizeAlign b.geometry.totalSize b.geometry.alignment) .sizeOverflow
  return (.build b.geometry b.autoSpill b.initPolicy memory, layout.1)

def buildBuddy (fuel : Nat) : Built :=
  match b.buildRaw memory with
  | .error e => some (.error e)
  | .ok (a, len) =>
      (prefault fuel (b.pageSize.resolve osPageSize) a.geometry.totalSize (.buddy a)).map fun c => .ok (c, len)

def buildBuddyUnfaulted : Except BuildError (Unfaulted × Nat) := do
  let (a, len) ← b.buildRaw memory
  return (⟨a.geometry.totalSize, b.pageSize.resolve osPageSize, .buddy a⟩, len)

end BuddyArenaBuilder

theorem BuddyHint.orderLoop_mono {block blockLen fuel n maxOrder top : Nat}
    (h : orderLoop block blockLen fuel maxOrder = some top) (hle : fuel ≤ n) :
    orderLoop block blockLen n maxOrder = some top := by
  induction fuel generalizing n maxOrder with
  | zero => cases h
  | succ fuel ih =>
      obtain ⟨n, rfl⟩ := Nat.exists_eq_succ_of_ne_zero (Nat.ne_zero_of_lt hle)
      rw [orderLoop] at h ⊢
      split at h
      next hfits =>
        rw [if_pos hfits]
        exact ih h (Nat.le_of_succ_le_succ hle)
      next hlarge => rwa [if_neg hlarge]

theorem BuddyHint.resolve_mono {fuel n size blockLen : Nat} {r : Except BuildError (Nat × Nat)}
    (h : resolve fuel (.minAlloc size) blockLen = some r) (hle : fuel ≤ n) :
    resolve n (.minAlloc size) blockLen = some r := by
  simp only [resolve] at h ⊢
  cases hblock : minBlock size blockLen with
  | none =>
      rw [hblock] at h
      exact h
  | some block =>
      rw [hblock] at h
      obtain ⟨top, htop, hr⟩ := Option.map_eq_some_iff.mp h
      exact Option.map_eq_some_iff.mpr ⟨top, orderLoop_mono htop hle, hr⟩

theorem BuddyHint.resolve_inside {fuel size blockLen m k : Nat} (hpos : 0 < size) (hsize : size ≤ usizeMax)
    (hlen : blockLen ≤ isizeMax) (h : resolve fuel (.minAlloc size) blockLen = some (.ok (m, k))) :
    (∃ j, m = 2 ^ j) ∧ m <<< k ≤ blockLen := by
  have hfits : size ≤ 2 ^ 63 := by
    by_contra hgt
    rw [resolve_diverges (not_le.mp hgt) hsize] at h
    cases h
  obtain ⟨enough, r, hn, hresolved⟩ := resolves_of_le hpos hfits hlen
  obtain rfl : r = .ok (m, k) := by
    have hmax := resolve_mono h (le_max_left fuel enough)
    rw [hn _ (le_max_right fuel enough)] at hmax
    exact Option.some.inj hmax
  obtain ⟨j, -, -, hdown⟩ := prevPowerOfTwo_eq hpos hsize
  have hround := hresolved.rounded m k rfl _ _ (isLeast_leastPowerOfTwo size) hdown
  refine ⟨?_, by rw [Nat.shiftLeft_eq]; exact (hresolved.maximal m k rfl).1⟩
  split at hround
  · exact hround ▸ leastPowerOfTwo_isPow size
  · exact ⟨j, hround⟩

/-- A builder over the region of len bytes at ptr. The contract of from_raw
asks for a valid allocation, so that len is at most isize::MAX. Nothing sets a
page size. -/
structure RawBackedBuddyArenaBuilder where
  ptr : Nat
  len : Nat
  minAlloc : NonZeroUsize
  initPolicy : InitPolicy
  len_le : len ≤ isizeMax

namespace RawBackedBuddyArenaBuilder

variable (b : RawBackedBuddyArenaBuilder)

def pageSize : PageSize := .unknown

def geometry {fuel m k : Nat} (h : resolve fuel (.minAlloc b.minAlloc.get) b.len = some (.ok (m, k))) :
    BuddyGeometry where
  totalSize := m <<< k
  minBlockSize := m
  maxOrder := k
  alignment := 1
  capCapacity := false
  minBlockSize_pow := (resolve_inside b.minAlloc.pos b.minAlloc.le_max b.len_le h).1
  totalSize_eq := rfl
  totalSize_lt :=
    ((resolve_inside b.minAlloc.pos b.minAlloc.le_max b.len_le h).2.trans b.len_le).trans_lt (by decide)

def build (osPageSize : NonZeroUsize) (memory : Memory) (fuel : Nat) : Built :=
  if b.ptr = 0 then some (.error .nullPointer)
  else
    match h : resolve fuel (.minAlloc b.minAlloc.get) b.len with
    | none => none
    | some (.error e) => some (.error e)
    | some (.ok (m, k)) =>
        let a := BuddyArenaInner.build (b.geometry h) false b.initPolicy memory
        (prefault fuel (pageSize.resolve osPageSize) (m <<< k) (.buddy a)).map fun c => .ok (c, b.len)

end RawBackedBuddyArenaBuilder

/-- The ways to an arena: build, build_unfaulted with one of its two ends, and
build over a region of the caller. -/
inductive Construction
  | fixed (b : FixedArenaBuilder) (pageSize : PageSize)
  | fixedFaultPages (b : FixedArenaBuilder) (pageSize : PageSize)
  | fixedIntoInner (b : FixedArenaBuilder) (pageSize : PageSize)
  | buddy (b : BuddyArenaBuilder)
  | buddyFaultPages (b : BuddyArenaBuilder)
  | buddyIntoInner (b : BuddyArenaBuilder)
  | rawFixed (b : RawBackedFixedArenaBuilder)
  | rawBuddy (b : RawBackedBuddyArenaBuilder)

namespace Construction

def faulted (fuel : Nat) : Except BuildError (Unfaulted × Nat) → Built
  | .error e => some (.error e)
  | .ok (u, len) => (u.faultPages fuel).map fun a => .ok (a, len)

def unwrapped : Except BuildError (Unfaulted × Nat) → Built
  | .error e => some (.error e)
  | .ok (u, len) => some (.ok (u.intoInner, len))

variable (osPageSize : NonZeroUsize) (memory : Memory)

def result (fuel : Nat) : Construction → Built
  | fixed b pageSize => b.buildFixed osPageSize pageSize memory fuel
  | fixedFaultPages b pageSize => faulted fuel (b.buildFixedUnfaulted osPageSize pageSize memory)
  | fixedIntoInner b pageSize => unwrapped (b.buildFixedUnfaulted osPageSize pageSize memory)
  | buddy b => b.buildBuddy osPageSize memory fuel
  | buddyFaultPages b => faulted fuel (b.buildBuddyUnfaulted osPageSize memory)
  | buddyIntoInner b => unwrapped (b.buildBuddyUnfaulted osPageSize memory)
  | rawFixed b =>
      match b.build memory with
      | .error e => some (.error e)
      | .ok (a, len) =>
          (prefault fuel (PageSize.unknown.resolve osPageSize) (a.slotCount * a.slotCapacity) (.fixed a)).map
            fun c => .ok (c, len)
  | rawBuddy b => b.build osPageSize memory fuel

def walks : Construction → Option NonZeroUsize
  | fixed _ pageSize => pageSize.resolve osPageSize
  | fixedFaultPages _ pageSize => pageSize.resolve osPageSize
  | buddy b => b.pageSize.resolve osPageSize
  | buddyFaultPages b => b.pageSize.resolve osPageSize
  | _ => none

def walked (pageSize len : Nat) (m : Memory) : Memory := fun i => if i < len ∧ pageSize ∣ i then 0 else m i

/-- The loop stops in front of the end of the address space: an offset that is
still inside is 0, or at least the page size and at most isize::MAX. -/
theorem prefaultLoop_eq {len pageSize : Nat} (hpos : 0 < pageSize) (hsize : pageSize ≤ usizeMax)
    (hlen : len ≤ isizeMax) {fuel k : Nat} (hfuel : len - k * pageSize < fuel) (m : Memory) :
    prefaultLoop len pageSize fuel (k * pageSize) m =
      some fun i => if k * pageSize ≤ i ∧ i < len ∧ pageSize ∣ i then 0 else m i := by
  induction fuel generalizing k m with
  | zero => omega
  | succ fuel ih =>
      rw [prefaultLoop]
      split
      next hinside =>
        have hnext : fetchAdd (k * pageSize) pageSize = (k + 1) * pageSize := by
          rw [fetchAdd, ← Nat.succ_mul]
          apply Nat.mod_eq_of_lt
          rw [Nat.succ_mul]
          rcases Nat.eq_zero_or_pos k with rfl | hk
          · rw [Nat.zero_mul, Nat.zero_add]
            exact Nat.lt_of_le_pred (by decide) hsize
          · have hle := Nat.le_mul_of_pos_left pageSize hk
            have hdouble : isizeMax + isizeMax < 2 ^ usizeBits := by decide
            omega
        rw [hnext, ih (by rw [Nat.succ_mul]; omega)]
        congr 1
        funext i
        by_cases hi : i = k * pageSize
        · subst hi
          rw [Function.update_self, if_neg (by rw [Nat.succ_mul]; omega),
            if_pos ⟨le_rfl, hinside, Nat.dvd_mul_left _ _⟩]
        · rw [Function.update_of_ne hi]
          congr 1
          refine propext (and_congr_left fun hmore => ⟨fun h => ?_, fun h => ?_⟩)
          · rw [Nat.succ_mul] at h
            omega
          · obtain ⟨q, rfl⟩ := hmore.2
            rw [Nat.mul_comm pageSize] at h hi ⊢
            have hlt : k < q := Nat.lt_of_mul_lt_mul_right (lt_of_le_of_ne h (Ne.symm hi))
            exact Nat.mul_le_mul_right _ hlt
      next hout =>
        congr 1
        funext i
        rw [if_neg (by omega)]

theorem prefaultRegion_eq {len fuel : Nat} (pageSize : NonZeroUsize) (hlen : len ≤ isizeMax) (hfuel : len < fuel)
    (m : Memory) : prefaultRegion fuel m len pageSize.get = some (walked pageSize.get len m) := by
  have hstart : len - 0 * pageSize.get < fuel := by omega
  have h := prefaultLoop_eq pageSize.pos pageSize.le_max hlen hstart m
  rw [Nat.zero_mul] at h
  rw [prefaultRegion, h]
  simp only [Nat.zero_le, true_and]
  rfl

def Meets (pageSize ptr len page : Nat) : Prop := ∃ i < len, (ptr + i) / pageSize = page

/-- A page with a byte that the walk changes in some memory. -/
def Touches (pageSize ptr len page : Nat) : Prop :=
  ∃ i, (∃ m : Memory, walked pageSize len m i ≠ m i) ∧ (ptr + i) / pageSize = page

theorem exists_walked_ne_iff {pageSize len i : Nat} :
    (∃ m : Memory, walked pageSize len m i ≠ m i) ↔ i < len ∧ pageSize ∣ i := by
  constructor
  · rintro ⟨m, hm⟩
    by_contra hno
    exact hm (if_neg hno)
  · intro hi
    refine ⟨fun _ => 1, ?_⟩
    rw [walked, if_pos hi]
    exact (by decide : (0 : UInt8) ≠ 1)

/-- The walk steps from the start of the region, which need not be the start
of a page. It can miss the last page, and no other. -/
theorem touches_iff {pageSize ptr len page : Nat} (hpos : 0 < pageSize) (h : Meets pageSize ptr len page) :
    Touches pageSize ptr len page ↔
      ¬(page = (ptr + (len - 1)) / pageSize ∧ pageSize ≤ ptr % pageSize + (len - 1) % pageSize) := by
  obtain ⟨i, hi, rfl⟩ := h
  have hlast := Nat.add_div (a := ptr) (b := len - 1) hpos
  have hlow : ptr / pageSize ≤ (ptr + i) / pageSize := Nat.div_le_div_right (Nat.le_add_right _ _)
  have hhigh : (ptr + i) / pageSize ≤ (ptr + (len - 1)) / pageSize := Nat.div_le_div_right (by omega)
  have hwalk : Touches pageSize ptr len ((ptr + i) / pageSize) ↔
      (ptr + i) / pageSize ≤ ptr / pageSize + (len - 1) / pageSize := by
    constructor
    · rintro ⟨j, hwritten, hpage⟩
      obtain ⟨hj, q, rfl⟩ := exists_walked_ne_iff.mp hwritten
      rw [Nat.add_mul_div_left _ _ hpos] at hpage
      have hq : q ≤ (len - 1) / pageSize := (Nat.le_div_iff_mul_le hpos).mpr (by rw [Nat.mul_comm]; omega)
      omega
    · intro hle
      obtain ⟨q, hq⟩ := Nat.exists_eq_add_of_le hlow
      have hmul : q * pageSize ≤ len - 1 := (Nat.le_div_iff_mul_le hpos).mp (by omega)
      have hwritten : pageSize * q < len ∧ pageSize ∣ pageSize * q :=
        ⟨by rw [Nat.mul_comm]; omega, Nat.dvd_mul_right _ _⟩
      refine ⟨pageSize * q, exists_walked_ne_iff.mpr hwritten, ?_⟩
      rw [Nat.add_mul_div_left _ _ hpos, hq]
  rw [hwalk]
  split at hlast <;> omega

/-- One page of memory at 16 bytes after a page boundary. -/
example : Meets 4096 16 4096 1 ∧ ¬Touches 4096 16 4096 1 := by
  have hmeets : Meets 4096 16 4096 1 := ⟨4080, by decide, by decide⟩
  exact ⟨hmeets, fun h => (touches_iff (by decide) hmeets).mp h (by decide)⟩

def used : Lifecycle.Builder → Nat
  | .fixed slotCount slotCapacity _ => slotCount * slotCapacity
  | .rawFixed slotCount slotCapacity _ => slotCount * slotCapacity
  | .buddy geometry _ => geometry.totalSize
  | .rawBuddy geometry _ => geometry.totalSize

/-- The arena that the runs start from, in a region that holds all of it. -/
structure Starts (b : Lifecycle.Builder) (initPolicy : InitPolicy) (m : Memory) (a : ArenaRef) (len : Nat) : Prop where
  arena : a = b.arena initPolicy m
  len_eq : len = b.regionLen
  used_pos : 0 < used b
  used_le : used b ≤ len

/-- A loop of the builder goes on for ever: that of the hint, for a size above
2^63. -/
def Hangs : Construction → Prop
  | rawBuddy b => b.ptr ≠ 0 ∧ 2 ^ 63 < b.minAlloc.get
  | _ => False

/-- The pointer is null, the alignment is not a power of two, or no layout of
the request fits. -/
def Refused : Construction → Prop
  | fixed b _ | fixedFaultPages b _ | fixedIntoInner b _ =>
      ¬(b.config.alignment ∈ PowerOfTwo ∧
        ∃ c, b.config.alignment ∣ c ∧ b.slotCapacity.get ≤ c ∧ b.slotCount.get * c ≤ isizeMax)
  | buddy b | buddyFaultPages b | buddyIntoInner b => isizeMax < b.geometry.totalSize
  | rawFixed b =>
      ¬(b.ptr ≠ 0 ∧ b.config.alignment ∈ PowerOfTwo ∧
        match b.spec with
        | .count n => ∃ c, 0 < c ∧ b.config.alignment ∣ c ∧ n.get * c ≤ b.len
        | .size s => ∃ n c, 0 < n ∧ 0 < c ∧ IsGreatest {c | b.config.alignment ∣ c ∧ c ≤ s.get} c ∧ n * c ≤ b.len)
  | rawBuddy b => ¬(b.ptr ≠ 0 ∧ ∃ m, IsGreatest {x | x ∈ PowerOfTwo ∧ x ≤ b.minAlloc.get} m ∧ m ≤ b.len)

/-- The answer of a builder: an error where it must refuse, and otherwise an
arena to start from, over memory that nothing but the walk has written. For
a region at ptr the walk leaves out the last page, if any. -/
structure Opens (c : Construction) (r : Except BuildError (ArenaRef × Nat)) : Prop where
  error_iff : (∃ e, r = .error e) ↔ c.Refused
  ok : ∀ a len, r = .ok (a, len) → ∃ b initPolicy m, Starts b initPolicy m a len ∧
    (c.walks osPageSize = none → m = memory) ∧
    ∀ pageSize, c.walks osPageSize = some pageSize → m = walked pageSize.get len memory ∧
      ∀ ptr page, Meets pageSize.get ptr len page →
        (Touches pageSize.get ptr len page ↔ ¬(page = (ptr + (len - 1)) / pageSize.get ∧
          pageSize.get ≤ ptr % pageSize.get + (len - 1) % pageSize.get))

/-- From some amount of fuel on there is one answer. -/
def Returns (c : Construction) : Prop :=
  ∃ enough r, (∀ fuel, enough ≤ fuel → c.result osPageSize memory fuel = some r) ∧ Opens osPageSize memory c r

variable {osPageSize memory} {c : Construction}

theorem setMemory_arena (b : Lifecycle.Builder) (initPolicy : InitPolicy) (m m' : Memory) :
    (b.arena initPolicy m).setMemory m' = b.arena initPolicy m' := by
  cases b <;> rfl

theorem memory_arena (b : Lifecycle.Builder) (initPolicy : InitPolicy) (m : Memory) :
    (b.arena initPolicy m).memory = m := by
  cases b <;> rfl

theorem returns_error (e : BuildError) (h : ∀ fuel, c.result osPageSize memory fuel = some (.error e))
    (hrefused : c.Refused) : Returns osPageSize memory c :=
  ⟨0, .error e, fun fuel _ => h fuel, iff_of_true ⟨e, rfl⟩ hrefused, fun _ _ heq => by cases heq⟩

theorem returns_unwalked (b : Lifecycle.Builder) (initPolicy : InitPolicy) (enough : Nat)
    (h : ∀ fuel, enough ≤ fuel →
      c.result osPageSize memory fuel = some (.ok (b.arena initPolicy memory, b.regionLen)))
    (hwalks : c.walks osPageSize = none) (hrefused : ¬c.Refused) (hpos : 0 < used b) (hle : used b ≤ b.regionLen) :
    Returns osPageSize memory c := by
  refine ⟨enough, _, h, iff_of_false (fun ⟨e, he⟩ => by cases he) hrefused, fun a len heq => ?_⟩
  obtain ⟨rfl, rfl⟩ := Prod.mk.inj (Except.ok.inj heq)
  refine ⟨b, initPolicy, memory, ⟨rfl, rfl, hpos, hle⟩, fun _ => rfl, fun pageSize hsome => ?_⟩
  rw [hwalks] at hsome
  cases hsome

theorem returns_walked (b : Lifecycle.Builder) (initPolicy : InitPolicy)
    (h : ∀ fuel, c.result osPageSize memory fuel =
      (prefault fuel (c.walks osPageSize) b.regionLen (b.arena initPolicy memory)).map fun a => .ok (a, b.regionLen))
    (hrefused : ¬c.Refused) (hpos : 0 < used b) (hused : used b = b.regionLen) (hfits : b.regionLen ≤ isizeMax) :
    Returns osPageSize memory c := by
  cases hwalks : c.walks osPageSize with
  | none =>
      refine returns_unwalked b initPolicy 0 (fun fuel _ => ?_) hwalks hrefused hpos hused.le
      rw [h, hwalks]
      rfl
  | some pageSize =>
      refine ⟨b.regionLen + 1, .ok (b.arena initPolicy (walked pageSize.get b.regionLen memory), b.regionLen),
        fun fuel hfuel => ?_, iff_of_false (fun ⟨e, he⟩ => by cases he) hrefused, fun a len heq => ?_⟩
      · rw [h, hwalks, prefault, memory_arena, prefaultRegion_eq pageSize hfits hfuel]
        simp only [Option.map_some, setMemory_arena]
      · obtain ⟨rfl, rfl⟩ := Prod.mk.inj (Except.ok.inj heq)
        refine ⟨b, initPolicy, _, ⟨rfl, rfl, hpos, hused.le⟩, fun hnone => ?_, fun n hn => ?_⟩
        · rw [hwalks] at hnone
          cases hnone
        · obtain rfl : pageSize = n := Option.some.inj (hwalks.symm.trans hn)
          exact ⟨rfl, fun ptr page hmeets => touches_iff pageSize.pos hmeets⟩

theorem faulted_fixed (b : FixedArenaBuilder) (pageSize : PageSize) (fuel : Nat) :
    faulted fuel (b.buildFixedUnfaulted osPageSize pageSize memory) = b.buildFixed osPageSize pageSize memory fuel := by
  rw [FixedArenaBuilder.buildFixedUnfaulted, FixedArenaBuilder.buildFixed]
  cases b.buildInner memory <;> rfl

theorem unwrapped_fixed (b : FixedArenaBuilder) (pageSize : PageSize) (fuel : Nat) :
    unwrapped (b.buildFixedUnfaulted osPageSize pageSize memory) = b.buildFixed osPageSize .unknown memory fuel := by
  rw [FixedArenaBuilder.buildFixedUnfaulted, FixedArenaBuilder.buildFixed]
  cases b.buildInner memory <;> rfl

theorem faulted_buddy (b : BuddyArenaBuilder) (fuel : Nat) :
    faulted fuel (b.buildBuddyUnfaulted osPageSize memory) = b.buildBuddy osPageSize memory fuel := by
  rw [BuddyArenaBuilder.buildBuddyUnfaulted, BuddyArenaBuilder.buildBuddy]
  cases b.buildRaw memory <;> rfl

theorem unwrapped_buddy (b : BuddyArenaBuilder) (fuel : Nat) :
    unwrapped (b.buildBuddyUnfaulted osPageSize memory) =
      BuddyArenaBuilder.buildBuddy osPageSize { b with pageSize := .unknown } memory fuel := by
  rw [BuddyArenaBuilder.buildBuddyUnfaulted, BuddyArenaBuilder.buildBuddy]
  have hraw : BuddyArenaBuilder.buildRaw { b with pageSize := .unknown } memory = b.buildRaw memory := rfl
  rw [hraw]
  cases b.buildRaw memory <;> rfl

theorem returns_fixed (b : FixedArenaBuilder) (pageSize : PageSize)
    (h : ∀ fuel, c.result osPageSize memory fuel = b.buildFixed osPageSize pageSize memory fuel)
    (hwalks : c.walks osPageSize = pageSize.resolve osPageSize)
    (hrefused : c.Refused ↔ ¬(b.config.alignment ∈ PowerOfTwo ∧
      ∃ n, b.config.alignment ∣ n ∧ b.slotCapacity.get ≤ n ∧ b.slotCount.get * n ≤ isizeMax)) :
    Returns osPageSize memory c := by
  by_cases hpow : b.config.alignment ∈ PowerOfTwo
  · obtain ⟨k, hk⟩ := hpow
    rcases buildInner_cases b memory hk.symm with ⟨n, hleast, hfits, hok⟩ | ⟨hlarge, herror⟩
    · have hn : 0 < n := b.slotCapacity.pos.trans_le hleast.1.2
      refine returns_walked (.fixed b.slotCount.get n b.config.autoSpill) b.config.initPolicy (fun fuel => ?_) ?_
        (Nat.mul_pos b.slotCount.pos hn) rfl hfits
      · rw [h, FixedArenaBuilder.buildFixed, hok, hwalks]
        rfl
      · rw [hrefused, not_not]
        exact ⟨⟨k, hk⟩, n, hk ▸ hleast.1.1, hleast.1.2, hfits⟩
    · refine returns_error .sizeOverflow (fun fuel => ?_) (hrefused.mpr ?_)
      · rw [h, FixedArenaBuilder.buildFixed, herror]
      · rintro ⟨-, n, hdvd, hn, hfits⟩
        exact absurd hfits (not_le.mpr (hlarge n ((dvd_of_eq hk).trans hdvd) hn))
  · refine returns_error .invalidAlignment (fun fuel => ?_) (hrefused.mpr fun hok => hpow hok.1)
    rw [h, FixedArenaBuilder.buildFixed, buildInner_invalid memory hpow]

theorem totalSize_pos (g : BuddyGeometry) : 0 < g.totalSize := by
  obtain ⟨j, hj⟩ := g.minBlockSize_pow
  rw [g.totalSize_eq, hj, Nat.shiftLeft_eq]
  exact Nat.mul_pos (Nat.two_pow_pos j) (Nat.two_pow_pos _)

/-- The alignment of a geometry divides its size, so that the layout asks for
nothing but the bound on the size. -/
theorem buildRaw_eq (b : BuddyArenaBuilder) :
    b.buildRaw memory = if b.geometry.totalSize ≤ isizeMax then
      .ok (.build b.geometry b.autoSpill b.initPolicy memory, b.geometry.totalSize) else .error .sizeOverflow := by
  rw [BuddyArenaBuilder.buildRaw]
  split
  next hfits =>
    obtain ⟨⟨k, hk⟩, hle⟩ := b.obtained.alignment_isPow
    have hdvd : 2 ^ k ∣ b.geometry.totalSize := by
      rw [b.geometry.totalSize_eq, Nat.shiftLeft_eq, ← hk]
      exact b.obtained.alignment_dvd.mul_right _
    have hbits : k < usizeBits := by
      have hpow : 2 ^ k ≤ isizeMax := (Nat.le_of_dvd (totalSize_pos b.geometry) hdvd).trans hfits
      exact (Nat.pow_lt_pow_iff_right (a := 2) (by decide)).mp (hpow.trans_lt (by decide))
    rw [hk, layoutFromSizeAlign_of_dvd hbits hdvd hfits]
    rfl
  next hlarge =>
    rw [layoutFromSizeAlign_of_lt (not_le.mp hlarge)]
    rfl

theorem returns_buddy (b : BuddyArenaBuilder)
    (h : ∀ fuel, c.result osPageSize memory fuel = b.buildBuddy osPageSize memory fuel)
    (hwalks : c.walks osPageSize = b.pageSize.resolve osPageSize)
    (hrefused : c.Refused ↔ isizeMax < b.geometry.totalSize) : Returns osPageSize memory c := by
  by_cases hfits : b.geometry.totalSize ≤ isizeMax
  · refine returns_walked (.buddy b.geometry b.autoSpill) b.initPolicy (fun fuel => ?_) ?_
      (totalSize_pos b.geometry) rfl hfits
    · rw [h, BuddyArenaBuilder.buildBuddy, buildRaw_eq, if_pos hfits, hwalks]
      rfl
    · rwa [hrefused, not_lt]
  · refine returns_error .sizeOverflow (fun fuel => ?_) (hrefused.mpr (not_le.mp hfits))
    rw [h, BuddyArenaBuilder.buildBuddy, buildRaw_eq, if_neg hfits]

theorem returns_rawFixed (b : RawBackedFixedArenaBuilder) : Returns osPageSize memory (.rawFixed b) := by
  have hiff : (∃ e, b.build memory = .error e) ↔ (rawFixed b).Refused := by
    by_cases hptr : b.ptr = 0
    · exact iff_of_true ⟨_, raw_build_null memory hptr⟩ fun hok => hok.1 hptr
    by_cases hpow : b.config.alignment ∈ PowerOfTwo
    · cases hspec : b.spec with
      | count n =>
          rw [(raw_build_count b memory hptr hpow hspec).error_iff]
          simp only [Refused, hspec, ne_eq, hptr, not_false_eq_true, hpow, true_and]
      | size n =>
          rw [(raw_build_size b memory hptr hpow hspec).error_iff]
          simp only [Refused, hspec, ne_eq, hptr, not_false_eq_true, hpow, true_and]
    · exact iff_of_true ⟨_, raw_build_invalid memory hptr hpow⟩ fun hok => hpow hok.2.1
  cases hbuild : b.build memory with
  | error e =>
      refine returns_error e (fun fuel => ?_) (hiff.mp ⟨e, hbuild⟩)
      rw [result, hbuild]
  | ok r =>
      obtain ⟨a, len⟩ := r
      have hlayout := raw_build_layout hbuild
      have hshape : a = .build a.slotCount a.slotCapacity false b.config.initPolicy memory ∧ len = b.len := by
        have hptr : b.ptr ≠ 0 := fun hnull => by
          rw [raw_build_null memory hnull] at hbuild
          cases hbuild
        have hpow : b.config.alignment ∈ PowerOfTwo := by
          by_contra hno
          rw [raw_build_invalid memory hptr hno] at hbuild
          cases hbuild
        obtain ⟨k, hk⟩ := hpow
        rw [raw_build_eq b memory hptr hk.symm] at hbuild
        cases hr : b.spec.resolve b.len (2 ^ k) with
        | error e =>
            rw [hr] at hbuild
            cases hbuild
        | ok n =>
            rw [hr] at hbuild
            obtain ⟨rfl, rfl⟩ := Prod.mk.inj (Except.ok.inj hbuild)
            exact ⟨rfl, rfl⟩
      refine returns_unwalked (.rawFixed a.slotCount a.slotCapacity b.len) b.config.initPolicy 0 (fun fuel _ => ?_)
        rfl ?_ (Nat.mul_pos hlayout.count_pos hlayout.capacity_pos) ?_
      · rw [result, hbuild]
        obtain ⟨hshape, rfl⟩ := hshape
        exact congrArg (fun x => some (Except.ok (ArenaRef.fixed x, b.len))) hshape
      · rw [← hiff, hbuild]
        rintro ⟨e, he⟩
        cases he
      · exact hshape.2 ▸ hlayout.bytes_le

section

variable {b : RawBackedBuddyArenaBuilder} (hptr : b.ptr ≠ 0) {fuel : Nat}

include hptr

theorem build_of_resolve_none (h : resolve fuel (.minAlloc b.minAlloc.get) b.len = none) :
    b.build osPageSize memory fuel = none := by
  rw [RawBackedBuddyArenaBuilder.build, if_neg hptr]
  split
  next => rfl
  next e he =>
    rw [h] at he
    cases he
  next m k hok =>
    rw [h] at hok
    cases hok

theorem build_of_resolve_error {e : BuildError}
    (h : resolve fuel (.minAlloc b.minAlloc.get) b.len = some (.error e)) :
    b.build osPageSize memory fuel = some (.error e) := by
  rw [RawBackedBuddyArenaBuilder.build, if_neg hptr]
  split
  next hnone =>
    rw [h] at hnone
    cases hnone
  next e' he =>
    rw [h] at he
    cases he
    rfl
  next m k hok =>
    rw [h] at hok
    cases hok

theorem build_of_resolve_ok {enough m k : Nat}
    (h : resolve enough (.minAlloc b.minAlloc.get) b.len = some (.ok (m, k)))
    (hfuel : resolve fuel (.minAlloc b.minAlloc.get) b.len = some (.ok (m, k))) :
    b.build osPageSize memory fuel =
      some (.ok (.buddy (.build (b.geometry h) false b.initPolicy memory), b.len)) := by
  rw [RawBackedBuddyArenaBuilder.build, if_neg hptr]
  split
  next hnone =>
    rw [hfuel] at hnone
    cases hnone
  next e he =>
    rw [hfuel] at he
    cases he
  next m' k' hok =>
    obtain ⟨rfl, rfl⟩ : m = m' ∧ k = k' := by
      rw [hfuel] at hok
      exact Prod.mk.inj (Except.ok.inj (Option.some.inj hok))
    rfl

end

theorem returns_rawBuddy (b : RawBackedBuddyArenaBuilder) (h : ¬(rawBuddy b).Hangs) :
    Returns osPageSize memory (.rawBuddy b) := by
  by_cases hptr : b.ptr = 0
  · refine returns_error .nullPointer (fun fuel => ?_) fun hok => hok.1 hptr
    rw [result, RawBackedBuddyArenaBuilder.build, if_pos hptr]
  have hsize : b.minAlloc.get ≤ 2 ^ 63 := not_lt.mp fun hgt => h ⟨hptr, hgt⟩
  obtain ⟨j, -, -, hdown⟩ := prevPowerOfTwo_eq b.minAlloc.pos b.minAlloc.le_max
  have hrefused : (rawBuddy b).Refused ↔ b.len < 2 ^ j := by
    constructor
    · intro hno
      exact not_le.mp fun hle => hno ⟨hptr, 2 ^ j, hdown, hle⟩
    · rintro hlt ⟨-, m, hm, hle⟩
      rw [hm.unique hdown] at hle
      omega
  obtain ⟨enough, r, hn, hresolved⟩ := resolves_of_le b.minAlloc.pos hsize b.len_le
  rcases hresolved.error_or_ok with rfl | ⟨m, k, rfl⟩
  · have hlt := (hresolved.error_iff _ hdown).mp rfl
    exact ⟨enough, .error .zeroUsableSlots, fun fuel hfuel => build_of_resolve_error hptr (hn fuel hfuel),
      iff_of_true ⟨_, rfl⟩ (hrefused.mpr hlt), fun _ _ heq => by cases heq⟩
  · have hstart := hn enough le_rfl
    refine returns_unwalked (.rawBuddy (b.geometry hstart) b.len) b.initPolicy enough (fun fuel hfuel => ?_) rfl ?_
      (totalSize_pos _) (resolve_inside b.minAlloc.pos b.minAlloc.le_max b.len_le hstart).2
    · exact build_of_resolve_ok hptr hstart (hn fuel hfuel)
    · rw [hrefused, ← hresolved.error_iff _ hdown]
      rintro ⟨⟩

/-- Every public way to an arena answers, except that the loop of a hint above
2^63 does not end. It refuses what it must refuse and nothing else, and gives
one of the arenas that runs start from, in a region that holds it. The walk
writes one zero for each page size within a region that the builder allocated,
and no region of the caller is written. Since the walk need not start on a
page, it can miss the last page, and no other. -/
theorem every_construction (osPageSize : NonZeroUsize) (memory : Memory) (c : Construction) :
    (c.Hangs → ∀ fuel, c.result osPageSize memory fuel = none) ∧ (¬c.Hangs → Returns osPageSize memory c) := by
  refine ⟨fun hhangs fuel => ?_, fun hends => ?_⟩
  · cases c with
    | rawBuddy b =>
        exact build_of_resolve_none hhangs.1 (resolve_diverges hhangs.2 b.minAlloc.le_max b.len fuel)
    | _ => exact hhangs.elim
  · cases c with
    | fixed b pageSize => exact returns_fixed b pageSize (fun _ => rfl) rfl Iff.rfl
    | fixedFaultPages b pageSize => exact returns_fixed b pageSize (faulted_fixed b pageSize) rfl Iff.rfl
    | fixedIntoInner b pageSize => exact returns_fixed b .unknown (unwrapped_fixed b pageSize) rfl Iff.rfl
    | buddy b => exact returns_buddy b (fun _ => rfl) rfl Iff.rfl
    | buddyFaultPages b => exact returns_buddy b (faulted_buddy b) rfl Iff.rfl
    | buddyIntoInner b => exact returns_buddy { b with pageSize := .unknown } (unwrapped_buddy b) rfl Iff.rfl
    | rawFixed b => exact returns_rawFixed b
    | rawBuddy b => exact returns_rawBuddy b hends

end Construction

end ArenaAlligator
