import ArenaAlligator.BuddyBlocks
import ArenaAlligator.Runs

namespace ArenaAlligator.BuddyThreads

open Function AlignedBlocks BuddyArenaInner AtomicBitmap Runs

/-- One order of a pass of try_allocate_from_orders, with the orders still to
come. The first pass carries the summary it loaded, the full scan carries
none. -/
structure Search where
  target : Nat
  summary : Option Word
  order : Nat
  rest : List Nat
deriving DecidableEq

/-- What is done with a freshly claimed block once maybe_clear_summary has
returned: split it, or go on to coalesce the joined block. -/
inductive Claim
  | split (target : Nat) (b : Block)
  | coalesce (b : Block)
deriving DecidableEq

def Claim.block : Claim → Block
  | split _ b => b
  | coalesce b => b

/-- Where a thread is inside allocate or release. Every value but idle names
the atomic operation that the thread performs next. Scrubbing and zeroing act
on bytes and zeroed bits of the block the thread owns and are one step each. -/
inductive Pc
  | idle
  | loadSummary (target : Nat)
  | addCursor (s : Search)
  | loadWord (s : Search) (start i : Nat)
  | claimBit (s : Search) (start i bit : Nat)
  | anyFree (order wordIdx : Nat) (k : Claim)
  | clearSummary (order : Nat) (k : Claim)
  | splitSummary (target childOrder blockIdx splitSteps : Nat)
  | splitFree (target childOrder blockIdx splitSteps : Nat)
  | recordSplits (b : Block) (splitSteps : Nat)
  | zeroBlock (b : Block)
  | addAllocationsOk (b : Block)
  | addBytesLive (b : Block)
  | handOut (b : Block)
  | recordFailure
  | addFrees (b : Block)
  | subBytesLive (b : Block)
  | scrub (b : Block)
  | claimBuddy (b : Block)
  | recordCoalesce (b : Block)
  | publishSummary (b : Block)
  | publish (b : Block)
deriving DecidableEq

def Pc.held : Pc → Option Block
  | anyFree _ _ k => some k.block
  | clearSummary _ k => some k.block
  | splitSummary _ childOrder blockIdx _ => some ⟨childOrder + 1, blockIdx⟩
  | splitFree _ childOrder blockIdx _ => some ⟨childOrder + 1, blockIdx⟩
  | recordSplits b _ => some b
  | zeroBlock b => some b
  | addAllocationsOk b => some b
  | addBytesLive b => some b
  | handOut b => some b
  | addFrees b => some b
  | subBytesLive b => some b
  | scrub b => some b
  | claimBuddy b => some b
  | recordCoalesce b => some b
  | publishSummary b => some b
  | publish b => some b
  | idle | loadSummary _ | addCursor _ | loadWord _ _ _ | claimBit _ _ _ _ | recordFailure => none

def nextOrder (target : Nat) (summary : Option Word) (exhausted : Pc) : List Nat → Pc
  | [] => exhausted
  | order :: rest =>
      if skips summary order then nextOrder target summary exhausted rest
      else .addCursor ⟨target, summary, order, rest⟩

def afterPass (a : BuddyArenaInner) (target : Nat) : Option Word → Pc
  | some _ => nextOrder target none .recordFailure (a.ordersFrom target)
  | none => .recordFailure

def Search.next (a : BuddyArenaInner) (s : Search) : Pc :=
  nextOrder s.target s.summary (afterPass a s.target s.summary) s.rest

def Search.visit (a : BuddyArenaInner) (s : Search) (start i : Nat) : Pc :=
  if i < (a.bitmap s.order).scanWords then .loadWord s start i else s.next a

def splitNext (target : Nat) (b : Block) (splitSteps : Nat) : Pc :=
  match b.order with
  | childOrder + 1 =>
      if childOrder + 1 > target then .splitSummary target childOrder b.index splitSteps
      else if splitSteps > 0 then .recordSplits b splitSteps else .zeroBlock b
  | 0 => if splitSteps > 0 then .recordSplits b splitSteps else .zeroBlock b

def Claim.resume : Claim → Pc
  | split target b => splitNext target b 0
  | coalesce b => .recordCoalesce b

def checkWord (a : BuddyArenaInner) (order wordIdx : Nat) (k : Claim) : Pc :=
  if wordIdx < (a.bitmap order).actualWords then .anyFree order wordIdx k else .clearSummary order k

/-- One atomic operation of one thread, and the control flow up to its next
one. The guard of the coalesce loop is evaluated together with the claim. -/
def advance (a : BuddyArenaInner) : Pc → BuddyArenaInner × Pc
  | .idle => (a, .idle)
  | .loadSummary target =>
      (a, nextOrder target (some a.nonemptyOrders) (afterPass a target (some a.nonemptyOrders)) (a.ordersFrom target))
  | .addCursor s =>
      if (a.bitmap s.order).slotCount = 0 then (a, s.next a)
      else
        let r := (a.bitmap s.order).fetchAddCursor
        (a.setBitmap s.order r.2, s.visit a (r.1.toNat &&& (a.bitmap s.order).wordMask) 0)
  | .loadWord s start i =>
      let bits := (a.bitmap s.order).load ((start + i) &&& (a.bitmap s.order).wordMask)
      if bits = 0#64 then (a, s.visit a start (i + 1)) else (a, .claimBit s start i bits.ctz.toNat)
  | .claimBit s start i bit =>
      let r := (a.bitmap s.order).claimBit ((start + i) &&& (a.bitmap s.order).wordMask) bit
      let a := a.setBitmap s.order r.2
      match r.1 with
      | some blockIdx => (a, checkWord a s.order 0 (.split s.target ⟨s.order, blockIdx⟩))
      | none => (a, .loadWord s start i)
  | .anyFree order wordIdx k =>
      if (a.bitmap order).load wordIdx ≠ 0#64 then (a, k.resume) else (a, checkWord a order (wordIdx + 1) k)
  | .clearSummary order k => (a.clearSummary order, k.resume)
  | .splitSummary target childOrder blockIdx splitSteps =>
      (a.setSummary childOrder, .splitFree target childOrder blockIdx splitSteps)
  | .splitFree target childOrder blockIdx splitSteps =>
      (a.freeBlock childOrder (blockIdx * 2 + 1), splitNext target ⟨childOrder, blockIdx * 2⟩ (splitSteps + 1))
  | .recordSplits b splitSteps => ({ a with metrics := a.metrics.recordSplits splitSteps }, .zeroBlock b)
  | .zeroBlock b => (a.zeroOnAllocate b.order b.index, .addAllocationsOk b)
  | .addAllocationsOk b => ({ a with metrics := a.metrics.addAllocationsOk }, .addBytesLive b)
  | .addBytesLive b => ({ a with metrics := a.metrics.addBytesLive (a.blockSize b.order) }, .handOut b)
  | .handOut b => (a, .handOut b)
  | .recordFailure => (a.recordAllocFailure, .idle)
  | .addFrees b => ({ a with metrics := a.metrics.addFrees }, .subBytesLive b)
  | .subBytesLive b => ({ a with metrics := a.metrics.subBytesLive (a.blockSize b.order) }, .scrub b)
  | .scrub b => (a.scrubOnRelease b.order b.index, .claimBuddy b)
  | .claimBuddy b =>
      if b.order < a.maxOrder then
        let r := (a.bitmap b.order).tryClaimExact (b.index ^^^ 1)
        let a := a.setBitmap b.order r.2
        if r.1 then (a, checkWord a b.order 0 (.coalesce b.parent)) else (a, .publishSummary b)
      else (a, .publishSummary b)
  | .recordCoalesce b => ({ a with metrics := a.metrics.recordCoalesce }, .claimBuddy b)
  | .publishSummary b => (a.setSummary b.order, .publish b)
  | .publish b => (a.freeBlock b.order b.index, .idle)

variable {τ : Type} [DecidableEq τ]

structure State (τ : Type) where
  arena : BuddyArenaInner
  live : List Block
  pc : τ → Pc

inductive Action (τ : Type)
  | allocate (t : τ) (len : Nat)
  | release (t : τ) (b : Block)
  | tick (t : τ)
deriving DecidableEq

/-- Any idle thread may start an allocation of a non-zero usize or the release
of a live block, and any other thread may perform its next atomic operation.
The request is rejected before the first atomic operation when it is too
large. -/
def step (s : State τ) : Action τ → Option (State τ)
  | .allocate t len =>
      if s.pc t = .idle ∧ 0 < len ∧ len ≤ usizeMax then
        match s.arena.orderForRequest len with
        | some target => some { s with pc := update s.pc t (.loadSummary target) }
        | none => some { s with pc := update s.pc t .recordFailure }
      else none
  | .release t b =>
      if s.pc t = .idle ∧ b ∈ s.live then
        some { s with live := s.live.erase b, pc := update s.pc t (.addFrees b) }
      else none
  | .tick t =>
      match s.pc t with
      | .idle => none
      | .handOut b => some { s with live := b :: s.live, pc := update s.pc t .idle }
      | p =>
          let r := advance s.arena p
          some { s with arena := r.1, pc := update s.pc t r.2 }

def start (g : BuddyGeometry) (autoSpill : Bool) (initPolicy : InitPolicy) (memory : Memory) : State τ :=
  ⟨build g autoSpill initPolicy memory, [], fun _ => .idle⟩

def Quiescent (s : State τ) : Prop := ∀ t, s.pc t = .idle

end ArenaAlligator.BuddyThreads
