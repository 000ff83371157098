import ArenaAlligator.Usize
import Mathlib.Data.List.Sort
import Mathlib.Logic.Function.Basic

namespace ArenaAlligator

open Function

/-- The state byte that arbitrates between the waker and the registration. -/
inductive EntryState
  | live
  | woken
  | revoked
deriving DecidableEq, Repr

/-- The oneshot channel of an entry, as its receiver sees it. Of tokio's
oneshot it is assumed that a send fails, and hands its value back, exactly when
the receiver is gone, that a value sent is received once, and that a sender
dropped without a send closes the channel. -/
inductive Channel
  | empty
  | sent (freedOrder : Nat)
  | closed
deriving DecidableEq, Repr

/-- An entry with its channel. The fields tx and rx tell whether the sender
is still in its cell and whether the receiver still exists. -/
structure WaiterEntry where
  state : EntryState := .live
  tx : Bool := true
  timestamp : Nat
  channel : Channel := .empty
  rx : Bool := true
deriving DecidableEq, Repr

def u64Max : Nat := 2 ^ 64 - 1

def noWaitersTimestamp : Nat := u64Max

def maxPopsPerWake : Nat := 8

def maxConsecutive : Nat := 10

def orderBonusNs : Nat := 50000

def depthBonusNs : Nat := 5000

/-- A queue of entries, named by the order in which they were created. The
counter is one of registrations in memory and never comes near to 2^64. -/
structure BuddyOrderSlot where
  queue : List Nat := []
  count : Nat := 0
  headTimestamp : Nat := noWaitersTimestamp
deriving DecidableEq, Repr

/-- fetch_sub on such a counter, where only the step below zero wraps. -/
def countSub (count : Nat) : Nat := if count = 0 then usizeMax else count - 1

/-- The buddy part of NotifyWaitersInner, with the entries created so far. -/
structure NotifyWaiters where
  entries : Nat → WaiterEntry
  created : Nat
  numOrders : Nat
  buddyOrders : Nat → BuddyOrderSlot
  streakState : BitVec 64

def WaiterEntry.wake (e : WaiterEntry) (freedOrder : Nat) : WaiterEntry :=
  { e with
    state := .woken
    tx := false
    channel := if e.tx && e.rx then .sent freedOrder else e.channel }

def WaiterEntry.revoke (e : WaiterEntry) : WaiterEntry :=
  { e with
    state := .revoked
    tx := false
    channel := if e.tx then .closed else e.channel }

structure BuddyRegistration where
  entry : Nat
  order : Nat
  registered : Bool
  pendingEntry : Bool
  rx : Bool
deriving DecidableEq, Repr

namespace NotifyWaiters

def new (numOrders : Nat) : NotifyWaiters where
  entries _ := { timestamp := 0 }
  created := 0
  numOrders := numOrders
  buddyOrders _ := {}
  streakState := 0#64

def queue (w : NotifyWaiters) (order : Nat) : List Nat := (w.buddyOrders order).queue

def isLive (w : NotifyWaiters) (i : Nat) : Bool := (w.entries i).state = .live

def isWoken (w : NotifyWaiters) (i : Nat) : Bool := (w.entries i).state = .woken

def setEntry (w : NotifyWaiters) (i : Nat) (e : WaiterEntry) : NotifyWaiters :=
  { w with entries := update w.entries i e }

def setSlot (w : NotifyWaiters) (order : Nat) (slot : BuddyOrderSlot) : NotifyWaiters :=
  { w with buddyOrders := update w.buddyOrders order slot }

def lastWinner (streak : BitVec 64) : Nat := (streak >>> 32).toNat

def streakCount (streak : BitVec 64) : Nat := (streak.setWidth 32).toNat

def saturatingMul (a b : Nat) : Nat := min (a * b) u64Max

def effectiveAge (order count ts : Nat) : Nat :=
  ts - saturatingMul order orderBonusNs - saturatingMul count depthBonusNs

def candidate (slot : BuddyOrderSlot) (order : Nat) : Option (Nat × Nat) :=
  if slot.count = 0 then none
  else if slot.headTimestamp = noWaitersTimestamp then none
  else some (order, effectiveAge order slot.count slot.headTimestamp)

def candidates (w : NotifyWaiters) (freedOrder : Nat) : List (Nat × Nat) :=
  (List.range (min freedOrder (w.numOrders - 1) + 1)).filterMap fun order => candidate (w.buddyOrders order) order

def banned (streak : BitVec 64) (candidates : List (Nat × Nat)) : Bool :=
  streakCount streak ≥ maxConsecutive && candidates.length > 1 && candidates.any fun c => c.1 = lastWinner streak

def rank (streak : BitVec 64) (candidates : List (Nat × Nat)) : List Nat :=
  let kept := if banned streak candidates then candidates.filter fun c => c.1 ≠ lastWinner streak else candidates
  (kept.insertionSort fun c d => c.2 ≤ d.2).map Prod.fst

def scoreOrders (w : NotifyWaiters) (freedOrder : Nat) : List Nat :=
  rank w.streakState (w.candidates freedOrder)

def nextStreak (current : BitVec 64) (winnerOrder : Nat) : BitVec 64 :=
  let winner := BitVec.ofNat 64 winnerOrder <<< 32
  if winnerOrder = lastWinner current then
    winner ||| BitVec.ofNat 64 (min (streakCount current + 1) (2 ^ 32 - 1))
  else winner ||| 1#64

def updateStreak (w : NotifyWaiters) (winnerOrder : Nat) : NotifyWaiters :=
  { w with streakState := nextStreak w.streakState winnerOrder }

def headTimestampOf (w : NotifyWaiters) (queue : List Nat) : Nat :=
  match queue.find? w.isLive with
  | some i => (w.entries i).timestamp
  | none => noWaitersTimestamp

/-- The pop loop on one queue: the entry that was live, the pops so far, and
the rest of the queue. -/
def popLive (w : NotifyWaiters) : Nat → List Nat → Option Nat × Nat × List Nat
  | pops, [] => (none, pops, [])
  | pops, i :: rest =>
      if pops < maxPopsPerWake then
        if w.isLive i then (some i, pops + 1, rest) else popLive w (pops + 1) rest
      else (none, pops, i :: rest)

/-- The delivery to one candidate order. The loop over the candidates stops
at the bound; here an order met after that is left as it is. -/
def deliver (freedOrder : Nat) (r : NotifyWaiters × Nat) (order : Nat) : NotifyWaiters × Nat :=
  let w := r.1
  if r.2 ≥ maxPopsPerWake then r
  else
    let slot := w.buddyOrders order
    match w.popLive r.2 slot.queue with
    | (none, pops, rest) => (w.setSlot order { slot with queue := rest }, pops)
    | (some i, pops, rest) =>
        let e := w.entries i
        let w := w.setEntry i (e.wake freedOrder)
        let w := w.setSlot order ⟨rest, countSub slot.count, w.headTimestampOf rest⟩
        (if e.tx && e.rx then w.updateStreak order else w, pops)

def buddyWake (w : NotifyWaiters) (freedOrder : Nat) : NotifyWaiters :=
  ((w.scoreOrders freedOrder).foldl (deliver freedOrder) (w, 0)).1

def buddyRegister (w : NotifyWaiters) (order now : Nat) : NotifyWaiters × BuddyRegistration :=
  ({ w with entries := update w.entries w.created { timestamp := now }, created := w.created + 1 },
    { entry := w.created
      order := min order (w.numOrders - 1)
      registered := false
      pendingEntry := true
      rx := true })

def prepare (w : NotifyWaiters) (r : BuddyRegistration) : NotifyWaiters × BuddyRegistration :=
  if !r.registered && r.pendingEntry then
    let slot := w.buddyOrders r.order
    (w.setSlot r.order {
        queue := slot.queue ++ [r.entry]
        count := slot.count + 1
        headTimestamp := if slot.count = 0 then (w.entries r.entry).timestamp else slot.headTimestamp },
      { r with registered := true, pendingEntry := false })
  else (w, r)

/-- register followed by prepare, as the allocation loops call them. -/
def enroll (w : NotifyWaiters) (order now : Nat) : NotifyWaiters × BuddyRegistration :=
  let r := w.buddyRegister order now
  r.1.prepare r.2

def revokeEntry (w : NotifyWaiters) (r : BuddyRegistration) : NotifyWaiters :=
  let slot := w.buddyOrders r.order
  if w.isLive r.entry then
    (w.setEntry r.entry (w.entries r.entry).revoke).setSlot r.order { slot with count := countSub slot.count }
  else w

def revoke (w : NotifyWaiters) (r : BuddyRegistration) : NotifyWaiters × BuddyRegistration :=
  if r.registered then (w.revokeEntry r, { r with registered := false }) else (w, r)

def dropRx (w : NotifyWaiters) (i : Nat) : NotifyWaiters := w.setEntry i { w.entries i with rx := false }

def poll (w : NotifyWaiters) (r : BuddyRegistration) : Bool × NotifyWaiters × BuddyRegistration :=
  if r.rx then
    if (w.entries r.entry).channel = .empty then (false, w, r)
    else (true, w.dropRx r.entry, { r with rx := false, registered := false })
  else (true, w, r)

def drop (w : NotifyWaiters) (r : BuddyRegistration) : NotifyWaiters :=
  let w := if r.registered then w.revokeEntry r else w
  if r.rx then w.dropRx r.entry else w

end NotifyWaiters

end ArenaAlligator
