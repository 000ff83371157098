import ArenaAlligator.Notify
import ArenaAlligator.Waiters

namespace ArenaAlligator

/-- The slot of a fixed arena. A future, and the registration around it, is
named by the task it belongs to. -/
structure FixedOrderSlot (τ : Type) where
  notify : Notify τ := {}
  count : Nat := 0

structure NotifyRegistration where
  registered : Bool := false
  woken : Bool := false
deriving DecidableEq, Repr

namespace FixedOrderSlot

variable {τ : Type} [DecidableEq τ]

def wake (w : FixedOrderSlot τ) : FixedOrderSlot τ :=
  if w.count > 0 then { w with notify := w.notify.notifyOne } else w

def prepare (w : FixedOrderSlot τ) (t : τ) (r : NotifyRegistration) : FixedOrderSlot τ × NotifyRegistration :=
  let w := { w with notify := w.notify.enable t }
  if r.registered then (w, r) else ({ w with count := w.count + 1 }, { r with registered := true })

def uncount (w : FixedOrderSlot τ) (r : NotifyRegistration) : FixedOrderSlot τ :=
  if r.registered then { w with count := countSub w.count } else w

omit [DecidableEq τ] in
theorem uncount_notify (w : FixedOrderSlot τ) (r : NotifyRegistration) : (w.uncount r).notify = w.notify := by
  rw [uncount]
  split <;> rfl

def revoke (w : FixedOrderSlot τ) (r : NotifyRegistration) : FixedOrderSlot τ × NotifyRegistration :=
  (w.uncount r, { r with registered := false, woken := false })

def poll (w : FixedOrderSlot τ) (t : τ) (r : NotifyRegistration) : Bool × FixedOrderSlot τ × NotifyRegistration :=
  let p := w.notify.poll t
  let w := { w with notify := p.2 }
  if p.1 then (true, w.uncount r, { r with registered := false, woken := true }) else (false, w, r)

def renotifies (w : FixedOrderSlot τ) (r : NotifyRegistration) : Bool := r.woken && (w.uncount r).count > 0

/-- The body of drop, and then the drop of the future. -/
def drop (w : FixedOrderSlot τ) (t : τ) (r : NotifyRegistration) : FixedOrderSlot τ :=
  let w' := w.uncount r
  let n := if w.renotifies r then w'.notify.notifyOne else w'.notify
  { w' with notify := n.drop t }

end FixedOrderSlot

end ArenaAlligator
