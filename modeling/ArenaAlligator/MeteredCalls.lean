import ArenaAlligator.Runs
import Mathlib.Algebra.BigOperators.Group.Multiset.Basic
import Mathlib.Data.Int.Cast.Basic

namespace ArenaAlligator.MeteredCalls

open Function Runs

variable {M : Type} [AddCommGroupWithOne M] {τ : Type}

theorem sum_trade {N π : Type} [AddCommGroup N] [Fintype τ] [DecidableEq τ] {v v' k : N} (f : π → N) {pc : τ → π}
    {t : τ} {p : π} (h : v' + f p = v + f (pc t) + k) :
    v' + ∑ u, f (update pc t p u) = v + (∑ u, f (pc u)) + k := by
  have hsum := sum_update f pc t p
  apply add_right_cancel (b := f (pc t))
  calc v' + (∑ u, f (update pc t p u)) + f (pc t)
      = v' + ((∑ u, f (update pc t p u)) + f (pc t)) := add_assoc _ _ _
    _ = (v' + f p) + ∑ u, f (pc u) := by rw [hsum]; abel
    _ = v + (∑ u, f (pc u)) + k + f (pc t) := by rw [h]; abel

structure Counters (M : Type) where
  ok : M
  failed : M
  frees : M
  bytes : M

inductive Stage
  | idle
  | searching
  | recorded (size : Nat)
  | handing (size : Nat)
  | releasing (size : Nat)
  | freed (size : Nat)

inductive Entry (c : Counters M) : Stage → Counters M → Stage → Prop
  | quiet (p : Stage) : Entry c p c p
  | failed : Entry c .searching { c with failed := c.failed + 1 } .idle
  | ok (size : Nat) : Entry c .searching { c with ok := c.ok + 1 } (.recorded size)
  | add (size : Nat) : Entry c (.recorded size) { c with bytes := c.bytes + size } (.handing size)
  | free (size : Nat) : Entry c (.releasing size) { c with frees := c.frees + 1 } (.freed size)
  | sub (size : Nat) : Entry c (.freed size) { c with bytes := c.bytes - size } .idle

/-- The counters, the sizes of the pieces that are out, and the parties. Each
counter has an operation of its own, so that the counters disagree with the
pieces while calls are under way. -/
structure Meter (M τ : Type) where
  counters : Counters M
  live : Multiset Nat
  stage : τ → Stage

inductive Call
  | allocate
  | handOut
  | release
deriving DecidableEq

inductive Move [DecidableEq τ] (s : Meter M τ) : Option Call → Meter M τ → Prop
  | record (t : τ) (c : Counters M) (p : Stage) (h : Entry s.counters (s.stage t) c p) :
      Move s none ⟨c, s.live, update s.stage t p⟩
  | allocate (t : τ) (h : s.stage t = .idle) :
      Move s (some .allocate) ⟨s.counters, s.live, update s.stage t .searching⟩
  | handOut (t : τ) (size : Nat) (h : s.stage t = .handing size) :
      Move s (some .handOut) ⟨s.counters, size ::ₘ s.live, update s.stage t .idle⟩
  | release (t : τ) (size : Nat) (h : s.stage t = .idle) (hsize : size ∈ s.live) :
      Move s (some .release) ⟨s.counters, s.live.erase size, update s.stage t (.releasing size)⟩

def amount (counts : Call → Bool) (l : Option Call) : M := (l.any counts).toNat

/-- A value of the counters and the pieces, corrected by what the parties have
still to enter. It changes only by the calls that it counts. -/
structure Book (M : Type) [AddCommGroupWithOne M] where
  value : Counters M → Multiset Nat → M
  share : Stage → M
  counts : Call → Bool
  idle : share .idle = 0
  record : ∀ {c c' p p'}, Entry c p c' p' → ∀ live, value c' live + share p' = value c live + share p
  allocate : share .searching = amount counts (some .allocate)
  handOut : ∀ c live size,
    value c (size ::ₘ live) = value c live + share (.handing size) + amount counts (some .handOut)
  release : ∀ c live size, size ∈ live →
    value c (live.erase size) + share (.releasing size) = value c live + amount counts (some .release)

/-- The successes. The counter is ahead of the returns. -/
def successes : Book M where
  value c _ := c.ok
  share
    | .recorded _ | .handing _ => -1
    | _ => 0
  counts c := c = .handOut
  idle := rfl
  record h live := by
    cases h with
    | quiet p => rfl
    | ok size => simp
    | _ => rfl
  allocate := by simp [amount]
  handOut c live size := by simp [amount]
  release c live size _ := by simp [amount]

/-- The calls to take. The counters are behind the calls. -/
def attempts : Book M where
  value c _ := c.ok + c.failed
  share
    | .searching => 1
    | _ => 0
  counts c := c = .allocate
  idle := rfl
  record h live := by
    cases h with
    | quiet p => rfl
    | failed => simp [add_assoc]
    | ok size => simp [add_right_comm]
    | _ => rfl
  allocate := by simp [amount]
  handOut c live size := by simp [amount]
  release c live size _ := by simp [amount]

def returns : Book M where
  value c _ := c.frees
  share
    | .releasing _ => 1
    | _ => 0
  counts c := c = .release
  idle := rfl
  record h live := by
    cases h with
    | quiet p => rfl
    | free size => simp
    | _ => rfl
  allocate := by simp [amount]
  handOut c live size := by simp [amount]
  release c live size _ := by simp [amount]

def sizes : Book M where
  value c live := c.bytes - (live.sum : Nat)
  share
    | .handing size | .releasing size | .freed size => -(size : M)
    | _ => 0
  counts _ := false
  idle := rfl
  record h live := by
    cases h with
    | quiet p => rfl
    | add size =>
        simp only [add_zero]
        abel
    | sub size =>
        simp only [add_zero]
        abel
    | _ => rfl
  allocate := by simp [amount]
  handOut c live size := by
    simp only [Multiset.sum_cons, Nat.cast_add, amount, Option.any_some, Bool.toNat_false, Nat.cast_zero]
    abel
  release c live size hsize := by
    have hsum : size + (live.erase size).sum = live.sum := by
      rw [← Multiset.sum_cons, Multiset.cons_erase hsize]
    simp only [← hsum, Nat.cast_add, amount, Option.any_some, Bool.toNat_false, Nat.cast_zero]
    abel

variable [Fintype τ]

def Book.total (B : Book M) (s : Meter M τ) : M := B.value s.counters s.live + ∑ t, B.share (s.stage t)

theorem Book.total_of_idle (B : Book M) {s : Meter M τ} (h : ∀ t, s.stage t = .idle) :
    B.total s = B.value s.counters s.live := by
  rw [total, Finset.sum_eq_zero, add_zero]
  intro t _
  rw [h t]
  exact B.idle

variable [DecidableEq τ]

theorem Book.total_update (B : Book M) {s : Meter M τ} {c : Counters M} {live : Multiset Nat} {t : τ} {p : Stage}
    {k : M} (h : B.value c live + B.share p = B.value s.counters s.live + B.share (s.stage t) + k) :
    B.total ⟨c, live, update s.stage t p⟩ = B.total s + k :=
  sum_trade B.share h

theorem Book.total_move (B : Book M) {s s' : Meter M τ} {l : Option Call} (h : Move s l s') :
    B.total s' = B.total s + amount B.counts l := by
  cases h with
  | record t c p h =>
      apply B.total_update
      simpa [amount] using B.record h s.live
  | allocate t h =>
      apply B.total_update
      rw [h, B.idle, B.allocate, add_zero]
  | handOut t size h =>
      apply B.total_update
      rw [h, B.idle, add_zero]
      exact B.handOut s.counters s.live size
  | release t size h hsize =>
      apply B.total_update
      rw [h, B.idle, add_zero]
      exact B.release s.counters s.live size hsize

variable {σ α : Type} {step : σ → α → Option σ} {view : σ → Meter M τ} {label : σ → α → Option Call}
  {P : σ → Prop}

/-- Every step is a move of the meter that the system is viewed as. -/
structure Metered (step : σ → α → Option σ) (view : σ → Meter M τ) (label : σ → α → Option Call)
    (P : σ → Prop) : Prop where
  keeps : ∀ {s a s'}, P s → step s a = some s' → P s'
  move : ∀ {s a s'}, P s → step s a = some s' → Move (view s) (label s a) (view s')

theorem Metered.total (h : Metered step view label P) (B : Book M) {s t : σ} {as : List α}
    (hr : run step s as = some t) (hs : P s) :
    B.total (view t) = B.total (view s) + (tally step (fun s a => (label s a).any B.counts) s as : Nat) := by
  induction as generalizing s with
  | nil =>
      cases hr
      simp [tally]
  | cons a as ih =>
      obtain ⟨s', hs', hr'⟩ := run_cons hr
      rw [ih hr' (h.keeps hs hs'), B.total_move (h.move hs hs')]
      simp only [tally, hs', Option.elim_some, Nat.cast_add, amount]
      exact add_assoc _ _ _

/-- When no call is under way, the counters are exact. -/
theorem Metered.settled (h : Metered step view label P) {s t : σ} {as : List α} (hr : run step s as = some t)
    (hs : P s) (hfresh : (view s).counters = ⟨0, 0, 0, 0⟩) (hempty : (view s).live = 0)
    (hstart : ∀ u, (view s).stage u = .idle) (hidle : ∀ u, (view t).stage u = .idle) :
    (view t).counters.ok = (tally step (fun s a => decide (label s a = some .handOut)) s as : Nat) ∧
    (view t).counters.ok + (view t).counters.failed =
      (tally step (fun s a => decide (label s a = some .allocate)) s as : Nat) ∧
    (view t).counters.frees = (tally step (fun s a => decide (label s a = some .release)) s as : Nat) ∧
    (view t).counters.bytes = ((view t).live.sum : Nat) := by
  have hcounts : ∀ k : Call, (fun s a => (label s a).any fun c => decide (c = k)) =
      fun s a => decide (label s a = some k) := by
    intro k
    funext s a
    cases label s a with
    | none => rfl
    | some c => simp
  have htotal : ∀ B : Book M, B.value (view t).counters (view t).live =
      B.value ⟨0, 0, 0, 0⟩ 0 + (tally step (fun s a => (label s a).any B.counts) s as : Nat) := by
    intro B
    have hrun := h.total B hr hs
    rwa [B.total_of_idle hidle, B.total_of_idle hstart, hfresh, hempty] at hrun
  have hok := htotal successes
  have hcalls := htotal attempts
  have hfrees := htotal returns
  have hsizes := htotal sizes
  simp only [successes, attempts, returns, sizes, hcounts, zero_add, add_zero] at hok hcalls hfrees hsizes
  refine ⟨hok, hcalls, hfrees, ?_⟩
  have hnone : tally step (fun s a => (label s a).any fun _ => false) s as = 0 := by
    rw [show (fun s a => (label s a).any fun _ => false) = fun _ _ => false by simp, tally_false]
  rw [hnone] at hsizes
  simpa [sub_eq_zero] using hsizes

end ArenaAlligator.MeteredCalls
