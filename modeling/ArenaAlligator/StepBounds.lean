import ArenaAlligator.Runs
import Mathlib.Algebra.Order.BigOperators.Group.Finset

namespace ArenaAlligator.StepBounds

open Runs

variable {σ α τ : Type}

theorem tally_weighted {step : σ → α → Option σ} {ok : σ → α → Prop} (P : σ → Prop) (Φ : σ → Nat)
    (gain cost : σ → α → Bool) (w : Nat) {s t : σ} {as : List α} (hr : run step s as = some t)
    (hok : Meets step ok s as) (hs : P s)
    (hstep : ∀ s a s', P s → ok s a → step s a = some s' →
      P s' ∧ (gain s a).toNat + Φ s' ≤ Φ s + w * (cost s a).toNat) :
    tally step gain s as + Φ t ≤ Φ s + w * tally step cost s as := by
  induction as generalizing s with
  | nil =>
      cases hr
      simp [tally]
  | cons a as ih =>
      obtain ⟨s', hs', hr'⟩ := run_cons hr
      obtain ⟨hP, hle⟩ := hstep s a s' hs hok.1 hs'
      have hrest := ih hr' (hok.2 s' hs') hP
      simp only [tally, hs', Option.elim_some, Nat.mul_add]
      omega

theorem meets_le_last {step : σ → α → Option σ} (f : σ → Nat) (hmono : ∀ s a s', step s a = some s' → f s ≤ f s')
    {s t : σ} {as : List α} (hr : run step s as = some t) : f s ≤ f t ∧ Meets step (fun v _ => f v ≤ f t) s as := by
  induction as generalizing s with
  | nil =>
      cases hr
      exact ⟨le_rfl, trivial⟩
  | cons a as ih =>
      obtain ⟨s', hs', hr'⟩ := run_cons hr
      obtain ⟨hle, hmeets⟩ := ih hr'
      have hfirst := (hmono s a s' hs').trans hle
      refine ⟨hfirst, hfirst, fun v hv => ?_⟩
      cases hs'.symm.trans hv
      exact hmeets

theorem meets_and {step : σ → α → Option σ} {p q : σ → α → Prop} {s : σ} {as : List α} (hp : Meets step p s as)
    (hq : Meets step q s as) : Meets step (fun v a => p v a ∧ q v a) s as := by
  induction as generalizing s with
  | nil => trivial
  | cons a as ih => exact ⟨⟨hp.1, hq.1⟩, fun s' hs' => ih (hp.2 s' hs') (hq.2 s' hs')⟩

/-- A system whose parties act one at a time, in calls and operations. A call
raises the rank of its party to at most a bound. An operation lowers the rank
of its party by one, and by the charge if it takes, and then raises the other
ranks by at most the cost of a retry. -/
structure Ranked (step : σ → α → Option σ) (mover : α → τ) (calls : α → Bool) (takes : σ → α → Bool)
    (rank : Nat → σ → τ → Nat) (retry : Nat) (bound : Nat → Nat) (P : σ → Prop) : Prop where
  keeps : ∀ {s a s'}, P s → step s a = some s' → P s'
  operation : ∀ (charge : Nat) {s a s'}, P s → step s a = some s' → calls a = false →
    rank charge s' (mover a) + 1 + charge * (takes s a).toNat ≤ rank charge s (mover a)
  call : ∀ (charge : Nat) {s a s'}, P s → step s a = some s' → calls a = true →
    takes s a = false ∧ rank charge s' (mover a) ≤ bound charge
  other : ∀ (charge : Nat) {s a s' u}, P s → step s a = some s' → u ≠ mover a →
    rank charge s' u ≤ rank charge s u + retry * (takes s a).toNat

variable {step : σ → α → Option σ} {mover : α → τ} {calls : α → Bool} {takes : σ → α → Bool}
  {rank : Nat → σ → τ → Nat} {retry : Nat} {bound : Nat → Nat} {P : σ → Prop} {s s' : σ} {as : List α}

section Total

variable [DecidableEq τ] [Fintype τ]

theorem sum_rank_le {f g : τ → Nat} (t : τ) (k : Nat) (h : ∀ u, u ≠ t → g u ≤ f u + k) :
    (∑ u, g u) + f t ≤ (∑ u, f u) + g t + k * Fintype.card τ := by
  have hf := Finset.sum_erase_add Finset.univ f (Finset.mem_univ t)
  have hg := Finset.sum_erase_add Finset.univ g (Finset.mem_univ t)
  have hrest : ∑ u ∈ Finset.univ.erase t, g u ≤ ∑ u ∈ Finset.univ.erase t, (f u + k) :=
    Finset.sum_le_sum fun u hu => h u (Finset.ne_of_mem_erase hu)
  have hcard : (Finset.univ.erase t).card ≤ Fintype.card τ := Finset.card_le_univ _
  rw [Finset.sum_add_distrib, Finset.sum_const_nat fun _ _ => rfl] at hrest
  have hk := Nat.mul_le_mul_left k hcard
  rw [Nat.mul_comm] at hrest
  omega

/-- The operations of a whole run are bounded by its calls. -/
theorem Ranked.total (h : Ranked step mover calls takes rank retry bound P) (hr : run step s as = some s') (hs : P s) :
    tally step (fun _ a => !calls a) s as + ∑ u, rank (retry * Fintype.card τ) s' u ≤
      (∑ u, rank (retry * Fintype.card τ) s u) +
        bound (retry * Fintype.card τ) * tally step (fun _ a => calls a) s as := by
  apply tally_weighted P (fun s => ∑ u, rank (retry * Fintype.card τ) s u) _ _ _ hr (meets_true s as) hs
  intro s a s' hs _ hstep
  refine ⟨h.keeps hs hstep, ?_⟩
  have hsum := sum_rank_le (mover a) (retry * (takes s a).toNat) fun u hu =>
    h.other (retry * Fintype.card τ) hs hstep hu
  cases hcall : calls a with
  | false =>
      have hself := h.operation (retry * Fintype.card τ) hs hstep hcall
      rw [Nat.mul_right_comm] at hself
      simp only [Bool.not_false, Bool.toNat_true, Bool.toNat_false, Nat.mul_zero, Nat.add_zero]
      omega
  | true =>
      obtain ⟨hnone, hself⟩ := h.call (retry * Fintype.card τ) hs hstep hcall
      simp only [hnone, Bool.toNat_false, Nat.mul_zero, Nat.zero_mul, Nat.add_zero] at hsum
      simp only [Bool.not_true, Bool.toNat_true, Bool.toNat_false, Nat.mul_one, Nat.zero_add]
      omega

end Total

/-- The operations of one party during a call are bounded by its rank and by
what the others take meanwhile. -/
theorem Ranked.own [DecidableEq τ] (h : Ranked step mover calls takes rank retry bound P)
    (hr : run step s as = some s') (hs : P s) (t : τ)
    (hcall : Meets step (fun _ a => mover a = t → calls a = false) s as) :
    tally step (fun _ a => decide (mover a = t)) s as + rank 0 s' t ≤
      rank 0 s t + retry * tally step (fun v a => decide (mover a ≠ t) && takes v a) s as := by
  apply tally_weighted P (fun s => rank 0 s t) _ _ _ hr hcall hs
  intro s a s' hs hno hstep
  refine ⟨h.keeps hs hstep, ?_⟩
  by_cases hmover : mover a = t
  · have hself := h.operation 0 hs hstep (hno hmover)
    rw [hmover] at hself
    simp only [hmover, decide_true, Bool.toNat_true, ne_eq, not_true, decide_false, Bool.false_and, Bool.toNat_false]
    omega
  · have hother := h.other 0 hs hstep (Ne.symm hmover)
    simp only [hmover, decide_false, Bool.toNat_false, ne_eq, not_false_iff, decide_true, Bool.true_and]
    omega

end ArenaAlligator.StepBounds
