import Mathlib.Algebra.BigOperators.Group.Finset.Basic
import Mathlib.Algebra.BigOperators.Group.Finset.Piecewise
import Mathlib.Tactic.Abel

namespace ArenaAlligator.Runs

open Function

variable {σ α : Type}

/-- The parties of a schedule of two are the literals of Fin 2. -/
instance twoParties : NeZero 2 := ⟨Nat.succ_ne_zero 1⟩

/-- Execute a schedule of actions. A schedule that names a disabled action
has no outcome. -/
def run (step : σ → α → Option σ) : σ → List α → Option σ
  | s, [] => some s
  | s, a :: as => (step s a).bind fun s' => run step s' as

def Reachable (step : σ → α → Option σ) (init s : σ) : Prop := ∃ as, run step init as = some s

/-- Every action of the schedule is taken in a state that satisfies the
condition, as far as the schedule can be executed. -/
def Meets (step : σ → α → Option σ) (ok : σ → α → Prop) : σ → List α → Prop
  | _, [] => True
  | s, a :: as => ok s a ∧ ∀ s', step s a = some s' → Meets step ok s' as

/-- How many actions of the schedule are events, judged in the state in which
each is taken. -/
def tally (step : σ → α → Option σ) (event : σ → α → Bool) : σ → List α → Nat
  | _, [] => 0
  | s, a :: as => (event s a).toNat + (step s a).elim 0 fun s' => tally step event s' as

/-- The largest value of a measure in the states of a run. -/
def peak (step : σ → α → Option σ) (f : σ → Nat) : σ → List α → Nat
  | s, [] => f s
  | s, a :: as => max (f s) ((step s a).elim 0 fun s' => peak step f s' as)

variable {step : σ → α → Option σ}

theorem run_cons {s t : σ} {a : α} {as : List α} (h : run step s (a :: as) = some t) :
    ∃ s', step s a = some s' ∧ run step s' as = some t :=
  Option.bind_eq_some_iff.mp h

theorem run_eq_some_getD {s d : σ} {as : List α} (h : (run step s as).isSome = true) :
    run step s as = some ((run step s as).getD d) := by
  obtain ⟨t, ht⟩ := Option.isSome_iff_exists.mp h
  rw [ht]
  rfl

theorem run_preserves_of_meets {ok : σ → α → Prop} (Inv : σ → Prop)
    (hstep : ∀ s a s', Inv s → ok s a → step s a = some s' → Inv s')
    {s t : σ} {as : List α} (hs : Inv s) (hok : Meets step ok s as) (hr : run step s as = some t) :
    Inv t := by
  induction as generalizing s with
  | nil => exact Option.some.inj hr ▸ hs
  | cons a as ih =>
      obtain ⟨s', hs', hr'⟩ := run_cons hr
      exact ih (hstep s a s' hs hok.1 hs') (hok.2 s' hs') hr'

instance decidableMeets (ok : σ → α → Prop) [∀ s a, Decidable (ok s a)] :
    (s : σ) → (as : List α) → Decidable (Meets step ok s as)
  | _, [] => isTrue trivial
  | s, a :: as =>
      match h : step s a with
      | none => decidable_of_iff (ok s a) ⟨fun ho => ⟨ho, fun _ hs => by simp [h] at hs⟩, And.left⟩
      | some s' =>
          have := decidableMeets ok s' as
          decidable_of_iff (ok s a ∧ Meets step ok s' as)
            (and_congr_right fun _ => ⟨fun hm t ht => Option.some.inj (h.symm.trans ht) ▸ hm, fun hm => hm s' h⟩)

theorem meets_true (s : σ) (as : List α) : Meets step (fun _ _ => True) s as := by
  induction as generalizing s with
  | nil => trivial
  | cons a as ih => exact ⟨trivial, fun s' _ => ih s'⟩

theorem run_preserves (Inv : σ → Prop) (hstep : ∀ s a s', Inv s → step s a = some s' → Inv s')
    {s t : σ} {as : List α} (hs : Inv s) (hr : run step s as = some t) : Inv t :=
  run_preserves_of_meets Inv (fun s a s' hi _ => hstep s a s' hi) hs (meets_true s as) hr

theorem Reachable.invariant (Inv : σ → Prop) {init s : σ} (hinit : Inv init)
    (hstep : ∀ s a s', Inv s → step s a = some s' → Inv s') (h : Reachable step init s) : Inv s := by
  obtain ⟨as, has⟩ := h
  exact run_preserves Inv hstep hinit has

/-- When every step pays for its gain out of a potential or with a cost, so does
every run. -/
theorem tally_potential {ok : σ → α → Prop} (Inv : σ → Prop) (Φ : σ → Nat) (gain cost : σ → α → Bool)
    {s t : σ} {as : List α} (hr : run step s as = some t) (hok : Meets step ok s as) (hs : Inv s)
    (hstep : ∀ s a s', Inv s → ok s a → step s a = some s' →
      Inv s' ∧ (gain s a).toNat + Φ s' ≤ Φ s + (cost s a).toNat) :
    tally step gain s as + Φ t ≤ Φ s + tally step cost s as := by
  induction as generalizing s with
  | nil =>
      cases hr
      simp [tally]
  | cons a as ih =>
      obtain ⟨s', hs', hr'⟩ := run_cons hr
      obtain ⟨hinv, hle⟩ := hstep s a s' hs hok.1 hs'
      have hrest := ih hr' (hok.2 s' hs') hinv
      simp only [tally, hs', Option.elim_some]
      omega

theorem le_peak (f : σ → Nat) (s : σ) (as : List α) : f s ≤ peak step f s as := by
  cases as with
  | nil => exact Nat.le_refl _
  | cons a as => exact Nat.le_max_left _ _

theorem le_peak_add {ok : σ → α → Prop} (Inv : σ → Prop) (f g : σ → Nat) (c : Nat) {s t : σ} {as : List α}
    (hr : run step s as = some t) (hok : Meets step ok s as) (hs : Inv s) {b : Nat} (hb : g s ≤ b + c)
    (hstep : ∀ s a s', Inv s → ok s a → step s a = some s' → Inv s' ∧ (g s' ≤ g s ∨ g s' ≤ f s' + c)) :
    g t ≤ max b (peak step f s as) + c := by
  induction as generalizing s b with
  | nil =>
      cases hr
      exact hb.trans (Nat.add_le_add_right (Nat.le_max_left _ _) c)
  | cons a as ih =>
      obtain ⟨s', hs', hr'⟩ := run_cons hr
      obtain ⟨hinv, hle⟩ := hstep s a s' hs hok.1 hs'
      have hpeak : peak step f s (a :: as) = max (f s) (peak step f s' as) := by simp only [peak, hs', Option.elim_some]
      rw [hpeak]
      rcases hle with hle | hle
      · have hrest := ih hr' (hok.2 s' hs') hinv (hle.trans hb)
        omega
      · have hrest := ih hr' (hok.2 s' hs') hinv hle
        have hself : f s' ≤ peak step f s' as := le_peak f s' as
        omega

theorem tally_false (s : σ) (as : List α) : tally step (fun _ _ => false) s as = 0 := by
  induction as generalizing s with
  | nil => rfl
  | cons a as ih =>
      cases hs : step s a with
      | none => simp [tally, hs]
      | some s' => simp [tally, hs, ih s']

section Parties

variable {τ π M : Type} [DecidableEq τ] [AddCommMonoid M]

theorem sum_change_on {s : Finset τ} {f g : τ → M} {t : τ} (ht : t ∈ s) (h : ∀ u, u ≠ t → f u = g u) :
    (∑ u ∈ s, f u) + g t = (∑ u ∈ s, g u) + f t := by
  have hrest : ∑ u ∈ s.erase t, f u = ∑ u ∈ s.erase t, g u :=
    Finset.sum_congr rfl fun u hu => h u (Finset.ne_of_mem_erase hu)
  rw [← Finset.add_sum_erase _ f ht, ← Finset.add_sum_erase _ g ht, hrest]
  abel

variable [Fintype τ]

theorem sum_change {f g : τ → M} (t : τ) (h : ∀ u, u ≠ t → f u = g u) : (∑ u, f u) + g t = (∑ u, g u) + f t :=
  sum_change_on (Finset.mem_univ t) h

theorem sum_update (f : π → M) (pc : τ → π) (t : τ) (p : π) :
    (∑ u, f (update pc t p u)) + f (pc t) = (∑ u, f (pc u)) + f p := by
  have h := sum_change (f := fun u => f (update pc t p u)) (g := fun u => f (pc u)) t fun u hu => by
    rw [update_of_ne hu]
  rwa [update_self] at h

end Parties

end ArenaAlligator.Runs
