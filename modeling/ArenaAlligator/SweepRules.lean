import ArenaAlligator.Runs

namespace ArenaAlligator.SweepRules

open Runs

variable {σ α ι : Type}

/-- A party goes over items that others change meanwhile, and leaves an item
behind only in a state in which it is taken. -/
structure Sweep (step : σ → α → Option σ) (ok : σ → α → Prop) (Inv : σ → Prop) (behind taken : σ → ι → Prop) :
    Prop where
  inv : ∀ {s x s'}, Inv s → ok s x → step s x = some s' → Inv s'
  seen : ∀ {s x s'}, Inv s → ok s x → step s x = some s' → ∀ i, behind s' i → behind s i ∨ taken s i

variable {step : σ → α → Option σ} {ok : σ → α → Prop} {Inv : σ → Prop} {behind taken : σ → ι → Prop}

def Passes (step : σ → α → Option σ) (s : σ) (as : List α) (P : σ → Prop) : Prop :=
  ∃ before after v, as = before ++ after ∧ run step s before = some v ∧ P v

theorem Passes.here {P : σ → Prop} {s : σ} (as : List α) (h : P s) : Passes step s as P := ⟨[], as, s, rfl, rfl, h⟩

theorem Passes.later {P : σ → Prop} {s s' : σ} {x : α} {as : List α} (hs : step s x = some s')
    (h : Passes step s' as P) : Passes step s (x :: as) P := by
  obtain ⟨before, after, v, rfl, hrun, hv⟩ := h
  refine ⟨x :: before, after, v, rfl, ?_, hv⟩
  rw [run, hs, Option.bind_some, hrun]

theorem meets_of_forall {ok : α → Prop} {s : σ} {as : List α} (h : ∀ x ∈ as, ok x) : Meets step (fun _ => ok) s as := by
  induction as generalizing s with
  | nil => trivial
  | cons x xs ih => exact ⟨h x List.mem_cons_self, fun s' _ => ih fun y hy => h y (List.mem_cons_of_mem x hy)⟩

/-- Each item that is behind in the end was taken at an instant of its own. -/
theorem Sweep.each_taken (h : Sweep step ok Inv behind taken) {s t : σ} {as : List α} {i : ι} (hs : Inv s)
    (hok : Meets step ok s as) (hr : run step s as = some t) (hfirst : ¬ behind s i) (hlast : behind t i) :
    Passes step s as fun v => taken v i := by
  induction as generalizing s with
  | nil =>
      cases hr
      exact absurd hlast hfirst
  | cons x xs ih =>
      obtain ⟨s', hs', hr'⟩ := run_cons hr
      by_cases hnext : behind s' i
      · rcases h.seen hs hok.1 hs' i hnext with hbehind | htaken
        · exact absurd hbehind hfirst
        · exact .here _ htaken
      · exact .later hs' (ih (h.inv hs hok.1 hs') (hok.2 s' hs') hr' hnext)

/-- If no item behind the party is given back before the sweep is over, there
is one instant at which all of them are taken. -/
theorem Sweep.all_taken (h : Sweep step ok Inv behind taken) {kept : σ → α → Prop} (ended : σ → Prop) (goal : ι → Prop)
    (hgoal : ∀ s i, ended s → goal i → behind s i)
    (hkeep : ∀ s x s', Inv s → ok s x → kept s x → step s x = some s' → ¬ ended s' →
      ∀ i, behind s' i → taken s i → taken s' i)
    {s t : σ} {as : List α} (hs : Inv s) (hok : Meets step ok s as) (hkept : Meets step kept s as)
    (hr : run step s as = some t) (hclean : ∀ i, behind s i → taken s i) (hended : ended t) :
    Passes step s as fun v => ∀ i, goal i → taken v i := by
  induction as generalizing s with
  | nil =>
      cases hr
      exact .here _ fun i hi => hclean i (hgoal _ i hended hi)
  | cons x xs ih =>
      obtain ⟨s', hs', hr'⟩ := run_cons hr
      have hseen (i : ι) (hi : behind s' i) : taken s i := (h.seen hs hok.1 hs' i hi).elim (hclean i) id
      by_cases hend : ended s'
      · exact .here _ fun i hi => hseen i (hgoal s' i hend hi)
      · refine .later hs' (ih (h.inv hs hok.1 hs') (hok.2 s' hs') (hkept.2 s' hs') hr' fun i hi => ?_)
        exact hkeep s x s' hs hok.1 hkept.1 hs' hend i hi (hseen i hi)

end ArenaAlligator.SweepRules
