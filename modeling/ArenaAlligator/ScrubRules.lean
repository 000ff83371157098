import ArenaAlligator.ScrubbedUnits
import Mathlib.Logic.Function.Basic

namespace ArenaAlligator.ScrubRules

open Function ScrubbedUnits

/-- What a party knows about the units from first up to last, which it holds
alone: whether they are as their owner left them, up to which cell they are
zero, and which of them it has seen marked. -/
structure Work where
  first : Nat
  last : Nat
  dirty : Bool
  zeroTo : Nat
  seen : Nat → Prop

namespace Work

def Has (w : Work) (u : Nat) : Prop := w.first ≤ u ∧ u < w.last

def Blank (size : Nat) (w : Work) : Prop := w.zeroTo ≤ w.first * size ∧ ∀ u, ¬w.seen u

end Work

/-- Parties hand units of one memory out and take them back. A unit that comes
back is filled with zeros, marked and set free; a unit that goes out is zero,
because it was found marked or because it is filled then. -/
structure Shared (τ α : Type) where
  mem : Nat → α
  marked : Nat → Prop
  live : Nat → Prop
  work : τ → Option Work

variable {τ α : Type} [DecidableEq τ] [Zero α] {size : Nat}

/-- A unit that its owner may have written since it was marked. -/
def Exposed (s : Shared τ α) (u : Nat) : Prop :=
  s.live u ∨ ∃ t w, s.work t = some w ∧ w.dirty = true ∧ w.Has u

/-- The marks of units that are not exposed can be trusted, and so can what the
parties know. -/
structure Safe (size : Nat) (s : Shared τ α) : Prop where
  clean : Clean size s.marked (Exposed s) s.mem
  zero : ∀ t w, s.work t = some w → ZeroOn s.mem (w.first * size) w.zeroTo
  seen : ∀ t w, s.work t = some w → ∀ u, w.seen u → s.marked u

inductive Move (size : Nat) : Shared τ α → Shared τ α → Prop
  | stay (s) : Move size s s
  | store (s) (p q) (m) (hlive : ∀ u, p ≤ u → u < q → s.live u)
      (hapart : ∀ t w, s.work t = some w → w.last ≤ p ∨ q ≤ w.first)
      (hbound : ∀ t w, s.work t = some w → w.zeroTo ≤ w.last * size)
      (hout : ∀ i, i < p * size ∨ q * size ≤ i → m i = s.mem i) : Move size s { s with mem := m }
  | take (s) (t) (w) (live) (ht : s.work t = none) (hdirty : w.dirty = true) (hblank : w.Blank size)
      (hlive : ∀ u, s.live u → live u ∨ w.Has u) :
      Move size s { s with live := live, work := update s.work t (some w) }
  | fill (s) (t) (w) (ht : s.work t = some w) :
      Move size s { s with
        mem := update s.mem w.zeroTo 0
        work := update s.work t (some { w with zeroTo := w.zeroTo + 1 }) }
  | mark (s) (t) (w) (marked) (ht : s.work t = some w) (hdirty : w.dirty = true)
      (hgrow : ∀ u, s.marked u → marked u) (hown : ∀ u, marked u → s.marked u ∨ w.Has u) :
      Move size s { s with marked := marked }
  | scrubbed (s) (t) (w w') (ht : s.work t = some w) (hall : w.last * size ≤ w.zeroTo) (hclean : w'.dirty = false)
      (hblank : w'.Blank size) : Move size s { s with work := update s.work t (some w') }
  | pass (s) (t) (w') (hold : ∀ w, s.work t = some w → w.dirty = false)
      (hnew : ∀ w, w' = some w → w.dirty = false ∧ w.Blank size) : Move size s { s with work := update s.work t w' }
  | know (s) (t) (w) (zeroTo) (seen) (ht : s.work t = some w) (hzero : zeroTo ≤ w.zeroTo)
      (hseen : ∀ u, seen u → w.seen u ∨ s.marked u) :
      Move size s { s with work := update s.work t (some { w with zeroTo := zeroTo, seen := seen }) }
  | ready (s) (t) (w) (ht : s.work t = some w) (hclean : w.dirty = false) (hseen : ∀ u, w.Has u → w.seen u)
      (hfree : ∀ u, w.Has u → ¬Exposed s u) :
      Move size s { s with work := update s.work t (some { w with zeroTo := w.last * size, seen := fun _ => False }) }
  | hand (s) (t) (w) (live) (ht : s.work t = some w) (hclean : w.dirty = false) (hlive : ∀ u, s.live u → live u) :
      Move size s { s with live := live, work := update s.work t none }

theorem forall_update {work : τ → Option Work} {P : Work → Prop} {t : τ} {x : Option Work}
    (h : ∀ u w, work u = some w → P w) (hx : ∀ w, x = some w → P w) (u : τ) (w : Work)
    (hu : update work t x u = some w) : P w := by
  by_cases hut : u = t
  · rw [hut, update_self] at hu
    exact hx w hu
  · rw [update_of_ne hut] at hu
    exact h u w hu

omit [DecidableEq τ] [Zero α] in
theorem Exposed.elim {s : Shared τ α} {u : Nat} {P : Prop} (h : Exposed s u) (hlive : s.live u → P)
    (hwork : ∀ t w, s.work t = some w → w.dirty = true → w.Has u → P) : P := by
  rcases h with h | ⟨t, w, ht, hdirty, hu⟩
  · exact hlive h
  · exact hwork t w ht hdirty hu

omit [Zero α] in
theorem Exposed.of_update {mem : Nat → α} {marked live : Nat → Prop} {s : Shared τ α} {t : τ}
    {x : Option Work} {u : Nat}
    (h : Exposed s u) (hlive : s.live u → live u ∨ ∃ w, x = some w ∧ w.dirty = true ∧ w.Has u)
    (ht : ∀ w, s.work t = some w → w.dirty = true → w.Has u → ∃ w', x = some w' ∧ w'.dirty = true ∧ w'.Has u) :
    Exposed ⟨mem, marked, live, update s.work t x⟩ u := by
  have hself : (∃ w, x = some w ∧ w.dirty = true ∧ w.Has u) → Exposed ⟨mem, marked, live, update s.work t x⟩ u := by
    rintro ⟨w, hx, hw⟩
    exact Or.inr ⟨t, w, by rw [← hx]; exact update_self _ _ _, hw⟩
  apply h.elim
  · exact fun hl => (hlive hl).elim Or.inl hself
  · intro t' w ht' hdirty hu
    by_cases hne : t' = t
    · subst hne
      exact hself (ht w ht' hdirty hu)
    · exact Or.inr ⟨t', w, (update_of_ne hne _ _).trans ht', hdirty, hu⟩

theorem zeroOn_update {m : Nat → α} {lo hi : Nat} (h : ZeroOn m lo hi) (k : Nat) : ZeroOn (update m k 0) lo hi := by
  intro i hlo hhi
  by_cases hik : i = k
  · rw [hik, update_self]
  · rw [update_of_ne hik]
    exact h i hlo hhi

theorem zeroOn_empty {m : Nat → α} {lo hi : Nat} (h : hi ≤ lo) : ZeroOn m lo hi :=
  fun _ hlo hhi => absurd (hlo.trans_lt hhi) (Nat.not_lt.mpr h)

theorem Safe.work_blank {s : Shared τ α} (hs : Safe size s) {t : τ} {x : Option Work}
    (hx : ∀ w, x = some w → w.Blank size) {live : Nat → Prop}
    (hclean : Clean size s.marked (Exposed ⟨s.mem, s.marked, live, update s.work t x⟩) s.mem) :
    Safe size ⟨s.mem, s.marked, live, update s.work t x⟩ := by
  refine ⟨hclean, ?_, ?_⟩
  · exact forall_update hs.zero fun w hw => zeroOn_empty (hx w hw).1
  · exact forall_update hs.seen fun w hw u hu => absurd hu ((hx w hw).2 u)

theorem Move.safe {s s' : Shared τ α} (h : Move size s s') (hs : Safe size s) : Safe size s' := by
  cases h with
  | stay => exact hs
  | store p q m hlive hapart hbound hout =>
      refine ⟨hs.clean.store (fun u hlo hhi => Or.inl (hlive u hlo hhi)) hout, fun t w ht i hlo hhi => ?_, hs.seen⟩
      have hside : i < p * size ∨ q * size ≤ i := by
        have hle := hbound t w ht
        rcases hapart t w ht with hp | hq
        · have := Nat.mul_le_mul_right size hp
          omega
        · have := Nat.mul_le_mul_right size hq
          omega
      exact (hout i hside).trans (hs.zero t w ht i hlo hhi)
  | take t w live ht hdirty hblank hlive =>
      apply hs.work_blank (by rintro _ ⟨⟩; exact hblank)
      refine hs.clean.own fun u hu => hu.of_update (fun hl => ?_) (by simp [ht])
      exact (hlive u hl).imp_right fun hw => ⟨w, rfl, hdirty, hw⟩
  | fill t w ht =>
      refine ⟨?_, ?_, ?_⟩
      · intro u hu hfree
        refine zeroOn_update (hs.clean u hu fun hexp => hfree ?_) _
        refine hexp.of_update Or.inl fun w' hw' hdirty hin => ?_
        rw [ht] at hw'
        cases hw'
        exact ⟨_, rfl, hdirty, hin⟩
      · apply forall_update fun t' w' ht' => zeroOn_update (hs.zero t' w' ht') _
        rintro _ ⟨⟩ i hlo hhi
        by_cases hik : i = w.zeroTo
        · rw [hik, update_self]
        · simp only at hhi
          rw [update_of_ne hik]
          exact hs.zero t w ht i hlo (by omega)
      · exact forall_update hs.seen (by rintro _ ⟨⟩; exact hs.seen t w ht)
  | mark t w marked ht hdirty hgrow hown =>
      refine ⟨fun u hu hfree => ?_, hs.zero, fun t' w' ht' u hu => hgrow u (hs.seen t' w' ht' u hu)⟩
      have hexp : ¬Exposed s u := hfree
      exact hs.clean u ((hown u hu).resolve_right fun hin => hexp (Or.inr ⟨t, w, ht, hdirty, hin⟩)) hexp
  | scrubbed t w w' ht hall hclean hblank =>
      apply hs.work_blank (by rintro _ ⟨⟩; exact hblank)
      intro u hu hfree
      -- a unit of the party is zero because it was filled, whatever its mark said
      by_cases hin : w.Has u
      · intro i hlo hhi
        apply hs.zero t w ht i
        · exact (Nat.mul_le_mul_right size hin.1).trans hlo
        · exact hhi.trans_le ((Nat.mul_le_mul_right size hin.2).trans hall)
      · refine hs.clean u hu fun hexp => hfree (hexp.of_update Or.inl fun v hv _ hu' => ?_)
        rw [ht] at hv
        cases hv
        exact absurd hu' hin
  | pass t w' hold hnew =>
      apply hs.work_blank fun w hw => (hnew w hw).2
      refine hs.clean.own fun u hu => hu.of_update Or.inl fun w hw hdirty _ => ?_
      rw [hold w hw] at hdirty
      cases hdirty
  | know t w zeroTo seen ht hzero hseen =>
      refine ⟨hs.clean.own fun u hu => hu.of_update Or.inl fun v hv hdirty hin => ?_, ?_, ?_⟩
      · rw [ht] at hv
        cases hv
        exact ⟨_, rfl, hdirty, hin⟩
      · apply forall_update hs.zero
        rintro _ ⟨⟩ i hlo hhi
        exact hs.zero t w ht i hlo (hhi.trans_le hzero)
      · apply forall_update hs.seen
        rintro _ ⟨⟩ u hu
        exact (hseen u hu).elim (hs.seen t w ht u) id
  | ready t w ht hclean hseen hfree =>
      refine ⟨hs.clean.own fun u hu => hu.of_update Or.inl fun v hv hdirty hin => ?_, ?_, ?_⟩
      · rw [ht] at hv
        cases hv
        exact absurd hu (hfree u hin)
      · apply forall_update hs.zero
        rintro _ ⟨⟩
        exact hs.clean.zeroOn fun u hlo hhi => ⟨hs.seen t w ht u (hseen u ⟨hlo, hhi⟩), hfree u ⟨hlo, hhi⟩⟩
      · exact forall_update hs.seen (by rintro _ ⟨⟩ u hu; exact hu.elim)
  | hand t w live ht hclean hlive =>
      apply hs.work_blank (fun w hw => by cases hw)
      refine hs.clean.own fun u hu => hu.of_update (fun hl => Or.inl (hlive u hl)) fun v hv hdirty _ => ?_
      rw [ht] at hv
      cases hv
      rw [hclean] at hdirty
      cases hdirty

end ArenaAlligator.ScrubRules
