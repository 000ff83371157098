import Mathlib.Data.List.Nodup
import Mathlib.Logic.Function.Basic

namespace ArenaAlligator

open Function

/-- A future of a notifier: not enabled, in the list, taken from the list by a
notification, or completed by a permit or a poll. -/
inductive Future
  | init
  | waiting
  | notified
  | done
deriving DecidableEq, Repr

/-- A notifier with a FIFO list of waiting futures and at most one stored
permit. A future is named by its owner, who has one at a time. -/
structure Notify (ι : Type) where
  waiting : List ι := []
  permit : Bool := false
  future : ι → Future := fun _ => .init

namespace Notify

variable {ι : Type} [DecidableEq ι]

def setFuture (n : Notify ι) (i : ι) (f : Future) : Notify ι := { n with future := update n.future i f }

def notifyOne (n : Notify ι) : Notify ι :=
  match n.waiting with
  | [] => { n with permit := true }
  | i :: rest => { n with waiting := rest }.setFuture i .notified

def enable (n : Notify ι) (i : ι) : Notify ι :=
  match n.future i with
  | .init =>
      if n.permit then { n with permit := false }.setFuture i .done
      else { n with waiting := n.waiting ++ [i] }.setFuture i .waiting
  | .notified => n.setFuture i .done
  | .waiting | .done => n

def poll (n : Notify ι) (i : ι) : Bool × Notify ι :=
  let n := n.enable i
  (n.future i = .done, n)

/-- A notification that its future has not consumed is passed on. -/
def drop (n : Notify ι) (i : ι) : Notify ι :=
  match n.future i with
  | .waiting => { n with waiting := n.waiting.erase i }.setFuture i .init
  | .notified => (n.setFuture i .init).notifyOne
  | .init | .done => n.setFuture i .init

structure Proper (n : Notify ι) : Prop where
  nodup : n.waiting.Nodup
  mem_iff : ∀ i, i ∈ n.waiting ↔ n.future i = .waiting
  permit : n.permit = true → n.waiting = []

variable {n : Notify ι} {i j : ι}

@[simp] theorem setFuture_self (n : Notify ι) (i : ι) (f : Future) : (n.setFuture i f).future i = f := by
  simp [setFuture]

theorem setFuture_of_ne (n : Notify ι) (h : j ≠ i) (f : Future) : (n.setFuture i f).future j = n.future j := by
  simp [setFuture, h]

omit [DecidableEq ι] in
theorem new_proper : (({} : Notify ι)).Proper := ⟨List.nodup_nil, by simp, fun _ => rfl⟩

theorem Proper.setFuture (h : n.Proper) {f : Future} (hi : n.future i ≠ .waiting) (hf : f ≠ .waiting) :
    (n.setFuture i f).Proper := by
  refine ⟨h.nodup, fun j => ?_, h.permit⟩
  by_cases hj : j = i
  · subst hj
    rw [setFuture_self]
    exact ⟨fun hm => absurd ((h.mem_iff j).mp hm) hi, fun hm => absurd hm hf⟩
  · rw [setFuture_of_ne n hj]
    exact h.mem_iff j

inductive Notified (n : Notify ι) : Notify ι → Prop
  | store (h : n.waiting = []) : Notified n { n with permit := true }
  | take (i : ι) (rest : List ι) (h : n.waiting = i :: rest) (hi : n.future i = .waiting) :
      Notified n ({ n with waiting := rest }.setFuture i .notified)

theorem notifyOne_notified (h : n.Proper) : Notified n n.notifyOne := by
  rw [notifyOne]
  split
  next hw => exact .store hw
  next i rest hw => exact .take i rest hw ((h.mem_iff i).mp (hw ▸ List.mem_cons_self))

theorem Notified.proper {m : Notify ι} (hm : Notified n m) (h : n.Proper) : m.Proper := by
  cases hm with
  | store hw => exact ⟨h.nodup, h.mem_iff, fun _ => hw⟩
  | take i rest hw hi =>
      have hnd := h.nodup
      rw [hw, List.nodup_cons] at hnd
      refine ⟨hnd.2, fun j => ?_, fun hp => ?_⟩
      · by_cases hj : j = i
        · subst hj
          rw [setFuture_self]
          exact ⟨fun hm => absurd hm hnd.1, fun hf => by cases hf⟩
        · rw [setFuture_of_ne _ hj]
          have hold := h.mem_iff j
          rw [hw, List.mem_cons] at hold
          exact ⟨fun hm => hold.mp (Or.inr hm), fun hf => (hold.mpr hf).resolve_left hj⟩
      · rw [h.permit hp] at hw
        cases hw

theorem notifyOne_proper (h : n.Proper) : n.notifyOne.Proper := (notifyOne_notified h).proper h

theorem enable_proper (h : n.Proper) (i : ι) : (n.enable i).Proper := by
  rw [enable]
  split
  next hf =>
    have hout : n.future i ≠ .waiting := by rw [hf]; exact Future.noConfusion
    split
    next hp =>
      have hn : ({ n with permit := false } : Notify ι).Proper := ⟨h.nodup, h.mem_iff, fun hp => by cases hp⟩
      exact hn.setFuture hout Future.noConfusion
    next hp =>
      have hnot : i ∉ n.waiting := fun hm => hout ((h.mem_iff i).mp hm)
      refine ⟨List.nodup_append.mpr ⟨h.nodup, List.nodup_singleton i, ?_⟩, fun j => ?_, fun hp' => absurd hp' hp⟩
      · intro a ha b hb hab
        rw [List.mem_singleton] at hb
        exact hnot (hb ▸ hab ▸ ha)
      · by_cases hj : j = i
        · subst hj
          simp [Notify.setFuture]
        · rw [setFuture_of_ne _ hj]
          simp [Notify.setFuture, hj, h.mem_iff j]
  next hf => exact h.setFuture (by rw [hf]; exact Future.noConfusion) Future.noConfusion
  next => exact h
  next => exact h

theorem drop_proper (h : n.Proper) (i : ι) : (n.drop i).Proper := by
  rw [drop]
  split
  next hf =>
    refine ⟨h.nodup.erase i, fun j => ?_, fun hp => ?_⟩
    · by_cases hj : j = i
      · subst hj
        rw [setFuture_self]
        exact ⟨fun hm => absurd hm h.nodup.not_mem_erase, fun hm => by cases hm⟩
      · rw [setFuture_of_ne _ hj, ← h.mem_iff j]
        exact List.mem_erase_of_ne hj
    · change n.waiting.erase i = []
      rw [h.permit hp]
      rfl
  next hf => exact notifyOne_proper (h.setFuture (by rw [hf]; exact Future.noConfusion) Future.noConfusion)
  next hf => exact h.setFuture (by rw [hf]; exact Future.noConfusion) Future.noConfusion
  next hf => exact h.setFuture (by rw [hf]; exact Future.noConfusion) Future.noConfusion

theorem notifyOne_future (h : n.Proper) (j : ι) :
    n.notifyOne.future j = n.future j ∨ n.future j = .waiting ∧ n.notifyOne.future j = .notified := by
  have hn := notifyOne_notified h
  generalize n.notifyOne = m at hn ⊢
  cases hn with
  | store hw => exact Or.inl rfl
  | take i rest hw hi =>
      by_cases hj : j = i
      · subst hj
        exact Or.inr ⟨hi, setFuture_self _ _ _⟩
      · exact Or.inl (setFuture_of_ne _ hj _)

theorem enable_of_ne (n : Notify ι) (h : j ≠ i) : (n.enable i).future j = n.future j := by
  rw [enable]
  split
  · split <;> exact setFuture_of_ne _ h _
  · exact setFuture_of_ne _ h _
  · rfl
  · rfl

theorem enable_self (n : Notify ι) (i : ι) :
    (n.enable i).future i = .waiting ∧ (n.future i = .waiting ∨ n.future i = .init ∧ n.permit = false) ∨
    (n.enable i).future i = .done ∧ n.future i ≠ .waiting := by
  rw [enable]
  cases hf : n.future i with
  | init => cases hp : n.permit <;> simp
  | waiting => simp [hf]
  | notified => simp
  | done => simp [hf]

theorem poll_pending (hi : n.future i ≠ .init) (h : (n.poll i).1 = false) :
    (n.poll i).2 = n ∧ n.future i = .waiting := by
  cases hf : n.future i with
  | init => exact absurd hf hi
  | waiting => simp [poll, enable, hf]
  | notified => simp [poll, enable, hf] at h
  | done => simp [poll, enable, hf] at h

theorem poll_ready (hi : n.future i ≠ .init) (h : (n.poll i).1 = true) :
    (n.future i = .notified ∨ n.future i = .done) ∧ (n.poll i).2.permit = n.permit := by
  cases hf : n.future i with
  | init => exact absurd hf hi
  | waiting => simp [poll, enable, hf] at h
  | notified => simp [poll, enable, hf, setFuture]
  | done => simp [poll, enable, hf]

theorem drop_of_ne (n : Notify ι) (hi : n.future i ≠ .notified) (h : j ≠ i) : (n.drop i).future j = n.future j := by
  rw [drop]
  split
  · exact setFuture_of_ne _ h _
  next hf => exact absurd hf hi
  · exact setFuture_of_ne _ h _
  · exact setFuture_of_ne _ h _

theorem drop_self (n : Notify ι) (hi : n.future i ≠ .notified) : (n.drop i).future i = .init := by
  rw [drop]
  split
  · exact setFuture_self _ _ _
  next hf => exact absurd hf hi
  · exact setFuture_self _ _ _
  · exact setFuture_self _ _ _

theorem drop_notified (n : Notify ι) (hi : n.future i = .notified) : n.drop i = (n.setFuture i .init).notifyOne := by
  rw [drop, hi]

theorem notifyOne_drop_done (h : n.Proper) (hi : n.future i = .done) :
    n.notifyOne.drop i = (n.setFuture i .init).notifyOne := by
  have hdone : n.notifyOne.future i = .done := by
    rcases notifyOne_future h i with hf | ⟨hf, -⟩
    · rw [hf, hi]
    · rw [hi] at hf
      cases hf
  rw [drop, hdone]
  simp only [notifyOne, setFuture]
  cases hw : n.waiting with
  | nil => rfl
  | cons j rest =>
      have hne : i ≠ j := by
        rintro rfl
        rw [(h.mem_iff i).mp (hw ▸ List.mem_cons_self)] at hi
        cases hi
      simp only [update_comm hne]

end Notify

end ArenaAlligator
