import ArenaAlligator.Notify
import ArenaAlligator.Runs
import Mathlib.Algebra.BigOperators.Group.Finset.Basic
import Mathlib.Data.Finset.Card

namespace ArenaAlligator.HandoffRules

open Function Runs

variable {τ α : Type} [DecidableEq τ] [DecidableEq α]

def ahead (n : Notify τ) (t : τ) : Nat := n.waiting.idxOf t

variable {n : Notify τ} {t u : τ}

theorem ahead_enable (h : n.Proper) (ht : n.future t = .waiting) : ahead (n.enable u) t = ahead n t := by
  have hmem : t ∈ n.waiting := (h.mem_iff t).mpr ht
  unfold Notify.enable
  cases n.future u with
  | init =>
      cases n.permit with
      | true => rfl
      | false => exact List.idxOf_append_of_mem hmem
  | waiting | notified | done => rfl

theorem ahead_notifyOne (h : n.Proper) (ht : n.notifyOne.future t = .waiting) :
    ahead n.notifyOne t + 1 = ahead n t := by
  have hold : n.future t = .waiting := by
    rcases Notify.notifyOne_future h t with hf | ⟨hf, -⟩
    · exact hf ▸ ht
    · exact hf
  have hmem : t ∈ n.waiting := (h.mem_iff t).mpr hold
  have hn := Notify.notifyOne_notified h
  generalize n.notifyOne = m at hn ht ⊢
  cases hn with
  | store hw => exact absurd hmem (hw ▸ List.not_mem_nil)
  | take i rest hw hi =>
      have hne : i ≠ t := by
        rintro rfl
        rw [Notify.setFuture_self] at ht
        cases ht
      rw [ahead, ahead, hw, List.idxOf_cons_ne rest hne]
      rfl

theorem idxOf_erase_le {l : List τ} (hl : l.Nodup) (h : t ≠ u) : (l.erase u).idxOf t ≤ l.idxOf t := by
  induction l with
  | nil => exact le_rfl
  | cons x l ih =>
      obtain ⟨hx, hl⟩ := List.nodup_cons.mp hl
      by_cases hxu : x = u
      · subst hxu
        rw [List.erase_cons_head, List.idxOf_cons_ne l h.symm]
        exact Nat.le_succ _
      · rw [List.erase_cons_tail (by simpa using hxu)]
        by_cases hxt : x = t
        · subst hxt
          rw [List.idxOf_cons_self]
          exact Nat.zero_le _
        · rw [List.idxOf_cons_ne _ hxt, List.idxOf_cons_ne _ hxt]
          exact Nat.succ_le_succ (ih hl)

theorem ahead_drop (h : n.Proper) (hu : n.future u ≠ .notified) (ht : (n.drop u).future t = .waiting) :
    ahead (n.drop u) t ≤ ahead n t := by
  have hne : t ≠ u := by
    rintro rfl
    rw [Notify.drop_self n hu] at ht
    cases ht
  unfold Notify.drop
  cases hf : n.future u with
  | waiting => exact idxOf_erase_le h.nodup hne
  | notified => exact absurd hf hu
  | init | done => exact le_rfl

theorem drop_future_self (h : n.Proper) : (n.drop u).future u = .init := by
  by_cases hf : n.future u = .notified
  · have hproper : (n.setFuture u .init).Proper := h.setFuture (by simp [hf]) (by simp)
    rw [Notify.drop_notified n hf]
    rcases Notify.notifyOne_future hproper u with hsame | ⟨hold, -⟩
    · rw [hsame, Notify.setFuture_self]
    · rw [Notify.setFuture_self] at hold
      cases hold
  · exact Notify.drop_self n hf

theorem drop_future_of_ne (h : n.Proper) (hne : t ≠ u) :
    (n.drop u).future t = n.future t ∨ n.future t = .waiting ∧ (n.drop u).future t = .notified := by
  by_cases hf : n.future u = .notified
  · have hproper : (n.setFuture u .init).Proper := h.setFuture (by simp [hf]) (by simp)
    rw [Notify.drop_notified n hf, ← Notify.setFuture_of_ne n hne .init]
    exact Notify.notifyOne_future hproper t
  · exact Or.inl (Notify.drop_of_ne n hf hne)

variable [Fintype τ]

def unseen (n : Notify τ) : Nat := ∑ t, (decide (n.future t = .notified)).toNat

theorem unseen_setFuture (n : Notify τ) (t : τ) (f : Future) :
    unseen (n.setFuture t f) + (decide (n.future t = .notified)).toNat =
      unseen n + (decide (f = .notified)).toNat :=
  sum_update (fun f : Future => (decide (f = .notified)).toNat) n.future t f

theorem unseen_notifyOne (h : n.Proper) (hw : n.waiting ≠ []) : unseen n.notifyOne = unseen n + 1 := by
  have hn := Notify.notifyOne_notified h
  generalize n.notifyOne = m at hn ⊢
  cases hn with
  | store he => exact absurd he hw
  | take i rest he hi =>
      have hsum := unseen_setFuture { n with waiting := rest } i .notified
      simp only [hi] at hsum
      exact hsum

theorem unseen_enable (n : Notify τ) (t : τ) :
    unseen n ≤ unseen (n.enable t) + (decide (n.future t = .notified)).toNat := by
  unfold Notify.enable
  cases hf : n.future t with
  | init =>
      cases n.permit with
      | true =>
          have hsum := unseen_setFuture { n with permit := false } t .done
          simp only [hf] at hsum
          exact hsum.ge
      | false =>
          have hsum := unseen_setFuture { n with waiting := n.waiting ++ [t] } t .waiting
          simp only [hf] at hsum
          exact hsum.ge
  | notified =>
      have hsum := unseen_setFuture n t .done
      rw [hf] at hsum
      exact hsum.ge
  | waiting | done => exact Nat.le_add_right _ _

theorem unseen_drop (h : n.Proper) (ht : n.future t = .waiting) : unseen n ≤ unseen (n.drop u) := by
  unfold Notify.drop
  cases hf : n.future u with
  | waiting =>
      have hsum := unseen_setFuture { n with waiting := n.waiting.erase u } u .init
      simp only [hf] at hsum
      exact hsum.ge
  | notified =>
      have hproper : (n.setFuture u .init).Proper := h.setFuture (by simp [hf]) (by simp)
      have hmem : t ∈ n.waiting := (h.mem_iff t).mpr ht
      have hone := unseen_notifyOne hproper (List.ne_nil_of_mem hmem)
      have hsum := unseen_setFuture n u .init
      simp only [hf] at hsum hone ⊢
      rw [hone]
      exact hsum.ge
  | init | done =>
      have hsum := unseen_setFuture n u .init
      simp only [hf] at hsum
      exact hsum.ge

/-- The free items, the notifier, the items that each party has looked at in
vain since it enabled its future, and the notifications that each party owes. -/
structure Board (τ α : Type) where
  free : Finset α
  notify : Notify τ
  missed : τ → Finset α
  owed : τ → Nat

def Board.tokens (b : Board τ α) : Nat := (∑ t, b.owed t) + unseen b.notify

/-- An item that became free behind the back of a waiting party comes with a
notification. -/
structure Board.Funded (b : Board τ α) : Prop where
  proper : b.notify.Proper
  funded : ∀ t, b.notify.future t = .waiting → (b.free ∩ b.missed t).card ≤ b.tokens

/-- What the parties do, with the number of notifications that this gives. A
party looks at items and may claim some, a party that was notified owes a
notification once it has polled, and a debt may lapse when no waiting party has
looked at anything yet. -/
inductive Move (b : Board τ α) : Nat → Board τ α → Prop
  | stay : Move b 0 b
  | look (t : τ) (free items : Finset α) (hfree : free ⊆ b.free) (h : ∀ x ∈ items, x ∈ b.missed t ∨ x ∉ b.free) :
      Move b 0 { b with free := free, missed := update b.missed t items }
  | release (t : τ) (x : α) :
      Move b 0 { b with free := insert x b.free, owed := update b.owed t (b.owed t + 1) }
  | enable (t : τ) (ht : b.notify.future t = .init) (h : b.missed t = ∅) :
      Move b 0 { b with notify := b.notify.enable t }
  | poll (t : τ) (ht : b.notify.future t = .notified ∨ b.notify.future t = .done) :
      Move b 0 { b with
        notify := b.notify.enable t
        missed := update b.missed t ∅
        owed := update b.owed t (b.owed t + 1) }
  | hand (t : τ) (k : Nat) (ht : b.owed t = k + 1) :
      Move b 1 { b with notify := b.notify.notifyOne, owed := update b.owed t k }
  | lapse (t : τ) (k : Nat) (h : ∀ u, b.notify.future u = .waiting → b.missed u = ∅) :
      Move b 0 { b with owed := update b.owed t k }
  | drop (t : τ) (h : b.missed t = ∅) :
      Move b (decide (b.notify.future t = .notified)).toNat { b with notify := b.notify.drop t }

variable {b c : Board τ α} {k : Nat}

omit [DecidableEq α] in
theorem owed_update (owed : τ → Nat) (t : τ) (k : Nat) : (∑ u, update owed t k u) + owed t = (∑ u, owed u) + k :=
  sum_update id owed t k

omit [Fintype τ] in
theorem Move.proper (h : Move b k c) (hb : b.notify.Proper) : c.notify.Proper := by
  cases h with
  | stay | look | release | lapse => exact hb
  | enable t | poll t => exact Notify.enable_proper hb t
  | hand => exact Notify.notifyOne_proper hb
  | drop t => exact Notify.drop_proper hb t

/-- No notification is lost while a party waits that has looked at something. -/
theorem Move.tokens_le (h : Move b k c) (hb : b.notify.Proper) {t : τ} (ht : b.notify.future t = .waiting)
    (hmissed : c.missed t ≠ ∅) : b.tokens ≤ c.tokens := by
  cases h with
  | stay | look => exact le_rfl
  | release u x =>
      have hsum := owed_update b.owed u (b.owed u + 1)
      simp only [Board.tokens]
      omega
  | enable u hu hnone =>
      have hle := unseen_enable b.notify u
      simp only [hu, reduceCtorEq, decide_false, Bool.toNat_false, Nat.add_zero] at hle
      exact Nat.add_le_add_left hle _
  | poll u hu =>
      have hle := unseen_enable b.notify u
      have hone := Bool.toNat_le (decide (b.notify.future u = .notified))
      have hsum := owed_update b.owed u (b.owed u + 1)
      simp only [Board.tokens]
      omega
  | hand u k hu =>
      have hmem : t ∈ b.notify.waiting := (hb.mem_iff t).mpr ht
      have hone := unseen_notifyOne hb (List.ne_nil_of_mem hmem)
      have hsum := owed_update b.owed u k
      simp only [Board.tokens]
      omega
  | lapse u k hnone => exact absurd (hnone t ht) hmissed
  | drop u hnone => exact Nat.add_le_add_left (unseen_drop hb ht) _

omit [Fintype τ] in
theorem waiting_of_polled (hu : n.future u = .notified ∨ n.future u = .done) (ht : (n.enable u).future t = .waiting) :
    t ≠ u := by
  rintro rfl
  rcases n.enable_self t with ⟨-, hf | ⟨hf, -⟩⟩ | ⟨hf, -⟩
  · rw [hf] at hu
    simp at hu
  · rw [hf] at hu
    simp at hu
  · rw [hf] at ht
    cases ht

omit [Fintype τ] in
theorem Move.waiting_of (h : Move b k c) (hb : b.notify.Proper) {t : τ} (ht : c.notify.future t = .waiting) :
    b.notify.future t = .waiting ∨ c.missed t = ∅ := by
  cases h with
  | stay | look | release | lapse => exact Or.inl ht
  | enable u hu hnone =>
      by_cases htu : t = u
      · exact Or.inr (htu ▸ hnone)
      · exact Or.inl (Notify.enable_of_ne b.notify htu ▸ ht)
  | poll u hu => exact Or.inl (Notify.enable_of_ne b.notify (waiting_of_polled hu ht) ▸ ht)
  | hand u k hu =>
      rcases Notify.notifyOne_future hb t with hf | ⟨hf, -⟩
      · exact Or.inl (hf ▸ ht)
      · exact Or.inl hf
  | drop u hnone =>
      by_cases htu : t = u
      · exact Or.inr (htu ▸ hnone)
      · rcases drop_future_of_ne hb htu with hf | ⟨hf, -⟩
        · exact Or.inl (hf ▸ ht)
        · exact Or.inl hf

/-- The free items that a party has missed grow only with a release, which
owes a notification for it. -/
theorem Move.missed_card (h : Move b k c) (t : τ) (hle : b.tokens ≤ c.tokens) :
    (c.free ∩ c.missed t).card + b.tokens ≤ (b.free ∩ b.missed t).card + c.tokens := by
  cases h with
  | stay | enable | hand | lapse | drop => exact Nat.add_le_add_left hle _
  | look u free items hfree hitems =>
      apply Nat.add_le_add _ hle
      apply Finset.card_le_card
      intro x hx
      obtain ⟨hx, hmissed⟩ := Finset.mem_inter.mp hx
      refine Finset.mem_inter.mpr ⟨hfree hx, ?_⟩
      by_cases htu : t = u
      · subst htu
        simp only [update_self] at hmissed
        exact (hitems x hmissed).resolve_right fun hnot => hnot (hfree hx)
      · simpa only [update_of_ne htu] using hmissed
  | release u x =>
      have hsub : insert x b.free ∩ b.missed t ⊆ insert x (b.free ∩ b.missed t) := by
        intro y hy
        obtain ⟨hy, hmissed⟩ := Finset.mem_inter.mp hy
        rcases Finset.mem_insert.mp hy with rfl | hy
        · exact Finset.mem_insert_self _ _
        · exact Finset.mem_insert_of_mem (Finset.mem_inter.mpr ⟨hy, hmissed⟩)
      have hcard := (Finset.card_le_card hsub).trans (Finset.card_insert_le _ _)
      have hsum := owed_update b.owed u (b.owed u + 1)
      simp only [Board.tokens] at hcard ⊢
      omega
  | poll u hu =>
      apply Nat.add_le_add _ hle
      by_cases htu : t = u
      · simp only [htu, update_self, Finset.inter_empty, Finset.card_empty]
        exact Nat.zero_le _
      · simp only [update_of_ne htu]
        exact le_rfl

theorem Move.funded (h : Move b k c) (hb : b.Funded) : c.Funded := by
  refine ⟨h.proper hb.proper, fun t ht => ?_⟩
  by_cases hmissed : c.missed t = ∅
  · rw [hmissed, Finset.inter_empty, Finset.card_empty]
    exact Nat.zero_le _
  · have hold : b.notify.future t = .waiting := (h.waiting_of hb.proper ht).resolve_right hmissed
    have hcard := h.missed_card t (h.tokens_le hb.proper hold hmissed)
    have hfunded := hb.funded t hold
    omega

omit [Fintype τ] in
/-- A party that goes on waiting moves up with every notification, and never
back. -/
theorem Move.ahead_le (h : Move b k c) (hb : b.notify.Proper) {t : τ} (ht : b.notify.future t = .waiting)
    (ht' : c.notify.future t = .waiting) : ahead c.notify t + k ≤ ahead b.notify t := by
  cases h with
  | stay | look | release | lapse => exact le_rfl
  | enable u | poll u => exact (ahead_enable hb ht).le
  | hand u k hu => exact (ahead_notifyOne hb ht').le
  | drop u hnone =>
      by_cases hf : b.notify.future u = .notified
      · have hproper : (b.notify.setFuture u .init).Proper := hb.setFuture (by simp [hf]) (by simp)
        simp only [hf, decide_true, Bool.toNat_true, Notify.drop_notified _ hf] at ht' ⊢
        exact (ahead_notifyOne hproper ht').le
      · simp only [hf, decide_false, Bool.toNat_false, Nat.add_zero]
        exact ahead_drop hb hf ht'

end ArenaAlligator.HandoffRules
