import ArenaAlligator.AsyncBuddy
import ArenaAlligator.BuddyRequests

namespace ArenaAlligator.RequestSizing

open AsyncBuddy BuddyArenaInner BuddyRequests Usize

/-- What the sizing of a request promises on an arena of this geometry. The
request is refused exactly when it is larger than the arena, and otherwise it
gets the least order that holds it; allocate and allocate_async answer
RequestTooLarge for exactly the requests that are refused, the latter at once;
and a buffer has the requested capacity inside its block. -/
structure SizedExactly (g : BuddyGeometry) (len : Nat) : Prop where
  refused : ∀ a : BuddyArenaInner, a.geometry = g → (a.orderForRequest len = none ↔ g.totalSize < len)
  least : ∀ (a : BuddyArenaInner) (o : Nat), a.geometry = g → a.orderForRequest len = some o →
    o ≤ g.maxOrder ∧ len ≤ g.minBlockSize <<< o ∧ ∀ o', len ≤ g.minBlockSize <<< o' → o ≤ o'
  allocate : ∀ a : BuddyArenaInner, a.geometry = g → ((a.allocate len).1 = .error .requestTooLarge ↔ g.totalSize < len)
  allocateAsync : ∀ (τ : Type) [DecidableEq τ] (s s' : State τ) (t : τ), s.arena.geometry = g →
    step s (.call t len) = some s' →
    (s'.phase t = .idle ∧ (s.arena.allocate len).1 = .error .requestTooLarge ↔ g.totalSize < len)
  capacity : ∀ (a : BuddyArenaInner) (buf : Buffer), a.geometry = g → (a.allocate len).1 = .ok buf →
    ∃ o i, buf.allocation = .buddy o i ∧ len ≤ buf.capacity ∧ a.blockOffset o i ≤ buf.offset ∧
      buf.offset + buf.capacity ≤ a.blockOffset o i + a.blockSize o

theorem allocate_tooLarge_iff (a : BuddyArenaInner) (len : Nat) :
    (a.allocate len).1 = .error .requestTooLarge ↔ a.orderForRequest len = none := by
  cases ht : a.orderForRequest len with
  | none => simp [BuddyArenaInner.allocate, ht]
  | some t =>
      cases hr : (a.tryAllocateBlock t).1 with
      | none => simp [allocate_of_none ht hr]
      | some block => simp [allocate_of_some ht hr]

theorem call_idle_iff {τ : Type} [DecidableEq τ] {s s' : State τ} {t : τ} {len : Nat}
    (h : step s (.call t len) = some s') : s'.phase t = .idle ↔ s.arena.orderForRequest len = none := by
  simp only [step] at h
  split at h
  next hc =>
    split at h
    next order ho =>
      cases h
      simp [ho]
    next ho =>
      cases h
      obtain ⟨live, hframe⟩ := allocate_frame s len
      simp [ho, hframe, hc.1]
  next => cases h

theorem allocate_capacity {a : BuddyArenaInner} {len t : Nat} (hlen : len ≤ 2 ^ 63)
    (ht : a.orderForRequest len = some t) {buf : Buffer} (hok : (a.allocate len).1 = .ok buf) :
    ∃ o i, buf.allocation = .buddy o i ∧ len ≤ buf.capacity ∧ a.blockOffset o i ≤ buf.offset ∧
      buf.offset + buf.capacity ≤ a.blockOffset o i + a.blockSize o := by
  obtain ⟨o, i, hr⟩ := (allocate_ok_iff ht).mp ⟨buf, hok⟩
  rw [allocate_of_some ht hr] at hok
  cases hok
  have hg := (carved_backing a t o i).geometry
  have hfits := (a.orderForRequest_least hlen ht).1
  refine ⟨t, _, rfl, ?_, ?_, ?_⟩
  · rw [handOut_capacity, blockSize, hg]
    split
    · exact le_min le_rfl hfits
    · exact hfits
  · rw [handOut_offset, blockOffset, blockOffset, blockSize, blockSize, hg]
  · rw [handOut_offset, handOut_capacity, blockOffset, blockOffset, blockSize, blockSize, hg]
    apply Nat.add_le_add_left
    split
    · exact min_le_right _ _
    · exact le_rfl

theorem sizedExactly_of_le (g : BuddyGeometry) {len : Nat} (hlen : len ≤ 2 ^ 63) : SizedExactly g len where
  refused a ha := ha ▸ a.orderForRequest_none_iff hlen
  least a o ha ho := by
    subst ha
    exact ⟨a.orderForRequest_le hlen ho, a.orderForRequest_least hlen ho⟩
  allocate a ha := by
    rw [allocate_tooLarge_iff, ← ha]
    exact a.orderForRequest_none_iff hlen
  allocateAsync τ _ s s' t ha hs := by
    rw [call_idle_iff hs, allocate_tooLarge_iff, and_self, ← ha]
    exact s.arena.orderForRequest_none_iff hlen
  capacity a buf ha hok := by
    cases ht : a.orderForRequest len with
    | some t => exact allocate_capacity hlen ht hok
    | none =>
        rw [← allocate_tooLarge_iff, hok] at ht
        cases ht

/-- A request above 2^63 rounds to 0 and gets an order. -/
theorem orderForRequest_wraps (a : BuddyArenaInner) {len : Nat} (hgt : 2 ^ 63 < len) (hlen : len ≤ usizeMax) :
    a.orderForRequest len ≠ none := by
  have hmin : a.geometry.minBlockSize ≤ usizeMax := by
    obtain ⟨k, hk, -, hbits⟩ := minBlockSize_exp a.geometry
    have hlt : 2 ^ k < 2 ^ usizeBits := Nat.pow_lt_pow_right (by decide) (by omega)
    rw [hk]
    exact Nat.le_pred_of_lt hlt
  simp [orderForRequest, nextPowerOfTwo_wraps (hgt.trans_le (le_max_left len _)) (max_le hlen hmin)]

/-- Sizing is exact for exactly the requests up to 2^63. -/
theorem sizing_exact_iff (g : BuddyGeometry) (len : Nat) (hlen : len ≤ usizeMax) :
    SizedExactly g len ↔ len ≤ 2 ^ 63 := by
  refine ⟨fun h => ?_, sizedExactly_of_le g⟩
  by_contra hgt
  rw [not_le] at hgt
  have hrefused := h.refused (build g false .uninit fun _ => 0) rfl
  exact orderForRequest_wraps _ hgt hlen (hrefused.mpr ((totalSize_le g).trans_lt hgt))

theorem sizing_exact_pair : 1024 ≤ usizeMax ∧ SizedExactly pairGeometry 1024 :=
  ⟨by decide, (sizing_exact_iff pairGeometry 1024 (by decide)).mpr (by decide)⟩

def parkedRequest (p : Phase) : Option Request :=
  match p with
  | .awaiting q _ => some q
  | _ => none

/-- On the empty pair of blocks, a request of 2^63 + 1 bytes gets order 55,
allocate calls it retryable, and the task of allocate_async parks. -/
theorem oversized_request_parks :
    pairGeometry.totalSize < 2 ^ 63 + 1 ∧ 2 ^ 63 + 1 ≤ usizeMax ∧
    (build pairGeometry false .uninit fun _ => 0).orderForRequest (2 ^ 63 + 1) = some 55 ∧
    ((build pairGeometry false .uninit fun _ => 0).allocate (2 ^ 63 + 1)).1 = .error .arenaFull ∧
    ((Runs.run step (start pairGeometry false .uninit fun _ => 0)
      [.call () (2 ^ 63 + 1), .prepare () 0, .tryAllocate ()]).bind fun s => parkedRequest (s.phase ())) =
        some ⟨2 ^ 63 + 1, 55⟩ := by
  have horder : (build pairGeometry false .uninit fun _ => 0).orderForRequest (2 ^ 63 + 1) = some 55 := by
    decide +kernel
  refine ⟨by decide, by decide, horder, ?_, by decide +kernel⟩
  rw [allocate_of_none horder (by decide +kernel)]

end ArenaAlligator.RequestSizing
