import ArenaAlligator.BuddyRuns

namespace ArenaAlligator.BuddyCanonical

open AlignedBlocks AtomicBitmap BuddyArenaInner BuddyRuns Runs Usize

variable {g : BuddyGeometry}

/-- The free structure: the words of all free bitmaps and the summary. The
scan cursors are not part of it. -/
def freeState (a : BuddyArenaInner) : List (List Word) × Word := (a.freeBitmaps.map words, a.nonemptyOrders)

theorem freeState_rows {a c : BuddyArenaInner} (hlen : a.freeBitmaps.length = c.freeBitmaps.length)
    (h : ∀ o, (a.bitmap o).words = (c.bitmap o).words) : a.freeBitmaps.map words = c.freeBitmaps.map words := by
  refine List.ext_getElem (by simp [hlen]) fun o ho ho' => ?_
  rw [List.length_map] at ho ho'
  have hrow := h o
  rw [bitmap, bitmap, List.getD_eq_getElem _ _ ho, List.getD_eq_getElem _ _ ho'] at hrow
  rw [List.getElem_map, List.getElem_map, hrow]

theorem freeState_eq_of_outside {a c : BuddyArenaInner} {m : Multiset Block} (ha : a.Balanced g m)
    (hc : c.Balanced g m) : freeState a = freeState c := by
  obtain ⟨hwords, hsummary⟩ := Balanced.canonical ha hc
  have hmax : a.maxOrder = c.maxOrder := congrArg BuddyGeometry.maxOrder (ha.geometry.trans hc.geometry.symm)
  have hlen : a.freeBitmaps.length = c.freeBitmaps.length := by rw [ha.sound.length, hc.sound.length, hmax]
  exact Prod.ext (freeState_rows hlen hwords) hsummary

theorem live_nodup {w : World} (h : w.arena.Balanced g w.live) : w.live.Nodup := by
  have hnd := h.tiles.nodup
  rw [cover_add, Multiset.nodup_add] at hnd
  refine (pairwise_disjoint hnd.2.1).imp fun {b c} hdis hbc => ?_
  exact hdis _ (Block.start_mem_units b) (hbc ▸ Block.start_mem_units b)

theorem freeState_eq_of_live {w w' : World} (h : w.arena.Balanced g w.live) (h' : w'.arena.Balanced g w'.live)
    (hlive : ∀ b, b ∈ w.live ↔ b ∈ w'.live) : freeState w.arena = freeState w'.arena := by
  have hperm : w.live.Perm w'.live := (List.perm_ext_iff_of_nodup (live_nodup h) (live_nodup h')).mpr hlive
  have hcoe : (w.live : Multiset Block) = w'.live := Multiset.coe_eq_coe.mpr hperm
  rw [← hcoe] at h'
  exact freeState_eq_of_outside h h'

theorem run_releases {w : World} (bs : List Block) (hnd : bs.Nodup) (hlive : ∀ b ∈ bs, b ∈ w.live) :
    ∃ u, run step w (bs.map .release) = some u ∧ u.live = w.live.diff bs := by
  induction bs generalizing w with
  | nil => exact ⟨w, rfl, List.diff_nil _ |>.symm⟩
  | cons b bs ih =>
      obtain ⟨hb, hnd⟩ := List.nodup_cons.mp hnd
      have hstep : step w (.release b) = some ⟨(w.arena.release b.order b.index).2, w.live.erase b⟩ :=
        if_pos (hlive b List.mem_cons_self)
      obtain ⟨u, hu, hlive'⟩ := ih (w := ⟨(w.arena.release b.order b.index).2, w.live.erase b⟩) hnd fun c hc =>
        (List.mem_erase_of_ne (ne_of_mem_of_not_mem hc hb)).mpr (hlive c (List.mem_cons_of_mem b hc))
      refine ⟨u, ?_, by rw [hlive', List.diff_cons]⟩
      rw [List.map_cons, run, hstep]
      exact hu

theorem run_step_balanced {w u : World} (h : w.arena.Balanced g w.live) {ops : List Op}
    (hr : run step w ops = some u) : u.arena.Balanced g u.live :=
  run_preserves (fun w => w.arena.Balanced g w.live) (fun _ _ _ hb hs => step_balanced hb hs) h hr

/-- Releasing some of the live blocks in two orders. -/
theorem release_order_irrelevant {w : World} (h : w.arena.Balanced g w.live) {bs cs : List Block} (hnd : bs.Nodup)
    (hlive : ∀ b ∈ bs, b ∈ w.live) (hperm : cs.Perm bs) :
    ∃ u v, run step w (bs.map .release) = some u ∧ run step w (cs.map .release) = some v ∧
      freeState u.arena = freeState v.arena := by
  obtain ⟨u, hu, hul⟩ := run_releases bs hnd hlive
  obtain ⟨v, hv, hvl⟩ := run_releases cs (hperm.nodup_iff.mpr hnd) fun b hb => hlive b (hperm.mem_iff.mp hb)
  refine ⟨u, v, hu, hv, freeState_eq_of_live (run_step_balanced h hu) (run_step_balanced h hv) fun b => ?_⟩
  rw [hul, hvl, hperm.diff_left]

theorem release_undoes_allocate {w w' : World} (h : w.arena.Balanced g w.live) {len : Nat} {b : Block}
    (hs : step w (.allocate len) = some w') (hb : w'.live = b :: w.live) :
    ∃ u, step w' (.release b) = some u ∧ freeState u.arena = freeState w.arena := by
  have hmem : b ∈ w'.live := hb ▸ List.mem_cons_self
  have hrel : step w' (.release b) = some ⟨(w'.arena.release b.order b.index).2, w'.live.erase b⟩ := if_pos hmem
  refine ⟨_, hrel, freeState_eq_of_live (step_balanced (step_balanced h hs) hrel) h fun c => ?_⟩
  rw [hb, List.erase_cons_head]

/-- The free structure is a function of the live blocks, whatever the two runs
were and however the two arenas were set up beyond their geometry. -/
theorem free_structure_determined (g : BuddyGeometry) (autoSpill autoSpill' : Bool) (policy policy' : InitPolicy)
    (memory memory' : Memory) (w w' : World) (h : Reachable step (start g autoSpill policy memory) w)
    (h' : Reachable step (start g autoSpill' policy' memory') w') :
    ((∀ b, b ∈ w.live ↔ b ∈ w'.live) → freeState w.arena = freeState w'.arena) ∧
    (∀ bs cs : List Block, bs.Nodup → (∀ b ∈ bs, b ∈ w.live) → cs.Perm bs →
      ∃ u v, run step w (bs.map .release) = some u ∧ run step w (cs.map .release) = some v ∧
        freeState u.arena = freeState v.arena) ∧
    ∀ len buf, 0 < len → len ≤ usizeMax → (w.arena.allocate len).1 = .ok buf →
      ∃ b v u, blockOf buf = some b ∧ step w (.allocate len) = some v ∧ step v (.release b) = some u ∧
        freeState u.arena = freeState w.arena := by
  have hw := run_balanced h
  refine ⟨freeState_eq_of_live hw (run_balanced h'), fun bs cs hnd hlive hperm =>
    release_order_irrelevant hw hnd hlive hperm, fun len buf hpos hmax hok => ?_⟩
  obtain ⟨b, hb, -⟩ := (allocate_balanced hw len).1 buf hok
  have hstep : step w (.allocate len) = some ⟨(w.arena.allocate len).2, b :: w.live⟩ := by
    simp only [step, if_pos (And.intro hpos hmax), hok, hb, Option.toList_some, List.singleton_append]
  obtain ⟨u, hu, hfree⟩ := release_undoes_allocate hw hstep rfl
  exact ⟨b, _, u, hb, hstep, hu, hfree⟩

def otherOps : List Op :=
  [.allocate 2048, .allocate 2048, .release ⟨2, 0⟩, .allocate 1024, .allocate 100, .release ⟨1, 0⟩]

def otherWorld : World :=
  (run step (start smallGeometry true .uninit fun _ => 0) otherOps).getD (start smallGeometry true .uninit fun _ => 0)

theorem free_structure_determined_small :
    otherWorld.live = [⟨0, 2⟩, ⟨2, 1⟩] ∧ freeState smallWorld.arena = freeState otherWorld.arena ∧
    ∃ u v, run step smallWorld [.release ⟨0, 2⟩, .release ⟨2, 1⟩] = some u ∧
      run step smallWorld [.release ⟨2, 1⟩, .release ⟨0, 2⟩] = some v ∧ freeState u.arena = freeState v.arena := by
  have hlive : smallWorld.live = [⟨2, 1⟩, ⟨0, 2⟩] := by decide +kernel
  have hlive' : otherWorld.live = [⟨0, 2⟩, ⟨2, 1⟩] := by decide +kernel
  obtain ⟨hsame, horder, -⟩ := free_structure_determined smallGeometry false true .zero .uninit (fun _ => 7)
    (fun _ => 0) smallWorld otherWorld smallWorld_reachable ⟨otherOps, run_eq_some_getD (by decide +kernel)⟩
  refine ⟨hlive', hsame fun b => ?_, horder [⟨0, 2⟩, ⟨2, 1⟩] [⟨2, 1⟩, ⟨0, 2⟩] (by decide) (fun b hb => ?_) (by decide)⟩
  · rw [hlive, hlive']
    simp [or_comm]
  · rw [hlive]
    simpa [or_comm] using hb

end ArenaAlligator.BuddyCanonical
