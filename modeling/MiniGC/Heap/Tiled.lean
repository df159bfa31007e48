import MiniGC.Heap.Threads
import MiniGC.Lib.Tiling
import Mathlib.Algebra.Order.Group.Nat

/-!
# MiniGC.Heap.Tiled

Every run of the threads hands out blocks that tile the segments.

`Inv owner s L` ties the threads `s` to the ledger `L` of their run:

* the segments carved are the segments registered, in order, so each has one context (`carved`);
* a context is unused, or allocates from a segment it carved, with `alloc_ptr` between that
  segment's gap and its end (`ctx`);
* the segment of an `Alloc` in flight is carved but served from by nobody yet (`carving`);
* a segment once left is never allocated from again (`left`);
* the blocks handed out from a segment tile it up to its `Extent` (`extent`).

`Inv.step` is the step lemma, `inv_run` the run lemma, and `alloc_tiles_segments` what follows for
every run after a successful `Initialize`.
-/

namespace MiniGC

open Tiling

section

variable {T C : Type} [DecidableEq T] [DecidableEq C]

def Handout.block (x : Handout C) : Nat × Nat := (x.ptr.toNat, x.size.toNat)

/-- The blocks handed out from `S`, oldest first. -/
def Ledger.blocks (L : Ledger C) (S : W) : List (Nat × Nat) :=
  (L.handed.filter fun x => x.seg = S).map Handout.block

/-- Context `c` allocates from segment `S`. -/
def World.Current (w : World C) (c : C) (S : W) : Prop :=
  (w.ctxs c).allocLimit.toNat = S.toNat + growthSize.toNat

/-- How far segment `S` of context `c` has been handed out. -/
inductive Extent (s : Threads T C) (L : Ledger C) (c : C) (S : W) : Nat → Prop where
  /-- While the context allocates from it: up to `alloc_ptr`. -/
  | current : s.world.Current c S → Extent s L c S (s.world.ctxs c).allocPtr.toNat
  /-- After the context has left it: up to where `alloc_ptr` was. -/
  | left {stop : W} : (c, S, stop) ∈ L.left → Extent s L c S stop.toNat
  /-- While the `Alloc` that carved it is in flight: nothing yet. -/
  | inFlight {t : T} {size : W} : s.thread t = .inAlloc c size (.stompWriteBarrier S) →
      Extent s L c S (S.toNat + beginGap.toNat)

structure Inv (owner : C → T) (s : Threads T C) (L : Ledger C) : Prop where
  heap : HeapInv s.world.heap
  carved : L.carved.map Prod.snd = s.world.heap.segments
  ctx : ∀ c, ((s.world.ctxs c).allocPtr = 0 ∧ (s.world.ctxs c).allocLimit = 0) ∨
    ∃ S, (c, S) ∈ L.carved ∧ (s.world.ctxs c).In S
  flight : ∀ t c size stage, s.thread t = .inAlloc c size stage →
    owner c = t ∧ sizeRefused size = false
  carving : ∀ t c size S, s.thread t = .inAlloc c size (.stompWriteBarrier S) →
    (c, S) ∈ L.carved ∧ ¬ s.world.Current c S ∧ (∀ stop, (c, S, stop) ∉ L.left) ∧
      L.blocks S = []
  left : ∀ c S stop, (c, S, stop) ∈ L.left → (c, S) ∈ L.carved ∧ ¬ s.world.Current c S
  left_once : (L.left.map fun x => (x.1, x.2.1)).Nodup
  extent : ∀ c S, (c, S) ∈ L.carved → ∃ stop, Extent s L c S stop ∧
    Tiles (S.toNat + beginGap.toNat) (L.blocks S) stop ∧ stop ≤ S.toNat + growthSize.toNat
  handed : ∀ x ∈ L.handed, (x.ctx, x.seg) ∈ L.carved ∨
    (x.seg = 0 - growthSize ∧ x.ptr = 0 ∧ x.size = 0)

/-! ## Consequences -/

section

omit [DecidableEq C]

/-- The segment named by the end of a context's range is the one it allocates from. -/
theorem World.Current.limit_sub {w : World C} {c : C} {S : W} (hc : w.Current c S) :
    (w.ctxs c).allocLimit - growthSize = S := by
  apply BitVec.eq_of_toNat_eq
  rw [toNat_sub_of_le (by rw [hc]; exact Nat.le_add_left _ _), hc, Nat.add_sub_cancel]

theorem World.Current.unique {w : World C} {c : C} {S S' : W} (hc : w.Current c S)
    (hc' : w.Current c S') : S = S' := by
  rw [← hc.limit_sub, hc'.limit_sub]

/-- A context's segment depends on its own limit only. -/
theorem World.current_congr {w w' : World C} {c : C}
    (h : (w'.ctxs c).allocLimit = (w.ctxs c).allocLimit) (S : W) :
    w'.Current c S ↔ w.Current c S := by
  rw [World.Current, World.Current, h]

end

omit [DecidableEq T] [DecidableEq C] in
/-- A step that neither leaves `S` nor moves its context or its thread keeps its extent. -/
theorem Extent.transfer {s s' : Threads T C} {L L' : Ledger C} {c : C} {S : W} {stop : Nat}
    (h : Extent s L c S stop)
    (hcur : s.world.Current c S → s'.world.ctxs c = s.world.ctxs c)
    (hleft : ∀ stop, (c, S, stop) ∈ L.left → (c, S, stop) ∈ L'.left)
    (hflight : ∀ t size, s.thread t = .inAlloc c size (.stompWriteBarrier S) →
      s'.thread t = .inAlloc c size (.stompWriteBarrier S)) : Extent s' L' c S stop := by
  cases h with
  | current h =>
    have heq := hcur h
    rw [← heq]
    exact .current ((World.current_congr (by rw [heq]) S).mpr h)
  | left h => exact .left (hleft _ h)
  | inFlight h => exact .inFlight (hflight _ _ h)

section

omit [DecidableEq C]

theorem Ledger.blocks_append (L L' : Ledger C) (S : W) :
    (L.append L').blocks S = L.blocks S ++ L'.blocks S := by
  simp [Ledger.blocks, Ledger.append]

theorem Ledger.blocks_single {carved : List (C × W)} {left : List (C × W × W)} (x : Handout C)
    (S : W) : Ledger.blocks ⟨carved, [x], left⟩ S = if x.seg = S then [x.block] else [] := by
  unfold Ledger.blocks
  split <;> simp [*]

end

omit [DecidableEq T] in
theorem Threads.handOut_current (s : Threads T C) (c : C) (n : W) (c' : C) (S : W) :
    (s.handOut c n).1.world.Current c' S ↔ s.world.Current c' S := by
  refine World.current_congr ?_ S
  by_cases hcc : c' = c
  · rw [hcc, Threads.handOut_ctx_self]
  · rw [Threads.handOut_ctx_of_ne s n hcc]

theorem Threads.enter_current_of_ne (s : Threads T C) (t : T) {c c' : C} (size newPages : W)
    (h : c' ≠ c) (S : W) :
    (s.enter t c size newPages).1.world.Current c' S ↔ s.world.Current c' S :=
  World.current_congr (by rw [Threads.enter_ctx_of_ne s t size newPages h]) S

/-- The range an entering context leaves is recorded, if it had one. -/
theorem Ledger.mem_left_enter {s : Threads T C} {L : Ledger C} {t : T} {c : C} {size newPages : W}
    {c' : C} {S stop : W} :
    (c', S, stop) ∈ (L.append (s.enter t c size newPages).2).left ↔
      (c', S, stop) ∈ L.left ∨ ((s.world.ctxs c).allocLimit ≠ 0 ∧ c' = c ∧
        S = (s.world.ctxs c).allocLimit - growthSize ∧ stop = (s.world.ctxs c).allocPtr) := by
  by_cases hl : (s.world.ctxs c).allocLimit = 0 <;>
    simp only [Ledger.append, Threads.enter, List.mem_append, hl, ne_eq, not_true_eq_false,
      not_false_eq_true, if_true, if_false, true_and, false_and, or_false, List.mem_singleton,
      List.not_mem_nil, Prod.mk.injEq]

namespace Inv

variable {owner : C → T} {s : Threads T C} {L : Ledger C}

section

omit [DecidableEq T] [DecidableEq C]

theorem mem_segments (hi : Inv owner s L) {c : C} {S : W} (h : (c, S) ∈ L.carved) :
    S ∈ s.world.heap.segments := by
  rw [← hi.carved]
  exact List.mem_map_of_mem h

/-- A segment has one context. -/
theorem ctx_unique (hi : Inv owner s L) {c c' : C} {S : W} (h : (c, S) ∈ L.carved)
    (h' : (c', S) ∈ L.carved) : c = c' := by
  have hnd : (L.carved.map Prod.snd).Nodup := hi.carved ▸ hi.heap.segments_nodup
  exact congrArg Prod.fst (List.inj_on_of_nodup_map hnd h h' rfl)

/-- A carved segment lies in the arena, and so in user space. -/
theorem seg_bounds (hi : Inv owner s L) {c : C} {S : W} (h : (c, S) ∈ L.carved) :
    0 < S.toNat ∧ S.toNat + growthSize.toNat ≤ s.world.heap.arenaNext.toNat ∧
      S.toNat + growthSize.toNat ≤ 2 ^ 63 := by
  have hb := hi.heap.segment_bounds (hi.mem_segments h)
  have hle := hi.heap.arenaNext_le
  have hu := hi.heap.arena_user
  have ha := hi.heap.arena_pos
  omega

theorem limit_ne_zero (hi : Inv owner s L) {c : C} {S : W} (h : (c, S) ∈ L.carved)
    (hc : s.world.Current c S) : (s.world.ctxs c).allocLimit ≠ 0 := by
  intro h0
  have hb := hi.seg_bounds h
  rw [World.Current, h0, show (0 : W).toNat = 0 from rfl] at hc
  omega

/-- No block is ever handed out of a segment that is not carved. -/
theorem blocks_of_not_carved (hi : Inv owner s L) {S : W} (hS : S ≠ 0 - growthSize)
    (h : ∀ c, (c, S) ∉ L.carved) : L.blocks S = [] := by
  rw [Ledger.blocks, List.map_eq_nil_iff, List.filter_eq_nil_iff]
  intro x hx hseg
  obtain rfl : x.seg = S := by simpa using hseg
  rcases hi.handed x hx with hc | ⟨h0, -, -⟩
  · exact h _ hc
  · exact hS h0

/-- The segment name an unused context would give is not a segment's. -/
theorem seg_ne (hi : Inv owner s L) {c : C} {S : W} (h : (c, S) ∈ L.carved) :
    S ≠ 0 - growthSize := by
  intro h0
  have hb := (hi.seg_bounds h).2.2
  rw [h0, show (0 - growthSize).toNat = 18446744073708503040 by decide] at hb
  omega

theorem not_mem_segments (hi : Inv owner s L) : 0 - growthSize ∉ s.world.heap.segments := by
  intro hS
  rw [← hi.carved] at hS
  obtain ⟨⟨c, S⟩, hc, h0⟩ := List.mem_map.mp hS
  exact hi.seg_ne hc h0

end

/-! ## What a step preserves -/

section

omit [DecidableEq T] [DecidableEq C]

theorem handed_snoc (hi : Inv owner s L) {x : Handout C} {left : List (C × W × W)}
    (hx : (x.ctx, x.seg) ∈ L.carved ∨ (x.seg = 0 - growthSize ∧ x.ptr = 0 ∧ x.size = 0)) :
    ∀ y ∈ (L.append ⟨[], [x], left⟩).handed, (y.ctx, y.seg) ∈ L.carved ∨
      (y.seg = 0 - growthSize ∧ y.ptr = 0 ∧ y.size = 0) := by
  intro y hy
  rcases List.mem_append.mp hy with hy | hy
  · exact hi.handed y hy
  · rwa [List.mem_singleton.mp hy]

/-- An empty block from an unused context belongs to no segment. -/
theorem handOut_unused (hi : Inv owner s L) (c : C) :
    Inv owner s (L.append ⟨[], [⟨c, 0 - growthSize, 0, 0⟩], []⟩) := by
  have hcarved : (L.append ⟨[], [⟨c, 0 - growthSize, 0, 0⟩], []⟩).carved = L.carved :=
    List.append_nil _
  have hleft : (L.append ⟨[], [⟨c, 0 - growthSize, 0, 0⟩], []⟩).left = L.left :=
    List.append_nil _
  have hblocks : ∀ c' S, (c', S) ∈ L.carved →
      (L.append ⟨[], [⟨c, 0 - growthSize, 0, 0⟩], []⟩).blocks S = L.blocks S := by
    intro c' S hS
    rw [Ledger.blocks_append, Ledger.blocks_single, if_neg (hi.seg_ne hS).symm, List.append_nil]
  refine ⟨hi.heap, hcarved ▸ hi.carved, hcarved ▸ hi.ctx, hi.flight, ?_, ?_, ?_, ?_,
    hcarved ▸ hi.handed_snoc (.inr ⟨rfl, rfl, rfl⟩)⟩
  · intro t c' size S ht
    obtain ⟨h1, h2, h3, h4⟩ := hi.carving t c' size S ht
    exact ⟨hcarved ▸ h1, h2, hleft ▸ h3, (hblocks c' S h1).trans h4⟩
  · rw [hcarved, hleft]; exact hi.left
  · rw [hleft]; exact hi.left_once
  · intro c' S hS
    rw [hcarved] at hS
    obtain ⟨stop, hext, htile, hle⟩ := hi.extent c' S hS
    refine ⟨stop, ?_, (hblocks c' S hS).symm ▸ htile, hle⟩
    exact hext.transfer (fun _ => rfl) (fun _ h => hleft ▸ h) fun _ _ h => h

end

omit [DecidableEq T] in
/-- The bump of `alloc_ptr`, on the fast path of `Alloc` or in managed code. -/
theorem handOut (hi : Inv owner s L) {c : C} {n : W}
    (hn : n ≤ (s.world.ctxs c).allocLimit - (s.world.ctxs c).allocPtr) :
    Inv owner (s.handOut c n).1 (L.append (s.handOut c n).2) := by
  rcases hi.ctx c with ⟨hp, hl⟩ | ⟨S, hS, hin⟩
  · obtain rfl : n = 0 := by
      rw [hp, hl] at hn
      exact BitVec.le_zero_iff.mp hn
    have hs : (s.handOut c 0).1 = s := by
      simp [Threads.handOut, Threads.setCtx, World.setCtx]
    rw [hs, Threads.handOut, hp, hl]
    exact hi.handOut_unused c
  -- the block lies in the context's segment `S`, right after the blocks there so far
  have hbound := hin.room hn
  have hSc : s.world.Current c S := hin.limit
  have huser := (hi.seg_bounds hS).2.2
  have hself : ((s.handOut c n).1.world.ctxs c).allocPtr.toNat =
      (s.world.ctxs c).allocPtr.toNat + n.toNat := by
    rw [Threads.handOut_ctx_self]
    exact hin.bump_toNat huser hn
  have hblocks : ∀ S', (L.append (s.handOut c n).2).blocks S' = L.blocks S' ++
      if S = S' then [((s.world.ctxs c).allocPtr.toNat, n.toNat)] else [] := by
    intro S'
    rw [Ledger.blocks_append, Threads.handOut, Ledger.blocks_single, hSc.limit_sub]
    rfl
  have hcarved : (L.append (s.handOut c n).2).carved = L.carved := List.append_nil _
  have hleft : (L.append (s.handOut c n).2).left = L.left := List.append_nil _
  refine ⟨hi.heap, hcarved ▸ hi.carved, ?_, hi.flight, ?_, ?_, hleft ▸ hi.left_once, ?_,
    hcarved ▸ hi.handed_snoc (.inl (hSc.limit_sub.symm ▸ hS))⟩
  · intro c'
    rw [hcarved]
    by_cases hcc : c' = c
    · subst hcc
      rw [Threads.handOut_ctx_self]
      exact .inr ⟨S, hS, hin.bump huser hn⟩
    · rw [Threads.handOut_ctx_of_ne s n hcc]
      exact hi.ctx c'
  · intro t c' size S' ht
    obtain ⟨h1, h2, h3, h4⟩ := hi.carving t c' size S' ht
    have hne : S ≠ S' := by
      rintro rfl
      exact h2 (hi.ctx_unique h1 hS ▸ hSc)
    refine ⟨hcarved ▸ h1, fun h => h2 ((s.handOut_current c n c' S').mp h), hleft ▸ h3, ?_⟩
    rw [hblocks, if_neg hne, h4]
    rfl
  · intro c' S' stop h
    rw [hleft] at h
    obtain ⟨h1, h2⟩ := hi.left c' S' stop h
    exact ⟨hcarved ▸ h1, fun h => h2 ((s.handOut_current c n c' S').mp h)⟩
  · intro c' S' hS'
    rw [hcarved] at hS'
    obtain ⟨stop, hext, htile, hle⟩ := hi.extent c' S' hS'
    by_cases hSS : S = S'
    · subst hSS
      obtain rfl := hi.ctx_unique hS hS'
      refine ⟨_, .current ((s.handOut_current c n c S).mpr hSc), ?_, by omega⟩
      rw [hblocks, if_pos rfl, hself]
      cases hext with
      | current _ => exact htile.snoc _
      | left h => exact absurd hSc (hi.left c S _ h).2
      | inFlight h => exact absurd hSc (hi.carving _ c _ S h).2.1
    · rw [hblocks, if_neg hSS, List.append_nil]
      refine ⟨stop, hext.transfer (fun h => s.handOut_ctx_of_ne n ?_) (fun _ h => hleft ▸ h)
        fun _ _ h => h, htile, hle⟩
      rintro rfl
      exact hSS (hSc.unique h)

section

variable {t : T} {c : C} {size S : W}

/-- The context that enters is in the segment that was in flight. -/
theorem enter_in (hi : Inv owner s L) (ht : s.thread t = .inAlloc c size (.stompWriteBarrier S)) :
    ((s.enter t c size S).1.world.ctxs c).In S := by
  rw [Threads.enter_ctx_self]
  exact enterSegment_in _ (hi.flight t c size _ ht).2
    (hi.seg_bounds (hi.carving t c size S ht).1).2.2

/-- The first block of the segment is handed out behind its gap. -/
theorem enter_blocks (hi : Inv owner s L)
    (ht : s.thread t = .inAlloc c size (.stompWriteBarrier S)) (S' : W) :
    (L.append (s.enter t c size S).2).blocks S' = L.blocks S' ++
      if S = S' then [(S.toNat + beginGap.toNat, size.toNat)] else [] := by
  have hgap := beginGap_add (hi.seg_bounds (hi.carving t c size S ht).1).2.2
  rw [Ledger.blocks_append, Threads.enter, Ledger.blocks_single, Handout.block, hgap]

/-- Another segment in flight belongs to another context, and is as it was. -/
theorem enter_carving (hi : Inv owner s L)
    (ht : s.thread t = .inAlloc c size (.stompWriteBarrier S)) {t' : T} {c' : C} {size' S' : W}
    (h : (s.enter t c size S).1.thread t' = .inAlloc c' size' (.stompWriteBarrier S')) :
    (c', S') ∈ L.carved ∧ ¬ (s.enter t c size S).1.world.Current c' S' ∧
      (∀ stop, (c', S', stop) ∉ (L.append (s.enter t c size S).2).left) ∧
      (L.append (s.enter t c size S).2).blocks S' = [] := by
  obtain ⟨htt, ht'⟩ := Threads.enter_inAlloc.mp h
  obtain ⟨h1, h2, h3, h4⟩ := hi.carving t' c' size' S' ht'
  have hcc : c' ≠ c := by
    rintro rfl
    exact htt ((hi.flight t' c' size' _ ht').1.symm.trans (hi.flight t c' size _ ht).1)
  have hne : S ≠ S' := by
    rintro rfl
    exact hcc (hi.ctx_unique h1 (hi.carving t c size S ht).1)
  refine ⟨h1, fun h' => h2 ((s.enter_current_of_ne t size S hcc S').mp h'), ?_, ?_⟩
  · intro stop hmem
    rcases Ledger.mem_left_enter.mp hmem with hmem | ⟨-, he, -⟩
    · exact h3 stop hmem
    · exact hcc he
  · rw [hi.enter_blocks ht, if_neg hne, h4]
    rfl

theorem enter_left (hi : Inv owner s L)
    (ht : s.thread t = .inAlloc c size (.stompWriteBarrier S)) {c' : C} {S' stop : W}
    (hmem : (c', S', stop) ∈ (L.append (s.enter t c size S).2).left) :
    (c', S') ∈ L.carved ∧ ¬ (s.enter t c size S).1.world.Current c' S' := by
  obtain ⟨-, hnew, hnot, -⟩ := hi.carving t c size S ht
  have hcurS : (s.enter t c size S).1.world.Current c S := (hi.enter_in ht).limit
  rcases Ledger.mem_left_enter.mp hmem with hold | ⟨hlim, rfl, rfl, rfl⟩
  · obtain ⟨h1, h2⟩ := hi.left c' S' stop hold
    refine ⟨h1, fun h' => ?_⟩
    by_cases hcc : c' = c
    · subst hcc
      exact hnot stop (hcurS.unique h' ▸ hold)
    · exact h2 ((s.enter_current_of_ne t size S hcc S').mp h')
  · rcases hi.ctx c' with ⟨-, hl⟩ | ⟨S₀, hS₀, hin₀⟩
    · exact absurd hl hlim
    · have hcur₀ : s.world.Current c' S₀ := hin₀.limit
      rw [hcur₀.limit_sub]
      exact ⟨hS₀, fun h' => hnew (hcurS.unique h' ▸ hcur₀)⟩

/-- The segment that is left now has not been left before: it was allocated from. -/
theorem enter_left_once (hi : Inv owner s L) :
    ((L.append (s.enter t c size S).2).left.map fun x => (x.1, x.2.1)).Nodup := by
  by_cases hl : (s.world.ctxs c).allocLimit = 0
  · simpa [Ledger.append, Threads.enter, hl] using hi.left_once
  · rcases hi.ctx c with ⟨-, h0⟩ | ⟨S₀, hS₀, hin₀⟩
    · exact absurd h0 hl
    have hcur₀ : s.world.Current c S₀ := hin₀.limit
    simp only [Ledger.append, Threads.enter, hl, ne_eq, not_false_eq_true, if_true,
      List.map_append, List.map_cons, List.map_nil, hcur₀.limit_sub]
    refine List.nodup_append.mpr ⟨hi.left_once, List.nodup_singleton _, ?_⟩
    rintro x hx y hy rfl
    obtain ⟨⟨c', S', stop⟩, hmem, rfl⟩ := List.mem_map.mp hx
    cases List.mem_singleton.mp hy
    exact (hi.left _ _ stop hmem).2 hcur₀

theorem enter_extent (hi : Inv owner s L)
    (ht : s.thread t = .inAlloc c size (.stompWriteBarrier S)) {c' : C} {S' : W}
    (hS' : (c', S') ∈ L.carved) :
    ∃ stop, Extent (s.enter t c size S).1 (L.append (s.enter t c size S).2) c' S' stop ∧
      Tiles (S'.toNat + beginGap.toNat) ((L.append (s.enter t c size S).2).blocks S') stop ∧
      stop ≤ S'.toNat + growthSize.toNat := by
  obtain ⟨-, hsize⟩ := hi.flight t c size _ ht
  obtain ⟨hS, -, -, hempty⟩ := hi.carving t c size S ht
  by_cases hSS : S = S'
  · subst hSS
    obtain rfl := hi.ctx_unique hS hS'
    have hfit := (sizeRefused_eq_false hsize).2
    have hptr : ((s.enter t c size S).1.world.ctxs c).allocPtr.toNat =
        S.toNat + beginGap.toNat + size.toNat := by
      rw [Threads.enter_ctx_self]
      exact enterSegment_ptr _ hsize (hi.seg_bounds hS).2.2
    refine ⟨_, .current (hi.enter_in ht).limit, ?_, by omega⟩
    rw [hi.enter_blocks ht, if_pos rfl, hempty, hptr]
    exact (tiles_nil.mpr rfl).snoc _
  obtain ⟨stop, hext, htile, hle⟩ := hi.extent c' S' hS'
  rw [hi.enter_blocks ht, if_neg hSS, List.append_nil]
  cases hext with
  | current h =>
    by_cases hcc : c' = c
    · subst hcc
      have hleft : (c', S', (s.world.ctxs c').allocPtr) ∈
          (L.append (s.enter t c' size S).2).left :=
        Ledger.mem_left_enter.mpr
          (.inr ⟨hi.limit_ne_zero hS' h, rfl, h.limit_sub.symm, rfl⟩)
      exact ⟨_, .left hleft, htile, hle⟩
    · refine ⟨_, .current ((s.enter_current_of_ne t size S hcc S').mpr h), ?_, ?_⟩
      · rw [Threads.enter_ctx_of_ne s t size S hcc]; exact htile
      · rw [Threads.enter_ctx_of_ne s t size S hcc]; exact hle
  | left h => exact ⟨_, .left (Ledger.mem_left_enter.mpr (.inl h)), htile, hle⟩
  | @inFlight t' size' h =>
    have htt : t' ≠ t := by
      rintro rfl
      rw [ht] at h
      cases h
      exact hSS rfl
    exact ⟨_, .inFlight (Threads.enter_inAlloc.mpr ⟨htt, h⟩), htile, hle⟩

/-- The end of `Alloc`: its context leaves one segment, if it had one, for the segment in flight. -/
theorem enter (hi : Inv owner s L) (ht : s.thread t = .inAlloc c size (.stompWriteBarrier S)) :
    Inv owner (s.enter t c size S).1 (L.append (s.enter t c size S).2) := by
  have hS := (hi.carving t c size S ht).1
  have hcarved : (L.append (s.enter t c size S).2).carved = L.carved := List.append_nil _
  refine ⟨hi.heap, hcarved ▸ hi.carved, ?_, ?_, ?_, ?_, hi.enter_left_once, ?_,
    hcarved ▸ hi.handed_snoc (.inl hS)⟩
  · intro c'
    rw [hcarved]
    by_cases hcc : c' = c
    · subst hcc
      exact .inr ⟨S, hS, hi.enter_in ht⟩
    · rw [Threads.enter_ctx_of_ne s t size S hcc]
      exact hi.ctx c'
  · intro t' c' size' stage h
    exact hi.flight t' c' size' stage (Threads.enter_inAlloc.mp h).2
  · intro t' c' size' S' h
    exact hcarved ▸ hi.enter_carving ht h
  · intro c' S' stop hmem
    exact hcarved ▸ hi.enter_left ht hmem
  · intro c' S' hS'
    exact hi.enter_extent ht (hcarved ▸ hS')

end

omit [DecidableEq C] in
/-- A segment has been carved, and its `Alloc` is about to call `StompWriteBarrier`. -/
theorem beginSegment (hi : Inv owner s L) {t : T} {c : C} {size : W} (hown : owner c = t)
    (hsize : sizeRefused size = false)
    (ht : ∀ c' size' S, s.thread t ≠ .inAlloc c' size' (.stompWriteBarrier S))
    (hlt : s.world.heap.segments.length < arenaSegments) :
    Inv owner
      ((s.setHeap (publishSegment s.world.heap.carved s.world.heap.arenaNext)).setThread t
        (.inAlloc c size (.stompWriteBarrier s.world.heap.arenaNext)))
      (L.append ⟨[(c, s.world.heap.arenaNext)], [], []⟩) := by
  have hcarved : ∀ c' S, (c', S) ∈ L.carved →
      (c', S) ∈ (L.append ⟨[(c, s.world.heap.arenaNext)], [], []⟩).carved :=
    fun c' S h => List.mem_append_left _ h
  have hleft : (L.append ⟨[(c, s.world.heap.arenaNext)], [], []⟩).left = L.left :=
    List.append_nil _
  have hblocks : ∀ S, (L.append ⟨[(c, s.world.heap.arenaNext)], [], []⟩).blocks S =
      L.blocks S := by
    intro S
    rw [Ledger.blocks_append]
    exact List.append_nil _
  -- the new segment starts where the carved ones end
  have hfresh : ∀ c', (c', s.world.heap.arenaNext) ∉ L.carved := by
    intro c' h
    have := (hi.seg_bounds h).2.1
    rw [growthSize_toNat] at this
    omega
  have hname : s.world.heap.arenaNext ≠ 0 - growthSize := by
    intro h0
    have hle := hi.heap.arenaNext_le
    have hu := hi.heap.arena_user
    rw [h0, show (0 - growthSize).toNat = 18446744073708503040 by decide] at hle
    omega
  have hnotcur : ¬ s.world.Current c s.world.heap.arenaNext := by
    intro h
    rcases hi.ctx c with ⟨-, hl⟩ | ⟨S, hS, hin⟩
    · have := hi.heap.arena_pos
      rw [World.Current, hl, show (0 : W).toNat = 0 from rfl, growthSize_toNat] at h
      omega
    · have hcur : s.world.Current c S := hin.limit
      exact hfresh c (hcur.unique h ▸ hS)
  have hthread : ∀ t' c' size' S, ((s.setHeap (publishSegment s.world.heap.carved
      s.world.heap.arenaNext)).setThread t (.inAlloc c size
        (.stompWriteBarrier s.world.heap.arenaNext))).thread t' =
        .inAlloc c' size' (.stompWriteBarrier S) →
      (t' = t ∧ c' = c ∧ S = s.world.heap.arenaNext) ∨
        s.thread t' = .inAlloc c' size' (.stompWriteBarrier S) := by
    intro t' c' size' S h
    by_cases htt : t' = t
    · subst htt
      rw [Threads.setThread_thread] at h
      cases h
      exact .inl ⟨rfl, rfl, rfl⟩
    · exact .inr (by simpa [Threads.setThread, htt] using h)
  refine ⟨hi.heap.publish hlt, ?_, ?_, ?_, ?_, ?_, hleft ▸ hi.left_once, ?_, ?_⟩
  · simp [Ledger.append, hi.carved, Heap.carved]
  · intro c'
    rcases hi.ctx c' with h | ⟨S, hS, h⟩
    · exact .inl h
    · exact .inr ⟨S, hcarved c' S hS, h⟩
  · intro t' c' size' stage h
    by_cases htt : t' = t
    · subst htt
      rw [Threads.setThread_thread] at h
      cases h
      exact ⟨hown, hsize⟩
    · exact hi.flight t' c' size' stage (by simpa [Threads.setThread, htt] using h)
  · intro t' c' size' S h
    rcases hthread t' c' size' S h with ⟨rfl, rfl, rfl⟩ | h
    · refine ⟨List.mem_append_right _ (List.mem_singleton_self _), hnotcur, ?_, ?_⟩
      · intro stop hmem
        rw [hleft] at hmem
        exact hfresh _ (hi.left _ _ stop hmem).1
      · rw [hblocks]
        exact hi.blocks_of_not_carved hname hfresh
    · obtain ⟨h1, h2, h3, h4⟩ := hi.carving t' c' size' S h
      exact ⟨hcarved c' S h1, h2, hleft ▸ h3, (hblocks S).trans h4⟩
  · intro c' S stop hmem
    rw [hleft] at hmem
    obtain ⟨h1, h2⟩ := hi.left c' S stop hmem
    exact ⟨hcarved c' S h1, h2⟩
  · intro c' S hS
    rw [hblocks]
    rcases List.mem_append.mp hS with hS | hS
    · obtain ⟨stop, hext, htile, hle⟩ := hi.extent c' S hS
      refine ⟨stop, hext.transfer (fun _ => rfl) (fun _ h => hleft ▸ h) fun t' size' h => ?_,
        htile, hle⟩
      have htt : t' ≠ t := by rintro rfl; exact ht _ _ _ h
      exact (Threads.setThread_of_ne _ _ htt).trans h
    · cases List.mem_singleton.mp hS
      refine ⟨_, .inFlight (Threads.setThread_thread _ _ _), ?_, ?_⟩
      · rw [hi.blocks_of_not_carved hname hfresh]
        rfl
      · rw [beginGap_toNat, growthSize_toNat]
        omega
  · intro x hx
    rw [show (L.append ⟨[(c, s.world.heap.arenaNext)], [], []⟩).handed = L.handed from
      List.append_nil _] at hx
    rcases hi.handed x hx with h | h
    · exact .inl (hcarved _ _ h)
    · exact .inr h

omit [DecidableEq T] [DecidableEq C] in
/-- The heap changes in nothing the invariant speaks of. -/
theorem setHeap (hi : Inv owner s L) {h : Heap} (hh : HeapInv h)
    (hseg : h.segments = s.world.heap.segments) : Inv owner (s.setHeap h) L := by
  refine ⟨hh, hseg ▸ hi.carved, hi.ctx, hi.flight, hi.carving, hi.left, hi.left_once, ?_, hi.handed⟩
  intro c S hS
  obtain ⟨stop, hext, htile, hle⟩ := hi.extent c S hS
  exact ⟨stop, hext.transfer (fun _ => rfl) (fun _ h' => h') fun _ _ h' => h', htile, hle⟩

section

omit [DecidableEq C]

/-- A thread that holds no carved segment moves to another point that holds none. -/
theorem setThread (hi : Inv owner s L) {t : T} {st : ThreadState C}
    (ht : ∀ c size S, s.thread t ≠ .inAlloc c size (.stompWriteBarrier S))
    (hst : ∀ c size stage, st = .inAlloc c size stage →
      owner c = t ∧ sizeRefused size = false ∧ ∀ S, stage ≠ .stompWriteBarrier S) :
    Inv owner (s.setThread t st) L := by
  have hother : ∀ t' c size stage, t' ≠ t → (s.setThread t st).thread t' =
      .inAlloc c size stage → s.thread t' = .inAlloc c size stage := by
    intro t' c size stage htt h'
    simpa [Threads.setThread, htt] using h'
  refine ⟨hi.heap, hi.carved, hi.ctx, ?_, ?_, hi.left, hi.left_once, ?_, hi.handed⟩
  · intro t' c size stage h'
    by_cases htt : t' = t
    · subst htt
      rw [Threads.setThread_thread] at h'
      obtain ⟨h1, h2, -⟩ := hst c size stage h'
      exact ⟨h1, h2⟩
    · exact hi.flight t' c size stage (hother t' c size stage htt h')
  · intro t' c size S h'
    by_cases htt : t' = t
    · subst htt
      rw [Threads.setThread_thread] at h'
      exact absurd rfl ((hst c size _ h').2.2 S)
    · exact hi.carving t' c size S (hother t' c size _ htt h')
  · intro c S hS
    obtain ⟨stop, hext, htile, hle⟩ := hi.extent c S hS
    refine ⟨stop, hext.transfer (fun _ => rfl) (fun _ h' => h') fun t' size h' => ?_, htile, hle⟩
    have htt : t' ≠ t := by rintro rfl; exact ht _ _ _ h'
    exact (Threads.setThread_of_ne _ _ htt).trans h'

theorem setManaged (hi : Inv owner s L) {t : T}
    (ht : ∀ c size S, s.thread t ≠ .inAlloc c size (.stompWriteBarrier S)) (result : W) :
    Inv owner (s.setThread t (.managed result)) L :=
  hi.setThread ht (by rintro _ _ _ ⟨⟩)

/-- A thread goes on to a call into the EE that is not its last. -/
theorem setStage (hi : Inv owner s L) {t : T} {c : C} {size : W} {h : Heap} (hh : HeapInv h)
    (hseg : h.segments = s.world.heap.segments)
    (ht : ∀ c' size' S, s.thread t ≠ .inAlloc c' size' (.stompWriteBarrier S))
    (hown : owner c = t) (hsize : sizeRefused size = false) {stage : Stage}
    (hstage : ∀ S, stage ≠ .stompWriteBarrier S) :
    Inv owner ((s.setHeap h).setThread t (.inAlloc c size stage)) L := by
  refine (hi.setHeap hh hseg).setThread ht ?_
  rintro _ _ _ ⟨⟩
  exact ⟨hown, hsize, hstage⟩

end

/-- From the bounds check on, whichever way it goes. -/
theorem carve (hi : Inv owner s L) {t : T} {c : C} {size : W} (hown : owner c = t)
    (hsize : sizeRefused size = false)
    (ht : ∀ c' size' S, s.thread t ≠ .inAlloc c' size' (.stompWriteBarrier S)) :
    Inv owner (s.carve t c size).1 (L.append (s.carve t c size).2) := by
  rcases carveSegment_cases hi.heap with ⟨-, hc⟩ | ⟨hlt, hc⟩
  · simp only [Threads.carve, hc, Ledger.append_empty]
    exact (hi.setHeap hi.heap rfl).setManaged ht 0
  · have hbegin := hi.beginSegment hown hsize ht hlt
    simp only [Threads.carve, hc]
    split
    · exact hbegin
    · have henter := hbegin.enter (Threads.setThread_thread _ _ _)
      rwa [Ledger.append_assoc] at henter

/-- One action of one thread. -/
theorem step (hi : Inv owner s L) (a : Act T C) :
    Inv owner (s.step owner a).1 (L.append (s.step owner a).2) := by
  cases a with
  | alloc t acontext size flags =>
    cases ht : s.thread t with
    | inAlloc c size' stage => simpa [Threads.step, ht] using hi
    | managed last =>
      have hidle : ∀ c' size' S, s.thread t ≠ .inAlloc c' size' (.stompWriteBarrier S) := by
        intro c' size' S h; rw [ht] at h; cases h
      cases acontext with
      | none => simpa [Threads.step, ht] using hi.setManaged hidle 0
      | some c =>
        simp only [Threads.step, ht]
        by_cases hown : owner c = t
        · rw [if_neg (not_not_intro hown)]
          by_cases hsize : sizeRefused size = true
          · rw [if_pos hsize]
            simpa using hi.setManaged hidle 0
          rw [if_neg hsize]
          have hsize' := Bool.eq_false_iff.mpr hsize
          by_cases hfit : (s.world.ctxs c).fits size = true
          · rw [if_pos hfit]
            simp only [GcAllocContext.fits, decide_eq_true_eq] at hfit
            exact (hi.handOut hfit.2.2).setManaged hidle _
          rw [if_neg hfit]
          by_cases hlim : (s.world.ctxs c).allocLimit ≠ 0
          · rw [if_pos hlim, Ledger.append_empty]
            exact hi.setStage ((hi.heap.setGcInProgress true).upcall rfl) rfl hidle hown hsize'
              fun _ h => by cases h
          · rw [if_neg hlim]
            exact hi.carve hown hsize' hidle
        · rw [if_pos hown]
          simpa using hi
  | resume t =>
    cases ht : s.thread t with
    | managed last => simpa [Threads.step, ht] using hi
    | inAlloc c size stage =>
      obtain ⟨hown, hsize⟩ := hi.flight t c size stage ht
      have hidle : (∀ S, stage ≠ .stompWriteBarrier S) →
          ∀ c' size' S, s.thread t ≠ .inAlloc c' size' (.stompWriteBarrier S) := by
        intro hstage c' size' S h
        rw [ht] at h
        cases h
        exact hstage S rfl
      cases stage with
      | suspendEE =>
        simp only [Threads.step, ht, Ledger.append_empty]
        exact hi.setStage (hi.heap.upcall rfl) rfl (hidle fun _ h => by cases h) hown hsize
          fun _ h => by cases h
      | gcScanRoots =>
        simp only [Threads.step, ht, Ledger.append_empty]
        exact hi.setStage (hi.heap.upcall rfl) rfl (hidle fun _ h => by cases h) hown hsize
          fun _ h => by cases h
      | restartEE =>
        simp only [Threads.step, ht]
        exact (hi.setHeap (hi.heap.setGcInProgress false) rfl).carve hown hsize
          (hidle fun _ h => by cases h)
      | stompWriteBarrier S =>
        simp only [Threads.step, ht]
        exact hi.enter ht
  | bump t c n =>
    cases ht : s.thread t with
    | inAlloc c' size stage => simpa [Threads.step, ht] using hi
    | managed last =>
      simp only [Threads.step, ht]
      split
      · rename_i h
        exact hi.handOut h.2
      · simpa using hi

section

omit [DecidableEq T] [DecidableEq C]

/-- How far a segment has been handed out is a matter of where it is: it is allocated from, has
been left, or is in flight, and never two of these. -/
theorem extent_unique (hi : Inv owner s L) {c : C} {S : W} {stop stop' : Nat}
    (h : Extent s L c S stop) (h' : Extent s L c S stop') : stop = stop' := by
  cases h with
  | current h =>
    cases h' with
    | current _ => rfl
    | left h' => exact absurd h (hi.left c S _ h').2
    | inFlight h' => exact absurd h (hi.carving _ c _ S h').2.1
  | left h =>
    cases h' with
    | current h' => exact absurd h' (hi.left c S _ h).2
    | left h' =>
      have := List.inj_on_of_nodup_map hi.left_once h h' rfl
      cases this
      rfl
    | inFlight h' => exact absurd h ((hi.carving _ c _ S h').2.2.1 _)
  | inFlight h =>
    cases h' with
    | current h' => exact absurd h' (hi.carving _ c _ S h).2.1
    | left h' => exact absurd h' ((hi.carving _ c _ S h).2.2.1 _)
    | inFlight _ => rfl

/-- No two blocks handed out overlap, whichever contexts they went to. -/
theorem handed_apart (hi : Inv owner s L) : (L.handed.map Handout.block).Pairwise Apart := by
  let range : W → Nat × Nat := fun S =>
    if S ∈ s.world.heap.segments then
      (S.toNat + beginGap.toNat,
        S.toNat + beginGap.toNat + ((L.blocks S).map Prod.snd).sum)
    else (0, 0)
  refine pairwise_apart Handout.seg Handout.block range (fun x hx => ?_) fun x hx y hy hne => ?_
  · show Tiles _ (L.blocks x.seg) _
    rcases hi.handed x hx with hS | ⟨h0, -, -⟩
    · obtain ⟨stop, -, htile, -⟩ := hi.extent _ _ hS
      simp only [range, if_pos (hi.mem_segments hS)]
      exact htile.end_eq ▸ htile
    · -- an unused context only ever hands out the empty block at null
      simp only [range, h0, if_neg hi.not_mem_segments]
      refine tiles_empty fun b hb => ?_
      obtain ⟨y, hy, rfl⟩ := List.mem_map.mp hb
      obtain ⟨hy, hseg⟩ := List.mem_filter.mp hy
      rcases hi.handed y hy with hc | ⟨-, hp, hn⟩
      · rw [of_decide_eq_true hseg] at hc
        exact absurd rfl (hi.seg_ne hc)
      · simp [Handout.block, hp, hn]
  · rcases hi.handed x hx with hS | ⟨h0, -, -⟩
    · rcases hi.handed y hy with hS' | ⟨h0, -, -⟩
      · have hSm := hi.mem_segments hS
        have hSm' := hi.mem_segments hS'
        obtain ⟨stop, -, htile, hle⟩ := hi.extent _ _ hS
        obtain ⟨stop', -, htile', hle'⟩ := hi.extent _ _ hS'
        have he := htile.end_eq
        have he' := htile'.end_eq
        simp only [range, if_pos hSm, if_pos hSm']
        rcases hi.heap.segments_apart hSm hSm' hne with h | h
        · left; omega
        · right; omega
      · right
        simp only [range, h0, if_neg hi.not_mem_segments]
        exact Nat.zero_le _
    · left
      simp only [range, h0, if_neg hi.not_mem_segments]
      exact Nat.zero_le _

end

end Inv

omit [DecidableEq T] [DecidableEq C] in
theorem Fresh.inv {h : Heap} (hf : Fresh h) (owner : C → T) : Inv owner (.start h) .empty where
  heap := hf.heapInv
  carved := by simp [Threads.start, World.start, Ledger.empty, hf.segments]
  ctx := fun _ => .inl ⟨rfl, rfl⟩
  flight := by simp [Threads.start]
  carving := by simp [Threads.start]
  left := by simp [Ledger.empty]
  left_once := .nil
  extent := by simp [Ledger.empty]
  handed := by simp [Ledger.empty]

/-- Whatever the threads do after a successful `Initialize`, in whatever order. -/
theorem inv_run (owner : C → T) {h : Heap} (hf : Fresh h) (acts : List (Act T C)) :
    Inv owner ((ledgerMachine owner).run (.start h, .empty) acts).1
      ((ledgerMachine owner).run (.start h, .empty) acts).2 := by
  have := (ledgerMachine owner).run_inv (P := fun r => Inv owner r.1 r.2)
    (fun r a hi => hi.step a) (s := (.start h, .empty)) (hf.inv owner) acts
  exact this

/-- Every registered segment has exactly one context; the blocks handed out from it tile it from
the gap up to its extent, which is within the segment; every block of at least one byte came from a
segment of its context; and no two blocks overlap. -/
theorem alloc_tiles_segments (owner : C → T) {h : Heap} (hb : Booted h) (acts : List (Act T C)) :
    let r := (ledgerMachine owner).run (.start h, .empty) acts
    (∀ S ∈ r.1.world.heap.segments, ∃! c, (c, S) ∈ r.2.carved) ∧
    (∀ c S, (c, S) ∈ r.2.carved → S ∈ r.1.world.heap.segments ∧
      ∃ stop, (∀ stop', Extent r.1 r.2 c S stop' ↔ stop' = stop) ∧
        Tiles (S.toNat + beginGap.toNat) (r.2.blocks S) stop ∧
        stop ≤ S.toNat + growthSize.toNat) ∧
    (∀ x ∈ r.2.handed, x.size ≠ 0 → (x.ctx, x.seg) ∈ r.2.carved ∧
      x.ptr.toNat + x.size.toNat ≤ x.seg.toNat + growthSize.toNat) ∧
    (r.2.handed.map Handout.block).Pairwise Apart := by
  intro r
  have hi : Inv owner r.1 r.2 := inv_run owner hb.fresh acts
  have hblock : ∀ x ∈ r.2.handed, x.block ∈ r.2.blocks x.seg := fun x hx =>
    List.mem_map_of_mem (List.mem_filter.mpr ⟨hx, by simp⟩)
  refine ⟨?_, ?_, ?_, ?_⟩
  · intro S hS
    rw [← hi.carved] at hS
    obtain ⟨⟨c, S'⟩, hmem, rfl⟩ := List.mem_map.mp hS
    exact ⟨c, hmem, fun c' hc' => hi.ctx_unique hc' hmem⟩
  · intro c S hS
    obtain ⟨stop, hext, htile, hle⟩ := hi.extent c S hS
    refine ⟨hi.mem_segments hS, stop, fun stop' => ?_, htile, hle⟩
    exact ⟨fun h' => hi.extent_unique h' hext, fun h' => h' ▸ hext⟩
  · intro x hx hne
    rcases hi.handed x hx with hS | ⟨-, -, h0⟩
    · obtain ⟨stop, -, htile, hle⟩ := hi.extent _ _ hS
      exact ⟨hS, ((htile.within _ (hblock x hx)).2).trans hle⟩
    · exact absurd h0 hne
  · exact hi.handed_apart

/-- The second thread carves and returns while the first is still inside `StompWriteBarrier`. -/
def twoThreads : List (Act Bool Bool) :=
  [.alloc true (some true) 1000 0, .alloc false (some false) 24 0, .resume true, .bump true true 48]

theorem alloc_tiles_two_threads :
    let r := (ledgerMachine id).run (.start (.bootedAt 0x7f0000000000), .empty) twoThreads
    (r.2.handed.map Handout.block).Pairwise Apart ∧ r.2.handed.length = 3 :=
  ⟨(alloc_tiles_segments id booted_high twoThreads).2.2.2, by decide⟩

end

end MiniGC
