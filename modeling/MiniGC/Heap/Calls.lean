import MiniGC.Heap.Alloc

/-!
# MiniGC.Heap.Calls

Runs of whole `Alloc` calls.

* `AllocOutcome`   the four ways a call can go, each with its guard and all that it changes.
* `CallInv`        what every call keeps: the heap's invariant, each context unused or inside a
  registered segment behind its gap, and no collection in progress.
* `alloc_null_iff` when a call returns null, and that it then leaves everything alone.
-/

namespace MiniGC

/-! ## The collection of a filled context -/

theorem Heap.collect_segments (h : Heap) : h.collect.segments = h.segments := rfl

/-- A collection changes nothing but what the EE has been asked. -/
theorem Heap.collect_eq {h : Heap} (hidle : h.gcInProgress = false) :
    h.collect = { h with upcalls := h.collect.upcalls } := by
  obtain ⟨⟩ := h
  simp only at hidle
  simp only [hidle, Heap.collect, Heap.beginCollection, Heap.scanRoots, Heap.restart,
    Heap.endCollection, Heap.upcall]

theorem Heap.stomps_collect (h : Heap) : h.collect.stomps = h.stomps := by
  have hb : h.beginCollection.stomps = h.stomps := by
    rw [Heap.beginCollection, Heap.stomps_upcall]
    exact List.append_nil _
  have hs : h.beginCollection.scanRoots.stomps = h.beginCollection.stomps := by
    rw [Heap.scanRoots, Heap.stomps_upcall]
    exact List.append_nil _
  have hr : h.beginCollection.scanRoots.restart.stomps = h.beginCollection.scanRoots.stomps := by
    rw [Heap.restart, Heap.stomps_upcall]
    exact List.append_nil _
  exact hr.trans (hs.trans hb)

/-- The heap after one more segment, published if it is the first. -/
def Heap.grown (h : Heap) : Heap := publishSegment h.carved h.arenaNext

theorem Heap.grown_segments (h : Heap) : h.grown.segments = h.segments ++ [h.arenaNext] := by
  rw [Heap.grown, publishSegment_segments, Heap.carved]

theorem Heap.grown_heapArena (h : Heap) : h.grown.heapArena = h.heapArena := by
  unfold Heap.grown publishSegment
  split <;> rfl

theorem Heap.grown_gcInProgress (h : Heap) : h.grown.gcInProgress = h.gcInProgress := by
  unfold Heap.grown publishSegment
  split <;> rfl

section

variable {C : Type}

/-- The heap at the bounds check of an `Alloc` on `c` that its fast path did not serve. -/
def World.atBoundsCheck (w : World C) (c : C) : Heap :=
  if (w.ctxs c).allocLimit ≠ 0 then w.heap.collect else w.heap

theorem World.atBoundsCheck_cases (w : World C) (c : C) :
    w.atBoundsCheck c = w.heap ∨ w.atBoundsCheck c = w.heap.collect := by
  unfold World.atBoundsCheck
  split
  · exact .inr rfl
  · exact .inl rfl

theorem World.atBoundsCheck_segments (w : World C) (c : C) :
    (w.atBoundsCheck c).segments = w.heap.segments := by
  rcases w.atBoundsCheck_cases c with h | h <;> rw [h]
  exact w.heap.collect_segments

theorem World.atBoundsCheck_heapArena (w : World C) (c : C) :
    (w.atBoundsCheck c).heapArena = w.heap.heapArena := by
  rcases w.atBoundsCheck_cases c with h | h <;> rw [h]
  rfl

theorem World.atBoundsCheck_arenaNext (w : World C) (c : C) :
    (w.atBoundsCheck c).arenaNext = w.heap.arenaNext := by
  rcases w.atBoundsCheck_cases c with h | h <;> rw [h]
  rfl

/-- The table after a call that carves a segment for `c`. -/
theorem World.grown_segments (w : World C) (c : C) :
    (w.atBoundsCheck c).grown.segments = w.heap.segments ++ [w.heap.arenaNext] := by
  rw [Heap.grown_segments, w.atBoundsCheck_segments c, w.atBoundsCheck_arenaNext c]

theorem World.atBoundsCheck_stomps (w : World C) (c : C) :
    (w.atBoundsCheck c).stomps = w.heap.stomps := by
  rcases w.atBoundsCheck_cases c with h | h <;> rw [h]
  exact w.heap.stomps_collect

theorem World.atBoundsCheck_eq {w : World C} (hidle : w.heap.gcInProgress = false) (c : C) :
    w.atBoundsCheck c = { w.heap with upcalls := (w.atBoundsCheck c).upcalls } := by
  rcases w.atBoundsCheck_cases c with h | h <;> rw [h]
  exact Heap.collect_eq hidle

theorem HeapInv.atBoundsCheck {w : World C} (hi : HeapInv w.heap) (c : C) :
    HeapInv (w.atBoundsCheck c) := by
  rcases w.atBoundsCheck_cases c with h | h <;> rw [h]
  · exact hi
  · exact hi.collect

/-! ## The ways a call can go -/

/-- A call that passes the first test on context `c` and is not served by the fast path. -/
structure AllocCall.Misses (call : AllocCall C) (w : World C) (c : C) : Prop where
  acontext : call.acontext = some c
  size : sizeRefused call.size = false
  fits : (w.ctxs c).fits call.size = false

theorem AllocCall.not_refused {call : AllocCall C} {c : C} (hc : call.acontext = some c)
    (hsize : sizeRefused call.size = false) :
    ¬ (call.acontext = none ∨ sizeRefused call.size = true) := by
  rintro (h | h)
  · rw [hc] at h; cases h
  · rw [hsize] at h; cases h

/-- A call speaks of one context only. -/
theorem AllocCall.Misses.fits_of_acontext {call : AllocCall C} {w : World C} {c c' : C}
    (hmiss : call.Misses w c) (hc : call.acontext = some c') :
    (w.ctxs c').fits call.size = false := by
  obtain rfl : c = c' := Option.some.inj (hmiss.acontext.symm.trans hc)
  exact hmiss.fits

variable [DecidableEq C]

inductive AllocOutcome (w : World C) (call : AllocCall C) : World C × W → Prop where
  /-- The first test fails. -/
  | refused (h : call.acontext = none ∨ sizeRefused call.size = true) : AllocOutcome w call (w, 0)
  /-- The fast path. -/
  | served (c : C) (acontext : call.acontext = some c) (size : sizeRefused call.size = false)
      (fits : (w.ctxs c).fits call.size = true) :
      AllocOutcome w call (w.setCtx c
        { w.ctxs c with allocPtr := (w.ctxs c).allocPtr + call.size }, (w.ctxs c).allocPtr)
  /-- The arena holds no other segment. -/
  | full (c : C) (misses : call.Misses w c) (count : w.heap.segments.length = arenaSegments) :
      AllocOutcome w call ({ w with heap := w.atBoundsCheck c }, 0)
  /-- A new segment. -/
  | carved (c : C) (misses : call.Misses w c) (count : w.heap.segments.length < arenaSegments) :
      AllocOutcome w call
        (({ w with heap := (w.atBoundsCheck c).grown }).setCtx c
            (enterSegment (w.ctxs c) w.heap.arenaNext call.size), w.heap.arenaNext + beginGap)

theorem alloc_outcome {w : World C} (hi : HeapInv w.heap) (call : AllocCall C) :
    AllocOutcome w call (alloc w call.acontext call.size call.flags) := by
  obtain ⟨acontext, size, flags⟩ := call
  cases acontext with
  | none => exact .refused (.inl rfl)
  | some c =>
    by_cases hsize : sizeRefused size = true
    · simp only [alloc, hsize, if_true]
      exact .refused (.inr hsize)
    by_cases hfits : (w.ctxs c).fits size = true
    · simp only [alloc, hsize, hfits, if_true]
      exact .served c rfl (Bool.eq_false_iff.mpr hsize) hfits
    have hmiss : AllocCall.Misses ⟨some c, size, flags⟩ w c :=
      ⟨rfl, Bool.eq_false_iff.mpr hsize, Bool.eq_false_iff.mpr hfits⟩
    have hslow : alloc w (some c) size flags =
        allocFromNewSegment { w with heap := w.atBoundsCheck c } c size := by
      simp only [alloc, if_neg hsize, if_neg hfits, World.atBoundsCheck]
      by_cases hl : (w.ctxs c).allocLimit ≠ 0
      · rw [if_pos hl, if_pos hl]
      · rw [if_neg hl, if_neg hl]
    have hlen := congrArg List.length (w.atBoundsCheck_segments c)
    have hnext := w.atBoundsCheck_arenaNext c
    rw [hslow, allocFromNewSegment]
    rcases carveSegment_cases (hi.atBoundsCheck c) with ⟨hcount, hc⟩ | ⟨hcount, hc⟩
    · rw [hc]
      exact .full c hmiss (hlen ▸ hcount)
    · rw [hc, hnext]
      have := AllocOutcome.carved c hmiss (hlen ▸ hcount)
      rwa [Heap.grown, hnext] at this

/-- The arena never moves. -/
theorem AllocOutcome.heapArena {w : World C} {call : AllocCall C} {r : World C × W}
    (ho : AllocOutcome w call r) : r.1.heap.heapArena = w.heap.heapArena := by
  cases ho with
  | refused => rfl
  | served => rfl
  | full c => exact w.atBoundsCheck_heapArena c
  | carved c =>
    rw [World.setCtx_heap, Heap.grown_heapArena]
    exact w.atBoundsCheck_heapArena c

/-- Segments are never taken out of the table. -/
theorem AllocOutcome.segments_prefix {w : World C} {call : AllocCall C} {r : World C × W}
    (ho : AllocOutcome w call r) : w.heap.segments <+: r.1.heap.segments := by
  cases ho with
  | refused => exact List.prefix_refl _
  | served => exact List.prefix_refl _
  | full c => exact w.atBoundsCheck_segments c ▸ List.prefix_refl _
  | carved c =>
    rw [World.setCtx_heap, w.grown_segments c]
    exact List.prefix_append _ _

/-! ## What every call keeps -/

structure CallInv (w : World C) : Prop where
  heap : HeapInv w.heap
  ctx : ∀ c, ((w.ctxs c).allocPtr = 0 ∧ (w.ctxs c).allocLimit = 0) ∨
    ∃ S ∈ w.heap.segments, (w.ctxs c).In S
  idle : w.heap.gcInProgress = false

section

omit [DecidableEq C]

theorem Fresh.callInv {h : Heap} (hf : Fresh h) : CallInv (.start h : World C) :=
  ⟨hf.heapInv, fun _ => .inl ⟨rfl, rfl⟩, hf.gcInProgress⟩

/-- A context keeps its place in the segment table while the table only grows. -/
theorem CallInv.ctx_mono {w : World C} (hi : CallInv w) {segments : List W}
    (hsub : w.heap.segments ⊆ segments) (c : C) :
    ((w.ctxs c).allocPtr = 0 ∧ (w.ctxs c).allocLimit = 0) ∨
      ∃ S ∈ segments, (w.ctxs c).In S := by
  rcases hi.ctx c with h | ⟨S, hS, hin⟩
  · exact .inl h
  · exact .inr ⟨S, hsub hS, hin⟩

/-- A context that the fast path serves lies in a registered segment, with room for the request. -/
theorem CallInv.served_in {w : World C} (hi : CallInv w) {c : C} {size : W}
    (hfits : (w.ctxs c).fits size = true) :
    ∃ S ∈ w.heap.segments, (w.ctxs c).In S ∧ S.toNat + growthSize.toNat ≤ 2 ^ 63 ∧
      size ≤ (w.ctxs c).allocLimit - (w.ctxs c).allocPtr := by
  obtain ⟨hptr, -, hle⟩ := GcAllocContext.fits_iff.mp hfits
  rcases hi.ctx c with ⟨h0, -⟩ | ⟨S, hS, hin⟩
  · exact absurd h0 hptr
  · exact ⟨S, hS, hin, (hi.heap.segment_user hS).2, hle⟩

theorem CallInv.atBoundsCheck_idle {w : World C} (hi : CallInv w) (c : C) :
    (w.atBoundsCheck c).gcInProgress = false := by
  rw [World.atBoundsCheck_eq hi.idle]
  exact hi.idle

end

theorem CallInv.outcome {w : World C} (hi : CallInv w) {call : AllocCall C} {r : World C × W}
    (ho : AllocOutcome w call r) : CallInv r.1 := by
  cases ho with
  | refused => exact hi
  | served c hc hsize hfits =>
    refine ⟨hi.heap, fun c' => ?_, hi.idle⟩
    by_cases hcc : c' = c
    · subst hcc
      obtain ⟨S, hS, hin, huser, hle⟩ := hi.served_in hfits
      right
      refine ⟨S, hS, ?_⟩
      rw [World.setCtx_ctxs, Function.update_self]
      exact hin.bump huser hle
    · rw [World.setCtx_ctxs, Function.update_of_ne hcc]
      exact hi.ctx c'
  | full c =>
    refine ⟨hi.heap.atBoundsCheck c, fun c' => ?_, hi.atBoundsCheck_idle c⟩
    exact hi.ctx_mono (w.atBoundsCheck_segments c ▸ List.Subset.refl _) c'
  | carved c hmiss hcount =>
    have hgrown : HeapInv (w.atBoundsCheck c).grown :=
      (hi.heap.atBoundsCheck c).publish (w.atBoundsCheck_segments c ▸ hcount)
    have hsegs := w.grown_segments c
    have hnew : w.heap.arenaNext ∈ (w.atBoundsCheck c).grown.segments := by
      rw [hsegs]
      exact List.mem_append_right _ (List.mem_singleton_self _)
    refine ⟨hgrown, fun c' => ?_, ?_⟩
    · by_cases hcc : c' = c
      · subst hcc
        right
        refine ⟨w.heap.arenaNext, hnew, ?_⟩
        rw [World.setCtx_ctxs, Function.update_self]
        exact enterSegment_in _ hmiss.size (hgrown.segment_user hnew).2
      · rw [World.setCtx_ctxs, Function.update_of_ne hcc]
        exact hi.ctx_mono (hsegs ▸ List.subset_append_left _ _) c'
    · show (w.atBoundsCheck c).grown.gcInProgress = false
      rw [Heap.grown_gcInProgress]
      exact hi.atBoundsCheck_idle c

theorem CallInv.step {w : World C} (hi : CallInv w) (call : AllocCall C) :
    CallInv ((allocMachine C).next w call) :=
  hi.outcome (alloc_outcome hi.heap call)

theorem callInv_run {h : Heap} (hf : Fresh h) (calls : List (AllocCall C)) :
    CallInv ((allocMachine C).run (.start h) calls) :=
  (allocMachine C).run_inv (fun _ call hi => hi.step call) hf.callInv calls

/-! ## When a call returns null -/

theorem sizeRefused_iff {size : W} :
    sizeRefused size = true ↔ size = 0 ∨ growthSize - 24 < size := by
  simp [sizeRefused]

theorem GcAllocContext.In.ptr_ne {ctx : GcAllocContext} {S : W} (hin : ctx.In S) :
    ctx.allocPtr ≠ 0 ∧ ctx.allocLimit ≠ 0 := by
  have hgap := hin.gap_le
  have hlim := hin.limit
  rw [beginGap_toNat] at hgap
  rw [growthSize_toNat] at hlim
  constructor <;> intro h0
  · rw [h0, show (0 : W).toNat = 0 from rfl] at hgap
    omega
  · rw [h0, show (0 : W).toNat = 0 from rfl] at hlim
    omega

section

omit [DecidableEq C]

/-- The fast path is open to a request exactly when the context's range has room for it; an unused
context's range is empty. -/
theorem CallInv.fits_eq_false {w : World C} (hi : CallInv w) {c : C} {size : W}
    (hsize : sizeRefused size = false) : (w.ctxs c).fits size = false ↔
      (w.ctxs c).allocLimit - (w.ctxs c).allocPtr < size := by
  rw [Bool.eq_false_iff, ne_eq, GcAllocContext.fits_iff, ← BitVec.not_le]
  rcases hi.ctx c with ⟨hp, hl⟩ | ⟨S, -, hin⟩
  · have hpos := (sizeRefused_eq_false hsize).1
    have hnot : ¬ size ≤ (0 : W) - 0 := by
      intro hle
      have := BitVec.le_def.mp hle
      rw [show ((0 : W) - 0).toNat = 0 from rfl] at this
      omega
    simp only [hp, hl, hnot, and_false]
  · simp only [hin.ptr_ne, ne_eq, not_false_eq_true, true_and]

theorem CallInv.arenaNext_gap {w : World C} (hi : CallInv w)
    (hcount : w.heap.segments.length < arenaSegments) :
    (w.heap.arenaNext + beginGap).toNat = w.heap.arenaNext.toNat + beginGap.toNat ∧
      w.heap.arenaNext + beginGap ≠ 0 := by
  have hgrown := hi.heap.publish hcount
  have hnew : w.heap.arenaNext ∈ (publishSegment w.heap.carved w.heap.arenaNext).segments := by
    rw [publishSegment_segments]
    exact List.mem_append_right _ (List.mem_singleton_self _)
  have hadd := beginGap_add (hgrown.segment_user hnew).2
  refine ⟨hadd, fun h0 => ?_⟩
  rw [h0, beginGap_toNat, show (0 : W).toNat = 0 from rfl] at hadd
  omega

end

/-- A call returns null exactly when the first test fails, or when the request does not fit and the
arena is full. -/
theorem CallInv.null_iff {w : World C} (hi : CallInv w) {call : AllocCall C} {r : World C × W}
    (ho : AllocOutcome w call r) : r.2 = 0 ↔
      (call.acontext = none ∨ sizeRefused call.size = true) ∨
        ∃ c, call.Misses w c ∧ w.heap.segments.length = arenaSegments := by
  cases ho with
  | refused h => simp [h]
  | served c hc hsize hfits =>
    refine iff_of_false (GcAllocContext.fits_iff.mp hfits).1 ?_
    rintro (h | ⟨c', hmiss, -⟩)
    · exact AllocCall.not_refused hc hsize h
    · rw [hmiss.fits_of_acontext hc] at hfits
      cases hfits
  | full c hmiss hcount => exact iff_of_true rfl (.inr ⟨c, hmiss, hcount⟩)
  | carved c hmiss hcount =>
    refine iff_of_false (hi.arenaNext_gap hcount).2 ?_
    rintro (h | ⟨-, -, hfull⟩)
    · exact AllocCall.not_refused hmiss.acontext hmiss.size h
    · omega

/-- A call that returns null leaves everything alone, but for what it asked of the EE. -/
theorem CallInv.null_same {w : World C} (hi : CallInv w) {call : AllocCall C} {r : World C × W}
    (ho : AllocOutcome w call r) (h0 : r.2 = 0) :
    r.1.ctxs = w.ctxs ∧ r.1.heap = { w.heap with upcalls := r.1.heap.upcalls } ∧
      r.1.heap.stomps = w.heap.stomps := by
  cases ho with
  | refused => exact ⟨rfl, rfl, rfl⟩
  | served c hc hsize hfits => exact absurd h0 (GcAllocContext.fits_iff.mp hfits).1
  | full c => exact ⟨rfl, World.atBoundsCheck_eq hi.idle c, w.atBoundsCheck_stomps c⟩
  | carved c hmiss hcount => exact absurd h0 (hi.arenaNext_gap hcount).2

/-- After any calls, a call of `Alloc` returns null exactly when the context is null, the size is
out of bounds, or the request does not fit its context while the arena is full. It then leaves the
contexts and the globals as they were, and has stomped no barrier. Registration never fails, so
`g_arena_next` stays at the end of the registered segments. -/
theorem alloc_null_iff {h : Heap} (hb : Booted h) (calls : List (AllocCall C))
    (call : AllocCall C) :
    let w := (allocMachine C).run (.start h) calls
    let r := alloc w call.acontext call.size call.flags
    (r.2 = 0 ↔ call.acontext = none ∨ call.size = 0 ∨ growthSize - 24 < call.size ∨
      ∃ c, call.acontext = some c ∧
        (w.ctxs c).allocLimit - (w.ctxs c).allocPtr < call.size ∧
        w.heap.segmentsCount = heapArenaSize.toNat / growthSize.toNat) ∧
    (r.2 = 0 → r.1.ctxs = w.ctxs ∧ r.1.heap = { w.heap with upcalls := r.1.heap.upcalls } ∧
      r.1.heap.stomps = w.heap.stomps) ∧
    (∀ c h' newPages, reserveSegment (w.atBoundsCheck c) = some (h', newPages) →
      (registerSegment h' newPages).2 = true) ∧
    r.1.heap.arenaNext.toNat =
      r.1.heap.heapArena.toNat + r.1.heap.segmentsCount * growthSize.toNat := by
  intro w r
  have hi : CallInv w := callInv_run hb.fresh calls
  have ho := alloc_outcome hi.heap call
  refine ⟨?_, hi.null_same ho, ?_, (hi.outcome ho).heap.arenaNext⟩
  · rw [hi.null_iff ho, sizeRefused_iff, or_assoc, or_assoc]
    by_cases hsize : call.size = 0 ∨ growthSize - 24 < call.size
    · rcases hsize with h0 | h0
      · exact iff_of_true (.inr (.inl h0)) (.inr (.inl h0))
      · exact iff_of_true (.inr (.inr (.inl h0))) (.inr (.inr (.inl h0)))
    have hok : sizeRefused call.size = false :=
      Bool.eq_false_iff.mpr fun hx => hsize (sizeRefused_iff.mp hx)
    refine or_congr_right (or_congr_right (or_congr_right ?_))
    constructor
    · rintro ⟨c, hmiss, hcount⟩
      exact ⟨c, hmiss.acontext, (hi.fits_eq_false hok).mp hmiss.fits, hcount⟩
    · rintro ⟨c, hc, hlt, hcount⟩
      exact ⟨c, ⟨hc, hok, (hi.fits_eq_false hok).mpr hlt⟩, hcount⟩
  · intro c h' newPages hr
    rw [(hi.heap.atBoundsCheck c).register_ok hr]

/-- One context carves all of the arena, a segment for each request. -/
def fullArena : World Bool :=
  (allocMachine Bool).run (.start (.bootedAt 0x7f0000000000))
    (.replicate 128 ⟨some true, 1048552, 0⟩)

/-- The arena is full, and so is the context that filled it. -/
theorem alloc_null_full_arena :
    (alloc fullArena (some true) 1 0).2 = 0 ∧
      (alloc fullArena (some true) 1 0).1.ctxs = fullArena.ctxs ∧
      (alloc fullArena (some false) 24 0).2 = 0 := by
  have hfilled := alloc_null_iff booted_high (.replicate 128 ⟨some true, 1048552, 0⟩)
    ⟨some true, 1, 0⟩
  have hempty := alloc_null_iff booted_high (.replicate 128 ⟨some true, 1048552, 0⟩)
    ⟨some false, 24, 0⟩
  have hcount : fullArena.heap.segmentsCount = 128 := by decide +kernel
  have hroom : (fullArena.ctxs true).allocLimit - (fullArena.ctxs true).allocPtr < 1 := by
    decide +kernel
  have hroom' : (fullArena.ctxs false).allocLimit - (fullArena.ctxs false).allocPtr < 24 := by
    decide +kernel
  rw [← fullArena] at hfilled hempty
  generalize fullArena = w at *
  have hone := hfilled.1.mpr (.inr (.inr (.inr ⟨true, rfl, hroom, hcount⟩)))
  exact ⟨hone, (hfilled.2.1 hone).1, hempty.1.mpr (.inr (.inr (.inr ⟨false, rfl, hroom', hcount⟩)))⟩

end

end MiniGC
