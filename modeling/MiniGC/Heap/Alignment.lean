import MiniGC.Heap.Calls

/-!
# MiniGC.Heap.Alignment

Whether `Alloc` returns aligned addresses. It rounds no size up and does not look at its flags, so a
block is aligned only if the one before it in its context ended at a multiple of 8.

* `sizeMachine`   runs of `Alloc` calls, next to the size each context was last served.
* `Ragged`        a call is served right behind a block whose size is no multiple of 8.
* `alloc_aligned_iff`   a run returns multiples of 8 only, exactly as long as no call is ragged.
-/

namespace MiniGC

section

variable {C : Type} [DecidableEq C]

/-- The size of the block a context was served last, or 0. -/
def recordSize (last : C → W) (call : AllocCall C) (result : W) : C → W :=
  match call.acontext with
  | some c => if result = 0 then last else Function.update last c call.size
  | none => last

def sizeMachine (C : Type) [DecidableEq C] : Mealy (World C × (C → W)) (AllocCall C) W :=
  (allocMachine C).observed recordSize

/-- `sizeof(uintptr_t)`. -/
def pointerSize : Nat := 8

def Aligned (p : W) : Prop := p.toNat % pointerSize = 0

/-- A pointer that the call returns is aligned. -/
def ReturnsAligned (r : World C × (C → W)) (call : AllocCall C) : Prop :=
  (sizeMachine C).answer r call ≠ 0 → Aligned ((sizeMachine C).answer r call)

/-- The call passes the first test and is served from the range of its context, and what that
context was served last has a size that is no multiple of 8. -/
def Ragged (r : World C × (C → W)) (call : AllocCall C) : Prop :=
  ∃ c, call.acontext = some c ∧ sizeRefused call.size = false ∧
    (r.1.ctxs c).fits call.size = true ∧ ¬ (r.2 c).toNat % pointerSize = 0

@[simp] theorem recordSize_null (last : C → W) (call : AllocCall C) :
    recordSize last call 0 = last := by
  unfold recordSize
  split <;> rfl

theorem recordSize_of_ne {call : AllocCall C} {c : C} (hc : call.acontext = some c) {result : W}
    (hne : result ≠ 0) (last : C → W) :
    recordSize last call result = Function.update last c call.size := by
  simp only [recordSize, hc, if_neg hne]

omit [DecidableEq C] in
theorem AllocCall.Misses.not_ragged {r : World C × (C → W)} {call : AllocCall C} {c : C}
    (hmiss : call.Misses r.1 c) : ¬ Ragged r call := by
  rintro ⟨c', hc', -, hfits, -⟩
  rw [hmiss.fits_of_acontext hc'] at hfits
  cases hfits

/-! ## What aligned runs keep -/

/-- The arena is aligned, and a context stands behind an aligned block of the size it was served. -/
structure AlignInv (r : World C × (C → W)) : Prop where
  calls : CallInv r.1
  arena : Aligned r.1.heap.heapArena
  ctx : ∀ c, (r.1.ctxs c).allocPtr = 0 ∨
    (r.1.ctxs c).allocPtr.toNat % pointerSize = (r.2 c).toNat % pointerSize

section

omit [DecidableEq C]

theorem Fresh.alignInv {h : Heap} (hf : Fresh h) : AlignInv (.start h, fun _ : C => 0) where
  calls := hf.callInv
  arena := by
    have ha := hf.arena_aligned
    show h.heapArena.toNat % 8 = 0
    omega
  ctx _ := .inl rfl

/-- Segments start at multiples of the page size from the arena. -/
theorem AlignInv.arenaNext {r : World C × (C → W)} (hi : AlignInv r) :
    Aligned r.1.heap.arenaNext := by
  have ha : r.1.heap.heapArena.toNat % 8 = 0 := hi.arena
  have hn := hi.calls.heap.arenaNext
  rw [growthSize_toNat] at hn
  show r.1.heap.arenaNext.toNat % 8 = 0
  omega

end

theorem AlignInv.setCtx {r : World C × (C → W)} (hi : AlignInv r) {w : World C} (hw : CallInv w)
    (ha : w.heap.heapArena = r.1.heap.heapArena) {c : C} {ctx : GcAllocContext} {size : W}
    (hctxs : w.ctxs = Function.update r.1.ctxs c ctx)
    (hctx : ctx.allocPtr.toNat % pointerSize = size.toNat % pointerSize) :
    AlignInv (w, Function.update r.2 c size) := by
  refine ⟨hw, ha ▸ hi.arena, fun c' => ?_⟩
  dsimp only
  rw [hctxs]
  by_cases hcc : c' = c
  · subst hcc
    rw [Function.update_self, Function.update_self]
    exact .inr hctx
  · rw [Function.update_of_ne hcc, Function.update_of_ne hcc]
    exact hi.ctx c'

/-- A call returns an aligned pointer exactly if it is not ragged, and then keeps the invariant. -/
theorem AlignInv.outcome {r : World C × (C → W)} (hi : AlignInv r) {call : AllocCall C}
    {r' : World C × W} (ho : AllocOutcome r.1 call r') :
    ((r'.2 ≠ 0 → Aligned r'.2) ↔ ¬ Ragged r call) ∧
      (¬ Ragged r call → AlignInv (r'.1, recordSize r.2 call r'.2)) := by
  have hw := hi.calls.outcome ho
  have ha := ho.heapArena
  cases ho with
  | refused h =>
    refine ⟨iff_of_true (fun h0 => absurd rfl h0) ?_, fun _ => ?_⟩
    · rintro ⟨c, hc, hsize, -⟩
      exact AllocCall.not_refused hc hsize h
    · rw [recordSize_null]
      exact hi
  | served c hc hsize hfits =>
    have hne := (GcAllocContext.fits_iff.mp hfits).1
    have hptr := (hi.ctx c).resolve_left hne
    have hragged : ¬ Ragged r call ↔ (r.2 c).toNat % pointerSize = 0 := by
      constructor
      · intro hnot
        by_contra hmod
        exact hnot ⟨c, hc, hsize, hfits, hmod⟩
      · rintro hmod ⟨c', hc', -, -, hnot⟩
        obtain rfl := Option.some.inj (hc.symm.trans hc')
        exact hnot hmod
    rw [hragged]
    refine ⟨⟨fun h => hptr ▸ h hne, fun hmod _ => hptr.trans hmod⟩, fun hmod => ?_⟩
    rw [recordSize_of_ne hc hne]
    refine hi.setCtx hw ha rfl ?_
    obtain ⟨S, -, hin, huser, hle⟩ := hi.calls.served_in hfits
    have hmod' : (r.1.ctxs c).allocPtr.toNat % 8 = 0 := hptr.trans hmod
    show ((r.1.ctxs c).allocPtr + call.size).toNat % 8 = call.size.toNat % 8
    rw [hin.bump_toNat huser hle]
    omega
  | full c hmiss hcount =>
    refine ⟨iff_of_true (fun h0 => absurd rfl h0) hmiss.not_ragged, fun _ => ?_⟩
    rw [recordSize_null]
    exact ⟨hw, ha ▸ hi.arena, hi.ctx⟩
  | carved c hmiss hcount =>
    have hnext : r.1.heap.arenaNext.toNat % 8 = 0 := hi.arenaNext
    obtain ⟨hgap, hne⟩ := hi.calls.arenaNext_gap hcount
    rw [beginGap_toNat] at hgap
    refine ⟨iff_of_true (fun _ => ?_) hmiss.not_ragged, fun _ => ?_⟩
    · show (r.1.heap.arenaNext + beginGap).toNat % 8 = 0
      omega
    · rw [recordSize_of_ne hmiss.acontext hne]
      refine hi.setCtx hw ha rfl ?_
      have hS : r.1.heap.arenaNext.toNat + growthSize.toNat ≤ 2 ^ 63 := by
        have hu := hi.calls.heap.arena_user
        have hn := hi.calls.heap.arenaNext
        rw [arenaSegments_eq] at hcount
        rw [growthSize_toNat] at hn ⊢
        rw [heapArenaSize_toNat] at hu
        omega
      have hptr := enterSegment_ptr (r.1.ctxs c) hmiss.size hS
      rw [beginGap_toNat] at hptr
      show (enterSegment (r.1.ctxs c) r.1.heap.arenaNext call.size).allocPtr.toNat % 8 =
        call.size.toNat % 8
      omega

/-- In a run of `Alloc` calls every pointer returned is a multiple of 8 exactly if no call is served
behind a block whose size is not one. -/
theorem alloc_aligned_iff {h : Heap} (hb : Booted h) (calls : List (AllocCall C)) :
    (sizeMachine C).EachStep ReturnsAligned (.start h, fun _ => 0) calls ↔
      (sizeMachine C).EachStep (fun r call => ¬ Ragged r call) (.start h, fun _ => 0) calls :=
  Mealy.eachStep_iff _
    (fun _ call hi => (hi.outcome (alloc_outcome hi.calls.heap call)).1)
    (fun _ call hi => (hi.outcome (alloc_outcome hi.calls.heap call)).2) hb.fresh.alignInv

theorem alloc_aligned_two :
    (sizeMachine Bool).EachStep ReturnsAligned (.start (.bootedAt 0x7f0000000000), fun _ => 0)
      [⟨some true, 24, 0⟩, ⟨some true, 1, 0⟩] := by
  refine (alloc_aligned_iff booted_high _).mpr ?_
  simp only [Mealy.eachStep_cons]
  refine ⟨?_, ?_, Mealy.eachStep_nil _ _ _⟩
  · rintro ⟨c, -, -, -, hmod⟩
    exact hmod rfl
  · rintro ⟨c, hc, -, -, hmod⟩
    obtain rfl := Option.some.inj hc
    exact hmod (by decide)

/-- A request for one byte, and one for an aligned object behind it: `0x7f0000000019`. -/
theorem alloc_unaligned :
    ¬ (sizeMachine Bool).EachStep ReturnsAligned (.start (.bootedAt 0x7f0000000000), fun _ => 0)
      [⟨some true, 1, 0⟩, ⟨some true, 24, 8⟩] := by
  intro hall
  have hlast := hall [⟨some true, 1, 0⟩] ⟨some true, 24, 8⟩ (List.prefix_refl _) (by decide)
  exact absurd hlast (by unfold Aligned; decide)

end

end MiniGC
