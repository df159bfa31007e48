import MiniGC.Heap.Calls
import MiniGC.Heap.Tiled

/-!
# MiniGC.Heap.Barrier

What the EE's write barrier can rely on.

* `BarrierAccess h p`    the two table accesses of a reference store at `p`, indexed the way
  `MiniGCHeapConstants.h` states: by the address itself, shifted.
* `barrierAccess_iff`    in every reachable state these stay inside the tables for the whole
  published range only while that range is empty, or where the arena happens to lie at the bottom of
  the address space.
* `Covered`              every block handed out lies in the range last sent to the EE.
* `covered_iff`          a run keeps that exactly as long as no call carves a second segment.
-/

namespace MiniGC

/-! ## The card tables -/

/-- Entry `index` of a table of `uint32_t` at `table` lies in pages the collector holds. -/
def Heap.HoldsEntry (h : Heap) (table index : W) : Prop :=
  ∃ size, (table, size) ∈ h.held ∧ index.toNat * 4 + 4 ≤ size.toNat

/-- The barrier's accesses for a store at `p` are within bounds, through whichever pointers the EE
has been given. -/
structure BarrierAccess (h : Heap) (p : W) : Prop where
  card : p >>> cardSizeShift < h.cardTableCount
  bundle : p >>> cardBundleShift < h.cardBundleCount
  card_held : ∀ args ∈ h.stomps, h.HoldsEntry args.cardTable (p >>> cardSizeShift)
  bundle_held : ∀ args ∈ h.stomps, h.HoldsEntry args.cardBundleTable (p >>> cardBundleShift)

theorem card_lt_iff (p : W) :
    p >>> cardSizeShift < heapArenaSize / cardSize ↔ p.toNat < heapArenaSize.toNat := by
  rw [BitVec.lt_def, BitVec.toNat_ushiftRight, Nat.shiftRight_eq_div_pow,
    show (heapArenaSize / cardSize).toNat = 524288 by decide, heapArenaSize_toNat, cardSizeShift]
  omega

theorem bundle_lt_iff (p : W) :
    p >>> cardBundleShift < heapArenaSize / cardBundleSize ↔ p.toNat < heapArenaSize.toNat := by
  rw [BitVec.lt_def, BitVec.toNat_ushiftRight, Nat.shiftRight_eq_div_pow,
    show (heapArenaSize / cardBundleSize).toNat = 65536 by decide, heapArenaSize_toNat,
    cardBundleShift]
  omega

/-- The tables were sized for addresses below `HEAP_ARENA_SIZE`. -/
theorem BarrierInv.access_iff {h : Heap} (hb : BarrierInv h) (p : W) :
    BarrierAccess h p ↔ p.toNat < heapArenaSize.toNat := by
  constructor
  · intro ha
    have hcard := ha.card
    rwa [hb.cardTableCount, card_lt_iff] at hcard
  · intro hp
    have hcard := (card_lt_iff p).mpr hp
    have hbundle := (bundle_lt_iff p).mpr hp
    refine ⟨hb.cardTableCount ▸ hcard, hb.cardBundleCount ▸ hbundle, ?_, ?_⟩
    · intro args hargs
      refine ⟨_, (hb.tables args hargs).1 ▸ hb.cards_held, ?_⟩
      rw [hb.cardTableCount, show (heapArenaSize / cardSize * 4).toNat = 2097152 by decide]
      rw [BitVec.lt_def, show (heapArenaSize / cardSize).toNat = 524288 by decide] at hcard
      omega
    · intro args hargs
      refine ⟨_, (hb.tables args hargs).2 ▸ hb.bundles_held, ?_⟩
      rw [hb.cardBundleCount, show (heapArenaSize / cardBundleSize * 4).toNat = 262144 by decide]
      rw [BitVec.lt_def, show (heapArenaSize / cardBundleSize).toNat = 65536 by decide] at hbundle
      omega

/-- The published range is empty before the first segment, and is the first segment after it. -/
theorem HeapInv.highest_cases {h : Heap} (hi : HeapInv h) :
    (h.segments = [] ∧ h.gcHighestAddress.toNat = h.heapArena.toNat) ∨
      (h.segments ≠ [] ∧
        h.gcHighestAddress.toNat = h.heapArena.toNat + growthSize.toNat) := by
  have hhi := hi.highest
  rcases hs : h.segments with _ | ⟨S, rest⟩
  · left
    rw [hs] at hhi
    exact ⟨rfl, by simpa using hhi⟩
  · right
    rw [hs] at hhi
    refine ⟨List.cons_ne_nil S rest, ?_⟩
    rw [hhi, List.length_cons, Nat.min_eq_right (Nat.le_add_left 1 _), Nat.one_mul]

theorem HeapInv.barrier_iff {h : Heap} (hi : HeapInv h) :
    (∀ p, h.gcLowestAddress ≤ p → p < h.gcHighestAddress → BarrierAccess h p) ↔
      h.segments = [] ∨ h.heapArena.toNat + growthSize.toNat ≤ heapArenaSize.toNat := by
  simp only [hi.barrier.access_iff, hi.lowest]
  rcases hi.highest_cases with ⟨hs, hhi⟩ | ⟨hs, hhi⟩
  · refine iff_of_true (fun p hlo hlt => ?_) (.inl hs)
    rw [BitVec.le_def] at hlo
    rw [BitVec.lt_def] at hlt
    omega
  · rw [or_iff_right hs]
    constructor
    · intro hall
      -- the last byte of the range decides
      have hlast : (h.gcHighestAddress - 1).toNat = h.gcHighestAddress.toNat - 1 := by
        apply toNat_sub_of_le
        rw [hhi, growthSize_toNat, show (1 : W).toNat = 1 from rfl]
        omega
      rw [growthSize_toNat] at hhi ⊢
      have := hall (h.gcHighestAddress - 1)
        (by rw [BitVec.le_def, hlast, hhi]; omega) (by rw [BitVec.lt_def, hlast, hhi]; omega)
      rw [hlast, hhi] at this
      omega
    · intro hle p _ hlt
      rw [BitVec.lt_def] at hlt
      omega

/-! ## Every reachable state -/

section

variable {T C : Type} [DecidableEq T] [DecidableEq C]

/-- One step of the process: of a thread, or a further call of `GC_Initialize` or `Initialize`. -/
inductive ProcessStep (owner : C → T) : Threads T C → Threads T C → Prop where
  | act (s : Threads T C) (a : Act T C) : ProcessStep owner s (s.step owner a).1
  | host {s : Threads T C} {h : Heap} (hs : HostStep s.world.heap h) :
      ProcessStep owner s (s.setHeap h)

/-- A call of the host once there is an arena at most binds another EE. -/
theorem HostStep.heapInv {h h' : Heap} (hs : HostStep h h') (hi : HeapInv h) :
    HeapInv h' ∧ h'.segments = h.segments := by
  cases hs with
  | gcInitialize clrToGC gcHeap gcHandleManager newManager newHeap =>
    obtain ⟨clr, he⟩ := gcInitialize_eq h clrToGC gcHeap gcHandleManager newManager newHeap
    rw [he]
    exact ⟨{ hi with barrier := { hi.barrier with } }, rfl⟩
  | heapInitialize handleManager os =>
    rw [heapInitialize_of_arena hi.arena_ne]
    exact ⟨hi, rfl⟩

theorem reachable_inv {owner : C → T} {h : Heap} (hf : Fresh h) {s : Threads T C}
    (hs : Relation.ReflTransGen (ProcessStep owner) (.start h) s) : ∃ L, Inv owner s L := by
  induction hs with
  | refl => exact ⟨_, hf.inv owner⟩
  | tail _ hstep ih =>
    obtain ⟨L, hi⟩ := ih
    cases hstep with
    | act a => exact ⟨_, hi.step a⟩
    | host hs =>
      obtain ⟨hh, hseg⟩ := hs.heapInv hi.heap
      exact ⟨L, hi.setHeap hh hseg⟩

/-- Wherever the arena is and whatever the threads and the host do, the barrier's accesses stay
inside the tables for all of the published range exactly when that range is empty, or ends at or
below the address `HEAP_ARENA_SIZE`. -/
theorem barrierAccess_iff (owner : C → T) {h : Heap} (hb : Booted h) {s : Threads T C}
    (hs : Relation.ReflTransGen (ProcessStep owner) (.start h) s) :
    (∀ p, s.world.heap.gcLowestAddress ≤ p → p < s.world.heap.gcHighestAddress →
      BarrierAccess s.world.heap p) ↔
      s.world.heap.segments = [] ∨
        s.world.heap.heapArena.toNat + growthSize.toNat ≤ heapArenaSize.toNat := by
  obtain ⟨L, hi⟩ := reachable_inv hb.fresh hs
  exact hi.heap.barrier_iff

/-- With the arena at `0x7f00000` the first segment, the whole published range, ends at the address
`HEAP_ARENA_SIZE`. -/
theorem barrierAccess_low_arena :
    let s := ((Threads.start (.bootedAt 0x7f00000) : Threads Bool Bool).step id
      (.alloc true (some true) 24 0)).1
    (s.world.heap.gcLowestAddress = 0x7f00000 ∧ s.world.heap.gcHighestAddress = 0x8000000) ∧
      ∀ p, s.world.heap.gcLowestAddress ≤ p → p < s.world.heap.gcHighestAddress →
        BarrierAccess s.world.heap p :=
  ⟨by decide, (barrierAccess_iff id (booted_at (by decide)) (.single (.act _ _))).mpr
    (.inr (by decide))⟩

/-- With the arena at `0x7f0000000000`, one object is enough: the barrier of a store into it would
dirty card `0x7f00000000` of `524288`. -/
theorem barrierAccess_fails :
    let s := ((Threads.start (.bootedAt 0x7f0000000000) : Threads Bool Bool).step id
      (.alloc true (some true) 24 0)).1
    Relation.ReflTransGen (ProcessStep id) (.start (.bootedAt 0x7f0000000000)) s ∧
      ¬ ∀ p, s.world.heap.gcLowestAddress ≤ p → p < s.world.heap.gcHighestAddress →
        BarrierAccess s.world.heap p := by
  refine ⟨.single (.act _ _), fun hall => ?_⟩
  have hlt := (hall 0x7f0000000018 (by decide) (by decide)).card
  exact absurd hlt (by decide)

end

/-! ## The published range -/

section

variable {C : Type} [DecidableEq C]

/-- The blocks a run of `Alloc` calls has handed out, oldest first. -/
def recordBlock (handed : List (W × W)) (call : AllocCall C) (result : W) : List (W × W) :=
  if result = 0 then handed else handed ++ [(result, call.size)]

/-- Whole calls of `Alloc`, next to the blocks they handed out. -/
def blockMachine (C : Type) [DecidableEq C] : Mealy (World C × List (W × W)) (AllocCall C) W :=
  (allocMachine C).observed recordBlock

/-- The range last sent to the EE is the one the globals hold, and has every block in it. -/
structure Covered (r : World C × List (W × W)) : Prop where
  blocks : ∀ b ∈ r.2, r.1.heap.gcLowestAddress.toNat ≤ b.1.toNat ∧
    b.1.toNat + b.2.toNat ≤ r.1.heap.gcHighestAddress.toNat
  published : ∃ args, r.1.heap.stomps.getLast? = some args ∧
    args.lowestAddress = r.1.heap.gcLowestAddress ∧
    args.highestAddress = r.1.heap.gcHighestAddress

/-- The call carves a segment while another one is registered already. -/
def CarvesAgain (w : World C) (call : AllocCall C) : Prop :=
  ∃ c, call.Misses w c ∧ w.heap.segments ≠ [] ∧ w.heap.segments.length < arenaSegments

/-- Every segment was carved for a block at its start. -/
structure BlockInv (r : World C × List (W × W)) : Prop where
  calls : CallInv r.1
  first : ∀ S ∈ r.1.heap.segments, ∃ size, (S + beginGap, size) ∈ r.2

omit [DecidableEq C] in
theorem mem_recordBlock {handed : List (W × W)} {call : AllocCall C} {result : W} {b : W × W}
    (h : b ∈ handed) : b ∈ recordBlock handed call result := by
  unfold recordBlock
  split
  · exact h
  · exact List.mem_append_left _ h

theorem BlockInv.outcome {r : World C × List (W × W)} (hi : BlockInv r) {call : AllocCall C}
    {r' : World C × W} (ho : AllocOutcome r.1 call r') :
    BlockInv (r'.1, recordBlock r.2 call r'.2) := by
  refine ⟨hi.calls.outcome ho, ?_⟩
  have hkeep : ∀ S ∈ r.1.heap.segments, ∃ size,
      (S + beginGap, size) ∈ recordBlock r.2 call r'.2 := by
    intro S hS
    obtain ⟨size, hmem⟩ := hi.first S hS
    exact ⟨size, mem_recordBlock hmem⟩
  cases ho with
  | refused => exact hkeep
  | served => exact hkeep
  | full c =>
    intro S hS
    exact hkeep S (r.1.atBoundsCheck_segments c ▸ hS)
  | carved c hmiss hcount =>
    intro S hS
    have hS' : S ∈ r.1.heap.segments ++ [r.1.heap.arenaNext] := by
      rw [← r.1.grown_segments c]
      exact hS
    rcases List.mem_append.mp hS' with hold | hnew
    · exact hkeep S hold
    · refine ⟨call.size, ?_⟩
      rw [List.mem_singleton.mp hnew, recordBlock, if_neg (hi.calls.arenaNext_gap hcount).2]
      exact List.mem_append_right _ (List.mem_singleton_self _)

theorem blockInv_run {h : Heap} (hf : Fresh h) (calls : List (AllocCall C)) :
    BlockInv ((blockMachine C).run (.start h, []) calls) := by
  refine (blockMachine C).run_inv (fun r call hi => ?_) ⟨hf.callInv, ?_⟩ calls
  · exact hi.outcome (alloc_outcome hi.calls.heap call)
  · intro S hS
    rw [World.start, hf.segments] at hS
    cases hS

section

omit [DecidableEq C]

/-- While everything handed out is covered, at most the first segment is there. -/
theorem BlockInv.segment_eq {r : World C × List (W × W)} (hi : BlockInv r) (hc : Covered r) {S : W}
    (hS : S ∈ r.1.heap.segments) : S.toNat = r.1.heap.heapArena.toNat := by
  obtain ⟨size, hmem⟩ := hi.first S hS
  have hle := (hc.blocks _ hmem).2
  obtain ⟨i, hlt, -, hat⟩ := hi.calls.heap.mem_segments hS
  have hgap := beginGap_add (hi.calls.heap.segment_user hS).2
  simp only [hgap, hi.calls.heap.highest, beginGap_toNat, growthSize_toNat] at hle hat
  have hi0 : i = 0 := by
    have := Nat.min_le_right r.1.heap.segments.length 1
    omega
  rw [hat, hi0, Nat.zero_mul, Nat.add_zero]

theorem covered_of_blocks {r : World C × List (W × W)} (hi : BlockInv r)
    (h : ∀ b ∈ r.2, r.1.heap.gcLowestAddress.toNat ≤ b.1.toNat ∧
      b.1.toNat + b.2.toNat ≤ r.1.heap.gcHighestAddress.toNat) : Covered r :=
  ⟨h, hi.calls.heap.barrier.bounds⟩

/-- A block served by the fast path lies in the first segment, if all earlier ones do. -/
theorem BlockInv.served_covered {r : World C × List (W × W)} (hi : BlockInv r) (hc : Covered r)
    {c : C} {size : W} (hfits : (r.1.ctxs c).fits size = true) :
    r.1.heap.gcLowestAddress.toNat ≤ (r.1.ctxs c).allocPtr.toNat ∧
      (r.1.ctxs c).allocPtr.toNat + size.toNat ≤ r.1.heap.gcHighestAddress.toNat := by
  obtain ⟨S, hS, hin, -, hle⟩ := hi.calls.served_in hfits
  have hat := hi.segment_eq hc hS
  have hend := hin.room hle
  have hgap := hin.gap_le
  rcases hi.calls.heap.highest_cases with ⟨hnil, -⟩ | ⟨-, hhi⟩
  · rw [hnil] at hS; cases hS
  · rw [hi.calls.heap.lowest, hhi]
    omega

/-- The block at the start of a new segment is covered exactly if that segment is the first. -/
theorem CallInv.carved_covered {w : World C} (hi : CallInv w) {size : W}
    (hsize : sizeRefused size = false) (hcount : w.heap.segments.length < arenaSegments) {h' : Heap}
    (hi' : HeapInv h') (ha : h'.heapArena = w.heap.heapArena) (hne : h'.segments ≠ []) :
    (h'.gcLowestAddress.toNat ≤ (w.heap.arenaNext + beginGap).toNat ∧
      (w.heap.arenaNext + beginGap).toNat + size.toNat ≤ h'.gcHighestAddress.toNat) ↔
      w.heap.segments = [] := by
  have hfit := (sizeRefused_eq_false hsize).2
  have hnext := hi.heap.arenaNext
  have hhi : h'.gcHighestAddress.toNat = w.heap.heapArena.toNat + growthSize.toNat := by
    rcases hi'.highest_cases with ⟨h0, -⟩ | ⟨-, hhi⟩
    · exact absurd h0 hne
    · rw [hhi, ha]
  rw [hi'.lowest, ha, hhi, (hi.arenaNext_gap hcount).1, ← List.length_eq_zero_iff]
  rw [beginGap_toNat, growthSize_toNat] at hfit ⊢
  rw [growthSize_toNat] at hnext
  omega

end

/-- What was covered stays covered: the upper bound is only ever raised. -/
theorem HeapInv.bounds_mono {h h' : Heap} (hi : HeapInv h) (hi' : HeapInv h')
    (ha : h'.heapArena = h.heapArena) (hlen : h.segments.length ≤ h'.segments.length) :
    h'.gcLowestAddress = h.gcLowestAddress ∧
      h.gcHighestAddress.toNat ≤ h'.gcHighestAddress.toNat := by
  have hmin : min h.segments.length 1 ≤ min h'.segments.length 1 := by omega
  refine ⟨by rw [hi'.lowest, ha, hi.lowest], ?_⟩
  rw [hi.highest, hi'.highest, ha]
  exact Nat.add_le_add_left (Nat.mul_le_mul_right _ hmin) _

section

omit [DecidableEq C]

theorem BlockInv.blocks_kept {r : World C × List (W × W)} (hi : BlockInv r) (hc : Covered r)
    {h' : Heap} (hi' : HeapInv h') (ha : h'.heapArena = r.1.heap.heapArena)
    (hlen : r.1.heap.segments.length ≤ h'.segments.length) {b : W × W} (hb : b ∈ r.2) :
    h'.gcLowestAddress.toNat ≤ b.1.toNat ∧
      b.1.toNat + b.2.toNat ≤ h'.gcHighestAddress.toNat := by
  obtain ⟨hlo, hhi⟩ := hi.calls.heap.bounds_mono hi' ha hlen
  obtain ⟨hge, hle⟩ := hc.blocks b hb
  rw [hlo]
  exact ⟨hge, hle.trans hhi⟩

/-- Of a call that carves, only the new block is in question. -/
theorem BlockInv.covered_carved {r : World C × List (W × W)} (hi : BlockInv r) (hc : Covered r)
    {call : AllocCall C} {c : C} (hmiss : call.Misses r.1 c)
    (hcount : r.1.heap.segments.length < arenaSegments) {w' : World C}
    (hi' : BlockInv (w', recordBlock r.2 call (r.1.heap.arenaNext + beginGap)))
    (hheap : w'.heap = (r.1.atBoundsCheck c).grown) :
    Covered (w', recordBlock r.2 call (r.1.heap.arenaNext + beginGap)) ↔
      r.1.heap.segments = [] := by
  have ha : w'.heap.heapArena = r.1.heap.heapArena := by
    rw [hheap, Heap.grown_heapArena, r.1.atBoundsCheck_heapArena]
  have hsegs : w'.heap.segments = r.1.heap.segments ++ [r.1.heap.arenaNext] := by
    rw [hheap, r.1.grown_segments c]
  have hne : w'.heap.segments ≠ [] := by simp [hsegs]
  have hlen : r.1.heap.segments.length ≤ w'.heap.segments.length := by simp [hsegs]
  have hrec : recordBlock r.2 call (r.1.heap.arenaNext + beginGap) =
      r.2 ++ [(r.1.heap.arenaNext + beginGap, call.size)] := by
    rw [recordBlock, if_neg (hi.calls.arenaNext_gap hcount).2]
  rw [← hi.calls.carved_covered hmiss.size hcount hi'.calls.heap ha hne]
  rw [hrec] at hi' ⊢
  constructor
  · intro hc'
    exact hc'.blocks _ (List.mem_append_right _ (List.mem_singleton_self _))
  · intro hnew
    refine covered_of_blocks hi' fun b hb => ?_
    rcases List.mem_append.mp hb with hb | hb
    · exact hi.blocks_kept hc hi'.calls.heap ha hlen hb
    · rw [List.mem_singleton.mp hb]
      exact hnew

end

/-- A call out of a covered state keeps it covered exactly if it does not carve a further
segment. -/
theorem BlockInv.covered_step {r : World C × List (W × W)} (hi : BlockInv r) (hc : Covered r)
    {call : AllocCall C} {r' : World C × W} (ho : AllocOutcome r.1 call r') :
    Covered (r'.1, recordBlock r.2 call r'.2) ↔ ¬ CarvesAgain r.1 call := by
  have hi' := hi.outcome ho
  cases ho with
  | refused h =>
    refine iff_of_true hc ?_
    rintro ⟨c, hmiss, -⟩
    exact AllocCall.not_refused hmiss.acontext hmiss.size h
  | served c hctx hsize hfits =>
    refine iff_of_true (covered_of_blocks hi' fun b hb => ?_) ?_
    · rw [recordBlock, if_neg (GcAllocContext.fits_iff.mp hfits).1] at hb
      rcases List.mem_append.mp hb with hb | hb
      · exact hc.blocks b hb
      · rw [List.mem_singleton.mp hb]
        exact hi.served_covered hc hfits
    · rintro ⟨c', hmiss, -⟩
      rw [hmiss.fits_of_acontext hctx] at hfits
      cases hfits
  | full c hmiss hcount =>
    refine iff_of_true (covered_of_blocks hi' fun b hb => ?_) ?_
    · exact hi.blocks_kept hc hi'.calls.heap (r.1.atBoundsCheck_heapArena c)
        (by rw [r.1.atBoundsCheck_segments c]) hb
    · rintro ⟨-, -, -, hlt⟩
      omega
  | carved c hmiss hcount =>
    have hagain : CarvesAgain r.1 call ↔ r.1.heap.segments ≠ [] := by
      constructor
      · rintro ⟨-, -, hne, -⟩
        exact hne
      · intro hne
        exact ⟨c, hmiss, hne, hcount⟩
    rw [hagain, not_not]
    exact hi.covered_carved hc hmiss hcount hi' rfl

/-- In a run of `Alloc` calls every block handed out so far lies in the published range, at every
moment, exactly if no call carves a segment while another one is registered. -/
theorem covered_iff {h : Heap} (hb : Booted h) (calls : List (AllocCall C)) :
    (blockMachine C).Always Covered (.start h, []) calls ↔
      (blockMachine C).EachStep (fun r call => ¬ CarvesAgain r.1 call) (.start h, []) calls := by
  have hstart : Covered (World.start h (C := C), []) :=
    covered_of_blocks (blockInv_run hb.fresh []) fun b hb => by cases hb
  refine Mealy.always_iff _ hstart ?_
  intro p call _ hc
  have hi := blockInv_run hb.fresh p
  exact hi.covered_step hc (alloc_outcome hi.calls.heap call)

/-- One context uses a segment up, and the requests of the other one are refused. -/
def oneSegment : List (AllocCall Bool) :=
  [⟨some false, 0, 0⟩, ⟨some true, 1000, 0⟩, ⟨some false, 1048553, 0⟩, ⟨some true, 24, 0⟩,
    ⟨none, 24, 0⟩, ⟨some true, 1047528, 0⟩]

theorem covered_one_segment :
    (blockMachine Bool).Always Covered (.start (.bootedAt 0x7f0000000000), []) oneSegment := by
  refine (covered_iff booted_high _).mpr ?_
  simp only [oneSegment, Mealy.eachStep_cons]
  refine ⟨?_, ?_, ?_, ?_, ?_, ?_, Mealy.eachStep_nil _ _ _⟩
  · exact fun ⟨_, hmiss, _⟩ => absurd hmiss.size (by decide)
  · exact fun ⟨_, _, hne, _⟩ => hne (by decide)
  · exact fun ⟨_, hmiss, _⟩ => absurd hmiss.size (by decide)
  · exact fun ⟨_, hmiss, _⟩ => absurd (hmiss.fits_of_acontext rfl) (by decide)
  · exact fun ⟨_, hmiss, _⟩ => nomatch hmiss.acontext
  · exact fun ⟨_, hmiss, _⟩ => absurd (hmiss.fits_of_acontext rfl) (by decide)

/-- Two requests of one context that do not share a segment: the second block starts past the end
of the range. -/
theorem covered_fails :
    ¬ (blockMachine Bool).Always Covered (.start (.bootedAt 0x7f0000000000), [])
      [⟨some true, 1048552, 0⟩, ⟨some true, 1, 0⟩] := by
  intro hall
  have hcov := (hall _ (List.prefix_refl _)).blocks (0x7f0000100018, 1) (by decide)
  exact absurd hcov.2 (by decide)

end

end MiniGC
