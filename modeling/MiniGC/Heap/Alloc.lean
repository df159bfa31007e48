import MiniGC.Heap.State
import MiniGC.Lib.Mealy
import Mathlib.Logic.Function.Basic

/-!
# MiniGC.Heap.Alloc

`MiniGCHeap::Alloc` and `registerSegment`, and the invariant of the heap globals.

`Alloc` is cut at its calls into the EE, because that is where another thread can run:

* `beginCollection`, `scanRoots`, `restart`, `endCollection`: the collection a filled context asks
  for. Marking only prints, so between its calls it changes nothing but `gcInProgress`.
* `carveSegment`     the bump of `g_arena_next` and the registration of the new segment.
* `publishSegment`   the first segment's range, up to the call of `StompWriteBarrier`.
* `enterSegment`     the context's switch to the new segment.

`alloc` is their composition on one thread, in the source's order. `HeapInv` is what the globals
keep between any two of these pieces, and `carveSegment_cases` is all that carving can do.
-/

namespace MiniGC

/-! ## The pieces of `Alloc` -/

/-- `gc_alloc_context`. -/
structure GcAllocContext where
  allocPtr : W
  allocLimit : W
  allocBytes : W
  allocBytesUoh : W
  gcReserved1 : W
  gcReserved2 : W
  allocCount : BitVec 32
  deriving DecidableEq

/-- `gc_alloc_context::init`. -/
def GcAllocContext.init : GcAllocContext := ⟨0, 0, 0, 0, 0, 0, 0⟩

def Heap.beginCollection (h : Heap) : Heap :=
  { h with gcInProgress := true }.upcall (.suspendEE .suspendForGc)

def Heap.scanRoots (h : Heap) : Heap := h.upcall (.gcScanRoots 0 0)

/-- `MarkReachableRoot` writes nothing, so neither does the scan of the handle table. -/
def Heap.restart (h : Heap) : Heap := h.upcall (.restartEE true)

def Heap.endCollection (h : Heap) : Heap := { h with gcInProgress := false }

def Heap.collect (h : Heap) : Heap := h.beginCollection.scanRoots.restart.endCollection

/-- `MiniGCHeap::registerSegment`. -/
def registerSegment (h : Heap) (newPages : W) : Heap × Bool :=
  if newPages = 0 ∨ segmentsCapacity ≤ h.segmentsCount then (h, false)
  else ({ h with segments := h.segments ++ [newPages] }, true)

/-- The bounds check and the bump of `g_arena_next`; `none` where `Alloc` returns null. -/
def reserveSegment (h : Heap) : Option (Heap × W) :=
  if h.heapArena = 0 ∨ h.heapArena + heapArenaSize < h.arenaNext + growthSize then none
  else some ({ h with arenaNext := h.arenaNext + growthSize }, h.arenaNext)

/-- From the bounds check through `registerSegment`; `none` where `Alloc` returns null. -/
def carveSegment (h : Heap) : Heap × Option W :=
  match reserveSegment h with
  | none => (h, none)
  | some (h', newPages) =>
    match registerSegment h' newPages with
    | (h'', false) => (h'', none)
    | (h'', true) => (h'', some newPages)

def Heap.isFirstSegment (h : Heap) : Bool := h.gcHighestAddress = h.heapArena

def publishSegment (h : Heap) (newPages : W) : Heap :=
  if h.isFirstSegment then
    let h := { h with gcHighestAddress := newPages + growthSize }
    h.upcall (.stompWriteBarrier (h.barrierArgs .stompResize))
  else h

def beginGap : W := 24

@[simp] theorem beginGap_toNat : beginGap.toNat = 24 := rfl

/-- The context after its switch to `newPages`, with `size` bytes served from it. -/
def enterSegment (acontext : GcAllocContext) (newPages size : W) : GcAllocContext :=
  { acontext with
    allocPtr := newPages + beginGap + size
    allocLimit := newPages + growthSize
    allocBytes := acontext.allocBytes + growthSize }

/-- The first test of `Alloc`, but for the null context. -/
def sizeRefused (size : W) : Bool := size = 0 ∨ growthSize - 24 < size

/-- The test of `Alloc`'s fast path. -/
def GcAllocContext.fits (acontext : GcAllocContext) (size : W) : Bool :=
  acontext.allocPtr ≠ 0 ∧ acontext.allocLimit ≠ 0 ∧
    size ≤ acontext.allocLimit - acontext.allocPtr

/-- The heap with the allocation contexts the EE keeps, named by `C`. -/
structure World (C : Type) where
  heap : Heap
  ctxs : C → GcAllocContext

/-- A booted heap before any allocation: every context as `init` leaves it. -/
def World.start {C : Type} (h : Heap) : World C := ⟨h, fun _ => .init⟩

section

variable {C : Type} [DecidableEq C]

def World.setCtx (w : World C) (c : C) (acontext : GcAllocContext) : World C :=
  { w with ctxs := Function.update w.ctxs c acontext }

/-- The part of `Alloc` after the collection: a new segment for context `c`, or null. -/
def allocFromNewSegment (w : World C) (c : C) (size : W) : World C × W :=
  match carveSegment w.heap with
  | (heap, none) => ({ w with heap := heap }, 0)
  | (heap, some newPages) =>
    (({ w with heap := publishSegment heap newPages } : World C).setCtx c
      (enterSegment (w.ctxs c) newPages size), newPages + beginGap)

/-- `MiniGCHeap::Alloc`, with nothing run in between; `acontext` is `none` for a null pointer. -/
def alloc (w : World C) (acontext : Option C) (size : W) (_flags : BitVec 32) : World C × W :=
  match acontext with
  | none => (w, 0)
  | some c =>
    let ctx := w.ctxs c
    if sizeRefused size then (w, 0)
    else if ctx.fits size then
      (w.setCtx c { ctx with allocPtr := ctx.allocPtr + size }, ctx.allocPtr)
    else if ctx.allocLimit ≠ 0 then allocFromNewSegment { w with heap := w.heap.collect } c size
    else allocFromNewSegment w c size

/-- A call of `Alloc`. -/
structure AllocCall (C : Type) where
  acontext : Option C
  size : W
  flags : BitVec 32

/-- Whole calls of `Alloc`, one after the other, on any contexts. -/
def allocMachine (C : Type) [DecidableEq C] : Mealy (World C) (AllocCall C) W where
  step w call := alloc w call.acontext call.size call.flags

@[simp] theorem World.setCtx_heap (w : World C) (c : C) (acontext : GcAllocContext) :
    (w.setCtx c acontext).heap = w.heap := rfl

@[simp] theorem World.setCtx_ctxs (w : World C) (c : C) (acontext : GcAllocContext) :
    (w.setCtx c acontext).ctxs = Function.update w.ctxs c acontext := rfl

end

/-! ## The invariant of the heap globals -/

/-- How many segments the arena holds. -/
def arenaSegments : Nat := heapArenaSize.toNat / growthSize.toNat

@[simp] theorem arenaSegments_eq : arenaSegments = 128 := by
  simp [arenaSegments]

/-- The arguments of a `StompWriteBarrier` call. -/
def Upcall.stompArgs (u : Upcall) : Option WriteBarrierParameters :=
  match u.call with
  | .stompWriteBarrier args => some args
  | _ => none

/-- The arguments of the `StompWriteBarrier` calls so far, oldest first. -/
def Heap.stomps (h : Heap) : List WriteBarrierParameters := h.upcalls.filterMap Upcall.stompArgs

/-- What the write barrier has been told: the tables that were allocated, at the size they were
allocated for, and last the bounds that the globals hold. -/
structure BarrierInv (h : Heap) : Prop where
  cardTableCount : h.cardTableCount = heapArenaSize / cardSize
  cardBundleCount : h.cardBundleCount = heapArenaSize / cardBundleSize
  cards_held : (h.gcCardTable, h.cardTableCount * 4) ∈ h.held
  bundles_held : (h.gcCardBundleTable, h.cardBundleCount * 4) ∈ h.held
  tables : ∀ args ∈ h.stomps, args.cardTable = h.gcCardTable ∧
    args.cardBundleTable = h.gcCardBundleTable
  bounds : ∃ args, h.stomps.getLast? = some args ∧ args.lowestAddress = h.gcLowestAddress ∧
    args.highestAddress = h.gcHighestAddress

/-- Segment `i` starts at `heapArena + i * growthSize`, `arenaNext` is where the next one would,
and only the first segment is ever published. -/
structure ArenaInv (h : Heap) : Prop where
  arena_ne : h.heapArena ≠ 0
  arena_user : h.heapArena.toNat + heapArenaSize.toNat ≤ 2 ^ 63
  count_le : h.segments.length ≤ arenaSegments
  segment_at : ∀ i S, h.segments[i]? = some S →
    S.toNat = h.heapArena.toNat + i * growthSize.toNat
  arenaNext : h.arenaNext.toNat = h.heapArena.toNat + h.segments.length * growthSize.toNat
  lowest : h.gcLowestAddress = h.heapArena
  highest : h.gcHighestAddress.toNat =
    h.heapArena.toNat + min h.segments.length 1 * growthSize.toNat

structure HeapInv (h : Heap) : Prop extends ArenaInv h where
  barrier : BarrierInv h

theorem Fresh.barrierInv {h : Heap} (hf : Fresh h) : BarrierInv h := by
  obtain ⟨clr, hup⟩ := hf.upcalls
  have hs : h.stomps = [h.barrierArgs .initializeBarrier] := by
    rw [Heap.stomps, hup]
    rfl
  refine ⟨hf.cardTableCount, hf.cardBundleCount, hf.cards_held, hf.bundles_held, ?_, ?_⟩
  · rw [hs]
    simp [Heap.barrierArgs]
  · rw [hs]
    exact ⟨_, rfl, rfl, rfl⟩

theorem Fresh.heapInv {h : Heap} (hf : Fresh h) : HeapInv h where
  arena_ne := hf.arena_ne
  arena_user := hf.arena_user
  count_le := by simp [hf.segments]
  segment_at := by simp [hf.segments]
  arenaNext := by simp [hf.segments, hf.arenaNext]
  lowest := hf.lowest
  highest := by simp [hf.segments, hf.highest]
  barrier := hf.barrierInv

theorem Heap.stomps_upcall (h : Heap) (call : EeCall) :
    (h.upcall call).stomps = h.stomps ++ (Upcall.stompArgs ⟨h.gcToCLR, call⟩).toList := by
  rw [Heap.stomps, Heap.upcall, List.filterMap_append, Heap.stomps]
  cases hc : Upcall.stompArgs ⟨h.gcToCLR, call⟩ <;> simp [hc]

/-- An upcall other than `StompWriteBarrier` changes nothing the invariant speaks of. -/
theorem HeapInv.upcall {h : Heap} (hi : HeapInv h) {call : EeCall}
    (hcall : Upcall.stompArgs ⟨h.gcToCLR, call⟩ = none) : HeapInv (h.upcall call) := by
  have hs : (h.upcall call).stomps = h.stomps := by rw [Heap.stomps_upcall, hcall]; simp
  obtain ⟨hc, hcb, hheld, hheldb, htables, hbounds⟩ := hi.barrier
  exact { hi with barrier := ⟨hc, hcb, hheld, hheldb, hs ▸ htables, hs ▸ hbounds⟩ }

theorem HeapInv.setGcInProgress {h : Heap} (hi : HeapInv h) (b : Bool) :
    HeapInv { h with gcInProgress := b } :=
  { hi with barrier := { hi.barrier with } }

theorem HeapInv.collect {h : Heap} (hi : HeapInv h) : HeapInv h.collect :=
  ((((hi.setGcInProgress true).upcall rfl).upcall rfl).upcall rfl).setGcInProgress false

theorem HeapInv.arena_pos {h : Heap} (hi : HeapInv h) : 0 < h.heapArena.toNat :=
  Nat.pos_of_ne_zero fun h0 => hi.arena_ne (BitVec.eq_of_toNat_eq h0)

theorem HeapInv.mem_segments {h : Heap} (hi : HeapInv h) {S : W} (hS : S ∈ h.segments) :
    ∃ i, i < h.segments.length ∧ h.segments[i]? = some S ∧
      S.toNat = h.heapArena.toNat + i * growthSize.toNat := by
  obtain ⟨i, hi', he⟩ := List.mem_iff_getElem.mp hS
  have hget : h.segments[i]? = some S := by rw [List.getElem?_eq_getElem hi', he]
  exact ⟨i, hi', hget, hi.segment_at i S hget⟩

/-- Registered segments lie inside the arena, below `arenaNext`. -/
theorem HeapInv.segment_bounds {h : Heap} (hi : HeapInv h) {S : W} (hS : S ∈ h.segments) :
    h.heapArena.toNat ≤ S.toNat ∧ S.toNat + growthSize.toNat ≤ h.arenaNext.toNat := by
  obtain ⟨i, hlt, -, he⟩ := hi.mem_segments hS
  have hnext := hi.arenaNext
  simp only [growthSize_toNat] at he hnext ⊢
  omega

theorem HeapInv.arenaNext_le {h : Heap} (hi : HeapInv h) :
    h.arenaNext.toNat ≤ h.heapArena.toNat + heapArenaSize.toNat := by
  have hnext := hi.arenaNext
  have hle := hi.count_le
  simp only [growthSize_toNat, heapArenaSize_toNat, arenaSegments_eq] at hnext hle ⊢
  omega

/-- Two registered segments are one and the same, or do not overlap. -/
theorem HeapInv.segments_apart {h : Heap} (hi : HeapInv h) {S S' : W} (hS : S ∈ h.segments)
    (hS' : S' ∈ h.segments) (hne : S ≠ S') :
    S.toNat + growthSize.toNat ≤ S'.toNat ∨ S'.toNat + growthSize.toNat ≤ S.toNat := by
  obtain ⟨i, -, hget, he⟩ := hi.mem_segments hS
  obtain ⟨j, -, hget', he'⟩ := hi.mem_segments hS'
  have hij : i ≠ j := by rintro rfl; rw [hget] at hget'; exact hne (Option.some.inj hget')
  simp only [growthSize_toNat] at he he' ⊢
  omega

theorem HeapInv.segments_nodup {h : Heap} (hi : HeapInv h) : h.segments.Nodup := by
  rw [List.nodup_iff_getElem?_ne_getElem?]
  intro i j hij hj heq
  have hSi := hi.segment_at i _ (List.getElem?_eq_getElem (hij.trans hj))
  have hSj := hi.segment_at j _ (List.getElem?_eq_getElem hj)
  rw [List.getElem?_eq_getElem (hij.trans hj), List.getElem?_eq_getElem hj] at heq
  rw [Option.some.inj heq] at hSi
  simp only [growthSize_toNat] at hSi hSj
  omega

/-- A segment lies in user space, so that addresses in it do not wrap. -/
theorem HeapInv.segment_user {h : Heap} (hi : HeapInv h) {S : W} (hS : S ∈ h.segments) :
    0 < S.toNat ∧ S.toNat + growthSize.toNat ≤ 2 ^ 63 := by
  have hb := hi.segment_bounds hS
  have hle := hi.arenaNext_le
  have hu := hi.arena_user
  have ha := hi.arena_pos
  omega

/-! ## A context and its segment -/

/-- The context allocates from `S`: its range ends with the segment and starts behind the gap. -/
structure GcAllocContext.In (ctx : GcAllocContext) (S : W) : Prop where
  limit : ctx.allocLimit.toNat = S.toNat + growthSize.toNat
  gap_le : S.toNat + beginGap.toNat ≤ ctx.allocPtr.toNat
  le_limit : ctx.allocPtr.toNat ≤ S.toNat + growthSize.toNat

theorem GcAllocContext.fits_iff {ctx : GcAllocContext} {size : W} :
    ctx.fits size = true ↔ ctx.allocPtr ≠ 0 ∧ ctx.allocLimit ≠ 0 ∧
      size ≤ ctx.allocLimit - ctx.allocPtr := by
  simp [GcAllocContext.fits]

/-- What is served from the range of a context ends within the segment. -/
theorem GcAllocContext.In.room {ctx : GcAllocContext} {S size : W} (hin : ctx.In S)
    (hle : size ≤ ctx.allocLimit - ctx.allocPtr) :
    ctx.allocPtr.toNat + size.toNat ≤ S.toNat + growthSize.toNat := by
  have hle' := BitVec.le_def.mp hle
  have hlim := hin.le_limit
  rw [toNat_sub_of_le (by rw [hin.limit]; exact hlim), hin.limit] at hle'
  omega

theorem GcAllocContext.In.bump_toNat {ctx : GcAllocContext} {S size : W} (hin : ctx.In S)
    (huser : S.toNat + growthSize.toNat ≤ 2 ^ 63) (hle : size ≤ ctx.allocLimit - ctx.allocPtr) :
    (ctx.allocPtr + size).toNat = ctx.allocPtr.toNat + size.toNat := by
  have hroom := hin.room hle
  exact toNat_add_of_lt (by omega)

theorem GcAllocContext.In.bump {ctx : GcAllocContext} {S size : W} (hin : ctx.In S)
    (huser : S.toNat + growthSize.toNat ≤ 2 ^ 63) (hle : size ≤ ctx.allocLimit - ctx.allocPtr) :
    ({ ctx with allocPtr := ctx.allocPtr + size } : GcAllocContext).In S := by
  have hroom := hin.room hle
  have hgap := hin.gap_le
  have hptr := hin.bump_toNat huser hle
  refine ⟨hin.limit, ?_, ?_⟩
  · show _ ≤ (ctx.allocPtr + size).toNat
    omega
  · show (ctx.allocPtr + size).toNat ≤ _
    omega

theorem beginGap_add {S : W} (huser : S.toNat + growthSize.toNat ≤ 2 ^ 63) :
    (S + beginGap).toNat = S.toNat + beginGap.toNat := by
  rw [growthSize_toNat] at huser
  apply toNat_add_of_lt
  rw [beginGap_toNat]
  omega

/-! ## What the pieces do -/

/-- A size that passes the first test fits a fresh segment behind the gap. -/
theorem sizeRefused_eq_false {size : W} (h : sizeRefused size = false) :
    0 < size.toNat ∧ size.toNat + beginGap.toNat ≤ growthSize.toNat := by
  simp only [sizeRefused, decide_eq_false_iff_not, not_or, BitVec.not_lt] at h
  have h0 : size.toNat ≠ 0 := fun h1 => h.1 (BitVec.eq_of_toNat_eq h1)
  have h24 : (growthSize - 24).toNat = 1048552 := by decide
  have hle := BitVec.le_def.mp h.2
  rw [h24] at hle
  rw [beginGap_toNat, growthSize_toNat]
  omega

theorem enterSegment_ptr (ctx : GcAllocContext) {S size : W} (hsize : sizeRefused size = false)
    (huser : S.toNat + growthSize.toNat ≤ 2 ^ 63) :
    (enterSegment ctx S size).allocPtr.toNat = S.toNat + beginGap.toNat + size.toNat := by
  obtain ⟨-, hfit⟩ := sizeRefused_eq_false hsize
  show (S + beginGap + size).toNat = _
  rw [toNat_add_of_lt (by rw [beginGap_add huser]; omega), beginGap_add huser]

theorem enterSegment_in (ctx : GcAllocContext) {S size : W} (hsize : sizeRefused size = false)
    (huser : S.toNat + growthSize.toNat ≤ 2 ^ 63) : (enterSegment ctx S size).In S := by
  obtain ⟨-, hfit⟩ := sizeRefused_eq_false hsize
  have hptr := enterSegment_ptr ctx hsize huser
  have hlim : (S + growthSize).toNat = S.toNat + growthSize.toNat := toNat_add_of_lt (by omega)
  exact ⟨hlim, by omega, by omega⟩

@[simp] theorem publishSegment_segments (h : Heap) (newPages : W) :
    (publishSegment h newPages).segments = h.segments := by
  by_cases hf : h.isFirstSegment
  · simp only [publishSegment, if_pos hf, Heap.upcall]
  · rw [publishSegment, if_neg hf]

/-- The heap after `arenaNext` has been registered and bumped. -/
def Heap.carved (h : Heap) : Heap :=
  { h with segments := h.segments ++ [h.arenaNext], arenaNext := h.arenaNext + growthSize }

theorem HeapInv.arenaNext_add {h : Heap} (hi : HeapInv h) :
    (h.arenaNext + growthSize).toNat = h.arenaNext.toNat + growthSize.toNat := by
  have hle := hi.arenaNext_le
  have hu := hi.arena_user
  apply toNat_add_of_lt
  rw [heapArenaSize_toNat] at hle hu
  rw [growthSize_toNat]
  omega

/-- The bounds check passes exactly while the arena holds another segment. -/
theorem HeapInv.reserve_iff {h : Heap} (hi : HeapInv h) :
    (h.heapArena = 0 ∨ h.heapArena + heapArenaSize < h.arenaNext + growthSize) ↔
      h.segments.length = arenaSegments := by
  have hu := hi.arena_user
  have hn := hi.arenaNext
  have hc := hi.count_le
  have hend : (h.heapArena + heapArenaSize).toNat = h.heapArena.toNat + heapArenaSize.toNat :=
    toNat_add_of_lt (by omega)
  rw [or_iff_right hi.arena_ne, BitVec.lt_def, hi.arenaNext_add, hend]
  rw [arenaSegments_eq] at hc ⊢
  rw [growthSize_toNat] at hn ⊢
  rw [heapArenaSize_toNat]
  omega

/-- `registerSegment` never refuses what `reserveSegment` gave. -/
theorem HeapInv.register_ok {h h' : Heap} {newPages : W} (hi : HeapInv h)
    (hr : reserveSegment h = some (h', newPages)) :
    registerSegment h' newPages = (h.carved, true) := by
  have hc := hi.count_le
  have hn := hi.arenaNext
  have ha := hi.arena_pos
  have hne : h.arenaNext ≠ 0 := by
    intro h0
    rw [h0, show (0 : W).toNat = 0 from rfl] at hn
    omega
  simp only [reserveSegment, Option.ite_none_left_eq_some, Option.some.injEq, Prod.mk.injEq] at hr
  obtain ⟨-, rfl, rfl⟩ := hr
  simp only [arenaSegments_eq] at hc
  rw [registerSegment, if_neg]
  · rfl
  · simp only [hne, false_or, segmentsCapacity, Heap.segmentsCount]
    omega

/-- All that carving can do: refuse a full arena, changing nothing, or take the next segment. -/
theorem carveSegment_cases {h : Heap} (hi : HeapInv h) :
    (h.segments.length = arenaSegments ∧ carveSegment h = (h, none)) ∨
      (h.segments.length < arenaSegments ∧ carveSegment h = (h.carved, some h.arenaNext)) := by
  by_cases hfull : h.segments.length = arenaSegments
  · left
    refine ⟨hfull, ?_⟩
    rw [carveSegment, reserveSegment, if_pos (hi.reserve_iff.mpr hfull)]
  · right
    have hlt := Nat.lt_of_le_of_ne hi.count_le hfull
    have hr : reserveSegment h =
        some ({ h with arenaNext := h.arenaNext + growthSize }, h.arenaNext) := by
      rw [reserveSegment, if_neg (fun hx => hfull (hi.reserve_iff.mp hx))]
    refine ⟨hlt, ?_⟩
    rw [carveSegment, hr]
    simp only [hi.register_ok hr]

/-- Publishing writes the upper bound once, when the first segment has been carved. -/
theorem HeapInv.isFirstSegment_iff {h : Heap} (hi : HeapInv h) :
    h.carved.isFirstSegment = true ↔ h.segments = [] := by
  have hh := hi.highest
  have hu := hi.arena_user
  simp only [Heap.isFirstSegment, Heap.carved, decide_eq_true_eq, ← List.length_eq_zero_iff,
    BitVec.toNat_eq, growthSize_toNat] at hh ⊢
  omega

theorem ArenaInv.publish {h : Heap} (hi : HeapInv h) {highest : W}
    (hlt : h.segments.length < arenaSegments)
    (hhi : highest.toNat = h.heapArena.toNat + growthSize.toNat) :
    ArenaInv { h.carved with gcHighestAddress := highest } := by
  have hn := hi.arenaNext
  have hlen : h.carved.segments.length = h.segments.length + 1 := by simp [Heap.carved]
  refine ⟨hi.arena_ne, hi.arena_user, ?_, ?_, ?_, hi.lowest, ?_⟩
  · show h.carved.segments.length ≤ _
    omega
  · intro i S hS
    simp only [Heap.carved, List.getElem?_append, List.getElem?_singleton] at hS
    split at hS
    · exact hi.segment_at i S hS
    · split at hS
      · cases hS
        show h.arenaNext.toNat = h.heapArena.toNat + i * growthSize.toNat
        rw [hn, show i = h.segments.length by omega]
      · cases hS
  · show (h.arenaNext + growthSize).toNat = _ + h.carved.segments.length * _
    rw [hi.arenaNext_add, hn, hlen]
    simp only [growthSize_toNat]
    show _ = h.heapArena.toNat + _
    omega
  · show highest.toNat = h.heapArena.toNat + min h.carved.segments.length 1 * _
    rw [hhi, hlen]
    simp

/-- Stomping the barrier keeps it informed, whatever the new upper bound. -/
theorem BarrierInv.stomp {h : Heap} (hb : BarrierInv h) (highest : W) (op : WriteBarrierOp) :
    BarrierInv ({ h with gcHighestAddress := highest }.upcall
      (.stompWriteBarrier ({ h with gcHighestAddress := highest }.barrierArgs op))) := by
  obtain ⟨hc, hcb, hheld, hheldb, htables, -⟩ := hb
  refine ⟨hc, hcb, hheld, hheldb, ?_, ?_⟩
  · intro args hargs
    simp only [Heap.stomps_upcall, Upcall.stompArgs, Option.toList_some, List.mem_append,
      List.mem_singleton] at hargs
    rcases hargs with hargs | rfl
    · exact htables args hargs
    · exact ⟨rfl, rfl⟩
  · simp only [Heap.stomps_upcall, Upcall.stompArgs, Option.toList_some]
    exact ⟨_, List.getLast?_concat, rfl, rfl⟩

theorem BarrierInv.publish {h : Heap} (hb : BarrierInv h) (newPages : W) :
    BarrierInv (publishSegment h newPages) := by
  unfold publishSegment
  split
  · exact hb.stomp _ .stompResize
  · exact hb

theorem HeapInv.publish {h : Heap} (hi : HeapInv h) (hlt : h.segments.length < arenaSegments) :
    HeapInv (publishSegment h.carved h.arenaNext) := by
  have hcarved : BarrierInv h.carved := { hi.barrier with }
  refine ⟨?_, hcarved.publish _⟩
  unfold publishSegment
  split
  · rename_i hfirst
    have hnil := hi.isFirstSegment_iff.mp hfirst
    have hhi : (h.arenaNext + growthSize).toNat = h.heapArena.toNat + growthSize.toNat := by
      rw [hi.arenaNext_add, hi.arenaNext, hnil]
      simp
    exact { ArenaInv.publish hi hlt hhi with }
  · rename_i hfirst
    have hne : h.segments ≠ [] := fun h0 => hfirst (hi.isFirstSegment_iff.mpr h0)
    have hpos := List.length_pos_of_ne_nil hne
    have hhi : h.gcHighestAddress.toNat = h.heapArena.toNat + growthSize.toNat := by
      rw [hi.highest]
      simp only [growthSize_toNat]
      omega
    exact ArenaInv.publish hi hlt hhi

end MiniGC
