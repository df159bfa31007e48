import MiniGC.Platform
import Mathlib.Logic.Relation

/-!
# MiniGC.Heap.State

The globals of `MiniGCHeap.cpp`, the calls the collector makes into the EE, and the two entry
points that set the globals up: `GC_Initialize` and `MiniGCHeap::Initialize`.

* `Heap`        the process-wide state. `segments` lists `segments[0 .. segmentsCount)`.
* `Upcall`      a call through `gcToCLR`, with the interface pointer it went through.
* `Booted h`    `h` is the state some `Initialize` has just returned `S_OK` in, after any number of
  `GC_Initialize` calls and failed or repeated `Initialize` calls since process start.
* `Booted.fresh`  what such a state looks like.
-/

namespace MiniGC

/-! ## Constants of `MiniGCHeapConstants.h` -/

def cardSize : W := 256
def cardSizeShift : Nat := 8
def cardBundleSize : W := 2048
def cardBundleShift : Nat := 11
def heapArenaSize : W := 128 * 1024 * 1024
def segmentSize : W := 1024 * 1024
def growthSize : W := segmentSize

/-- `sizeof(segments) / sizeof(segments[0])`. -/
def segmentsCapacity : Nat := 1024

@[simp] theorem growthSize_toNat : growthSize.toNat = 1048576 := rfl
@[simp] theorem heapArenaSize_toNat : heapArenaSize.toNat = 134217728 := rfl

/-! ## Calls into the EE -/

inductive SuspendReason where
  | suspendForGc
  | suspendForGcPrep
  deriving DecidableEq, Repr

inductive WriteBarrierOp where
  | stompResize
  | stompEphemeral
  | initializeBarrier
  | switchToWriteWatch
  | switchToNonWriteWatch
  deriving DecidableEq, Repr

/-- The fields of `WriteBarrierParameters` that are set; `args{}` zeroes the others. -/
structure WriteBarrierParameters where
  operation : WriteBarrierOp
  isRuntimeSuspended : Bool
  requiresUpperBoundsCheck : Bool
  cardTable : W
  cardBundleTable : W
  lowestAddress : W
  highestAddress : W
  deriving DecidableEq, Repr

inductive EeCall where
  | suspendEE (reason : SuspendReason)
  | gcScanRoots (condemned maxGen : Nat)
  | restartEE (bFinishedGC : Bool)
  | stompWriteBarrier (args : WriteBarrierParameters)
  deriving DecidableEq, Repr

structure Upcall where
  clr : W
  call : EeCall
  deriving DecidableEq, Repr

/-! ## The globals -/

structure Heap where
  segments : List W
  gcLowestAddress : W
  gcHighestAddress : W
  gcCardTable : W
  gcCardBundleTable : W
  heapArena : W
  arenaNext : W
  arenaCommitted : W
  cardTableCount : W
  cardBundleCount : W
  gcInProgress : Bool
  gcToCLR : W
  /-- The mappings taken from the operating system and not given back, with their sizes. -/
  held : List (W × W)
  /-- Every call made into an EE so far, oldest first. -/
  upcalls : List Upcall
  deriving DecidableEq

/-- The globals as the loader leaves them. -/
def Heap.processStart : Heap where
  segments := []
  gcLowestAddress := 0
  gcHighestAddress := 0
  gcCardTable := 0
  gcCardBundleTable := 0
  heapArena := 0
  arenaNext := 0
  arenaCommitted := 0
  cardTableCount := 0
  cardBundleCount := 0
  gcInProgress := false
  gcToCLR := 0
  held := []
  upcalls := []

def Heap.segmentsCount (h : Heap) : Nat := h.segments.length

/-- Call the EE that is bound now. -/
def Heap.upcall (h : Heap) (call : EeCall) : Heap :=
  { h with upcalls := h.upcalls ++ [⟨h.gcToCLR, call⟩] }

/-- The arguments both `StompWriteBarrier` calls are made with, but for the operation. -/
def Heap.barrierArgs (h : Heap) (operation : WriteBarrierOp) : WriteBarrierParameters where
  operation := operation
  isRuntimeSuspended := false
  requiresUpperBoundsCheck := false
  cardTable := h.gcCardTable
  cardBundleTable := h.gcCardBundleTable
  lowestAddress := h.gcLowestAddress
  highestAddress := h.gcHighestAddress

/-! ## Set-up -/

/-- `GC_Initialize`. The last two arguments are the addresses `operator new` gives the handle
manager and the heap object, `none` where it throws; the result is the new heap object's
`handleManager`. -/
def gcInitialize (h : Heap) (clrToGC gcHeap gcHandleManager : W) (newManager newHeap : Option W) :
    Heap × HResult × W :=
  if gcHeap = 0 ∨ gcHandleManager = 0 ∨ clrToGC = 0 then (h, .eInvalidArg, 0)
  else
    match newManager, newHeap with
    | some handleManager, some _ => ({ h with gcToCLR := clrToGC }, .sOk, handleManager)
    | _, _ => (h, .eFail, 0)

/-- `MiniGCHeap::Initialize` on a heap object whose `handleManager` is the given pointer. -/
def heapInitialize (h : Heap) (handleManager : W) (os : Os) : Heap × HResult :=
  if h.gcToCLR = 0 ∨ handleManager = 0 then (h, .eFail)
  else if h.heapArena ≠ 0 then (h, .sOk)
  else
    let arena := allocatePages os h.held heapArenaSize
    let h := { h with held := arena.1, heapArena := arena.2 }
    if h.heapArena = 0 then (h, .eOutOfMemory)
    else
      let h := { h with
        arenaNext := h.heapArena
        arenaCommitted := heapArenaSize
        cardTableCount := heapArenaSize / cardSize
        cardBundleCount := heapArenaSize / cardBundleSize }
      let cards := allocatePages os h.held (h.cardTableCount * 4)
      let h := { h with held := cards.1, gcCardTable := cards.2 }
      if h.gcCardTable = 0 then
        let h := { h with held := (freePages os h.held h.heapArena heapArenaSize).1 }
        ({ h with heapArena := 0 }, .eOutOfMemory)
      else
        let bundles := allocatePages os h.held (h.cardBundleCount * 4)
        let h := { h with held := bundles.1, gcCardBundleTable := bundles.2 }
        if h.gcCardBundleTable = 0 then
          let h := { h with
            held := (freePages os h.held h.gcCardTable (h.cardTableCount * 4)).1
            gcCardTable := 0 }
          let h := { h with held := (freePages os h.held h.heapArena heapArenaSize).1 }
          ({ h with heapArena := 0 }, .eOutOfMemory)
        else
          -- the published range is empty until the first segment is carved
          let h := { h with gcLowestAddress := h.heapArena, gcHighestAddress := h.heapArena }
          (h.upcall (.stompWriteBarrier (h.barrierArgs .initializeBarrier)), .sOk)

/-! ## States an `Initialize` has just succeeded in -/

/-- A call of the host before it allocates: either entry point, with any arguments. -/
inductive HostStep : Heap → Heap → Prop where
  | gcInitialize (h : Heap) (clrToGC gcHeap gcHandleManager : W) (newManager newHeap : Option W) :
      HostStep h (gcInitialize h clrToGC gcHeap gcHandleManager newManager newHeap).1
  | heapInitialize (h : Heap) (handleManager : W) (os : Os) :
      HostStep h (heapInitialize h handleManager os).1

def Booted (h : Heap) : Prop :=
  ∃ h₀ handleManager os, Relation.ReflTransGen HostStep .processStart h₀ ∧
    heapInitialize h₀ handleManager os = (h, .sOk)

/-- What the globals look like before the first success: no arena, no upcall. -/
structure Unbooted (h : Heap) : Prop where
  segments : h.segments = []
  heapArena : h.heapArena = 0
  gcInProgress : h.gcInProgress = false
  upcalls : h.upcalls = []

/-- What the globals look like after the first success. -/
structure Fresh (h : Heap) : Prop where
  segments : h.segments = []
  arena_ne : h.heapArena ≠ 0
  arena_user : h.heapArena.toNat + heapArenaSize.toNat ≤ 2 ^ 63
  arena_aligned : h.heapArena.toNat % 4096 = 0
  arenaNext : h.arenaNext = h.heapArena
  lowest : h.gcLowestAddress = h.heapArena
  highest : h.gcHighestAddress = h.heapArena
  cardTableCount : h.cardTableCount = heapArenaSize / cardSize
  cardBundleCount : h.cardBundleCount = heapArenaSize / cardBundleSize
  cards_held : (h.gcCardTable, h.cardTableCount * 4) ∈ h.held
  bundles_held : (h.gcCardBundleTable, h.cardBundleCount * 4) ∈ h.held
  gcInProgress : h.gcInProgress = false
  upcalls : ∃ clr, h.upcalls = [⟨clr, .stompWriteBarrier (h.barrierArgs .initializeBarrier)⟩]

/-- On a heap with no arena `Initialize` either succeeds and leaves a fresh heap, or reports an
error and leaves no arena. -/
theorem heapInitialize_unbooted {h : Heap} (hu : Unbooted h) (handleManager : W) (os : Os) :
    ((heapInitialize h handleManager os).2 = .sOk ∧ Fresh (heapInitialize h handleManager os).1) ∨
      ((heapInitialize h handleManager os).2 ≠ .sOk ∧
        Unbooted (heapInitialize h handleManager os).1) := by
  by_cases hnull : h.gcToCLR = 0 ∨ handleManager = 0
  · rw [heapInitialize, if_pos hnull]
    exact .inr ⟨HResult.noConfusion, hu⟩
  rcases harena : os.map heapArenaSize with _ | arena
  · right
    simp only [heapInitialize, hnull, hu.heapArena, allocatePages, harena, if_true, if_false,
      ne_eq, not_true_eq_false]
    exact ⟨HResult.noConfusion, hu.segments, rfl, hu.gcInProgress, hu.upcalls⟩
  rcases hcards : os.map (heapArenaSize / cardSize * 4) with _ | cards
  · right
    simp only [heapInitialize, hnull, hu.heapArena, allocatePages, harena, hcards, arena.ne_null,
      if_true, if_false, ne_eq, not_true_eq_false]
    exact ⟨HResult.noConfusion, hu.segments, rfl, hu.gcInProgress, hu.upcalls⟩
  rcases hbundles : os.map (heapArenaSize / cardBundleSize * 4) with _ | bundles
  · right
    simp only [heapInitialize, hnull, hu.heapArena, allocatePages, harena, hcards, hbundles,
      arena.ne_null, cards.ne_null, if_true, if_false, ne_eq, not_true_eq_false]
    exact ⟨HResult.noConfusion, hu.segments, rfl, hu.gcInProgress, hu.upcalls⟩
  · left
    simp only [heapInitialize, hnull, hu.heapArena, allocatePages, harena, hcards, hbundles,
      arena.ne_null, cards.ne_null, bundles.ne_null, if_false, ne_eq, not_true_eq_false]
    exact ⟨trivial, hu.segments, arena.ne_null, arena.user, arena.aligned, rfl, rfl, rfl, rfl, rfl,
      by simp [Heap.upcall], by simp [Heap.upcall], hu.gcInProgress,
      h.gcToCLR, by simp [Heap.upcall, Heap.barrierArgs, hu.upcalls]⟩

/-- On a heap with an arena `Initialize` changes nothing. -/
theorem heapInitialize_of_arena {h : Heap} (ha : h.heapArena ≠ 0) (handleManager : W) (os : Os) :
    (heapInitialize h handleManager os).1 = h := by
  rw [heapInitialize, if_pos ha]
  split <;> rfl

theorem gcInitialize_eq (h : Heap) (clrToGC gcHeap gcHandleManager : W)
    (newManager newHeap : Option W) :
    ∃ clr, (gcInitialize h clrToGC gcHeap gcHandleManager newManager newHeap).1 =
      { h with gcToCLR := clr } := by
  unfold gcInitialize
  split
  · exact ⟨h.gcToCLR, rfl⟩
  · split
    · exact ⟨clrToGC, rfl⟩
    · exact ⟨h.gcToCLR, rfl⟩

theorem hostStep_unbooted_or_fresh {h h' : Heap} (hs : HostStep h h')
    (hi : Unbooted h ∨ Fresh h) : Unbooted h' ∨ Fresh h' := by
  cases hs with
  | gcInitialize clrToGC gcHeap gcHandleManager newManager newHeap =>
    obtain ⟨clr, he⟩ := gcInitialize_eq h clrToGC gcHeap gcHandleManager newManager newHeap
    rw [he]
    rcases hi with hu | hf
    · exact .inl ⟨hu.segments, hu.heapArena, hu.gcInProgress, hu.upcalls⟩
    · exact .inr { hf with }
  | heapInitialize handleManager os =>
    rcases hi with hu | hf
    · rcases heapInitialize_unbooted hu handleManager os with ⟨_, h1⟩ | ⟨_, h1⟩
      · exact .inr h1
      · exact .inl h1
    · rw [heapInitialize_of_arena hf.arena_ne]
      exact .inr hf

/-- Whatever the host did before, a successful `Initialize` leaves a fresh heap. -/
theorem Booted.fresh {h : Heap} (hb : Booted h) : Fresh h := by
  obtain ⟨h₀, handleManager, os, hsteps, hok⟩ := hb
  have he : (heapInitialize h₀ handleManager os).1 = h := by rw [hok]
  have hi : Unbooted h₀ ∨ Fresh h₀ := by
    clear hok he
    induction hsteps with
    | refl => exact .inl ⟨rfl, rfl, rfl, rfl⟩
    | tail _ hs ih => exact hostStep_unbooted_or_fresh hs ih
  rcases hi with hu | hf
  · rcases heapInitialize_unbooted hu handleManager os with ⟨_, h1⟩ | ⟨h1, _⟩
    · exact he ▸ h1
    · rw [hok] at h1; exact absurd rfl h1
  · rw [heapInitialize_of_arena hf.arena_ne] at he
    exact he ▸ hf

/-- An operating system that puts the arena at `arena`, and the two tables out of its way. -/
def Os.arenaAt (arena : W) : Os where
  map size :=
    if size = heapArenaSize then Pages.at? arena size
    else if size = heapArenaSize / cardSize * 4 then Pages.at? 0x7f1000000000 size
    else Pages.at? 0x7f2000000000 size
  unmap _ := true

/-- The heap of a process whose first `Initialize` got its arena at `arena`. -/
def Heap.bootedAt (arena : W) : Heap :=
  (heapInitialize { Heap.processStart with gcToCLR := 0x1000 } 0x2000 (.arenaAt arena)).1

theorem booted_at {arena : W}
    (h : (heapInitialize { Heap.processStart with gcToCLR := 0x1000 } 0x2000
      (.arenaAt arena)).2 = .sOk) : Booted (.bootedAt arena) :=
  ⟨_, 0x2000, .arenaAt arena,
    .single (.gcInitialize .processStart 0x1000 1 1 (some 0x2000) (some 0x3000)),
    Prod.ext rfl h⟩

/-- A usual place for the arena on a 64-bit host. -/
theorem booted_high : Booted (.bootedAt 0x7f0000000000) := booted_at (by decide)

end MiniGC
