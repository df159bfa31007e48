import MiniGC.Heap.Calls
import MiniGC.Heap.Threads

/-!
# MiniGC.Heap.Acts

What one action of one thread can do, said once for all that is proved of interleavings.

* `AtBoundsCheck`  the thread comes to the bounds check of `Alloc` with this action, straight from
  its call or behind a collection.
* `ActOutcome`     the ways an action can go, each with its guard and all that it changes.
-/

namespace MiniGC

section

variable {T C : Type} [DecidableEq T] [DecidableEq C]

/-- The thread that takes the action. -/
def Act.thread : Act T C → T
  | .alloc t _ _ _ | .resume t | .bump t _ _ => t

/-- With the action, thread `t` comes to the bounds check for context `c`; `h` are the globals
there. -/
inductive AtBoundsCheck (owner : C → T) (s : Threads T C) : Act T C → T → C → W → Heap → Prop where
  | unused {t : T} {c : C} {size : W} {flags : BitVec 32} {last : W}
      (ht : s.thread t = .managed last) (hown : owner c = t) (hsize : sizeRefused size = false)
      (hfits : (s.world.ctxs c).fits size = false) (hlimit : (s.world.ctxs c).allocLimit = 0) :
      AtBoundsCheck owner s (.alloc t (some c) size flags) t c size s.world.heap
  | collected {t : T} {c : C} {size : W} (ht : s.thread t = .inAlloc c size .restartEE) :
      AtBoundsCheck owner s (.resume t) t c size s.world.heap.endCollection

/-- The thread is in no position to take the action. -/
def Act.Ignored (owner : C → T) (s : Threads T C) : Act T C → Prop
  | .alloc t acontext _ _ => (∃ c size stage, s.thread t = .inAlloc c size stage) ∨
    ∃ c, acontext = some c ∧ owner c ≠ t
  | .resume t => ∃ last, s.thread t = .managed last
  | .bump t c n => (∃ c size stage, s.thread t = .inAlloc c size stage) ∨
    ¬ (owner c = t ∧ n ≤ (s.world.ctxs c).allocLimit - (s.world.ctxs c).allocPtr)

inductive ActOutcome (owner : C → T) (s : Threads T C) :
    Act T C → Threads T C × Ledger C → Prop where
  | ignored {a : Act T C} (h : a.Ignored owner s) : ActOutcome owner s a (s, .empty)
  /-- The first test of `Alloc` fails. -/
  | refused {t : T} {acontext : Option C} {size : W} {flags : BitVec 32} {last : W}
      (ht : s.thread t = .managed last) (h : acontext = none ∨ sizeRefused size = true) :
      ActOutcome owner s (.alloc t acontext size flags) (s.setThread t (.managed 0), .empty)
  /-- The fast path. -/
  | served {t : T} {c : C} {size : W} {flags : BitVec 32} {last : W}
      (ht : s.thread t = .managed last) (hown : owner c = t) (hsize : sizeRefused size = false)
      (hfits : (s.world.ctxs c).fits size = true) :
      ActOutcome owner s (.alloc t (some c) size flags)
        ((s.handOut c size).1.setThread t (.managed (s.world.ctxs c).allocPtr),
          (s.handOut c size).2)
  /-- A collection begins. -/
  | began {t : T} {c : C} {size : W} {flags : BitVec 32} {last : W}
      (ht : s.thread t = .managed last) (hown : owner c = t) (hsize : sizeRefused size = false)
      (hfits : (s.world.ctxs c).fits size = false) (hlimit : (s.world.ctxs c).allocLimit ≠ 0) :
      ActOutcome owner s (.alloc t (some c) size flags)
        ((s.setHeap s.world.heap.beginCollection).setThread t (.inAlloc c size .suspendEE), .empty)
  | scanned {t : T} {c : C} {size : W} (ht : s.thread t = .inAlloc c size .suspendEE) :
      ActOutcome owner s (.resume t)
        ((s.setHeap s.world.heap.scanRoots).setThread t (.inAlloc c size .gcScanRoots), .empty)
  | restarted {t : T} {c : C} {size : W} (ht : s.thread t = .inAlloc c size .gcScanRoots) :
      ActOutcome owner s (.resume t)
        ((s.setHeap s.world.heap.restart).setThread t (.inAlloc c size .restartEE), .empty)
  /-- The arena holds no other segment. -/
  | full {a : Act T C} {t : T} {c : C} {size : W} {h : Heap}
      (hat : AtBoundsCheck owner s a t c size h)
      (count : s.world.heap.segments.length = arenaSegments) :
      ActOutcome owner s a ((s.setHeap h).setThread t (.managed 0), .empty)
  /-- The first segment; the thread is inside `StompWriteBarrier`. -/
  | first {a : Act T C} {t : T} {c : C} {size : W} {h : Heap}
      (hat : AtBoundsCheck owner s a t c size h) (hnil : s.world.heap.segments = []) :
      ActOutcome owner s a
        ((s.setHeap h.grown).setThread t (.inAlloc c size (.stompWriteBarrier h.arenaNext)),
          ⟨[(c, h.arenaNext)], [], []⟩)
  /-- A further segment, which the context enters at once. -/
  | carved {a : Act T C} {t : T} {c : C} {size : W} {h : Heap} {s' : Threads T C}
      (hat : AtBoundsCheck owner s a t c size h) (hne : s.world.heap.segments ≠ [])
      (count : s.world.heap.segments.length < arenaSegments)
      (hs' : s' = (s.setHeap h.grown).setThread t
        (.inAlloc c size (.stompWriteBarrier h.arenaNext))) :
      ActOutcome owner s a ((s'.enter t c size h.arenaNext).1,
        Ledger.append ⟨[(c, h.arenaNext)], [], []⟩ (s'.enter t c size h.arenaNext).2)
  | entered {t : T} {c : C} {size S : W}
      (ht : s.thread t = .inAlloc c size (.stompWriteBarrier S)) :
      ActOutcome owner s (.resume t) (s.enter t c size S)
  /-- Managed code serves itself. -/
  | bumped {t : T} {c : C} {n last : W} (ht : s.thread t = .managed last) (hown : owner c = t)
      (hn : n ≤ (s.world.ctxs c).allocLimit - (s.world.ctxs c).allocPtr) :
      ActOutcome owner s (.bump t c n) (s.handOut c n)

namespace AtBoundsCheck

variable {owner : C → T} {s : Threads T C} {a : Act T C} {t : T} {c : C} {size : W} {h : Heap}

section

omit [DecidableEq T] [DecidableEq C]

/-- All that is written on the way to the bounds check is the end of a collection. -/
theorem heap_cases (hat : AtBoundsCheck owner s a t c size h) :
    h = s.world.heap ∨ h = s.world.heap.endCollection := by
  cases hat with
  | unused => exact .inl rfl
  | collected => exact .inr rfl

theorem thread_eq (hat : AtBoundsCheck owner s a t c size h) : a.thread = t := by
  cases hat <;> rfl

theorem heapInv (hat : AtBoundsCheck owner s a t c size h) (hi : HeapInv s.world.heap) :
    HeapInv h := by
  rcases hat.heap_cases with rfl | rfl
  · exact hi
  · exact hi.setGcInProgress false

theorem segments (hat : AtBoundsCheck owner s a t c size h) :
    h.segments = s.world.heap.segments := by
  rcases hat.heap_cases with rfl | rfl <;> rfl

theorem upcalls (hat : AtBoundsCheck owner s a t c size h) :
    h.upcalls = s.world.heap.upcalls := by
  rcases hat.heap_cases with rfl | rfl <;> rfl

theorem gcToCLR (hat : AtBoundsCheck owner s a t c size h) :
    h.gcToCLR = s.world.heap.gcToCLR := by
  rcases hat.heap_cases with rfl | rfl <;> rfl

end

/-- From the bounds check on there are three ways. -/
theorem outcome (hat : AtBoundsCheck owner s a t c size h) (hi : HeapInv s.world.heap) :
    ActOutcome owner s a ((s.setHeap h).carve t c size) := by
  have hh := hat.heapInv hi
  unfold Threads.carve
  rcases carveSegment_cases hh with ⟨hcount, hc⟩ | ⟨hcount, hc⟩
  · rw [Threads.setHeap_world, hc]
    exact .full hat (hat.segments ▸ hcount)
  · rw [Threads.setHeap_world, hc]
    by_cases hfirst : h.carved.isFirstSegment = true
    · simp only [if_pos hfirst]
      exact .first hat (hat.segments ▸ hh.isFirstSegment_iff.mp hfirst)
    · simp only [if_neg hfirst]
      refine .carved hat (fun hnil => hfirst ?_) (hat.segments ▸ hcount) rfl
      exact hh.isFirstSegment_iff.mpr (hat.segments.trans hnil)

end AtBoundsCheck

theorem act_outcome {owner : C → T} {s : Threads T C} (hi : HeapInv s.world.heap) (a : Act T C) :
    ActOutcome owner s a (s.step owner a) := by
  cases a with
  | alloc t acontext size flags =>
    cases ht : s.thread t with
    | inAlloc c size' stage =>
      simp only [Threads.step, ht]
      exact .ignored (.inl ⟨c, size', stage, ht⟩)
    | managed last =>
      cases acontext with
      | none =>
        simp only [Threads.step, ht]
        exact .refused ht (.inl rfl)
      | some c =>
        simp only [Threads.step, ht]
        by_cases hown : owner c = t
        · rw [if_neg (not_not_intro hown)]
          by_cases hsize : sizeRefused size = true
          · rw [if_pos hsize]
            exact .refused ht (.inr hsize)
          rw [if_neg hsize]
          have hsize' := Bool.eq_false_iff.mpr hsize
          by_cases hfits : (s.world.ctxs c).fits size = true
          · rw [if_pos hfits]
            exact .served ht hown hsize' hfits
          rw [if_neg hfits]
          have hfits' := Bool.eq_false_iff.mpr hfits
          by_cases hlimit : (s.world.ctxs c).allocLimit ≠ 0
          · rw [if_pos hlimit]
            exact .began ht hown hsize' hfits' hlimit
          · rw [if_neg hlimit]
            exact (AtBoundsCheck.unused ht hown hsize' hfits' (not_not.mp hlimit)).outcome hi
        · rw [if_pos hown]
          exact .ignored (.inr ⟨c, rfl, hown⟩)
  | resume t =>
    cases ht : s.thread t with
    | managed last =>
      simp only [Threads.step, ht]
      exact .ignored ⟨last, ht⟩
    | inAlloc c size stage =>
      cases stage with
      | suspendEE =>
        simp only [Threads.step, ht]
        exact .scanned ht
      | gcScanRoots =>
        simp only [Threads.step, ht]
        exact .restarted ht
      | restartEE =>
        simp only [Threads.step, ht]
        exact (AtBoundsCheck.collected ht).outcome hi
      | stompWriteBarrier S =>
        simp only [Threads.step, ht]
        exact .entered ht
  | bump t c n =>
    cases ht : s.thread t with
    | inAlloc c' size stage =>
      simp only [Threads.step, ht]
      exact .ignored (.inl ⟨c', size, stage, ht⟩)
    | managed last =>
      simp only [Threads.step, ht]
      split
      · rename_i h
        exact .bumped ht h.1 h.2
      · rename_i h
        exact .ignored (.inr h)

omit [DecidableEq T] in
@[simp] theorem Threads.handOut_thread (s : Threads T C) (c : C) (n : W) :
    (s.handOut c n).1.thread = s.thread := rfl

@[simp] theorem Threads.enter_thread (s : Threads T C) (t : T) (c : C) (size newPages : W) :
    (s.enter t c size newPages).1.thread t = .managed (newPages + beginGap) := by
  simp [Threads.enter]

namespace ActOutcome

variable {owner : C → T} {s : Threads T C} {a : Act T C} {r : Threads T C × Ledger C}

/-- An action moves its own thread only. -/
theorem other_thread (ho : ActOutcome owner s a r) {t : T} (ht : t ≠ a.thread) :
    r.1.thread t = s.thread t := by
  cases ho with
  | ignored => rfl
  | refused => exact Threads.setThread_of_ne _ _ ht
  | served => exact Threads.setThread_of_ne _ _ ht
  | began => exact Threads.setThread_of_ne _ _ ht
  | scanned => exact Threads.setThread_of_ne _ _ ht
  | restarted => exact Threads.setThread_of_ne _ _ ht
  | full hat => exact Threads.setThread_of_ne _ _ (hat.thread_eq ▸ ht)
  | first hat => exact Threads.setThread_of_ne _ _ (hat.thread_eq ▸ ht)
  | carved hat _ _ hs' =>
    have ht' := hat.thread_eq ▸ ht
    rw [hs']
    exact (Threads.setThread_of_ne _ _ ht').trans (Threads.setThread_of_ne _ _ ht')
  | entered => exact Threads.setThread_of_ne _ _ ht
  | bumped => rfl

theorem heapInv (ho : ActOutcome owner s a r) (hi : HeapInv s.world.heap) :
    HeapInv r.1.world.heap := by
  cases ho with
  | ignored => exact hi
  | refused => exact hi
  | served => exact hi
  | began => exact (hi.setGcInProgress true).upcall rfl
  | scanned => exact hi.upcall rfl
  | restarted => exact hi.upcall rfl
  | full hat => exact hat.heapInv hi
  | first hat hnil =>
    have hlen : s.world.heap.segments.length < arenaSegments := by
      rw [hnil, arenaSegments_eq]
      decide
    exact (hat.heapInv hi).publish (hat.segments ▸ hlen)
  | carved hat _ count hs' =>
    subst hs'
    exact (hat.heapInv hi).publish (hat.segments ▸ count)
  | entered => exact hi
  | bumped => exact hi

end ActOutcome

theorem heapInv_run (owner : C → T) {h : Heap} (hf : Fresh h) (acts : List (Act T C)) :
    HeapInv ((threadMachine owner).run (.start h) acts).world.heap :=
  (threadMachine owner).run_inv (P := fun s => HeapInv s.world.heap)
    (fun _ a hi => (act_outcome hi a).heapInv hi) hf.heapInv acts

end

end MiniGC
