import MiniGC.Heap.Alloc

/-!
# MiniGC.Heap.Threads

Threads that allocate at the same time. Every context belongs to one thread (`owner`); a thread
runs managed code or is inside one of `Alloc`'s calls into the EE, and only there does control
switch. Managed code also serves itself from its own context, without calling the collector
(`Act.bump`).

`Threads.step` takes one action: a thread enters `Alloc` and runs to its first call into the EE or
to its return, or runs on from such a call. An action that its thread is in no position to take
leaves everything as it is. The answer to an action is a `Ledger`: what it carved, what it handed
out, and which segments it left.

`alloc_threads` ties this to `alloc`: run with nothing in between, a thread's call has the effect
and the result of `alloc`.
-/

namespace MiniGC

/-- The call into the EE a thread is inside of. -/
inductive Stage where
  | suspendEE
  | gcScanRoots
  | restartEE
  | stompWriteBarrier (newPages : W)

inductive ThreadState (C : Type) where
  /-- In managed code; the last `Alloc` returned `result`. -/
  | managed (result : W)
  | inAlloc (acontext : C) (size : W) (stage : Stage)

structure Threads (T C : Type) where
  world : World C
  thread : T → ThreadState C

inductive Act (T C : Type) where
  | alloc (t : T) (acontext : Option C) (size : W) (flags : BitVec 32)
  | resume (t : T)
  | bump (t : T) (acontext : C) (n : W)

/-- A block served from context `ctx`, while that context was allocating from segment `seg`. -/
structure Handout (C : Type) where
  ctx : C
  seg : W
  ptr : W
  size : W

/-- What has happened to segments so far, oldest first. -/
structure Ledger (C : Type) where
  /-- The segments carved, with the context whose `Alloc` carved each. -/
  carved : List (C × W)
  /-- The blocks handed out. -/
  handed : List (Handout C)
  /-- The segments left for a new one, with the context's `alloc_ptr` at that point. -/
  left : List (C × W × W)

namespace Ledger

variable {C : Type}

def empty : Ledger C := ⟨[], [], []⟩

def append (L L' : Ledger C) : Ledger C :=
  ⟨L.carved ++ L'.carved, L.handed ++ L'.handed, L.left ++ L'.left⟩

@[simp] theorem append_empty (L : Ledger C) : L.append empty = L := by
  simp [append, empty]

theorem append_assoc (L L' L'' : Ledger C) :
    (L.append L').append L'' = L.append (L'.append L'') := by
  simp [append]

end Ledger

section

variable {T C : Type} [DecidableEq T] [DecidableEq C]

namespace Threads

/-- All threads in managed code, on a world that nothing was allocated from. -/
def start (h : Heap) : Threads T C := ⟨.start h, fun _ => .managed 0⟩

def setHeap (s : Threads T C) (h : Heap) : Threads T C :=
  { s with world := { s.world with heap := h } }

def setCtx (s : Threads T C) (c : C) (acontext : GcAllocContext) : Threads T C :=
  { s with world := s.world.setCtx c acontext }

def setThread (s : Threads T C) (t : T) (st : ThreadState C) : Threads T C :=
  { s with thread := Function.update s.thread t st }

/-- The bump of `alloc_ptr`, by the fast path of `Alloc` or by managed code. The segment is the one
the context's range ends. -/
def handOut (s : Threads T C) (c : C) (n : W) : Threads T C × Ledger C :=
  let ctx := s.world.ctxs c
  (s.setCtx c { ctx with allocPtr := ctx.allocPtr + n },
    ⟨[], [⟨c, ctx.allocLimit - growthSize, ctx.allocPtr, n⟩], []⟩)

/-- The end of `Alloc`: the context switches to `newPages`, and the thread returns. -/
def enter (s : Threads T C) (t : T) (c : C) (size newPages : W) : Threads T C × Ledger C :=
  let ctx := s.world.ctxs c
  let left := if ctx.allocLimit ≠ 0 then [(c, ctx.allocLimit - growthSize, ctx.allocPtr)] else []
  ((s.setCtx c (enterSegment ctx newPages size)).setThread t (.managed (newPages + beginGap)),
    ⟨[], [⟨c, newPages, newPages + beginGap, size⟩], left⟩)

/-- From the bounds check on: to the return of null, to the call of `StompWriteBarrier`, or, where
that call is not made, to the end of `Alloc`. -/
def carve (s : Threads T C) (t : T) (c : C) (size : W) : Threads T C × Ledger C :=
  match carveSegment s.world.heap with
  | (heap, none) => ((s.setHeap heap).setThread t (.managed 0), .empty)
  | (heap, some newPages) =>
    let s := (s.setHeap (publishSegment heap newPages)).setThread t
      (.inAlloc c size (.stompWriteBarrier newPages))
    let carved : Ledger C := ⟨[(c, newPages)], [], []⟩
    if heap.isFirstSegment then (s, carved)
    else ((s.enter t c size newPages).1, carved.append (s.enter t c size newPages).2)

def step (owner : C → T) (s : Threads T C) : Act T C → Threads T C × Ledger C
  | .alloc t acontext size _ =>
    match s.thread t, acontext with
    | .inAlloc _ _ _, _ => (s, .empty)
    | .managed _, none => (s.setThread t (.managed 0), .empty)
    | .managed _, some c =>
      let ctx := s.world.ctxs c
      if owner c ≠ t then (s, .empty)
      else if sizeRefused size then (s.setThread t (.managed 0), .empty)
      else if ctx.fits size then
        ((s.handOut c size).1.setThread t (.managed ctx.allocPtr), (s.handOut c size).2)
      else if ctx.allocLimit ≠ 0 then
        ((s.setHeap s.world.heap.beginCollection).setThread t (.inAlloc c size .suspendEE), .empty)
      else s.carve t c size
  | .resume t =>
    match s.thread t with
    | .managed _ => (s, .empty)
    | .inAlloc c size .suspendEE =>
      ((s.setHeap s.world.heap.scanRoots).setThread t (.inAlloc c size .gcScanRoots), .empty)
    | .inAlloc c size .gcScanRoots =>
      ((s.setHeap s.world.heap.restart).setThread t (.inAlloc c size .restartEE), .empty)
    | .inAlloc c size .restartEE => (s.setHeap s.world.heap.endCollection).carve t c size
    | .inAlloc c size (.stompWriteBarrier newPages) => s.enter t c size newPages
  | .bump t c n =>
    match s.thread t with
    | .inAlloc _ _ _ => (s, .empty)
    | .managed _ =>
      let ctx := s.world.ctxs c
      if owner c = t ∧ n ≤ ctx.allocLimit - ctx.allocPtr then s.handOut c n else (s, .empty)

end Threads

def threadMachine (owner : C → T) : Mealy (Threads T C) (Act T C) (Ledger C) where
  step := Threads.step owner

/-- The threads next to the ledger of everything that has happened. -/
def ledgerMachine (owner : C → T) : Mealy (Threads T C × Ledger C) (Act T C) (Ledger C) :=
  (threadMachine owner).observed fun L _ L' => L.append L'

@[simp] theorem threadMachine_next (owner : C → T) (s : Threads T C) (a : Act T C) :
    (threadMachine owner).next s a = (s.step owner a).1 := rfl

section

omit [DecidableEq C]

@[simp] theorem Threads.setThread_world (s : Threads T C) (t : T) (st : ThreadState C) :
    (s.setThread t st).world = s.world := rfl

@[simp] theorem Threads.setThread_thread (s : Threads T C) (t : T) (st : ThreadState C) :
    (s.setThread t st).thread t = st := by
  simp [Threads.setThread]

theorem Threads.setThread_of_ne (s : Threads T C) {t t' : T} (st : ThreadState C) (h : t' ≠ t) :
    (s.setThread t st).thread t' = s.thread t' := by
  simp [Threads.setThread, h]

end

section

omit [DecidableEq T] [DecidableEq C]

@[simp] theorem Threads.setHeap_world (s : Threads T C) (h : Heap) :
    (s.setHeap h).world = { s.world with heap := h } := rfl

@[simp] theorem Threads.setHeap_thread (s : Threads T C) (h : Heap) :
    (s.setHeap h).thread = s.thread := rfl

end

section

omit [DecidableEq T]

@[simp] theorem Threads.handOut_ctx_self (s : Threads T C) (c : C) (n : W) :
    (s.handOut c n).1.world.ctxs c =
      { s.world.ctxs c with allocPtr := (s.world.ctxs c).allocPtr + n } := by
  simp [Threads.handOut, Threads.setCtx]

theorem Threads.handOut_ctx_of_ne (s : Threads T C) {c c' : C} (n : W) (h : c' ≠ c) :
    (s.handOut c n).1.world.ctxs c' = s.world.ctxs c' := by
  simp [Threads.handOut, Threads.setCtx, h]

end

@[simp] theorem Threads.enter_ctx_self (s : Threads T C) (t : T) (c : C) (size newPages : W) :
    (s.enter t c size newPages).1.world.ctxs c =
      enterSegment (s.world.ctxs c) newPages size := by
  simp [Threads.enter, Threads.setCtx]

theorem Threads.enter_ctx_of_ne (s : Threads T C) (t : T) {c c' : C} (size newPages : W)
    (h : c' ≠ c) : (s.enter t c size newPages).1.world.ctxs c' = s.world.ctxs c' := by
  simp [Threads.enter, Threads.setCtx, h]

/-- The thread that was in flight has returned, and no other has moved. -/
theorem Threads.enter_inAlloc {s : Threads T C} {t : T} {c : C} {size newPages : W} {t' : T}
    {c' : C} {size' : W} {stage : Stage} :
    (s.enter t c size newPages).1.thread t' = .inAlloc c' size' stage ↔
      t' ≠ t ∧ s.thread t' = .inAlloc c' size' stage := by
  by_cases htt : t' = t
  · subst htt
    simp [Threads.enter]
  · simp [Threads.enter, Threads.setThread, Threads.setCtx, htt]

/-! ## One thread alone -/

theorem Threads.step_resume_managed (owner : C → T) {s : Threads T C} {t : T} (result : W)
    (ht : s.thread t = .managed result) : s.step owner (.resume t) = (s, .empty) := by
  simp only [Threads.step, ht]

/-- A thread at the bounds check that is resumed once more has done the rest of `Alloc`. -/
theorem Threads.carve_resume (owner : C → T) (s : Threads T C) (t : T) (c : C) (size : W) :
    ((s.carve t c size).1.step owner (.resume t)).1 =
      ({ s with world := (allocFromNewSegment s.world c size).1 }).setThread t
        (.managed (allocFromNewSegment s.world c size).2) := by
  unfold Threads.carve allocFromNewSegment
  rcases carveSegment s.world.heap with ⟨heap, _ | newPages⟩
  · simp only
    rw [Threads.step_resume_managed owner 0 (by simp [Threads.setThread])]
    rfl
  · simp only
    split
    · simp [Threads.step, Threads.enter, Threads.setThread, Threads.setHeap, Threads.setCtx]
    · rw [Threads.step_resume_managed owner (newPages + beginGap)
        (by simp [Threads.enter, Threads.setThread])]
      simp [Threads.enter, Threads.setThread, Threads.setHeap, Threads.setCtx]

theorem Threads.run_resume_managed (owner : C → T) {s : Threads T C} {t : T} {result : W}
    (ht : s.thread t = .managed result) (k : Nat) :
    (threadMachine owner).run s (List.replicate k (.resume t)) = s := by
  induction k with
  | zero => rfl
  | succ k ih =>
    rw [List.replicate_succ, Mealy.run_cons, threadMachine_next,
      Threads.step_resume_managed owner result ht, ih]

theorem Threads.run_carve (owner : C → T) (s : Threads T C) (t : T) (c : C) (size : W) (k : Nat) :
    (threadMachine owner).run (s.carve t c size).1 (List.replicate (k + 1) (.resume t)) =
      ({ s with world := (allocFromNewSegment s.world c size).1 }).setThread t
        (.managed (allocFromNewSegment s.world c size).2) := by
  rw [List.replicate_succ, Mealy.run_cons, threadMachine_next, Threads.carve_resume]
  exact Threads.run_resume_managed owner (Threads.setThread_thread _ _ _) k

/-- A thread that enters `Alloc` and is then run until it returns, with nothing in between, has the
effect and the result of `alloc`. No call makes more than four calls into the EE. -/
theorem alloc_threads (owner : C → T) {s : Threads T C} {t : T} {last : W}
    (ht : s.thread t = .managed last) {acontext : Option C} (hown : ∀ c ∈ acontext, owner c = t)
    (size : W) (flags : BitVec 32) :
    (threadMachine owner).run s (.alloc t acontext size flags :: List.replicate 4 (.resume t)) =
      ({ s with world := (alloc s.world acontext size flags).1 }).setThread t
        (.managed (alloc s.world acontext size flags).2) := by
  rw [Mealy.run_cons, threadMachine_next]
  cases acontext with
  | none =>
    simp only [Threads.step, ht, alloc]
    exact Threads.run_resume_managed owner (Threads.setThread_thread _ _ _) 4
  | some c =>
    have hc : ¬ owner c ≠ t := not_not_intro (hown c rfl)
    simp only [Threads.step, ht, alloc, if_neg hc]
    split
    · exact Threads.run_resume_managed owner (Threads.setThread_thread _ _ _) 4
    split
    · exact Threads.run_resume_managed owner (Threads.setThread_thread _ _ _) 4
    split
    · -- three resumes take the thread through the collection, the fourth is the carving's own
      rw [show List.replicate 4 (Act.resume (C := C) t) =
          [.resume t, .resume t, .resume t] ++ List.replicate 1 (.resume t) from rfl,
        Mealy.run_append]
      simp only [Mealy.run_cons, Mealy.run_nil, threadMachine_next, Threads.step,
        Threads.setThread_thread, Threads.setThread_world, Threads.setHeap_world]
      rw [Threads.run_carve]
      simp [Threads.setThread, Threads.setHeap, Heap.collect]
    · exact Threads.run_carve owner s t c size 3

end

end MiniGC
