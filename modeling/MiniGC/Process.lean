import MiniGC.Handle.Scan
import MiniGC.Heap.Frozen
import MiniGC.Heap.Protocol
import MiniGC.Mark.Layout

/-!
# MiniGC.Process

The whole collector in one process: threads that allocate and collect, the handle table, the frozen
segments, and the objects, with calls of all of them in any order.

* `processMachine`  the threads of `MiniGC.Heap.Threads`, with the roots that the EE reports from
  inside `GcScanRoots` and with the scan of the handle table when that call returns.
* `Collected`       what the collections of one thread are for: the roots of each, from the stack
  and from the handles.
* `scanHandles_keep`  a collection leaves the handle table as it is.
* `collections_report_roots`  what a thread prints is that, for every order of calls.
-/

namespace MiniGC

open Parties

section

variable {T C : Type} [DecidableEq T] [DecidableEq C]

/-! ## Reporting a root -/

structure Root where
  object : W
  methodTable : W
  flags : BitVec 32
  deriving DecidableEq

/-- The lines of the log that a collection writes. -/
inductive GcLog where
  | scanStackRoots
  | scanHandlesRoots
  | reachableRoot (root : Root)
  deriving DecidableEq

/-- `MarkReachableRoot` on a slot that holds `object`. It writes nothing, and prints this. -/
def markReachableRoot (mem : Memory) (object : W) (flags : BitVec 32) : List GcLog :=
  if object = 0 then [] else [.reachableRoot ⟨object, getMethodTable mem object, flags⟩]

/-- `MarkReachableRoot` leaves every slot as it finds it. -/
def keepSlot : PromoteFunc := fun _ _ object => object

/-- What a scan of the handle table prints. -/
def handleLog (mem : Memory) (visits : List Visit) : List GcLog :=
  visits.flatMap fun v => markReachableRoot mem v.object 0

/-! ## The process -/

structure Process (T C : Type) where
  threads : Threads T C
  manager : HandleManager
  frozen : FrozenTable
  memory : Memory
  /-- The lines written so far, each with the thread that wrote it. -/
  log : List (T × GcLog)

inductive ProcessCall (T C : Type) where
  | act (a : Act T C)
  /-- The EE calls back from inside thread `t`'s `GcScanRoots`, with a slot that holds `object`. -/
  | promote (t : T) (object : W) (flags : BitVec 32)
  | handle (op : Op)
  | frozen (call : FrozenCall)
  /-- Managed code changes the objects. -/
  | mutate (memory : Memory)

inductive ProcessAnswer (C : Type) where
  | acted (ledger : Ledger C)
  | handle (answer : Answer)
  | frozen (handle : W)
  | void

namespace Process

/-- A process whose heap has been set up and whose handle manager has not. -/
def start (h : Heap) (mem : Memory) : Process T C :=
  ⟨.start h, .processStart, .processStart, mem, []⟩

def print (s : Process T C) (t : T) (lines : List GcLog) : Process T C :=
  { s with log := s.log ++ lines.map (Prod.mk t) }

/-- What `Alloc` does when a call into the EE returns, besides what it does to the heap. -/
def returned (A : HandleArray) (s : Process T C) (t : T) : CallPlace → Process T C
  | .suspending => s.print t [.scanStackRoots]
  | .scanning =>
    let r := s.manager.scanHandles A keepSlot
    { s with manager := r.1 }.print t (.scanHandlesRoots :: handleLog s.memory r.2)
  | _ => s

def act (owner : C → T) (A : HandleArray) (s : Process T C) (a : Act T C) : Process T C :=
  let r := s.threads.step owner a
  let s' : Process T C :=
    match a with
    | .resume t => s.returned A t (s.threads.thread t).place
    | _ => s
  { s' with threads := r.1 }

def step (owner : C → T) (A : HandleArray) (s : Process T C) :
    ProcessCall T C → Process T C × ProcessAnswer C
  | .act a => (s.act owner A a, .acted (s.threads.step owner a).2)
  | .promote t object flags =>
    if (s.threads.thread t).place = .scanning then
      (s.print t (markReachableRoot s.memory object flags), .void)
    else (s, .void)
  | .handle op =>
    ({ s with manager := (handleStep A s.manager op).1 }, .handle (handleStep A s.manager op).2)
  | .frozen call =>
    ({ s with frozen := (frozenMachine.step s.frozen call).1 },
      .frozen (frozenMachine.step s.frozen call).2)
  | .mutate memory => ({ s with memory := memory }, .void)

end Process

def processMachine (owner : C → T) (A : HandleArray) :
    Mealy (Process T C) (ProcessCall T C) (ProcessAnswer C) where
  step := Process.step owner A

/-! ## What collections are for -/

/-- The roots of one collection. -/
structure Collection where
  stackRoots : List Root
  handleRoots : List Root

/-- The collections of one thread: those whose roots are all reported, and the stack roots of the
one that is scanning the stacks now. -/
structure Collected where
  reported : List Collection
  scanning : Option (List Root)

def Collection.lines (k : Collection) : List GcLog :=
  .scanStackRoots :: k.stackRoots.map .reachableRoot ++
    .scanHandlesRoots :: k.handleRoots.map .reachableRoot

def Collected.lines (k : Collected) : List GcLog :=
  k.reported.flatMap Collection.lines ++
    match k.scanning with
    | none => []
    | some roots => .scanStackRoots :: roots.map .reachableRoot

/-- What is known of a process from its calls: what its handles are for, and what each thread has
collected. -/
structure Record (T : Type) where
  handles : History
  collected : T → Collected

def Root.ofHandle (A : HandleArray) (m : HandleManager) (mem : Memory) (handle : W) : Root :=
  let object := getObject A m.table handle
  ⟨object, getMethodTable mem object, 0⟩

/-- The objects of the live strong handles, in the order the handles were created. There are none
before the manager is initialised, nor after its shutdown. -/
def handleRoots (A : HandleArray) (m : HandleManager) (H : History) (mem : Memory) : List Root :=
  if H.initialised then (H.created.filter (Visits A m H)).map (.ofHandle A m mem) else []

namespace Record

def start : Record T := ⟨.start, fun _ => ⟨[], none⟩⟩

def setCollected (r : Record T) (t : T) (k : Collected) : Record T :=
  { r with collected := Function.update r.collected t k }

/-- A collection of thread `t` starts to scan the stacks. -/
def scan (r : Record T) (t : T) : Record T :=
  r.setCollected t { r.collected t with scanning := some [] }

/-- The stacks are scanned, and the handles give the rest of the roots. -/
def report (r : Record T) (t : T) (handleRoots : List Root) : Record T :=
  r.setCollected t
    ⟨(r.collected t).reported ++ [⟨(r.collected t).scanning.getD [], handleRoots⟩], none⟩

def addRoot (r : Record T) (t : T) (root : Root) : Record T :=
  r.setCollected t { r.collected t with
    scanning := (r.collected t).scanning.map fun roots => roots ++ [root] }

/-- What a call in state `s` means. -/
def after (A : HandleArray) (s : Process T C) (r : Record T) : ProcessCall T C → Record T
  | .act (.resume t) =>
    match (s.threads.thread t).place with
    | .suspending => r.scan t
    | .scanning => r.report t (handleRoots A s.manager r.handles s.memory)
    | _ => r
  | .promote t object flags =>
    if (s.threads.thread t).place = .scanning ∧ object ≠ 0 then
      r.addRoot t ⟨object, getMethodTable s.memory object, flags⟩
    else r
  | .handle op => { r with handles := r.handles.record op (handleStep A s.manager op).2 }
  | _ => r

end Record

/-- The process next to the record of what its calls mean. -/
def recordMachine (owner : C → T) (A : HandleArray) :
    Mealy (Process T C × Record T) (ProcessCall T C) (ProcessAnswer C) where
  step r call :=
    (((processMachine owner A).next r.1 call, r.2.after A r.1 call),
      (processMachine owner A).answer r.1 call)

/-! ## The scan of the handles -/

section

variable {A : HandleArray} {m : HandleManager} {H : History}

theorem scanHandle_keep (r : HandleTable × List Visit) (i : Fin maxHandles) :
    (scanHandle A keepSlot r i).1 = r.1 := by
  unfold scanHandle
  split
  · simp only [keepSlot, Function.update_eq_self]
  · rfl

theorem foldl_scanHandle_keep (r : HandleTable × List Visit) (is : List (Fin maxHandles)) :
    (is.foldl (scanHandle A keepSlot) r).1 = r.1 := by
  induction is generalizing r with
  | nil => rfl
  | cons i is ih => rw [List.foldl_cons, ih, scanHandle_keep]

/-- A collection leaves the handles as they are. -/
theorem scanHandles_keep (A : HandleArray) (m : HandleManager) :
    (m.scanHandles A keepSlot).1 = m := by
  by_cases hstore : m.store = true
  · rw [HandleManager.scanHandles_store hstore, MiniGC.scanHandles, foldl_scanHandle_keep]
    rfl
  · rw [HandleManager.scanHandles_absent hstore]

/-- The scan reports the objects of the live strong handles. -/
theorem Refines.handleLog_eq (hr : Refines A m H) (mem : Memory) :
    handleLog mem (m.scanHandles A keepSlot).2 =
      (handleRoots A m H mem).map .reachableRoot := by
  by_cases hstore : m.store = true
  case neg =>
    rw [HandleManager.scanHandles_absent hstore, handleRoots, if_neg (hr.initialised ▸ hstore)]
    rfl
  have hvisited := hr.visited keepSlot
  have hreport : ∀ v ∈ (MiniGC.scanHandles A m.table keepSlot).2,
      markReachableRoot mem v.object 0 = [.reachableRoot (.ofHandle A m mem v.slot)] := by
    intro v hv
    obtain ⟨i, hi, hobject, -⟩ := (scanned A m.table keepSlot).found v hv
    have hmem : v.slot ∈ H.created.filter (Visits A m H) := hvisited ▸ List.mem_map_of_mem hv
    have hvisits := (List.mem_filter.mp hmem).2
    have hne : getObject A m.table v.slot ≠ 0 :=
      (show _ ∧ _ from of_decide_eq_true hvisits).2
    have he : v.object = getObject A m.table v.slot := by
      rw [getObject_issued hi]
      exact hobject
    rw [markReachableRoot, he, if_neg hne]
    rfl
  rw [HandleManager.scanHandles_store hstore, handleRoots, if_pos (hr.initialised.trans hstore),
    handleLog, List.flatMap_congr hreport, ← hvisited, List.map_map, List.map_map,
    ← List.map_eq_flatMap]
  rfl

end

/-! ## What is printed -/

namespace Collected

variable {k : Collected}

theorem lines_scan (hk : k.scanning = none) :
    ({ k with scanning := some [] } : Collected).lines = k.lines ++ [.scanStackRoots] := by
  simp [lines, hk]

theorem lines_addRoot {roots : List Root} (hk : k.scanning = some roots) (root : Root) :
    ({ k with scanning := k.scanning.map fun roots => roots ++ [root] } : Collected).lines =
      k.lines ++ [.reachableRoot root] := by
  simp [lines, hk]

theorem lines_report {roots : List Root} (hk : k.scanning = some roots) (handleRoots : List Root) :
    (⟨k.reported ++ [⟨k.scanning.getD [], handleRoots⟩], none⟩ : Collected).lines =
      k.lines ++ .scanHandlesRoots :: handleRoots.map .reachableRoot := by
  simp [lines, Collection.lines, hk]

end Collected

/-- Only a thread that is suspending the EE can come to scan the stacks. -/
theorem ActOutcome.scanning_iff {owner : C → T} {s : Threads T C} {a : Act T C}
    {r : Threads T C × Ledger C} (ho : ActOutcome owner s a r) :
    (r.1.thread a.thread).place = .scanning ↔
      match a with
      | .resume t => (s.thread t).place = .suspending
      | _ => (s.thread a.thread).place = .scanning := by
  have hat_iff : ∀ {t c size h}, AtBoundsCheck owner s a t c size h →
      ¬ match a with
        | .resume t => (s.thread t).place = .suspending
        | _ => (s.thread a.thread).place = .scanning := by
    intro t c size h hat
    cases hat with
    | unused ht => simp [Act.thread, ht, ThreadState.place]
    | collected ht => simp [ht, ThreadState.place, Stage.place]
  cases ho with
  | @ignored a h =>
    cases a with
    | resume t =>
      obtain ⟨last, ht⟩ := h
      simp [Act.thread, ht, ThreadState.place]
    | _ => rfl
  | refused ht => simp [Act.thread, ht, ThreadState.place]
  | served ht => simp [Act.thread, ht, ThreadState.place]
  | began ht => simp [Act.thread, ht, ThreadState.place, Stage.place]
  | scanned ht => simp [Act.thread, ht, ThreadState.place, Stage.place]
  | restarted ht => simp [Act.thread, ht, ThreadState.place, Stage.place]
  | full hat =>
    refine iff_of_false ?_ (hat_iff hat)
    simp [hat.thread_eq, ThreadState.place]
  | first hat =>
    refine iff_of_false ?_ (hat_iff hat)
    simp [hat.thread_eq, ThreadState.place, Stage.place]
  | carved hat =>
    refine iff_of_false ?_ (hat_iff hat)
    simp [hat.thread_eq, ThreadState.place]
  | entered ht => simp [Act.thread, ht, ThreadState.place, Stage.place]
  | bumped ht => simp [Act.thread, ht, ThreadState.place]

theorem wordOf_move {log : List (T × GcLog)} {collected : T → Collected}
    (h : ∀ t, wordOf log t = (collected t).lines) {t : T} {lines : List GcLog} {k : Collected}
    (hk : k.lines = (collected t).lines ++ lines) (t' : T) :
    wordOf (log ++ lines.map (Prod.mk t)) t' = (Function.update collected t k t').lines := by
  by_cases ht : t' = t
  · subst ht
    rw [wordOf_append_self, Function.update_self, hk, h]
  · rw [wordOf_append_of_ne _ ht, Function.update_of_ne ht, h]

structure ReportInv (A : HandleArray) (r : Process T C × Record T) : Prop where
  heap : HeapInv r.1.threads.world.heap
  handles : Refines A r.1.manager r.2.handles
  lines : ∀ t, wordOf r.1.log t = (r.2.collected t).lines
  scanning : ∀ t, (r.2.collected t).scanning.isSome = true ↔
    (r.1.threads.thread t).place = .scanning

namespace ReportInv

variable {owner : C → T} {A : HandleArray} {r : Process T C × Record T}

section

omit [DecidableEq C]

theorem not_scanning (hi : ReportInv A r) {t : T}
    (ht : (r.1.threads.thread t).place ≠ .scanning) : (r.2.collected t).scanning = none :=
  Option.not_isSome_iff_eq_none.mp fun h => ht ((hi.scanning t).mp h)

theorem scanning_some (hi : ReportInv A r) {t : T}
    (ht : (r.1.threads.thread t).place = .scanning) :
    ∃ roots, (r.2.collected t).scanning = some roots :=
  Option.isSome_iff_exists.mp ((hi.scanning t).mpr ht)

/-- One thread moves, and its record with it. -/
theorem scanning_move (hi : ReportInv A r) {t : T} {k : Collected} {thread : T → ThreadState C}
    (hother : ∀ t' ≠ t, thread t' = r.1.threads.thread t')
    (hk : k.scanning.isSome = true ↔ (thread t).place = .scanning) (t' : T) :
    (Function.update r.2.collected t k t').scanning.isSome = true ↔
      (thread t').place = .scanning := by
  by_cases ht : t' = t
  · subst ht
    rwa [Function.update_self]
  · rw [Function.update_of_ne ht, hother t' ht]
    exact hi.scanning t'

end

/-- A call of thread `t` into the EE returns. -/
theorem resume (hi : ReportInv A r) (t : T) :
    ReportInv A ((recordMachine owner A).next r (.act (.resume t))) := by
  have ho : ActOutcome owner r.1.threads (.resume t) (r.1.threads.step owner (.resume t)) :=
    act_outcome hi.heap (.resume t)
  have hother : ∀ t' ≠ t, (r.1.threads.step owner (.resume t)).1.thread t' =
      r.1.threads.thread t' := fun t' ht => ho.other_thread ht
  have hown : ((r.1.threads.step owner (.resume t)).1.thread t).place = .scanning ↔
      (r.1.threads.thread t).place = .suspending := ho.scanning_iff
  have hheap := ho.heapInv hi.heap
  have hnext : (recordMachine owner A).next r (.act (.resume t)) =
      (r.1.act owner A (.resume t), r.2.after A r.1 (.act (.resume t))) := rfl
  rw [hnext, Process.act, Record.after]
  cases hp : (r.1.threads.thread t).place with
  | suspending =>
    have hnone := hi.not_scanning (t := t) (by rw [hp]; decide)
    refine ⟨hheap, hi.handles, ?_, hi.scanning_move hother (by simp [hown, hp])⟩
    exact wordOf_move hi.lines (Collected.lines_scan hnone)
  | scanning =>
    obtain ⟨roots, hroots⟩ := hi.scanning_some hp
    refine ⟨hheap, ?_, ?_, hi.scanning_move hother (by simp [hown, hp])⟩
    · show Refines A (r.1.manager.scanHandles A keepSlot).1 r.2.handles
      rw [scanHandles_keep]
      exact hi.handles
    · refine wordOf_move hi.lines ((Collected.lines_report hroots _).trans ?_)
      rw [hi.handles.handleLog_eq]
  | idle | restarting | stomping =>
    refine ⟨hheap, hi.handles, hi.lines, fun t' => (hi.scanning t').trans ?_⟩
    by_cases ht : t' = t
    · subst ht
      exact iff_of_false (by rw [hp]; decide) fun h => by simp [hown, hp] at h
    · rw [← hother t' ht]

theorem act (hi : ReportInv A r) (a : Act T C) :
    ReportInv A ((recordMachine owner A).next r (.act a)) := by
  by_cases hresume : ∃ t, a = .resume t
  · obtain ⟨t, rfl⟩ := hresume
    exact hi.resume t
  have ho : ActOutcome owner r.1.threads a (r.1.threads.step owner a) := act_outcome hi.heap a
  have hown := ho.scanning_iff
  have hplace : ∀ t, (r.1.threads.thread t).place = .scanning ↔
      ((r.1.threads.step owner a).1.thread t).place = .scanning := by
    intro t
    by_cases ht : t = a.thread
    · subst ht
      cases a with
      | resume t => exact absurd ⟨t, rfl⟩ hresume
      | _ => exact hown.symm
    · rw [ho.other_thread ht]
  cases a with
  | resume t => exact absurd ⟨t, rfl⟩ hresume
  | _ => exact ⟨ho.heapInv hi.heap, hi.handles, hi.lines, fun t => (hi.scanning t).trans (hplace t)⟩

theorem promote (hi : ReportInv A r) (t : T) (object : W) (flags : BitVec 32) :
    ReportInv A ((recordMachine owner A).next r (.promote t object flags)) := by
  have hnext : (recordMachine owner A).next r (.promote t object flags) =
      ((r.1.step owner A (.promote t object flags)).1,
        r.2.after A r.1 (.promote t object flags)) := rfl
  rw [hnext, Process.step, Record.after]
  by_cases hp : (r.1.threads.thread t).place = .scanning
  case neg =>
    rw [if_neg hp, if_neg fun h => hp h.1]
    exact hi
  obtain ⟨roots, hroots⟩ := hi.scanning_some hp
  rw [if_pos hp]
  by_cases h0 : object = 0
  · rw [if_neg fun h => h.2 h0]
    refine ⟨hi.heap, hi.handles, fun t' => ?_, hi.scanning⟩
    simpa [markReachableRoot, h0, Process.print] using hi.lines t'
  · rw [if_pos ⟨hp, h0⟩]
    refine ⟨hi.heap, hi.handles, ?_, hi.scanning_move (fun _ _ => rfl)
      (iff_of_true (by simp [hroots]) hp)⟩
    refine wordOf_move hi.lines ((Collected.lines_addRoot hroots _).trans ?_)
    rw [markReachableRoot, if_neg h0]

theorem step (hi : ReportInv A r) (call : ProcessCall T C) :
    ReportInv A ((recordMachine owner A).next r call) := by
  cases call with
  | act a => exact hi.act a
  | promote t object flags => exact hi.promote t object flags
  | handle op =>
    exact ⟨hi.heap, hi.handles.step (handleStep_outcome A r.1.manager op), hi.lines, hi.scanning⟩
  | frozen call => exact ⟨hi.heap, hi.handles, hi.lines, hi.scanning⟩
  | mutate memory => exact ⟨hi.heap, hi.handles, hi.lines, hi.scanning⟩

end ReportInv

/-- In every order of calls, a thread prints, for each of its collections, the roots that the EE
reported to it and then the objects of the handles that were strong and alive when it had scanned
the stacks, in the order these were created; null slots leave no line. -/
theorem collections_report_roots (owner : C → T) (A : HandleArray) {h : Heap} (hb : Booted h)
    (mem : Memory) (calls : List (ProcessCall T C)) :
    let r := (recordMachine owner A).run (.start h mem, .start) calls
    ∀ t, wordOf r.1.log t = (r.2.collected t).lines := by
  intro r
  have hstart : ReportInv A ((.start h mem, .start) : Process T C × Record T) :=
    ⟨hb.fresh.heapInv, .start, fun _ => rfl, fun t => iff_of_false Bool.false_ne_true nofun⟩
  have hi : ReportInv A r :=
    (recordMachine owner A).run_inv (fun _ call hi => hi.step call) hstart calls
  exact hi.lines

/-- A collection with two stack slots, one of them null, and two handles, one of them weak. -/
def oneCollection : List (ProcessCall Bool Bool) :=
  [.handle .initializeManager, .handle (.createGlobalHandleOfType 0x10 .hndtypeStrong),
    .handle (.createGlobalHandleOfType 0x20 .hndtypeWeakShort),
    .act (.alloc true (some true) 1000 0), .act (.resume true),
    .act (.alloc true (some true) 1048000 0), .act (.resume true), .promote true 0x50 2,
    .promote true 0 0, .act (.resume true)]

theorem oneCollection_reports :
    let r := (recordMachine id .usual).run
      (.start (.bootedAt 0x7f0000000000) fun _ => 0, .start) oneCollection
    wordOf r.1.log true = [.scanStackRoots, .reachableRoot ⟨0x50, 0, 2⟩, .scanHandlesRoots,
      .reachableRoot ⟨0x10, 0, 0⟩] :=
  (collections_report_roots id .usual booted_high (fun _ => 0) oneCollection true).trans (by decide)

end

end MiniGC
