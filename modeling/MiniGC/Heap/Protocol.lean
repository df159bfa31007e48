import MiniGC.Heap.Acts
import MiniGC.Heap.Restart
import MiniGC.Lib.Parties

/-!
# MiniGC.Heap.Protocol

What the EE sees of allocating threads, whatever the order they run in.

* `eventMachine`     the threads next to the calls they make into the EE and the returns from
  `Alloc`, each with its thread.
* `protocolStep`     the order of these in one thread: a collection is `SuspendEE`, `GcScanRoots`,
  `RestartEE`, and only the `StompWriteBarrier` of the first segment can follow it.
* `StompInv`         what the write barrier has been told, and who is telling it.
* `upcalls_follow_protocol`, `barrier_told_once`, `gcInProgress_iff`   the three results.
-/

namespace MiniGC

open Parties

section

variable {T C : Type} [DecidableEq T] [DecidableEq C]

/-! ## The protocol of one thread -/

inductive ThreadEvent where
  | call (call : EeCall)
  /-- A return from `Alloc` out of a call into the EE. -/
  | returned
  deriving DecidableEq

/-- Where a thread is between two of its events. -/
inductive CallPlace where
  | idle
  | suspending
  | scanning
  | restarting
  | stomping
  deriving DecidableEq

def protocolStep : CallPlace → ThreadEvent → Option CallPlace
  | .idle, .call (.suspendEE .suspendForGc) => some .suspending
  | .suspending, .call (.gcScanRoots 0 0) => some .scanning
  | .scanning, .call (.restartEE true) => some .restarting
  | .idle, .call (.stompWriteBarrier args) | .restarting, .call (.stompWriteBarrier args) =>
    if args.operation = .stompResize then some .stomping else none
  | .restarting, .returned | .stomping, .returned => some .idle
  | _, _ => none

def Stage.place : Stage → CallPlace
  | .suspendEE => .suspending
  | .gcScanRoots => .scanning
  | .restartEE => .restarting
  | .stompWriteBarrier _ => .stomping

def ThreadState.place : ThreadState C → CallPlace
  | .managed _ => .idle
  | .inAlloc _ _ stage => stage.place

/-! ## The trace of all threads -/

/-- The calls that took heap `h` to `h'`, oldest first. -/
def Heap.callsTo (h h' : Heap) : List EeCall :=
  (h'.upcalls.drop h.upcalls.length).map Upcall.call

/-- The return from `Alloc`, if there was one between the two states of a thread. -/
def ThreadState.returnTo : ThreadState C → ThreadState C → List ThreadEvent
  | .inAlloc _ _ _, .managed _ => [.returned]
  | _, _ => []

def eventMachine (owner : C → T) :
    Mealy (Threads T C × List (T × ThreadEvent)) (Act T C) (Ledger C) where
  step r a :=
    let r' := r.1.step owner a
    let calls := (r.1.world.heap.callsTo r'.1.world.heap).map ThreadEvent.call
    let returned := (r.1.thread a.thread).returnTo (r'.1.thread a.thread)
    ((r'.1, r.2 ++ (calls ++ returned).map (Prod.mk a.thread)), r'.2)

/-- The calls of a trace, in their order. -/
def tracedCalls (trace : List (T × ThreadEvent)) : List EeCall :=
  trace.filterMap fun x =>
    match x.2 with
    | .call call => some call
    | .returned => none

/-! ## What an action calls -/

/-- The heap `h'` is reached from `h` by making the calls `w` into the EE that is bound. -/
def Heap.Calls (h h' : Heap) (w : List EeCall) : Prop :=
  h'.upcalls = h.upcalls ++ w.map (Upcall.mk h.gcToCLR) ∧ h'.gcToCLR = h.gcToCLR

theorem Heap.Calls.callsTo {h h' : Heap} {w : List EeCall} (hc : h.Calls h' w) :
    h.callsTo h' = w := by
  rw [Heap.callsTo, hc.1, List.drop_left, List.map_map]
  exact List.map_id w

theorem Heap.Calls.nil {h h' : Heap} (hu : h'.upcalls = h.upcalls) (hb : h'.gcToCLR = h.gcToCLR) :
    h.Calls h' [] := ⟨by rw [hu]; simp, hb⟩

/-- A new segment is announced if it is the first. -/
theorem Heap.grown_calls {h : Heap} (hi : HeapInv h) :
    h.Calls h.grown (if h.segments = [] then [.stompWriteBarrier (h.grown.barrierArgs .stompResize)]
      else []) := by
  have hfirst := hi.isFirstSegment_iff
  unfold Heap.grown publishSegment
  split
  · rename_i hc
    rw [if_pos (hfirst.mp hc)]
    exact ⟨rfl, rfl⟩
  · rename_i hc
    rw [if_neg fun hnil => hc (hfirst.mpr hnil)]
    exact .nil rfl rfl

namespace AtBoundsCheck

variable {owner : C → T} {s : Threads T C} {a : Act T C} {t : T} {c : C} {size : W} {h : Heap}

section

omit [DecidableEq T] [DecidableEq C]

theorem grown_calls (hat : AtBoundsCheck owner s a t c size h) (hi : HeapInv s.world.heap) :
    s.world.heap.Calls h.grown (if s.world.heap.segments = [] then
      [.stompWriteBarrier (h.grown.barrierArgs .stompResize)] else []) := by
  have hc := Heap.grown_calls (hat.heapInv hi)
  rw [Heap.Calls, hat.upcalls, hat.gcToCLR, hat.segments] at hc
  exact hc

/-- The thread is idle at the bounds check, or a collection lies behind it. -/
theorem place_cases (hat : AtBoundsCheck owner s a t c size h) :
    ((s.thread t).place = .idle ∧ ∃ last, s.thread t = .managed last) ∨
      ((s.thread t).place = .restarting ∧ s.thread t = .inAlloc c size .restartEE) := by
  cases hat with
  | unused ht =>
    rw [ht]
    exact .inl ⟨rfl, _, rfl⟩
  | collected ht =>
    rw [ht]
    exact .inr ⟨rfl, rfl⟩

/-- A thread that goes back to managed code from there has followed the protocol. -/
theorem follow_managed (hat : AtBoundsCheck owner s a t c size h) (result : W) :
    follow protocolStep (s.thread t).place ((s.thread t).returnTo (.managed result)) =
      some .idle := by
  rcases hat.place_cases with ⟨hp, last, ht⟩ | ⟨hp, ht⟩
  · rw [hp, ht]
    rfl
  · rw [hp, ht]
    rfl

end

end AtBoundsCheck

/-- What one action adds to the trace leads its thread from its place to its next. -/
theorem ActOutcome.events {owner : C → T} {s : Threads T C} {a : Act T C}
    {r : Threads T C × Ledger C} (ho : ActOutcome owner s a r) (hi : HeapInv s.world.heap) :
    ∃ w, s.world.heap.Calls r.1.world.heap w ∧
      follow protocolStep (s.thread a.thread).place
        (w.map ThreadEvent.call ++ (s.thread a.thread).returnTo (r.1.thread a.thread)) =
          some (r.1.thread a.thread).place := by
  cases ho with
  | ignored h =>
    refine ⟨[], .nil rfl rfl, ?_⟩
    cases hst : s.thread a.thread <;> rfl
  | refused ht =>
    refine ⟨[], .nil rfl rfl, ?_⟩
    simp only [Act.thread, Threads.setThread_thread, ht]
    rfl
  | served ht =>
    refine ⟨[], .nil rfl rfl, ?_⟩
    simp only [Act.thread, Threads.setThread_thread, ht]
    rfl
  | began ht =>
    refine ⟨[.suspendEE .suspendForGc], ⟨rfl, rfl⟩, ?_⟩
    simp only [Act.thread, Threads.setThread_thread, ht]
    rfl
  | scanned ht =>
    refine ⟨[.gcScanRoots 0 0], ⟨rfl, rfl⟩, ?_⟩
    simp only [Act.thread, Threads.setThread_thread, ht]
    rfl
  | restarted ht =>
    refine ⟨[.restartEE true], ⟨rfl, rfl⟩, ?_⟩
    simp only [Act.thread, Threads.setThread_thread, ht]
    rfl
  | full hat =>
    refine ⟨[], .nil hat.upcalls hat.gcToCLR, ?_⟩
    rw [hat.thread_eq, Threads.setThread_thread]
    exact hat.follow_managed 0
  | first hat hnil =>
    have hcalls := hat.grown_calls hi
    rw [if_pos hnil] at hcalls
    refine ⟨_, hcalls, ?_⟩
    rw [hat.thread_eq, Threads.setThread_thread]
    rcases hat.place_cases with ⟨hp, last, ht⟩ | ⟨hp, ht⟩
    · rw [hp, ht]
      rfl
    · rw [hp, ht]
      rfl
  | carved hat hne count hs' =>
    have hcalls := hat.grown_calls hi
    rw [if_neg hne] at hcalls
    subst hs'
    refine ⟨[], hcalls, ?_⟩
    rw [hat.thread_eq]
    simp only [Threads.enter, Threads.setThread_thread]
    exact hat.follow_managed _
  | entered ht =>
    refine ⟨[], .nil rfl rfl, ?_⟩
    simp only [Act.thread, Threads.enter, Threads.setThread_thread, ht]
    rfl
  | bumped ht =>
    refine ⟨[], .nil rfl rfl, ?_⟩
    simp only [Act.thread, Threads.handOut_thread, ht]
    rfl

/-! ## Every thread follows the protocol -/

theorem Heap.Calls.trans {h h' h'' : Heap} {w w' : List EeCall} (hc : h.Calls h' w)
    (hc' : h'.Calls h'' w') : h.Calls h'' (w ++ w') := by
  refine ⟨?_, hc'.2.trans hc.2⟩
  rw [hc'.1, hc.1, hc.2, List.map_append, List.append_assoc]

omit [DecidableEq T] [DecidableEq C] in
theorem tracedCalls_append (trace : List (T × ThreadEvent)) (t : T) (w : List EeCall)
    (st st' : ThreadState C) :
    tracedCalls (trace ++ (w.map ThreadEvent.call ++ st.returnTo st').map (Prod.mk t)) =
      tracedCalls trace ++ w := by
  have hcalls : tracedCalls ((w.map ThreadEvent.call).map (Prod.mk t)) = w := by
    rw [tracedCalls, List.filterMap_map, List.filterMap_map]
    exact List.filterMap_some
  have hreturned : tracedCalls ((st.returnTo st').map (Prod.mk t)) = [] := by
    cases st <;> cases st' <;> rfl
  rw [List.map_append, ← List.append_assoc, tracedCalls, List.filterMap_append,
    List.filterMap_append]
  show tracedCalls trace ++ tracedCalls _ ++ tracedCalls _ = _
  rw [hcalls, hreturned, List.append_nil]

structure ProtocolInv (h : Heap) (r : Threads T C × List (T × ThreadEvent)) : Prop where
  heap : HeapInv r.1.world.heap
  conform : Conform protocolStep .idle r.2 fun t => (r.1.thread t).place
  calls : h.Calls r.1.world.heap (tracedCalls r.2)

theorem ProtocolInv.step {owner : C → T} {h : Heap} {r : Threads T C × List (T × ThreadEvent)}
    (hi : ProtocolInv h r) (a : Act T C) : ProtocolInv h ((eventMachine owner).next r a) := by
  have ho : ActOutcome owner r.1 a (r.1.step owner a) := act_outcome hi.heap a
  obtain ⟨w, hcalls, hfollow⟩ := ho.events hi.heap
  have hnext : (eventMachine owner).next r a = ((r.1.step owner a).1, r.2 ++
      (w.map ThreadEvent.call ++ (r.1.thread a.thread).returnTo
        ((r.1.step owner a).1.thread a.thread)).map (Prod.mk a.thread)) := by
    simp only [Mealy.next, eventMachine, hcalls.callsTo]
  rw [hnext]
  refine ⟨ho.heapInv hi.heap, ?_, ?_⟩
  · exact hi.conform.move hfollow fun t ht => congrArg _ (ho.other_thread ht)
  · rw [tracedCalls_append]
    exact hi.calls.trans hcalls

/-- In every order the threads can run in, the calls that each of them makes into the EE follow the
protocol and have led it to where it is, and the EE has seen these calls and no others. -/
theorem upcalls_follow_protocol (owner : C → T) {h : Heap} (hb : Booted h)
    (acts : List (Act T C)) :
    let r := (eventMachine owner).run (.start h, []) acts
    (∀ t, follow protocolStep .idle (wordOf r.2 t) = some (r.1.thread t).place) ∧
      r.1.world.heap.upcalls = h.upcalls ++ (tracedCalls r.2).map (Upcall.mk h.gcToCLR) := by
  intro r
  have hstart : ProtocolInv h ((.start h, []) : Threads T C × List (T × ThreadEvent)) :=
    ⟨hb.fresh.heapInv, .nil _ _, .nil rfl rfl⟩
  have hi : ProtocolInv h r :=
    (eventMachine owner).run_inv (fun _ a hi => hi.step a) hstart acts
  exact ⟨hi.conform, hi.calls.1⟩

/-- Both threads are in a collection, and the first one comes to the end of its own. -/
def overlapping : List (Act Bool Bool) :=
  [.alloc true (some true) 1000 0, .resume true, .alloc false (some false) 24 0,
    .alloc true (some true) 1048000 0, .alloc false (some false) 1048550 0, .resume true,
    .resume true]

theorem overlapping_follows_protocol :
    let r := (eventMachine id).run (.start (.bootedAt 0x7f0000000000), []) overlapping
    follow protocolStep .idle (wordOf r.2 true) = some .restarting ∧
      follow protocolStep .idle (wordOf r.2 false) = some .suspending := by
  have hrun := (upcalls_follow_protocol id booted_high overlapping).1
  exact ⟨(hrun true).trans (by decide), (hrun false).trans (by decide)⟩

/-! ## What the write barrier is told, and by whom -/

/-- The two calls of the barrier, over the tables of `h`. -/
def Heap.barrierCall (h : Heap) (operation : WriteBarrierOp) (highest : W) :
    WriteBarrierParameters :=
  ⟨operation, false, false, h.gcCardTable, h.gcCardBundleTable, h.heapArena, highest⟩

/-- What the barrier has been told: the empty range, and with the first segment that one's range.
A thread that is telling it so has carved that segment, and is the only one. -/
structure StompInv (s : Threads T C) : Prop where
  heap : HeapInv s.world.heap
  stomps : s.world.heap.stomps =
    s.world.heap.barrierCall .initializeBarrier s.world.heap.heapArena ::
      if s.world.heap.segments = [] then []
      else [s.world.heap.barrierCall .stompResize (s.world.heap.heapArena + growthSize)]
  stomping : ∀ t c size S, s.thread t = .inAlloc c size (.stompWriteBarrier S) →
    S = s.world.heap.heapArena ∧ s.world.heap.segments ≠ []
  unique : ∀ t t', (s.thread t).place = .stomping → (s.thread t').place = .stomping → t = t'

omit [DecidableEq C] in
theorem ThreadState.place_eq_stomping {st : ThreadState C} :
    st.place = .stomping ↔ ∃ c size S, st = .inAlloc c size (.stompWriteBarrier S) := by
  constructor
  · intro h
    cases st with
    | managed => cases h
    | inAlloc c size stage =>
      cases stage with
      | stompWriteBarrier S => exact ⟨c, size, S, rfl⟩
      | _ => cases h
  · rintro ⟨c, size, S, rfl⟩
    rfl

theorem SetupKept.setGcInProgress (h : Heap) (b : Bool) :
    SetupKept h { h with gcInProgress := b } := { SetupKept.refl h with }

omit [DecidableEq T] [DecidableEq C] in
theorem AtBoundsCheck.setupKept {owner : C → T} {s : Threads T C} {a : Act T C} {t : T} {c : C}
    {size : W} {h : Heap} (hat : AtBoundsCheck owner s a t c size h) :
    SetupKept s.world.heap h := by
  rcases hat.heap_cases with rfl | rfl
  · exact .refl _
  · exact .setGcInProgress _ false

theorem ActOutcome.setupKept {owner : C → T} {s : Threads T C} {a : Act T C}
    {r : Threads T C × Ledger C} (ho : ActOutcome owner s a r) :
    SetupKept s.world.heap r.1.world.heap := by
  cases ho with
  | ignored => exact .refl _
  | refused => exact .refl _
  | served => exact .refl _
  | began => exact (SetupKept.setGcInProgress _ true).trans (.upcall _ _ fun _ hs => by cases hs)
  | scanned => exact .upcall _ _ fun _ hs => by cases hs
  | restarted => exact .upcall _ _ fun _ hs => by cases hs
  | full hat => exact hat.setupKept
  | first hat => exact hat.setupKept.trans (.grown _)
  | carved hat _ _ hs' =>
    subst hs'
    exact hat.setupKept.trans (.grown _)
  | entered => exact .refl _
  | bumped => exact .refl _

theorem Heap.Calls.stomps {h h' : Heap} {w : List EeCall} (hc : h.Calls h' w) :
    h'.stomps = h.stomps ++ (w.map (Upcall.mk h.gcToCLR)).filterMap Upcall.stompArgs := by
  rw [Heap.stomps, hc.1, List.filterMap_append, Heap.stomps]

theorem Heap.stomps_congr {h h' : Heap} (hu : h'.upcalls = h.upcalls) : h'.stomps = h.stomps := by
  rw [Heap.stomps, hu, Heap.stomps]

/-- With no segment yet, growing tells the barrier the range of the first one. -/
theorem HeapInv.grown_first {h : Heap} (hi : HeapInv h) (hnil : h.segments = []) :
    h.arenaNext = h.heapArena ∧
      h.grown.barrierArgs .stompResize = h.barrierCall .stompResize (h.heapArena + growthSize) := by
  have hnext : h.arenaNext = h.heapArena := by
    apply BitVec.eq_of_toNat_eq
    rw [hi.arenaNext, hnil]
    simp
  refine ⟨hnext, ?_⟩
  rw [Heap.grown, publishSegment, if_pos (hi.isFirstSegment_iff.mpr hnil)]
  simp only [Heap.barrierArgs, Heap.barrierCall, Heap.upcall, Heap.carved, hi.lowest, hnext]

namespace StompInv

variable {owner : C → T} {s s' : Threads T C}

omit [DecidableEq T] [DecidableEq C] in
/-- A step that tells the barrier nothing, and after which no further thread is telling it. -/
theorem keep (hi : StompInv s) (hh : HeapInv s'.world.heap)
    (hkept : SetupKept s.world.heap s'.world.heap)
    (hstomps : s'.world.heap.stomps = s.world.heap.stomps)
    (hsegs : s'.world.heap.segments = [] ↔ s.world.heap.segments = [])
    (hthreads : ∀ t c size S, s'.thread t = .inAlloc c size (.stompWriteBarrier S) →
      s.thread t = .inAlloc c size (.stompWriteBarrier S)) : StompInv s' := by
  have hcall : ∀ op highest,
      s'.world.heap.barrierCall op highest = s.world.heap.barrierCall op highest := by
    intro op highest
    rw [Heap.barrierCall, hkept.cardTable, hkept.cardBundleTable, hkept.heapArena, Heap.barrierCall]
  have hplace : ∀ t, (s'.thread t).place = .stomping → (s.thread t).place = .stomping := by
    intro t ht
    obtain ⟨c, size, S, hst⟩ := ThreadState.place_eq_stomping.mp ht
    exact ThreadState.place_eq_stomping.mpr ⟨c, size, S, hthreads t c size S hst⟩
  refine ⟨hh, ?_, fun t c size S ht => ?_, fun t t' ht ht' => hi.unique t t' (hplace t ht)
    (hplace t' ht')⟩
  · rw [hstomps, hi.stomps, hcall, hcall, hkept.heapArena]
    simp only [hsegs]
  · obtain ⟨hS, hne⟩ := hi.stomping t c size S (hthreads t c size S ht)
    exact ⟨hS.trans hkept.heapArena.symm, fun h0 => hne (hsegs.mp h0)⟩

section

omit [DecidableEq C]

/-- A step that leaves thread `t` somewhere else than inside `StompWriteBarrier`. -/
theorem keep_thread (hi : StompInv s) (hh : HeapInv s'.world.heap)
    (hkept : SetupKept s.world.heap s'.world.heap)
    (hstomps : s'.world.heap.stomps = s.world.heap.stomps)
    (hsegs : s'.world.heap.segments = [] ↔ s.world.heap.segments = []) {t : T}
    (hother : ∀ t' ≠ t, s'.thread t' = s.thread t')
    (ht : ∀ c size S, s'.thread t ≠ .inAlloc c size (.stompWriteBarrier S)) : StompInv s' := by
  refine hi.keep hh hkept hstomps hsegs fun t' c size S ht' => ?_
  by_cases htt : t' = t
  · subst htt
    exact absurd ht' (ht c size S)
  · rw [← hother t' htt]
    exact ht'

theorem first (hi : StompInv s) {a : Act T C} {t : T} {c : C} {size : W} {h : Heap}
    (hat : AtBoundsCheck owner s a t c size h) (hnil : s.world.heap.segments = []) :
    StompInv ((s.setHeap h.grown).setThread t
      (.inAlloc c size (.stompWriteBarrier h.arenaNext))) := by
  have hh := hat.heapInv hi.heap
  have hnil' := hat.segments.trans hnil
  have hlen : h.segments.length < arenaSegments := by
    rw [hnil', arenaSegments_eq]
    decide
  obtain ⟨hnext, hargs⟩ := hh.grown_first hnil'
  have hcalls := hat.grown_calls hi.heap
  rw [if_pos hnil] at hcalls
  have hkept : SetupKept s.world.heap h.grown := hat.setupKept.trans (.grown h)
  have hne : h.grown.segments ≠ [] := by
    rw [Heap.grown_segments]
    simp
  -- no thread was telling the barrier anything, for there was no segment
  have hnone : ∀ t', (s.thread t').place ≠ .stomping := by
    intro t' ht'
    obtain ⟨c', size', S, hst⟩ := ThreadState.place_eq_stomping.mp ht'
    exact (hi.stomping t' c' size' S hst).2 hnil
  have hself : ∀ t', ((s.setHeap h.grown).setThread t
      (.inAlloc c size (.stompWriteBarrier h.arenaNext)) : Threads T C).thread t' ≠ s.thread t' →
      t' = t := by
    intro t' ht'
    by_contra hne'
    exact ht' (Threads.setThread_of_ne _ _ hne')
  refine ⟨hh.publish hlen, ?_, fun t' c' size' S ht' => ?_, fun t₁ t₂ h₁ h₂ => ?_⟩
  · show h.grown.stomps = h.grown.barrierCall .initializeBarrier h.grown.heapArena ::
      if h.grown.segments = [] then []
      else [h.grown.barrierCall .stompResize (h.grown.heapArena + growthSize)]
    have hcall : ∀ op highest,
        h.grown.barrierCall op highest = s.world.heap.barrierCall op highest := by
      intro op highest
      rw [Heap.barrierCall, hkept.cardTable, hkept.cardBundleTable, hkept.heapArena,
        Heap.barrierCall]
    have hcall' : h.barrierCall .stompResize (h.heapArena + growthSize) =
        s.world.heap.barrierCall .stompResize (s.world.heap.heapArena + growthSize) := by
      have hk := hat.setupKept
      rw [Heap.barrierCall, hk.cardTable, hk.cardBundleTable, hk.heapArena, Heap.barrierCall]
    rw [hcalls.stomps, hi.stomps, if_pos hnil, if_neg hne, hcall, hcall, hkept.heapArena, hargs,
      hcall']
    rfl
  · by_cases htt : t' = t
    · subst htt
      rw [Threads.setThread_thread] at ht'
      cases ht'
      exact ⟨hnext.trans h.grown_heapArena.symm, hne⟩
    · rw [Threads.setThread_of_ne _ _ htt] at ht'
      exact absurd (ThreadState.place_eq_stomping.mpr ⟨c', size', S, ht'⟩) (hnone t')
  · have h₁' := hself t₁ fun he => hnone t₁ (he ▸ h₁)
    have h₂' := hself t₂ fun he => hnone t₂ (he ▸ h₂)
    rw [h₁', h₂']

end

theorem step (hi : StompInv s) {a : Act T C} {r : Threads T C × Ledger C}
    (ho : ActOutcome owner s a r) : StompInv r.1 := by
  have hh := ho.heapInv hi.heap
  have hkept := ho.setupKept
  have hother := fun t (ht : t ≠ a.thread) => ho.other_thread ht
  cases ho with
  | ignored => exact hi
  | refused | served =>
    refine hi.keep_thread hh hkept rfl Iff.rfl hother fun _ _ _ h => ?_
    rw [Act.thread, Threads.setThread_thread] at h
    cases h
  -- the calls of a collection are none of `StompWriteBarrier`
  | began | scanned | restarted =>
    refine hi.keep_thread hh hkept ?_ Iff.rfl hother fun _ _ _ h => ?_
    · exact (Heap.stomps_upcall _ _).trans (List.append_nil _)
    · rw [Act.thread, Threads.setThread_thread] at h
      cases h
  | full hat =>
    refine hi.keep_thread hh hkept (Heap.stomps_congr hat.upcalls) ?_ hother fun _ _ _ h => ?_
    · exact iff_of_eq (congrArg (· = []) hat.segments)
    · rw [hat.thread_eq, Threads.setThread_thread] at h
      cases h
  | first hat hnil => exact hi.first hat hnil
  | carved hat hne count hs' =>
    subst hs'
    have hcalls := hat.grown_calls hi.heap
    rw [if_neg hne] at hcalls
    refine hi.keep_thread hh hkept ?_ ?_ hother fun _ _ _ h => ?_
    · exact hcalls.stomps.trans (List.append_nil _)
    · exact iff_of_false (by simp [Threads.enter, Threads.setCtx, Heap.grown_segments]) hne
    · rw [hat.thread_eq, Threads.enter_thread] at h
      cases h
  | entered =>
    refine hi.keep_thread hh hkept rfl Iff.rfl hother fun _ _ _ h => ?_
    rw [Act.thread, Threads.enter_thread] at h
    cases h
  | bumped => exact hi.keep hh hkept rfl Iff.rfl fun _ _ _ _ h => h

end StompInv

omit [DecidableEq T] [DecidableEq C] in
theorem Fresh.stompInv {h : Heap} (hf : Fresh h) : StompInv (.start h : Threads T C) where
  heap := hf.heapInv
  stomps := by
    obtain ⟨clr, hup⟩ := hf.upcalls
    show h.stomps =
      h.barrierCall .initializeBarrier h.heapArena :: if h.segments = [] then [] else _
    rw [if_pos hf.segments, Heap.stomps, hup]
    simp only [Heap.barrierCall, Heap.barrierArgs, hf.lowest, hf.highest]
    rfl
  stomping t c size S h := by cases h
  unique t t' h := by cases h

/-- In every order the threads can run in, the barrier is told the empty range by `Initialize`, and
once more, with the first segment, the range of that segment. A thread inside that call has carved
the first segment, and it is the only one there. -/
theorem barrier_told_once (owner : C → T) {h : Heap} (hb : Booted h) (acts : List (Act T C)) :
    let s := (threadMachine owner).run (.start h) acts
    (s.world.heap.stomps = h.barrierCall .initializeBarrier h.heapArena ::
      if s.world.heap.segments = [] then []
      else [h.barrierCall .stompResize (h.heapArena + growthSize)]) ∧
    (∀ t c size S, s.thread t = .inAlloc c size (.stompWriteBarrier S) →
      S = h.heapArena ∧ s.world.heap.segments[0]? = some S) ∧
    ∀ t t', (s.thread t).place = .stomping → (s.thread t').place = .stomping → t = t' := by
  intro s
  obtain ⟨hi, hkept⟩ : StompInv s ∧ SetupKept h s.world.heap :=
    (threadMachine owner).run_inv (P := fun s => StompInv s ∧ SetupKept h s.world.heap)
      (fun s a hs => by
        have ho : ActOutcome owner s a (s.step owner a) := act_outcome hs.1.heap a
        exact ⟨hs.1.step ho, hs.2.trans ho.setupKept⟩)
      ⟨hb.fresh.stompInv, .refl h⟩ acts
  have hcall : ∀ op highest, s.world.heap.barrierCall op highest = h.barrierCall op highest := by
    intro op highest
    rw [Heap.barrierCall, hkept.cardTable, hkept.cardBundleTable, hkept.heapArena, Heap.barrierCall]
  refine ⟨?_, fun t c size S ht => ?_, hi.unique⟩
  · rw [hi.stomps, hcall, hcall, hkept.heapArena]
  · obtain ⟨rfl, hne⟩ := hi.stomping t c size S ht
    obtain ⟨S₀, rest, hsegs⟩ := List.exists_cons_of_ne_nil hne
    have hfirst : s.world.heap.segments[0]? = some S₀ := by rw [hsegs]; rfl
    have hat := hi.heap.segment_at 0 S₀ hfirst
    rw [Nat.zero_mul, Nat.add_zero] at hat
    exact ⟨hkept.heapArena, hfirst.trans (congrArg some (BitVec.eq_of_toNat_eq hat))⟩

theorem barrier_told_overlapping :
    let s := (threadMachine id).run (.start (.bootedAt 0x7f0000000000)) overlapping
    s.world.heap.stomps.getLast? =
      some ((Heap.bootedAt 0x7f0000000000).barrierCall .stompResize 0x7f0000100000) := by
  intro s
  have htold := (barrier_told_once id booted_high overlapping).1
  exact (congrArg List.getLast? htold).trans (by decide)

/-! ## `gcInProgress` -/

/-- The thread is inside one of the three calls of a collection. -/
def ThreadState.collecting (st : ThreadState C) : Bool :=
  st.place = .suspending ∨ st.place = .scanning ∨ st.place = .restarting

/-- The flag says whether some thread is in a collection. -/
def FlagAgrees (s : Threads T C) : Prop :=
  s.world.heap.gcInProgress = true ↔ ∃ t, (s.thread t).collecting = true

/-- With the action a collection ends while another one goes on. -/
def EndsOneOfTwo (s : Threads T C) (a : Act T C) : Prop :=
  ∃ t c size, a = .resume t ∧ s.thread t = .inAlloc c size .restartEE ∧
    ∃ t' ≠ t, (s.thread t').collecting = true

omit [DecidableEq T] [DecidableEq C] in
/-- A step that neither writes the flag nor moves its thread into or out of a collection. -/
theorem flagAgrees_congr {s s' : Threads T C}
    (hflag : s'.world.heap.gcInProgress = s.world.heap.gcInProgress)
    (hthreads : ∀ t, (s'.thread t).collecting = (s.thread t).collecting) :
    FlagAgrees s' ↔ FlagAgrees s := by
  simp only [FlagAgrees, hflag, hthreads]

omit [DecidableEq C] in
/-- The thread goes on from the bounds check, out of its collection if it was in one. -/
theorem AtBoundsCheck.flagAgrees_iff {owner : C → T} {s s' : Threads T C} {a : Act T C} {t : T}
    {c : C} {size : W} {h : Heap} (hat : AtBoundsCheck owner s a t c size h) (hs : FlagAgrees s)
    (hflag : s'.world.heap.gcInProgress = h.gcInProgress)
    (hother : ∀ t' ≠ t, s'.thread t' = s.thread t') (ht : (s'.thread t).collecting = false) :
    FlagAgrees s' ↔ ¬ EndsOneOfTwo s a := by
  cases hat with
  | unused hm =>
    have hthreads : ∀ t', (s'.thread t').collecting = (s.thread t').collecting := by
      intro t'
      by_cases htt : t' = t
      · subst htt
        rw [ht, hm]
        rfl
      · rw [hother t' htt]
    refine iff_of_true ((flagAgrees_congr hflag hthreads).mpr hs) ?_
    rintro ⟨t', c', size', ha, -⟩
    cases ha
  | collected hr =>
    have hoff : s'.world.heap.gcInProgress = false := hflag
    rw [FlagAgrees, hoff, Bool.false_eq_true, false_iff, not_iff_not]
    constructor
    · rintro ⟨t', ht'⟩
      have htt : t' ≠ t := by
        rintro rfl
        rw [ht] at ht'
        cases ht'
      exact ⟨t, c, size, rfl, hr, t', htt, hother t' htt ▸ ht'⟩
    · rintro ⟨t₁, c', size', ha, -, t', htt, ht'⟩
      cases ha
      exact ⟨t', (hother t' htt).symm ▸ ht'⟩

theorem ActOutcome.flagAgrees_iff {owner : C → T} {s : Threads T C} {a : Act T C}
    {r : Threads T C × Ledger C} (ho : ActOutcome owner s a r) (hs : FlagAgrees s) :
    FlagAgrees r.1 ↔ ¬ EndsOneOfTwo s a := by
  have hother := fun t (ht : t ≠ a.thread) => ho.other_thread ht
  -- an action other than the end of a collection, that moves its thread to a place like its own
  have hsame : (∀ t c size, a = .resume t → s.thread t ≠ .inAlloc c size .restartEE) →
      r.1.world.heap.gcInProgress = s.world.heap.gcInProgress →
      (r.1.thread a.thread).collecting = (s.thread a.thread).collecting →
      (FlagAgrees r.1 ↔ ¬ EndsOneOfTwo s a) := by
    intro hnot hflag hself
    refine iff_of_true ((flagAgrees_congr hflag fun t => ?_).mpr hs) ?_
    · by_cases ht : t = a.thread
      · rw [ht, hself]
      · rw [hother t ht]
    · rintro ⟨t, c, size, ha, ht, -⟩
      exact hnot t c size ha ht
  cases ho with
  | ignored h =>
    refine hsame ?_ rfl rfl
    rintro t c size rfl ht
    obtain ⟨last, hm⟩ := h
    rw [hm] at ht
    cases ht
  | refused ht =>
    refine hsame (by rintro _ _ _ ⟨⟩) rfl ?_
    simp only [Act.thread, Threads.setThread_thread, ht]
    rfl
  | served ht =>
    refine hsame (by rintro _ _ _ ⟨⟩) rfl ?_
    simp only [Act.thread, Threads.setThread_thread, ht]
    rfl
  | @began t c size flags last ht =>
    refine iff_of_true (iff_of_true rfl ⟨t, ?_⟩) (by rintro ⟨_, _, _, ⟨⟩, _⟩)
    rw [Threads.setThread_thread]
    rfl
  | scanned ht =>
    refine hsame ?_ rfl ?_
    · rintro _ _ _ ⟨⟩ ht'
      rw [ht] at ht'
      cases ht'
    · simp only [Act.thread, Threads.setThread_thread, ht]
      rfl
  | restarted ht =>
    refine hsame ?_ rfl ?_
    · rintro _ _ _ ⟨⟩ ht'
      rw [ht] at ht'
      cases ht'
    · simp only [Act.thread, Threads.setThread_thread, ht]
      rfl
  | full hat =>
    refine hat.flagAgrees_iff hs rfl (fun t' ht' => hother t' (hat.thread_eq.symm ▸ ht')) ?_
    rw [Threads.setThread_thread]
    rfl
  | first hat =>
    refine hat.flagAgrees_iff hs (Heap.grown_gcInProgress _)
      (fun t' ht' => hother t' (hat.thread_eq.symm ▸ ht')) ?_
    rw [Threads.setThread_thread]
    rfl
  | carved hat _ _ hs' =>
    subst hs'
    refine hat.flagAgrees_iff hs (Heap.grown_gcInProgress _)
      (fun t' ht' => hother t' (hat.thread_eq.symm ▸ ht')) ?_
    rw [Threads.enter_thread]
    rfl
  | entered ht =>
    refine hsame ?_ rfl ?_
    · rintro _ _ _ ⟨⟩ ht'
      rw [ht] at ht'
      cases ht'
    · simp only [Act.thread, Threads.enter_thread, ht]
      rfl
  | bumped => exact hsame (by rintro _ _ _ ⟨⟩) rfl rfl

/-- In a run of the threads `gcInProgress` says at every moment whether some thread is in a
collection, exactly if no collection ends while another one goes on. -/
theorem gcInProgress_iff (owner : C → T) {h : Heap} (hb : Booted h) (acts : List (Act T C)) :
    (threadMachine owner).Always FlagAgrees (.start h) acts ↔
      (threadMachine owner).EachStep (fun s a => ¬ EndsOneOfTwo s a) (.start h) acts := by
  have hstart : FlagAgrees (.start h : Threads T C) := by
    refine iff_of_false ?_ ?_
    · show ¬ h.gcInProgress = true
      rw [hb.fresh.gcInProgress]
      exact Bool.false_ne_true
    · rintro ⟨t, ht⟩
      cases ht
  refine (threadMachine owner).always_iff hstart fun p a _ hp => ?_
  exact (act_outcome (heapInv_run owner hb.fresh p) a).flagAgrees_iff hp

/-- The first collection ends inside the second, and takes the flag with it. -/
theorem gcInProgress_lost :
    ¬ (threadMachine id).Always FlagAgrees (.start (.bootedAt 0x7f0000000000))
      (overlapping ++ [.resume true]) := by
  rw [gcInProgress_iff id booted_high]
  intro hnever
  refine hnever overlapping (.resume true) (List.prefix_refl _) ?_
  exact ⟨true, true, 1048000, rfl, rfl, false, Bool.false_ne_true, by decide⟩

end

end MiniGC
