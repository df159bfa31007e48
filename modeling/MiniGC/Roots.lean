import MiniGC.Objects
import MiniGC.Process

/-!
# MiniGC.Roots

Where the roots come from that collections print. The collector takes the objects that the EE puts
into handles, or reports from its stacks, as they are. If the EE uses no others than those it was
given by `Alloc`, then all roots are among these.

* `ProcessCall.object`   the object that a call hands to the collector.
* `Ledger.Allocated`     null, or an object in a block handed out so far.
* `roots_are_objects`    if calls hand over allocated objects only, then handles hold and
  collections print allocated objects only, and `IsHeapPointer` is true of all of these.
-/

namespace MiniGC

open Parties

/-! ## Objects that the collector is given -/

/-- The object that a call may put into a handle. Secondaries are left out: no scan looks at
them. -/
def Op.object : Op → Option W
  | .createGlobalHandleOfType object _
  | .createHandleOfType object _
  | .createHandleOfTypeOn object _ _
  | .createHandleWithExtraInfo object _ _
  | .createDependentHandle object _
  | .storeObjectInHandle _ object
  | .storeObjectInHandleIfNull _ object
  | .interlockedCompareExchangeObjectInHandle _ object _ => some object
  | _ => none

section

variable {A : HandleArray} {m : HandleManager} {op : Op}

theorem Op.entry_object {e : Entry} (he : op.entry (m.table.contained A) = some e) :
    op.object = some e.object ∨
      ∃ j, j.val < m.table.handlesCount ∧ e.object = (m.table.entry j).object := by
  cases op
  case createDuplicateHandle handle =>
    obtain ⟨e', hsource, rfl⟩ := Option.map_eq_some_iff.mp he
    rcases contained_cases (A := A) (m := m) handle with ⟨-, hnone, -⟩ | ⟨-, j, hj, -, hsome⟩
    · rw [hnone] at hsource
      cases hsource
    · rw [hsome] at hsource
      cases hsource
      exact .inr ⟨j, (issuedIndex_eq_some.mp hj).2, rfl⟩
  all_goals first
    | (cases he; exact .inl rfl)
    | cases he

/-- What a handle holds after a call is null, was in a handle before, or is the call's object. -/
theorem HandleOutcome.object_from {r : HandleManager × Answer} (ho : HandleOutcome A m op r)
    {i : Fin maxHandles} (hi : i.val < r.1.table.handlesCount) :
    (r.1.table.entry i).object = 0 ∨ op.object = some (r.1.table.entry i).object ∨
      ∃ j, j.val < m.table.handlesCount ∧
        (r.1.table.entry i).object = (m.table.entry j).object := by
  cases ho with
  | created e _ room _ he =>
    simp only [HandleManager.setTable, HandleTable.push_entry] at hi ⊢
    split
    · exact .inr (Op.entry_object he)
    · rename_i hne
      exact .inr (.inr ⟨i, Nat.lt_of_le_of_ne (Nat.le_of_lt_succ hi) hne, rfl⟩)
  | updated a handle f j _ hop hu hj =>
    simp only [HandleManager.setTable, HandleTable.put_entry] at hi ⊢
    split
    · obtain rfl | ⟨v, rfl⟩ | ⟨v, rfl⟩ := Op.update_attribute hu hop
      · exact .inl rfl
      · exact .inr (.inr ⟨j, (issuedIndex_eq_some.mp hj).2, rfl⟩)
      · exact .inr (.inr ⟨j, (issuedIndex_eq_some.mp hj).2, rfl⟩)
    · exact .inr (.inr ⟨i, hi, rfl⟩)
  | stored a handle object j _ hop _ _ _ =>
    simp only [HandleManager.setTable, HandleTable.put_entry] at hi ⊢
    split
    · rcases hop with rfl | rfl <;> exact .inr (.inl rfl)
    · exact .inr (.inr ⟨i, hi, rfl⟩)
  | _ => exact .inr (.inr ⟨i, hi, rfl⟩)

end

section

variable {T C : Type}

/-- The object that a call hands to the collector. -/
def ProcessCall.object : ProcessCall T C → Option W
  | .handle op => op.object
  | .promote _ object _ => some object
  | _ => none

/-- Null, or an object in a block handed out so far. -/
def Ledger.Allocated (L : Ledger C) (object : W) : Prop :=
  object = 0 ∨ ∃ b ∈ L.objects, b.1 = object

theorem Ledger.objects_append (L L' : Ledger C) :
    (L.append L').objects = L.objects ++ L'.objects := by
  simp [objects, append]

theorem Ledger.Allocated.append {L : Ledger C} {object : W} (h : L.Allocated object)
    (L' : Ledger C) : (L.append L').Allocated object := by
  refine h.imp_right ?_
  rintro ⟨b, hb, hobject⟩
  exact ⟨b, by rw [L.objects_append]; exact List.mem_append_left _ hb, hobject⟩

variable [DecidableEq T] [DecidableEq C]

/-- The process next to the ledger of its allocations. -/
def allocationMachine (owner : C → T) (A : HandleArray) :
    Mealy (Process T C × Ledger C) (ProcessCall T C) (ProcessAnswer C) :=
  (processMachine owner A).observed fun L _ answer =>
    match answer with
    | .acted L' => L.append L'
    | _ => L

/-- The call hands over null or an allocated object, if it hands one over. -/
def HandsAllocated (r : Process T C × Ledger C) (call : ProcessCall T C) : Prop :=
  ∀ object, call.object = some object → r.2.Allocated object

structure RootsInv (owner : C → T) (r : Process T C × Ledger C) : Prop where
  blocks : Inv owner r.1.threads r.2
  held : ∀ i : Fin maxHandles, i.val < r.1.manager.table.handlesCount →
    r.2.Allocated (r.1.manager.table.entry i).object
  printed : ∀ t root, (t, .reachableRoot root) ∈ r.1.log → ∃ b ∈ r.2.objects, b.1 = root.object

namespace RootsInv

variable {owner : C → T} {A : HandleArray} {r : Process T C × Ledger C}

section

omit [DecidableEq T] [DecidableEq C]

theorem print (hi : RootsInv owner r) (t : T) {lines : List GcLog}
    (hlines : ∀ root, .reachableRoot root ∈ lines → ∃ b ∈ r.2.objects, b.1 = root.object) :
    RootsInv owner (r.1.print t lines, r.2) := by
  refine ⟨hi.blocks, hi.held, fun t' root hmem => ?_⟩
  rcases List.mem_append.mp hmem with hold | hnew
  · exact hi.printed t' root hold
  · obtain ⟨line, hline, heq⟩ := List.mem_map.mp hnew
    cases heq
    exact hlines root hline

theorem markReachableRoot_object {L : Ledger C} {mem : Memory} {object : W} {flags : BitVec 32}
    (h : L.Allocated object) {root : Root}
    (hroot : .reachableRoot root ∈ markReachableRoot mem object flags) :
    ∃ b ∈ L.objects, b.1 = root.object := by
  unfold markReachableRoot at hroot
  split at hroot
  · cases hroot
  · rename_i hne
    cases List.mem_singleton.mp hroot
    exact h.resolve_left hne

/-- A scan prints what the handles hold. -/
theorem handleLog_object (hi : RootsInv owner r) {root : Root}
    (hroot : .reachableRoot root ∈
      handleLog r.1.memory (r.1.manager.scanHandles A keepSlot).2) :
    ∃ b ∈ r.2.objects, b.1 = root.object := by
  obtain ⟨v, hv, hroot⟩ := List.mem_flatMap.mp hroot
  refine markReachableRoot_object ?_ hroot
  by_cases hstore : r.1.manager.store = true
  · rw [HandleManager.scanHandles_store hstore] at hv
    obtain ⟨i, hissued, hobject, -⟩ := (scanned A r.1.manager.table keepSlot).found v hv
    rw [hobject]
    exact hi.held i (issuedIndex_eq_some.mp hissued).2
  · rw [HandleManager.scanHandles_absent hstore] at hv
    cases hv

theorem returned (hi : RootsInv owner r) (t : T) (place : CallPlace) :
    RootsInv owner (r.1.returned A t place, r.2) := by
  cases place with
  | suspending => exact hi.print t fun root hroot => by simp at hroot
  | scanning =>
    have hkeep : r.1.returned A t .scanning = r.1.print t
        (.scanHandlesRoots :: handleLog r.1.memory (r.1.manager.scanHandles A keepSlot).2) := by
      simp only [Process.returned, scanHandles_keep]
    rw [hkeep]
    refine hi.print t fun root hroot => ?_
    rcases List.mem_cons.mp hroot with heq | hroot
    · cases heq
    · exact hi.handleLog_object hroot
  | _ => exact hi

/-- The threads move on, and what they hand out is added. -/
theorem append {L : Ledger C} (hi : RootsInv owner r) {threads : Threads T C}
    (hblocks : Inv owner threads (r.2.append L)) :
    RootsInv owner ({ r.1 with threads := threads }, r.2.append L) := by
  refine ⟨hblocks, fun i hlt => (hi.held i hlt).append L, fun t root hmem => ?_⟩
  obtain ⟨b, hb, hobject⟩ := hi.printed t root hmem
  refine ⟨b, ?_, hobject⟩
  rw [Ledger.objects_append]
  exact List.mem_append_left _ hb

end

theorem act (hi : RootsInv owner r) (a : Act T C) :
    RootsInv owner ((allocationMachine owner A).next r (.act a)) := by
  have hblocks := hi.blocks.step a
  cases a with
  | resume t => exact (hi.returned t _).append hblocks
  | alloc t c size flags => exact hi.append hblocks
  | bump t c n => exact hi.append hblocks

theorem promote (hi : RootsInv owner r) {t : T} {object : W} {flags : BitVec 32}
    (hobject : r.2.Allocated object) :
    RootsInv owner ((allocationMachine owner A).next r (.promote t object flags)) := by
  by_cases hp : (r.1.threads.thread t).place = .scanning
  · have hnext : (allocationMachine owner A).next r (.promote t object flags) =
        (r.1.print t (markReachableRoot r.1.memory object flags), r.2) := by
      simp only [allocationMachine, Mealy.observed, Mealy.next, Mealy.answer, processMachine,
        Process.step, if_pos hp]
    rw [hnext]
    exact hi.print t fun root hroot => markReachableRoot_object hobject hroot
  · have hnext : (allocationMachine owner A).next r (.promote t object flags) = r := by
      simp only [allocationMachine, Mealy.observed, Mealy.next, Mealy.answer, processMachine,
        Process.step, if_neg hp]
    rw [hnext]
    exact hi

theorem handle (hi : RootsInv owner r) {op : Op}
    (hop : ∀ object, op.object = some object → r.2.Allocated object) :
    RootsInv owner ((allocationMachine owner A).next r (.handle op)) := by
  have hnext : (allocationMachine owner A).next r (.handle op) =
      ({ r.1 with manager := (handleStep A r.1.manager op).1 }, r.2) := rfl
  rw [hnext]
  refine ⟨hi.blocks, fun i hlt => ?_, hi.printed⟩
  dsimp only at hlt ⊢
  rcases (handleStep_outcome A r.1.manager op).object_from hlt with hnull | hgiven | ⟨j, hj, heq⟩
  · exact .inl hnull
  · exact hop _ hgiven
  · rw [heq]
    exact hi.held j hj

theorem step (hi : RootsInv owner r) {call : ProcessCall T C} (hcall : HandsAllocated r call) :
    RootsInv owner ((allocationMachine owner A).next r call) := by
  cases call with
  | act a => exact hi.act a
  | promote t object flags => exact hi.promote (hcall object rfl)
  | handle op => exact hi.handle hcall
  | frozen call => exact ⟨hi.blocks, hi.held, hi.printed⟩
  | mutate memory => exact ⟨hi.blocks, hi.held, hi.printed⟩

end RootsInv

omit [DecidableEq T] [DecidableEq C] in
theorem Inv.object_pointer {owner : C → T} {s : Threads T C} {L : Ledger C} (hi : Inv owner s L)
    {b : W × W} (hb : b ∈ L.objects) (smallHeapOnly : Bool) :
    isHeapPointer s.world.heap b.1 smallHeapOnly = true := by
  obtain ⟨S, hS, hstart, hend⟩ := hi.object_segment hb
  have hsize := (hi.object_block hb).size
  rw [isHeapPointer_eq, searchSegments_eq_true]
  exact ⟨S, hS, (hi.heap.mem_segment_iff hS).mpr (by omega)⟩

/-- In every order of calls, if the EE puts into handles and reports from its stacks only null and
objects that it has been given before, then every handle holds null or such an object, every root
that a collection prints is such an object, and `IsHeapPointer` is true of all of these. -/
theorem roots_are_objects (owner : C → T) (A : HandleArray) {h : Heap} (hb : Booted h)
    (mem : Memory) {calls : List (ProcessCall T C)}
    (hcalls : (allocationMachine owner A).EachStep HandsAllocated (.start h mem, .empty) calls) :
    let r := (allocationMachine owner A).run (.start h mem, .empty) calls
    (∀ handle, r.2.Allocated (getObject A r.1.manager.table handle)) ∧
      (∀ t root, (t, .reachableRoot root) ∈ r.1.log → ∃ b ∈ r.2.objects, b.1 = root.object) ∧
      ∀ b ∈ r.2.objects, ∀ smallHeapOnly,
        isHeapPointer r.1.threads.world.heap b.1 smallHeapOnly = true := by
  intro r
  have hstart : RootsInv owner ((.start h mem, .empty) : Process T C × Ledger C) :=
    ⟨hb.fresh.inv owner, fun i hlt => absurd hlt (Nat.not_lt_zero _), fun _ _ hmem => by cases hmem⟩
  have hi : RootsInv owner r :=
    (allocationMachine owner A).run_inv_of_eachStep (fun _ _ hi hcall => hi.step hcall) hstart
      hcalls
  refine ⟨fun handle => ?_, hi.printed, fun b hb => hi.blocks.object_pointer hb⟩
  cases hissued : issuedIndex A r.1.manager.table handle with
  | none => exact .inl (getObject_unissued hissued)
  | some i =>
    rw [getObject_issued hissued]
    exact hi.held i (issuedIndex_eq_some.mp hissued).2

/-- Two objects, one in a handle and one on a stack when a collection runs. -/
def twoRoots : List (ProcessCall Bool Bool) :=
  [.act (.alloc true (some true) 24 0), .act (.resume true), .handle .initializeManager,
    .handle (.createGlobalHandleOfType 0x7f0000000018 .hndtypeStrong),
    .act (.alloc true (some true) 48 0), .act (.alloc true (some true) 1048552 0),
    .act (.resume true), .promote true 0x7f0000000030 0, .act (.resume true)]

theorem roots_are_objects_collected :
    let r := (allocationMachine id .usual).run
      (.start (.bootedAt 0x7f0000000000) fun _ => 0, .empty) twoRoots
    wordOf r.1.log true = [.scanStackRoots, .reachableRoot ⟨0x7f0000000030, 0, 0⟩,
        .scanHandlesRoots, .reachableRoot ⟨0x7f0000000018, 0, 0⟩] ∧
      isHeapPointer r.1.threads.world.heap 0x7f0000000030 true = true ∧
      isHeapPointer r.1.threads.world.heap 0x7f0000000018 true = true := by
  have hcalls : (allocationMachine id .usual).EachStep HandsAllocated
      (.start (.bootedAt 0x7f0000000000) fun _ => 0, .empty) twoRoots := by
    simp only [twoRoots, Mealy.eachStep_cons]
    refine ⟨nofun, nofun, nofun, ?_, nofun, nofun, nofun, ?_, nofun, Mealy.eachStep_nil _ _ _⟩
    · rintro _ ⟨⟩
      exact .inr ⟨(0x7f0000000018, 24), by decide, rfl⟩
    · rintro _ ⟨⟩
      exact .inr ⟨(0x7f0000000030, 48), by decide, rfl⟩
  obtain ⟨-, hprinted, hheap⟩ :=
    roots_are_objects id .usual booted_high (fun _ => 0) hcalls
  obtain ⟨b, hb, hstack⟩ := hprinted true ⟨0x7f0000000030, 0, 0⟩ (by decide)
  obtain ⟨b', hb', hhandle⟩ := hprinted true ⟨0x7f0000000018, 0, 0⟩ (by decide)
  dsimp only at hstack hhandle
  exact ⟨by decide, hstack ▸ hheap b hb true, hhandle ▸ hheap b' hb' true⟩

end

end MiniGC
