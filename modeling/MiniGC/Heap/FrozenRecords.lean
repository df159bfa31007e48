import MiniGC.Heap.Frozen

/-!
# MiniGC.Heap.FrozenRecords

The records behind the handles of frozen segments, over legal runs.

* `recordOf`        what the calls that concern one handle make of its record.
* `frozen_records`  every record is that, whatever was called on other handles in between; and a
  record is there exactly while its handle is in the table, so none leaks and none dangles.
-/

namespace MiniGC

/-- The handle that the call returned, or was given. -/
def FrozenCall.handle : FrozenCall → W → W
  | .register _ _, answer => answer
  | .unregister seg, _ => seg
  | .update seg _ _, _ => seg

/-- `UpdateFrozenSegment` on a record: a null pointer stands for no change. -/
def FrozenSegmentRecord.update (rec : FrozenSegmentRecord) (allocated committed : W) :
    FrozenSegmentRecord where
  base := rec.base
  allocated := if allocated ≠ 0 then allocated else rec.allocated
  committed := if committed ≠ 0 then committed else rec.committed
  reserved := rec.reserved

/-- What a call on a handle makes of its record. -/
def nextRecord : Option FrozenSegmentRecord → FrozenCall → Option FrozenSegmentRecord
  | old, .register pseginfo _ => (pseginfo.map SegmentInfo.toRecord).or old
  | _, .unregister _ => none
  | old, .update _ allocated committed => old.map fun rec => rec.update allocated committed

/-- The record of a handle, by the calls of a trace that concern it. -/
def recordOf (trace : List (FrozenCall × W)) (handle : W) : Option FrozenSegmentRecord :=
  ((trace.filter fun x => x.1.handle x.2 = handle).map Prod.fst).foldl nextRecord none

theorem recordOf_self (trace : List (FrozenCall × W)) (call : FrozenCall) (answer handle : W)
    (h : call.handle answer = handle) :
    recordOf (trace ++ [(call, answer)]) handle = nextRecord (recordOf trace handle) call := by
  simp [recordOf, h]

theorem recordOf_other (trace : List (FrozenCall × W)) (call : FrozenCall) (answer : W) {handle : W}
    (h : call.handle answer ≠ handle) :
    recordOf (trace ++ [(call, answer)]) handle = recordOf trace handle := by
  simp [recordOf, h]

section

variable {t : FrozenTable} {S : Multiset Registration} {trace : List (FrozenCall × W)}

structure RecordsKept (t : FrozenTable) (S : Multiset Registration)
    (trace : List (FrozenCall × W)) : Prop where
  refines : FrozenRefines t S
  records : ∀ handle ≠ 0, t.records handle = recordOf trace handle
  present : ∀ handle, (t.records handle).isSome = true ↔ handle ∈ t.frozenSegments

namespace RecordsKept

theorem processStart : RecordsKept .processStart 0 [] :=
  ⟨.processStart, fun _ _ => rfl, fun _ => iff_of_false Bool.false_ne_true List.not_mem_nil⟩

theorem register (hk : RecordsKept t S trace) (pseginfo : Option SegmentInfo) {rec : W}
    (hlegal : (FrozenCall.register pseginfo rec).Legal S) :
    let r := registerFrozenSegment t pseginfo rec
    RecordsKept r.1 (Registration.record S (.register pseginfo rec) r.2)
      (trace ++ [(.register pseginfo rec, r.2)]) := by
  intro r
  have hrefines := hk.refines.register pseginfo hlegal.1 hlegal.2
  rcases register_cases t pseginfo rec with ⟨he, -⟩ | ⟨info, rfl, -, -, he⟩
  · have hr : r = (t, 0) := he
    rw [he] at hrefines
    rw [hr]
    refine ⟨hrefines, fun handle hne => ?_, hk.present⟩
    rw [recordOf_other trace (.register pseginfo rec) 0 hne.symm]
    exact hk.records handle hne
  · have hr : r = (⟨t.frozenSegments ++ [rec],
      Function.update t.records rec (some info.toRecord)⟩, rec) := he
    rw [he] at hrefines
    rw [hr]
    refine ⟨hrefines, fun handle hne => ?_, fun handle => ?_⟩
    · by_cases hh : handle = rec
      · subst hh
        rw [recordOf_self trace (.register (some info) handle) handle handle rfl]
        exact Function.update_self _ _ _
      · rw [recordOf_other trace (.register (some info) rec) rec (Ne.symm hh)]
        exact (Function.update_of_ne hh _ _).trans (hk.records handle hne)
    · by_cases hh : handle = rec
      · subst hh
        simp
      · simp [hh, hk.present handle]

theorem unregister (hk : RecordsKept t S trace) {seg : W}
    (hlegal : (FrozenCall.unregister seg).Legal S) :
    RecordsKept (unregisterFrozenSegment t seg) (Registration.record S (.unregister seg) 0)
      (trace ++ [(.unregister seg, 0)]) := by
  refine ⟨hk.refines.step hlegal, fun handle hne => ?_, fun handle => ?_⟩
  · rw [unregisterFrozenSegment]
    split
    · rename_i h0
      rw [recordOf_other trace (.unregister seg) 0 fun h => hne (h.symm.trans h0)]
      exact hk.records handle hne
    · by_cases hh : handle = seg
      · subst hh
        rw [recordOf_self trace (.unregister handle) 0 handle rfl]
        exact Function.update_self _ _ _
      · rw [recordOf_other trace (.unregister seg) 0 (Ne.symm hh)]
        exact (Function.update_of_ne hh _ _).trans (hk.records handle hne)
  · rw [unregisterFrozenSegment]
    split
    · exact hk.present handle
    · rename_i h0
      obtain ⟨x, hx, rfl⟩ := hlegal.resolve_left h0
      have hperm := List.cons_swapRemove_perm (hk.refines.mem_iff.mpr ⟨x, hx, rfl⟩)
      have hgone := (List.nodup_cons.mp (hperm.nodup_iff.mpr hk.refines.nodup)).1
      by_cases hh : handle = x.handle
      · subst hh
        simpa using hgone
      · have hmem : handle ∈ t.frozenSegments.swapRemove x.handle ↔ handle ∈ t.frozenSegments := by
          rw [← hperm.mem_iff, List.mem_cons]
          simp [hh]
        simp only [Function.update_of_ne hh]
        exact (hk.present handle).trans hmem.symm

theorem update (hk : RecordsKept t S trace) {seg : W} (allocated committed : W)
    (hlegal : (FrozenCall.update seg allocated committed).Legal S) :
    RecordsKept (updateFrozenSegment t seg allocated committed) S
      (trace ++ [(.update seg allocated committed, 0)]) := by
  by_cases h0 : seg = 0
  · have hsame : updateFrozenSegment t seg allocated committed = t := if_pos h0
    refine ⟨hk.refines.update seg allocated committed, fun handle hne => ?_, ?_⟩
    · rw [hsame, recordOf_other trace (.update seg allocated committed) 0
        fun h => hne (h.symm.trans h0)]
      exact hk.records handle hne
    · rw [hsame]
      exact hk.present
  · obtain ⟨x, hx, rfl⟩ := hlegal.resolve_left h0
    obtain ⟨old, hold, -⟩ := hk.refines.records x hx
    have hnew : updateFrozenSegment t x.handle allocated committed =
        { t with records :=
            Function.update t.records x.handle (some (old.update allocated committed)) } := by
      simp only [updateFrozenSegment, if_neg h0, hold]
      rfl
    refine ⟨hk.refines.update x.handle allocated committed, fun handle hne => ?_,
      fun handle => ?_⟩
    · rw [hnew]
      by_cases hh : handle = x.handle
      · subst hh
        rw [recordOf_self trace (.update x.handle allocated committed) 0 x.handle rfl,
          ← hk.records _ hne, nextRecord, hold]
        exact Function.update_self _ _ _
      · rw [recordOf_other trace (.update x.handle allocated committed) 0 (Ne.symm hh)]
        exact (Function.update_of_ne hh _ _).trans (hk.records handle hne)
    · rw [hnew, ← hk.present handle]
      by_cases hh : handle = x.handle
      · subst hh
        simp [hold]
      · simp [Function.update_of_ne hh]

theorem step (hk : RecordsKept t S trace) {call : FrozenCall} (hlegal : call.Legal S) :
    RecordsKept (frozenMachine.next t call)
      (Registration.record S call (frozenMachine.answer t call))
      (trace ++ [(call, frozenMachine.answer t call)]) := by
  cases call with
  | register pseginfo rec => exact hk.register pseginfo hlegal
  | unregister seg => exact hk.unregister hlegal
  | update seg allocated committed => exact hk.update allocated committed hlegal

end RecordsKept

theorem recordsKept_run {calls : List FrozenCall}
    (hlegal : registryMachine.EachStep (fun r call => call.Legal r.2) (.processStart, 0) calls) :
    let r := registryMachine.run (.processStart, 0) calls
    RecordsKept r.1 r.2 (registryMachine.trace (.processStart, 0) calls) := by
  induction calls using List.reverseRecOn with
  | nil => exact .processStart
  | append_singleton calls call ih =>
    obtain ⟨hbefore, hlast⟩ := Mealy.eachStep_snoc _ |>.mp hlegal
    rw [Mealy.trace_snoc, Mealy.run_append]
    exact (ih hbefore).step hlast

/-- After every legal run, the record behind a handle is what the calls on this handle alone make of
it: the bounds it was registered with, and the last `allocated` and the last `committed` that were
not null. A record is there exactly for the handles in the table. -/
theorem frozen_records {calls : List FrozenCall}
    (hlegal : registryMachine.EachStep (fun r call => call.Legal r.2) (.processStart, 0) calls) :
    let t := (registryMachine.run (.processStart, 0) calls).1
    (∀ handle ≠ 0, t.records handle =
      recordOf (registryMachine.trace (.processStart, 0) calls) handle) ∧
    (∀ handle, (t.records handle).isSome = true ↔ handle ∈ t.frozenSegments) ∧
    t.frozenSegments.Nodup := by
  intro t
  have hk := recordsKept_run hlegal
  exact ⟨hk.records, hk.present, hk.refines.nodup⟩

/-- Two segments, the second of which is updated before and after the first one goes. -/
def updatedTwice : List FrozenCall :=
  [.register (some ⟨0x1000, 0x80, 0x80, 0x100⟩) 0x9000,
    .register (some ⟨0x2000, 0x10, 0x20, 0x100⟩) 0xa000, .update 0xa000 0x2040 0,
    .unregister 0x9000, .update 0xa000 0 0x2080]

theorem frozen_records_updated :
    (registryMachine.run (.processStart, 0) updatedTwice).1.records 0xa000 =
      some ⟨0x2000, 0x2040, 0x2080, 0x2100⟩ := by
  have hlegal : registryMachine.EachStep (fun r call => call.Legal r.2) (.processStart, 0)
      updatedTwice := by
    simp only [updatedTwice, Mealy.eachStep_cons]
    exact ⟨⟨by decide, by decide⟩, ⟨by decide, by decide⟩,
      .inr ⟨⟨0xa000, 0x2000, 0x100⟩, by decide, rfl⟩,
      .inr ⟨⟨0x9000, 0x1000, 0x100⟩, by decide, rfl⟩,
      .inr ⟨⟨0xa000, 0x2000, 0x100⟩, by decide, rfl⟩, Mealy.eachStep_nil _ _ _⟩
  exact ((frozen_records hlegal).1 0xa000 (by decide)).trans (by decide)

end

end MiniGC
