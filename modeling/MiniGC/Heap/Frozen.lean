import MiniGC.Lib.Mealy
import MiniGC.Lib.SwapRemove
import MiniGC.Platform
import Mathlib.Data.Multiset.Filter
import Mathlib.Data.Multiset.MapFold
import Mathlib.Logic.Function.Basic

/-!
# MiniGC.Heap.Frozen

The table of frozen segments.

* `FrozenTable`    the entries in use of `frozenSegments`, and the records that `new` has given out.
* `Registration`   what a caller has registered and not unregistered: a handle and its range. A
  multiset of these is all that the component stands for; `record` keeps it from the calls alone.
* `FrozenRefines`  the table holds the records of the registered handles, in some order.
* `frozen_refines` every legal run keeps that, and every call does what the multiset says.
-/

namespace MiniGC

/-! ## The table -/

structure FrozenSegmentRecord where
  base : W
  allocated : W
  committed : W
  reserved : W
  deriving DecidableEq

/-- The fields of `segment_info` that registration reads. -/
structure SegmentInfo where
  pvMem : W
  ibAllocated : W
  ibCommit : W
  ibReserved : W

/-- `frozenSegments` lists `frozenSegments[0 .. frozenSegmentsCount)`. A record is there from its
`new` to its `delete`. -/
structure FrozenTable where
  frozenSegments : List W
  records : W → Option FrozenSegmentRecord

/-- `sizeof(frozenSegments) / sizeof(frozenSegments[0])`. -/
def frozenCapacity : Nat := 64

def FrozenTable.processStart : FrozenTable := ⟨[], fun _ => none⟩

/-- `rec` is the address that `new` returns, if it is reached. -/
def registerFrozenSegment (t : FrozenTable) (pseginfo : Option SegmentInfo) (rec : W) :
    FrozenTable × W :=
  match pseginfo with
  | none => (t, 0)
  | some info =>
    if info.pvMem = 0 then (t, 0)
    else if frozenCapacity ≤ t.frozenSegments.length then (t, 0)
    else
      let base := info.pvMem
      ({ frozenSegments := t.frozenSegments ++ [rec]
         records := Function.update t.records rec (some
           ⟨base, base + info.ibAllocated, base + info.ibCommit, base + info.ibReserved⟩) }, rec)

/-- The loop puts the last entry in the place of `seg`, if it finds it; `seg` is deleted anyway. -/
def unregisterFrozenSegment (t : FrozenTable) (seg : W) : FrozenTable :=
  if seg = 0 then t
  else
    { frozenSegments := t.frozenSegments.swapRemove seg
      records := Function.update t.records seg none }

def updateFrozenSegment (t : FrozenTable) (seg allocated committed : W) : FrozenTable :=
  if seg = 0 then t
  else
    match t.records seg with
    | none => t
    | some old =>
      let new : FrozenSegmentRecord := { old with
        allocated := if allocated ≠ 0 then allocated else old.allocated
        committed := if committed ≠ 0 then committed else old.committed }
      { t with records := Function.update t.records seg (some new) }

def isInFrozenSegment (t : FrozenTable) (object : W) : Bool :=
  t.frozenSegments.any fun seg =>
    match t.records seg with
    | some rec => rec.base ≤ object ∧ object < rec.reserved
    | none => false

inductive FrozenCall where
  | register (pseginfo : Option SegmentInfo) (rec : W)
  | unregister (seg : W)
  | update (seg allocated committed : W)

/-- The calls that change the table. Only a registration answers with a handle. -/
def frozenMachine : Mealy FrozenTable FrozenCall W where
  step t
    | .register pseginfo rec => registerFrozenSegment t pseginfo rec
    | .unregister seg => (unregisterFrozenSegment t seg, 0)
    | .update seg allocated committed => (updateFrozenSegment t seg allocated committed, 0)

/-! ## What it stands for -/

structure Registration where
  handle : W
  base : W
  ibReserved : W
  deriving DecidableEq

namespace Registration

def Contains (x : Registration) (p : W) : Prop := x.base ≤ p ∧ p < x.base + x.ibReserved

/-- What a call and the handle it returned mean. -/
def record (S : Multiset Registration) : FrozenCall → W → Multiset Registration
  | .register (some info) _, handle =>
    if handle = 0 then S else ⟨handle, info.pvMem, info.ibReserved⟩ ::ₘ S
  | .register none _, _ => S
  | .unregister seg, _ => S.filter fun x => x.handle ≠ seg
  | .update _ _ _, _ => S

end Registration

/-- `new` returns no live record, and the other calls are given null or a registered handle. -/
def FrozenCall.Legal (S : Multiset Registration) : FrozenCall → Prop
  | .register _ rec => rec ≠ 0 ∧ ∀ x ∈ S, x.handle ≠ rec
  | .unregister seg | .update seg _ _ => seg = 0 ∨ ∃ x ∈ S, x.handle = seg

/-- The table next to what has been registered. -/
def registryMachine : Mealy (FrozenTable × Multiset Registration) FrozenCall W :=
  frozenMachine.observed Registration.record

structure FrozenRefines (t : FrozenTable) (S : Multiset Registration) : Prop where
  nodup : t.frozenSegments.Nodup
  handles : S.map Registration.handle = t.frozenSegments
  ne_null : ∀ x ∈ S, x.handle ≠ 0
  count_le : t.frozenSegments.length ≤ frozenCapacity
  records : ∀ x ∈ S, ∃ rec, t.records x.handle = some rec ∧ rec.base = x.base ∧
    rec.reserved = x.base + x.ibReserved

section

variable {t : FrozenTable} {S : Multiset Registration}

namespace FrozenRefines

theorem processStart : FrozenRefines .processStart 0 where
  nodup := List.nodup_nil
  handles := rfl
  ne_null x hx := absurd hx (Multiset.notMem_zero x)
  count_le := Nat.zero_le _
  records x hx := absurd hx (Multiset.notMem_zero x)

theorem card (hr : FrozenRefines t S) : Multiset.card S = t.frozenSegments.length := by
  rw [← Multiset.card_map Registration.handle, hr.handles, Multiset.coe_card]

theorem mem_iff (hr : FrozenRefines t S) {seg : W} :
    seg ∈ t.frozenSegments ↔ ∃ x ∈ S, x.handle = seg := by
  rw [← Multiset.mem_coe, ← hr.handles, Multiset.mem_map]

/-- No two registrations have the same handle. -/
theorem eq_of_handle (hr : FrozenRefines t S) {x y : Registration} (hx : x ∈ S) (hy : y ∈ S)
    (h : x.handle = y.handle) : x = y := by
  have hnodup : (S.map Registration.handle).Nodup := hr.handles ▸ Multiset.coe_nodup.mpr hr.nodup
  exact Multiset.inj_on_of_nodup_map hnodup x hx y hy h

theorem isIn_iff (hr : FrozenRefines t S) (p : W) :
    isInFrozenSegment t p = true ↔ ∃ x ∈ S, x.Contains p := by
  rw [isInFrozenSegment, List.any_eq_true]
  constructor
  · rintro ⟨seg, hseg, hp⟩
    obtain ⟨x, hx, rfl⟩ := hr.mem_iff.mp hseg
    obtain ⟨rec, hrec, hbase, hreserved⟩ := hr.records x hx
    simp only [hrec, decide_eq_true_eq, hbase, hreserved] at hp
    exact ⟨x, hx, hp⟩
  · rintro ⟨x, hx, hp⟩
    obtain ⟨rec, hrec, hbase, hreserved⟩ := hr.records x hx
    refine ⟨x.handle, hr.mem_iff.mpr ⟨x, hx, rfl⟩, ?_⟩
    simp only [hrec, decide_eq_true_eq, hbase, hreserved]
    exact hp

end FrozenRefines

/-! ## What each call does to it -/

/-- The record that registration makes. -/
def SegmentInfo.toRecord (info : SegmentInfo) : FrozenSegmentRecord :=
  ⟨info.pvMem, info.pvMem + info.ibAllocated, info.pvMem + info.ibCommit,
    info.pvMem + info.ibReserved⟩

theorem register_cases (t : FrozenTable) (pseginfo : Option SegmentInfo) (rec : W) :
    (registerFrozenSegment t pseginfo rec = (t, 0) ∧ ¬ ∃ info, pseginfo = some info ∧
      info.pvMem ≠ 0 ∧ t.frozenSegments.length < frozenCapacity) ∨
    ∃ info, pseginfo = some info ∧ info.pvMem ≠ 0 ∧ t.frozenSegments.length < frozenCapacity ∧
      registerFrozenSegment t pseginfo rec = (⟨t.frozenSegments ++ [rec],
        Function.update t.records rec (some info.toRecord)⟩, rec) := by
  cases pseginfo with
  | none => exact .inl ⟨rfl, fun ⟨_, h, _⟩ => by cases h⟩
  | some info =>
    by_cases hmem : info.pvMem = 0
    · left
      refine ⟨by simp only [registerFrozenSegment, if_pos hmem], ?_⟩
      rintro ⟨_, h, hne, -⟩
      cases h
      exact hne hmem
    by_cases hfull : frozenCapacity ≤ t.frozenSegments.length
    · left
      refine ⟨by simp only [registerFrozenSegment, if_neg hmem, if_pos hfull], ?_⟩
      rintro ⟨_, -, -, hlt⟩
      exact absurd hlt (Nat.not_lt.mpr hfull)
    · right
      refine ⟨info, rfl, hmem, Nat.not_le.mp hfull, ?_⟩
      simp only [registerFrozenSegment, if_neg hmem, if_neg hfull, SegmentInfo.toRecord]

namespace FrozenRefines

theorem register (hr : FrozenRefines t S) (pseginfo : Option SegmentInfo) {rec : W}
    (hne : rec ≠ 0) (hnew : ∀ x ∈ S, x.handle ≠ rec) :
    FrozenRefines (registerFrozenSegment t pseginfo rec).1
      (Registration.record S (.register pseginfo rec)
        (registerFrozenSegment t pseginfo rec).2) := by
  rcases register_cases t pseginfo rec with ⟨he, -⟩ | ⟨info, rfl, -, hlt, he⟩
  · rw [he]
    cases pseginfo with
    | none => exact hr
    | some info => rw [Registration.record, if_pos rfl]; exact hr
  · have hnot : rec ∉ t.frozenSegments := by
      rw [hr.mem_iff]
      rintro ⟨x, hx, rfl⟩
      exact hnew x hx rfl
    rw [he, Registration.record, if_neg hne]
    refine ⟨?_, ?_, fun x hx => ?_, ?_, fun x hx => ?_⟩
    · exact List.nodup_append_comm.mp (List.nodup_cons.mpr ⟨hnot, hr.nodup⟩)
    · rw [Multiset.map_cons, hr.handles, Multiset.cons_coe, Multiset.coe_eq_coe]
      exact (List.perm_append_singleton rec _).symm
    · rcases Multiset.mem_cons.mp hx with rfl | hx
      · exact hne
      · exact hr.ne_null x hx
    · rw [List.length_append, List.length_singleton]
      exact hlt
    · rcases Multiset.mem_cons.mp hx with rfl | hx
      · exact ⟨info.toRecord, Function.update_self _ _ _, rfl, rfl⟩
      · obtain ⟨old, hold, hrange⟩ := hr.records x hx
        exact ⟨old, (Function.update_of_ne (hnew x hx) _ _).trans hold, hrange⟩

/-- Of the registrations, only the one with the handle goes. -/
theorem filter_eq (hr : FrozenRefines t S) {x : Registration} (hx : x ∈ S) :
    x ::ₘ S.filter (fun y => y.handle ≠ x.handle) = S := by
  have hnodup : S.Nodup := by
    refine Multiset.Nodup.of_map Registration.handle ?_
    rw [hr.handles]
    exact Multiset.coe_nodup.mpr hr.nodup
  have hgone : x ∉ S.filter fun y => y.handle ≠ x.handle := by
    rw [Multiset.mem_filter]
    rintro ⟨-, hne⟩
    exact hne rfl
  rw [Multiset.Nodup.ext (Multiset.nodup_cons.mpr ⟨hgone, hnodup.filter _⟩) hnodup]
  intro y
  rw [Multiset.mem_cons, Multiset.mem_filter]
  constructor
  · rintro (rfl | ⟨hy, -⟩)
    · exact hx
    · exact hy
  · intro hy
    by_cases hxy : y.handle = x.handle
    · exact .inl (hr.eq_of_handle hy hx hxy)
    · exact .inr ⟨hy, hxy⟩

theorem unregister_null (hr : FrozenRefines t S) :
    FrozenRefines (unregisterFrozenSegment t 0) (Registration.record S (.unregister 0) 0) := by
  rw [unregisterFrozenSegment, if_pos rfl, Registration.record,
    Multiset.filter_eq_self.mpr hr.ne_null]
  exact hr

theorem unregister (hr : FrozenRefines t S) {x : Registration} (hx : x ∈ S) :
    FrozenRefines (unregisterFrozenSegment t x.handle)
      (Registration.record S (.unregister x.handle) 0) := by
  have hmem : x.handle ∈ t.frozenSegments := hr.mem_iff.mpr ⟨x, hx, rfl⟩
  have hperm := List.cons_swapRemove_perm hmem
  have hcons : x.handle ::ₘ (S.filter fun y => y.handle ≠ x.handle).map Registration.handle =
      ↑(x.handle :: t.frozenSegments.swapRemove x.handle) := by
    rw [← Multiset.map_cons, hr.filter_eq hx, hr.handles]
    exact (Multiset.coe_eq_coe.mpr hperm).symm
  rw [unregisterFrozenSegment, if_neg (hr.ne_null x hx), Registration.record]
  refine ⟨?_, ?_, fun y hy => ?_, ?_, fun y hy => ?_⟩
  · exact (List.nodup_cons.mp (hperm.nodup_iff.mpr hr.nodup)).2
  · rw [← Multiset.cons_coe] at hcons
    exact Multiset.cons_inj_right _ |>.mp hcons
  · exact hr.ne_null y (Multiset.mem_filter.mp hy).1
  · have hlen := hperm.length_eq
    rw [List.length_cons] at hlen
    have := hr.count_le
    show (t.frozenSegments.swapRemove x.handle).length ≤ _
    omega
  · obtain ⟨hy, hne⟩ := Multiset.mem_filter.mp hy
    obtain ⟨rec, hrec, hrange⟩ := hr.records y hy
    exact ⟨rec, (Function.update_of_ne hne _ _).trans hrec, hrange⟩

/-- An update leaves base and reserved end of every record as they are. -/
theorem update (hr : FrozenRefines t S) (seg allocated committed : W) :
    FrozenRefines (updateFrozenSegment t seg allocated committed) S := by
  unfold updateFrozenSegment
  split
  · exact hr
  split
  · exact hr
  · rename_i old hold
    refine ⟨hr.nodup, hr.handles, hr.ne_null, hr.count_le, fun x hx => ?_⟩
    obtain ⟨rec, hrec, hbase, hreserved⟩ := hr.records x hx
    by_cases hh : x.handle = seg
    · subst hh
      rw [hrec] at hold
      cases hold
      exact ⟨_, Function.update_self _ _ _, hbase, hreserved⟩
    · exact ⟨rec, (Function.update_of_ne hh _ _).trans hrec, hbase, hreserved⟩

theorem step (hr : FrozenRefines t S) {call : FrozenCall} (hlegal : call.Legal S) :
    FrozenRefines (frozenMachine.next t call)
      (Registration.record S call (frozenMachine.answer t call)) := by
  cases call with
  | register pseginfo rec => exact hr.register pseginfo hlegal.1 hlegal.2
  | unregister seg =>
    rcases hlegal with rfl | ⟨x, hx, rfl⟩
    · exact hr.unregister_null
    · exact hr.unregister hx
  | update seg allocated committed => exact hr.update seg allocated committed

end FrozenRefines

theorem frozenRefines_run {calls : List FrozenCall}
    (hlegal : registryMachine.EachStep (fun r call => call.Legal r.2) (.processStart, 0) calls) :
    FrozenRefines (registryMachine.run (.processStart, 0) calls).1
      (registryMachine.run (.processStart, 0) calls).2 :=
  registryMachine.run_inv_of_eachStep (P := fun r => FrozenRefines r.1 r.2)
    (fun _ _ hr hcall => hr.step hcall) .processStart hlegal

/-- After every legal run the table stands for the multiset of registrations. A registration returns
a handle, other than all live ones, exactly if there is memory to register and room for it;
`UnregisterFrozenSegment` takes away the registration with its handle and no other; and
`IsInFrozenSegment` finds exactly the addresses in the registered ranges. -/
theorem frozen_refines {calls : List FrozenCall}
    (hlegal : registryMachine.EachStep (fun r call => call.Legal r.2) (.processStart, 0) calls) :
    let r := registryMachine.run (.processStart, 0) calls
    FrozenRefines r.1 r.2 ∧
    (∀ pseginfo rec, (FrozenCall.register pseginfo rec).Legal r.2 →
      let handle := (registerFrozenSegment r.1 pseginfo rec).2
      (handle ≠ 0 ↔ ∃ info, pseginfo = some info ∧ info.pvMem ≠ 0 ∧ Multiset.card r.2 < 64) ∧
        (handle ≠ 0 → ∀ x ∈ r.2, x.handle ≠ handle)) ∧
    (∀ x ∈ r.2, x ::ₘ Registration.record r.2 (.unregister x.handle) 0 = r.2 ∧
      FrozenRefines (unregisterFrozenSegment r.1 x.handle)
        (Registration.record r.2 (.unregister x.handle) 0)) ∧
    (∀ seg allocated committed,
      FrozenRefines (updateFrozenSegment r.1 seg allocated committed) r.2) ∧
    ∀ p, isInFrozenSegment r.1 p = true ↔ ∃ x ∈ r.2, x.base ≤ p ∧ p < x.base + x.ibReserved := by
  intro r
  have hr : FrozenRefines r.1 r.2 := frozenRefines_run hlegal
  refine ⟨hr, fun pseginfo rec hlegal' => ?_, fun x hx => ⟨hr.filter_eq hx, hr.unregister hx⟩,
    hr.update, hr.isIn_iff⟩
  obtain ⟨hne, hnew⟩ := hlegal'
  rw [hr.card]
  rcases register_cases r.1 pseginfo rec with ⟨he, hnot⟩ | ⟨info, hinfo, hmem, hlt, he⟩
  · rw [he]
    exact ⟨iff_of_false (fun h => h rfl) hnot, fun h => absurd rfl h⟩
  · rw [he]
    exact ⟨iff_of_true hne ⟨info, hinfo, hmem, hlt⟩, fun _ => hnew⟩

/-- Two registrations of the same memory, the first of which is taken back. -/
def sameMemoryTwice : List FrozenCall :=
  [.register (some ⟨0x1000, 0x80, 0x80, 0x100⟩) 0x9000,
    .register (some ⟨0x1000, 0x80, 0x80, 0x100⟩) 0xa000, .unregister 0x9000]

theorem frozen_same_memory :
    isInFrozenSegment (registryMachine.run (.processStart, 0) sameMemoryTwice).1 0x10ff = true := by
  have hlegal : registryMachine.EachStep (fun r call => call.Legal r.2) (.processStart, 0)
      sameMemoryTwice := by
    simp only [sameMemoryTwice, Mealy.eachStep_cons]
    exact ⟨⟨by decide, by decide⟩, ⟨by decide, by decide⟩,
      .inr ⟨⟨0x9000, 0x1000, 0x100⟩, by decide, rfl⟩, Mealy.eachStep_nil _ _ _⟩
  exact ((frozen_refines hlegal).2.2.2.2 0x10ff).mpr
    ⟨⟨0xa000, 0x1000, 0x100⟩, by decide, by decide, by decide⟩

end

end MiniGC
