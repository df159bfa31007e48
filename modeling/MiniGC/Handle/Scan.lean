import MiniGC.Handle.History
import MiniGC.Lib.Sweep

/-!
# MiniGC.Handle.Scan

`ScanHandles`: the handle table as a source of roots.

* `PromoteFunc`    the callback. It may rewrite the slot it is given and remember earlier calls.
* `scanHandles`    the loop over the arrays, with the calls it makes.
* `callMachine`    the calls of the manager and the store, with scans among them; `scanMachine` is
  the same next to the record of what the handles are for.
* `scan_visits_strong`   a scan visits the live strong handles that hold an object, once each and
  in creation order, and changes nothing but what the callback leaves in their slots.
-/

namespace MiniGC

/-! ## The loop -/

/-- A call of the promote callback: the slot, the object found there, and what the call left. -/
structure Visit where
  slot : W
  object : W
  left : W

/-- What the callback leaves in a slot, after the given calls, where it finds the given object. -/
abbrev PromoteFunc := List Visit → W → W → W

def isStrongHandle (type : HandleType) : Bool :=
  type = .hndtypeStrong ∨ type = .hndtypePinned ∨ type = .hndtypeAsyncPinned ∨
    type = .hndtypeSizedRef

/-- The indices below `handlesCount`, from 0 up. -/
def HandleTable.indices (t : HandleTable) : List (Fin maxHandles) :=
  (List.finRange t.handlesCount).map (Fin.castLE t.handlesCount_le)

/-- The loop body at `index`: the table, and the calls made so far. -/
def scanHandle (A : HandleArray) (pf : PromoteFunc) (r : HandleTable × List Visit)
    (index : Fin maxHandles) : HandleTable × List Visit :=
  if r.1.handles index ≠ 0 ∧ isStrongHandle (r.1.handleTypes index) then
    let left := pf r.2 (A.slot index) (r.1.handles index)
    ({ r.1 with handles := Function.update r.1.handles index left },
      r.2 ++ [⟨A.slot index, r.1.handles index, left⟩])
  else r

def scanHandles (A : HandleArray) (t : HandleTable) (pf : PromoteFunc) :
    HandleTable × List Visit :=
  t.indices.foldl (scanHandle A pf) (t, [])

def HandleManager.scanHandles (A : HandleArray) (m : HandleManager) (pf : PromoteFunc) :
    HandleManager × List Visit :=
  if m.store then
    let r := MiniGC.scanHandles A m.table pf
    (m.setTable r.1, r.2)
  else (m, [])

/-! ## What a scan does -/

section

variable {A : HandleArray} {t : HandleTable}

/-- The slot at `index` is visited. -/
def HandleTable.isRoot (t : HandleTable) (index : Fin maxHandles) (object : W) : Bool :=
  object ≠ 0 ∧ isStrongHandle (t.handleTypes index)

def Visit.ofIndex (A : HandleArray) (v : Sweep.Visit (Fin maxHandles) W) : Visit :=
  ⟨A.slot v.key, v.before, v.after⟩

/-- The table and the calls that stand for a sweep over the objects of `t`. -/
def HandleTable.ofSweep (A : HandleArray) (t : HandleTable)
    (r : (Fin maxHandles → W) × List (Sweep.Visit (Fin maxHandles) W)) :
    HandleTable × List Visit :=
  ({ t with handles := r.1 }, r.2.map (Visit.ofIndex A))

/-- What the callback does, told by index. -/
def PromoteFunc.atIndex (A : HandleArray) (pf : PromoteFunc)
    (vs : List (Sweep.Visit (Fin maxHandles) W)) (i : Fin maxHandles) (object : W) : W :=
  pf (vs.map (Visit.ofIndex A)) (A.slot i) object

theorem scanHandles_eq (pf : PromoteFunc) : scanHandles A t pf =
    t.ofSweep A (Sweep.sweep t.isRoot (pf.atIndex A) t.handles t.indices) := by
  unfold scanHandles Sweep.sweep
  rw [show (t, []) = t.ofSweep A (t.handles, []) from rfl]
  refine List.foldl_hom (t.ofSweep A) fun r i => ?_
  have hguard : t.isRoot i (r.1 i) = true ↔ (t.ofSweep A r).1.handles i ≠ 0 ∧
      isStrongHandle ((t.ofSweep A r).1.handleTypes i) = true := decide_eq_true_iff
  by_cases hroot : t.isRoot i (r.1 i) = true
  · rw [Sweep.visit_of_true hroot, scanHandle, if_pos (hguard.mp hroot)]
    simp [HandleTable.ofSweep, PromoteFunc.atIndex, Visit.ofIndex]
  · rw [Sweep.visit_of_false hroot, scanHandle, if_neg fun h => hroot (hguard.mpr h)]

theorem HandleTable.indices_nodup (t : HandleTable) : t.indices.Nodup :=
  (List.nodup_finRange _).map (Fin.castLE_injective _)

theorem HandleTable.mem_indices {i : Fin maxHandles} : i ∈ t.indices ↔ i.val < t.handlesCount := by
  rw [HandleTable.indices, List.mem_map]
  constructor
  · rintro ⟨j, -, rfl⟩
    exact j.isLt
  · intro hi
    exact ⟨⟨i, hi⟩, List.mem_finRange _, rfl⟩

/-- What a scan leaves: the slots visited, the objects found and left there, and the rest. -/
structure Scanned (A : HandleArray) (t : HandleTable) (pf : PromoteFunc)
    (r : HandleTable × List Visit) : Prop where
  slots : r.2.map Visit.slot =
    (t.indices.filter fun i => t.isRoot i (t.handles i)).map fun i : Fin maxHandles => A.slot i
  found : ∀ v ∈ r.2, ∃ i, issuedIndex A t v.slot = some i ∧ v.object = t.handles i ∧
    r.1.handles i = v.left
  calls : ∀ p v, p ++ [v] <+: r.2 → v.left = pf p v.slot v.object
  kept : ∀ i : Fin maxHandles, A.slot i ∉ r.2.map Visit.slot → r.1.handles i = t.handles i
  rest : r.1 = { t with handles := r.1.handles }

theorem scanned (A : HandleArray) (t : HandleTable) (pf : PromoteFunc) :
    Scanned A t pf (scanHandles A t pf) := by
  have hs : Sweep.Swept t.isRoot (pf.atIndex A) t.handles t.indices _ := Sweep.swept t.indices_nodup
  rw [scanHandles_eq]
  have hvisited : ∀ v ∈ (Sweep.sweep t.isRoot (pf.atIndex A) t.handles t.indices).2,
      v.key.val < t.handlesCount := by
    intro v hv
    have hmem := List.mem_map_of_mem (f := Sweep.Visit.key) hv
    rw [hs.visited] at hmem
    exact t.mem_indices.mp (List.mem_filter.mp hmem).1
  refine ⟨?_, fun v hv => ?_, fun p v hp => ?_, fun i hi => ?_, rfl⟩
  · rw [← hs.visited]
    simp [HandleTable.ofSweep, Visit.ofIndex, Function.comp_def]
  · obtain ⟨v', hv', rfl⟩ := List.mem_map.mp hv
    exact ⟨v'.key, issuedIndex_eq_some.mpr ⟨rfl, hvisited v' hv'⟩, hs.before v' hv',
      hs.after v' hv'⟩
  · obtain ⟨p', hp', he⟩ := List.prefix_map_iff.mp hp
    obtain ⟨q, w, rfl, rfl, hw⟩ := List.map_eq_append_iff.mp he.symm
    obtain ⟨v', rfl, rfl⟩ := List.map_eq_singleton_iff.mp hw
    exact hs.calls q v' hp'
  · refine hs.kept i fun hmem => hi ?_
    obtain ⟨v, hv, rfl⟩ := List.mem_map.mp hmem
    exact List.mem_map.mpr ⟨_, List.mem_map_of_mem hv, rfl⟩

namespace Scanned

variable {pf : PromoteFunc} {r : HandleTable × List Visit}

theorem handlesCount (hs : Scanned A t pf r) : r.1.handlesCount = t.handlesCount := by
  rw [hs.rest]

theorem issued (hs : Scanned A t pf r) (h : W) : issuedIndex A r.1 h = issuedIndex A t h := by
  rw [hs.rest]
  rfl

theorem entry (hs : Scanned A t pf r) (i : Fin maxHandles) :
    r.1.entry i = { t.entry i with object := r.1.handles i } := by
  rw [hs.rest]
  rfl

theorem nodup (hs : Scanned A t pf r) : (r.2.map Visit.slot).Nodup := by
  rw [hs.slots]
  refine (t.indices_nodup.filter _).map_on fun i _ j _ he => ?_
  exact Fin.ext (A.slot_injective i.isLt.le j.isLt.le he)

/-- A slot with no object in it is left alone. -/
theorem null (hs : Scanned A t pf r) {i : Fin maxHandles} (h0 : t.handles i = 0) :
    r.1.handles i = 0 := by
  rw [hs.kept i, h0]
  rw [hs.slots, List.mem_map]
  rintro ⟨j, hj, he⟩
  obtain rfl := Fin.ext (A.slot_injective j.isLt.le i.isLt.le he)
  have hroot := (List.mem_filter.mp hj).2
  exact (show _ ∧ _ from of_decide_eq_true hroot).1 h0

/-- The attributes of every handle are what they were. -/
theorem attributes (hs : Scanned A t pf r) (h : W) : getType A r.1 h = getType A t h ∧
    getDependentSecondary A r.1 h = getDependentSecondary A t h ∧
    getExtraInfo A r.1 h = getExtraInfo A t h := by
  rw [hs.rest]
  exact ⟨rfl, rfl, rfl⟩

end Scanned

end

/-! ## Scans among the other calls -/

inductive HandleCall where
  | op (op : Op)
  | scanHandles (pf : PromoteFunc)

inductive HandleResult where
  | answer (a : Answer)
  | visits (visits : List Visit)

def callMachine (A : HandleArray) : Mealy HandleManager HandleCall HandleResult where
  step m
    | .op op => ((handleStep A m op).1, .answer (handleStep A m op).2)
    | .scanHandles pf => ((m.scanHandles A pf).1, .visits (m.scanHandles A pf).2)

/-- The record of what the handles are for takes no note of a scan. -/
def History.recordResult (H : History) : HandleCall → HandleResult → History
  | .op op, .answer a => H.record op a
  | _, _ => H

def scanMachine (A : HandleArray) :
    Mealy (HandleManager × History) HandleCall HandleResult :=
  (callMachine A).observed History.recordResult

section

variable {A : HandleArray} {m : HandleManager} {H : History}

theorem HandleManager.scanHandles_store (hstore : m.store = true) (pf : PromoteFunc) :
    m.scanHandles A pf =
      (m.setTable (MiniGC.scanHandles A m.table pf).1, (MiniGC.scanHandles A m.table pf).2) := by
  rw [HandleManager.scanHandles, if_pos hstore]

theorem HandleManager.scanHandles_absent (hstore : ¬ m.store = true) (pf : PromoteFunc) :
    m.scanHandles A pf = (m, []) := by
  rw [HandleManager.scanHandles, if_neg hstore]

theorem Refines.scan (hr : Refines A m H) (pf : PromoteFunc) :
    Refines A (m.scanHandles A pf).1 H := by
  by_cases hstore : m.store = true
  case neg =>
    rw [HandleManager.scanHandles_absent hstore]
    exact hr
  have hs := scanned A m.table pf
  rw [HandleManager.scanHandles_store hstore]
  refine ⟨hr.initialised, ?_, fun h e' hl => ?_, fun h e hv hl => ?_⟩
  · rw [HandleManager.setTable, hs.handlesCount]
    exact hr.created
  · obtain ⟨e, he, hsame⟩ := hr.attributes h e' hl
    obtain ⟨i, hi, rfl⟩ := HandleTable.view_eq_some.mp he
    have hentry : ((MiniGC.scanHandles A m.table pf).1.entry i).SameAttributes e' := by
      rw [hs.entry]
      exact ⟨hsame.type, hsame.secondary, hsame.extraInfo⟩
    exact ⟨_, HandleTable.view_issued ((hs.issued h).trans hi), hentry⟩
  · obtain ⟨i, hi, rfl⟩ := HandleTable.view_eq_some.mp hv
    exact hs.null (hr.dead_object ((hs.issued h).symm.trans hi) hl)

theorem refines_scan_run (A : HandleArray) (calls : List HandleCall) :
    Refines A ((scanMachine A).run (.processStart, .start) calls).1
      ((scanMachine A).run (.processStart, .start) calls).2 := by
  refine (scanMachine A).run_inv (P := fun r => Refines A r.1 r.2) (fun r call hr => ?_)
    Refines.start calls
  cases call with
  | op op => exact hr.step (handleStep_outcome A r.1 op)
  | scanHandles pf => exact hr.scan pf

/-- A handle is visited if it is alive, was created with a strong type, and holds an object. -/
def Visits (A : HandleArray) (m : HandleManager) (H : History) (h : W) : Bool :=
  ((H.live h).any fun e => isStrongHandle e.type) ∧ getObject A m.table h ≠ 0

theorem Refines.isRoot_iff (hr : Refines A m H) {i : Fin maxHandles}
    (hi : i.val < m.table.handlesCount) :
    m.table.isRoot i (m.table.handles i) = Visits A m H (A.slot i) := by
  have hissued : issuedIndex A m.table (A.slot i) = some i := issuedIndex_eq_some.mpr ⟨rfl, hi⟩
  have hobject : getObject A m.table (A.slot i) = m.table.handles i := getObject_issued hissued
  unfold HandleTable.isRoot Visits
  rw [hobject]
  cases hl : H.live (A.slot i) with
  | none =>
    have h0 : m.table.handles i = 0 := hr.dead_object hissued hl
    simp [h0]
  | some e' =>
    obtain ⟨e, he, hsame⟩ := hr.attributes _ e' hl
    rw [HandleTable.view_issued hissued] at he
    cases he
    have htype : m.table.handleTypes i = e'.type := hsame.type
    simp [htype, and_comm]

theorem Refines.created_eq (hr : Refines A m H) :
    H.created = m.table.indices.map fun i : Fin maxHandles => A.slot i := by
  rw [hr.created, HandleTable.indices, List.map_map]
  have hrange : (List.finRange m.table.handlesCount).map Fin.val =
      List.range m.table.handlesCount := List.map_coe_finRange_eq_range
  rw [← hrange, List.map_map]
  rfl

theorem Refines.visited (hr : Refines A m H) (pf : PromoteFunc) :
    (MiniGC.scanHandles A m.table pf).2.map Visit.slot = H.created.filter (Visits A m H) := by
  rw [(scanned A m.table pf).slots, hr.created_eq, List.filter_map]
  refine congrArg _ (List.filter_congr fun i hi => ?_)
  exact hr.isRoot_iff (m.table.mem_indices.mp hi)

/-- After any calls, scans included, a scan calls back on the slots of the live strong handles that
hold an object, once each and in the order of their creation, with what they hold. Afterwards these
hold what the callback left there, and nothing else has changed. -/
theorem scan_visits_strong (A : HandleArray) (calls : List HandleCall) (pf : PromoteFunc) :
    let r := (scanMachine A).run (.processStart, .start) calls
    let s := r.1.scanHandles A pf
    r.1.store = true →
      s.2.map Visit.slot = r.2.created.filter (fun h =>
        ((r.2.live h).any fun e => isStrongHandle e.type) ∧ getObject A r.1.table h ≠ 0) ∧
      (s.2.map Visit.slot).Nodup ∧
      (∀ p v, p ++ [v] <+: s.2 →
        v.object = getObject A r.1.table v.slot ∧ v.left = pf p v.slot v.object) ∧
      (∀ v ∈ s.2, getObject A s.1.table v.slot = v.left) ∧
      (∀ h, h ∉ s.2.map Visit.slot → getObject A s.1.table h = getObject A r.1.table h) ∧
      ∀ h, getType A s.1.table h = getType A r.1.table h ∧
        getDependentSecondary A s.1.table h = getDependentSecondary A r.1.table h ∧
        getExtraInfo A s.1.table h = getExtraInfo A r.1.table h := by
  intro r s hstore
  have hr : Refines A r.1 r.2 := refines_scan_run A calls
  have hs := scanned A r.1.table pf
  have heq : s = _ := HandleManager.scanHandles_store hstore pf
  rw [heq]
  refine ⟨hr.visited pf, hs.nodup, fun p v hp => ⟨?_, hs.calls p v hp⟩, fun v hv => ?_,
    fun h hh => ?_, hs.attributes⟩
  · obtain ⟨i, hi, hfound, -⟩ := hs.found v (hp.subset (List.mem_append_right _ (by simp)))
    rw [getObject_issued hi]
    exact hfound
  · obtain ⟨i, hi, -, hleft⟩ := hs.found v hv
    rw [HandleManager.setTable, getObject_issued ((hs.issued _).trans hi)]
    exact hleft
  · rw [HandleManager.setTable]
    cases hi : issuedIndex A r.1.table h with
    | none => simp only [getObject, hs.issued, hi]
    | some i =>
      rw [getObject_issued ((hs.issued h).trans hi), getObject_issued hi]
      have hslot := (issuedIndex_eq_some.mp hi).1
      exact hs.kept i (hslot ▸ hh)

/-- A strong handle, a weak one, a strong one without an object, a pinned one, a destroyed one. -/
def fiveHandles : List HandleCall :=
  [.op .initializeManager, .op (.createGlobalHandleOfType 0x10 .hndtypeStrong),
    .op (.createGlobalHandleOfType 0x20 .hndtypeWeakShort),
    .op (.createGlobalHandleOfType 0 .hndtypeStrong),
    .op (.createHandleWithExtraInfo 0x30 .hndtypePinned 0x5),
    .op (.createGlobalHandleOfType 0x40 .hndtypeStrong),
    .op (.destroyHandleOfUnknownType 0x600020)]

theorem scan_visits_two :
    let r := (scanMachine .usual).run (.processStart, .start) fiveHandles
    (r.1.scanHandles .usual fun _ _ object => object + 0x1000).2.map Visit.slot =
      [0x600000, 0x600018] :=
  (scan_visits_strong .usual fiveHandles _ (by decide)).1.trans (by decide)

end

end MiniGC
