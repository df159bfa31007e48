import MiniGC.Handle.Laws
import MiniGC.Handle.Scan

/-!
# MiniGC.Handle.Duplicate

`CreateDuplicateHandle`. It copies the object and the type, and it passes through `ContainsHandle`.

* `reads`          all that can be read of a handle.
* `Duplicates`     the new handle reads like the old one, and the two are apart from then on.
* `duplicate_iff`  it is so exactly for a handle that holds an object and has nothing else to copy.
-/

namespace MiniGC

/-- What the read operations give for a handle. -/
def HandleManager.reads (A : HandleArray) (m : HandleManager) (handle : W) : Entry where
  object := getObject A m.table handle
  type := m.handleFetchType A handle
  secondary := m.getDependentHandleSecondary A handle
  extraInfo := m.getExtraInfoFromHandle A handle

/-- A duplicate of `h`, made from the state `m`, where `r` is the state it leaves and the handle it
returns. -/
structure Duplicates (A : HandleArray) (m : HandleManager) (H : History) (h : W)
    (r : HandleManager × W) : Prop where
  ne_null : r.2 ≠ 0
  fresh : r.2 ∉ H.created
  same : r.1.reads A r.2 = r.1.reads A h
  kept : ∀ h', h' ≠ r.2 → r.1.reads A h' = m.reads A h'
  /-- No later call on other handles, the other one of the two among them, changes what one
  reads. -/
  apart : ∀ x, x = h ∨ x = r.2 → ∀ ops : List Op,
    (∀ op ∈ ops, op.session = none ∧ op.target ≠ some x) →
      ((handleMachine A).run r.1 ops).reads A x = r.1.reads A x

section

variable {A : HandleArray} {m : HandleManager} {H : History}

/-! ## The reads are those of the entry -/

theorem HandleManager.reads_view (hstore : m.store = true) (h : W) :
    m.reads A h = (m.table.view A h).getD ⟨0, .hndtypeWeakShort, 0, 0⟩ := by
  simp only [HandleManager.reads, HandleManager.handleFetchType,
    HandleManager.getDependentHandleSecondary, HandleManager.getExtraInfoFromHandle, hstore,
    if_true, getObject_view, getType_view, getDependentSecondary_view, getExtraInfo_view]
  cases m.table.view A h <;> rfl

theorem HandleOutcome.store_eq {op : Op} {r : HandleManager × Answer} (ho : HandleOutcome A m op r)
    (hop : op.session = none) : r.1.store = m.store := by
  cases ho with
  | session a store hsession =>
    rw [hop] at hsession
    cases hsession
  | _ => rfl

theorem store_run {ops : List Op} (hops : ∀ op ∈ ops, op.session = none) :
    ((handleMachine A).run m ops).store = m.store := by
  induction ops generalizing m with
  | nil => rfl
  | cons op ops ih =>
    have hfirst := (handleStep_outcome A m op).store_eq (hops op List.mem_cons_self)
    exact (ih fun op' h' => hops op' (List.mem_cons_of_mem op h')).trans hfirst

/-- Calls on other handles leave alone all that is read of an issued handle. -/
theorem reads_run (hstore : m.store = true) {x : W} {e : Entry} (hv : m.table.view A x = some e)
    {ops : List Op} (hops : ∀ op ∈ ops, op.session = none ∧ op.target ≠ some x) :
    ((handleMachine A).run m ops).reads A x = m.reads A x := by
  have hrun := view_contends_run hv fun op hop =>
    ⟨(hops op hop).1, fun htarget => absurd htarget (hops op hop).2⟩
  have hstore' : ((handleMachine A).run m ops).store = true :=
    (store_run fun op hop => (hops op hop).1).trans hstore
  rw [HandleManager.reads_view hstore, HandleManager.reads_view hstore', hrun, hv]

/-! ## The duplicate -/

theorem duplicate_of_null {h : W} (hnot : containsHandle A m.table h = false) :
    m.createDuplicateHandle A h = (m, 0) := by
  rw [HandleManager.createDuplicateHandle, if_pos (.inr hnot)]

/-- Object and type are copied, secondary and extra info are null. -/
theorem duplicate_of_object {h : W} {i : Fin maxHandles} (hstore : m.store = true)
    (room : m.table.handlesCount < maxHandles) (hi : issuedIndex A m.table h = some i)
    (hobject : (m.table.entry i).object ≠ 0) :
    m.createDuplicateHandle A h =
      (m.setTable (m.table.push room ⟨(m.table.entry i).object, (m.table.entry i).type, 0, 0⟩),
        A.slot m.table.handlesCount) := by
  have hc := (contained_of_object hi).mpr hobject
  rw [HandleManager.createDuplicateHandle, if_neg (by simp [hstore, hc])]
  simp only [getObject_issued hi, getType_issued hi, createHandleOfType_room room]

/-- A handle pushed for a live handle duplicates it if its entry is the same. -/
theorem duplicates_push_iff (hr : Refines A m H) (hstore : m.store = true)
    (room : m.table.handlesCount < maxHandles) {h : W} {e e' : Entry}
    (hv : m.table.view A h = some e) :
    Duplicates A m H h (m.setTable (m.table.push room e'), A.slot m.table.handlesCount) ↔
      e' = e := by
  have hreads : ∀ x, (m.setTable (m.table.push room e')).reads A x =
      ((m.table.push room e').view A x).getD ⟨0, .hndtypeWeakShort, 0, 0⟩ :=
    HandleManager.reads_view hstore
  have hnew : (m.table.push room e').view A (A.slot m.table.handlesCount) = some e' := by
    rw [HandleTable.view_push, Function.update_self]
  have hold : ∀ x, x ≠ A.slot m.table.handlesCount →
      (m.table.push room e').view A x = m.table.view A x := by
    intro x hx
    rw [HandleTable.view_push, Function.update_of_ne hx]
  have hh : h ≠ A.slot m.table.handlesCount := by
    rintro rfl
    rw [HandleTable.view_next room] at hv
    cases hv
  have hview := (hold h hh).trans hv
  have hsame : (m.setTable (m.table.push room e')).reads A (A.slot m.table.handlesCount) =
      (m.setTable (m.table.push room e')).reads A h ↔ e' = e := by
    rw [hreads, hreads, hnew, hview]
    rfl
  refine ⟨fun hd => hsame.mp hd.same, fun he => ?_⟩
  refine ⟨A.slot_ne_null room.le, hr.slot_fresh room, hsame.mpr he, fun x hx => ?_,
    fun x hx ops hops => ?_⟩
  · rw [hreads, hold x hx, HandleManager.reads_view hstore]
  · rcases hx with rfl | rfl
    · exact reads_run (m := m.setTable (m.table.push room e')) hstore hview hops
    · exact reads_run (m := m.setTable (m.table.push room e')) hstore hnew hops

/-- In every reachable state with room for one more handle, the duplicate of a live handle is one
exactly if the handle holds an object, and has neither a secondary nor extra info. -/
theorem duplicate_iff (A : HandleArray) (calls : List HandleCall) (h : W) :
    let r := (scanMachine A).run (.processStart, .start) calls
    r.1.store = true → r.1.table.handlesCount < maxHandles → r.2.live h ≠ none →
      (Duplicates A r.1 r.2 h (r.1.createDuplicateHandle A h) ↔
        getObject A r.1.table h ≠ 0 ∧ r.1.getDependentHandleSecondary A h = 0 ∧
          r.1.getExtraInfoFromHandle A h = 0) := by
  intro r hstore room hlive
  have hr : Refines A r.1 r.2 := refines_scan_run A calls
  obtain ⟨i, hi⟩ := hr.live_issued hlive
  have hview := HandleTable.view_issued hi
  have hobj : getObject A r.1.table h = (r.1.table.entry i).object := getObject_issued hi
  have hsec : r.1.getDependentHandleSecondary A h = (r.1.table.entry i).secondary := by
    rw [HandleManager.getDependentHandleSecondary, if_pos hstore, getDependentSecondary_view, hview]
    rfl
  have hextra : r.1.getExtraInfoFromHandle A h = (r.1.table.entry i).extraInfo := by
    rw [HandleManager.getExtraInfoFromHandle, if_pos hstore, getExtraInfo_view, hview]
    rfl
  rw [hobj, hsec, hextra]
  by_cases hobject : (r.1.table.entry i).object = 0
  · have hnot : containsHandle A r.1.table h = false := by
      rw [← Bool.not_eq_true, contained_of_object hi]
      exact not_not_intro hobject
    rw [duplicate_of_null hnot]
    exact iff_of_false (fun hd => hd.ne_null rfl) fun hcond => hcond.1 hobject
  · rw [duplicate_of_object hstore room hi hobject, duplicates_push_iff hr hstore room hview,
      and_iff_right hobject, Entry.mk.injEq]
    simp [eq_comm]

end

/-- A pinned handle on an object. -/
theorem duplicate_pinned :
    let r := (scanMachine .usual).run (.processStart, .start)
      [.op .initializeManager, .op (.createGlobalHandleOfType 0x10 .hndtypePinned)]
    Duplicates .usual r.1 r.2 0x600000 (r.1.createDuplicateHandle .usual 0x600000) :=
  (duplicate_iff .usual
    [.op .initializeManager, .op (.createGlobalHandleOfType 0x10 .hndtypePinned)] 0x600000
    (by decide) (by decide) (by decide)).mpr (by decide)

/-- A handle made for null has no duplicate, and the duplicate of a dependent handle has no
secondary. -/
theorem duplicate_fails :
    let r := (scanMachine .usual).run (.processStart, .start)
      [.op .initializeManager, .op (.createGlobalHandleOfType 0 .hndtypeStrong),
        .op (.createDependentHandle 0x10 0x20)]
    r.1.store = true ∧ r.1.table.handlesCount < maxHandles ∧
      r.2.live 0x600000 ≠ none ∧ (r.1.createDuplicateHandle .usual 0x600000).2 = 0 ∧
      ¬ Duplicates .usual r.1 r.2 0x600000 (r.1.createDuplicateHandle .usual 0x600000) ∧
      r.2.live 0x600008 ≠ none ∧
      ((r.1.createDuplicateHandle .usual 0x600008).1.reads .usual 0x600008).secondary = 0x20 ∧
      (r.1.createDuplicateHandle .usual 0x600008).2 = 0x600010 ∧
      ((r.1.createDuplicateHandle .usual 0x600008).1.reads .usual 0x600010).secondary = 0 ∧
      ¬ Duplicates .usual r.1 r.2 0x600008 (r.1.createDuplicateHandle .usual 0x600008) := by
  intro r
  have hnull : (r.1.createDuplicateHandle .usual 0x600000).2 = 0 := by decide
  refine ⟨by decide, by decide, by decide, hnull, fun hd => hd.ne_null hnull, by decide, by decide,
    by decide, by decide, fun hd => ?_⟩
  have hsame := congrArg Entry.secondary hd.same
  exact absurd hsame (by decide)

end MiniGC
