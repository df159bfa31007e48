import MiniGC.Handle.History

/-!
# MiniGC.Handle.Capacity

When a create fails. Indices only go up: `DestroyHandle` clears a slot but gives nothing back, so
the table is full after `MaxHandles` creates, however many of those handles are still alive.

* `create_null_iff`   a create returns null exactly when that many creates have succeeded before
  it, or when there is nothing to duplicate.
* `churn`             creates and destroys in turn: never more than one handle alive, and a full
  table in the end.
-/

namespace MiniGC

section

variable {A : HandleArray} {m : HandleManager} {H : History} {op : Op}

theorem Refines.created_length (hr : Refines A m H) : H.created.length = m.table.handlesCount := by
  rw [hr.created, List.length_map, List.length_range]

/-- Only a duplicate has nothing to make its entry from: a handle that is not contained. -/
theorem entry_eq_none (hop : op.isCreate = true) :
    op.entry (m.table.contained A) = none ↔
      ∃ h, op = .createDuplicateHandle h ∧ containsHandle A m.table h = false := by
  cases op
  case createDuplicateHandle h =>
    rw [Op.entry, Option.map_eq_none_iff]
    rcases contained_cases (A := A) (m := m) h with ⟨hc, hnone, -⟩ | ⟨hc, i, -, -, hsome⟩
    · exact iff_of_true hnone ⟨h, rfl, hc⟩
    · refine iff_of_false (by rw [hsome]; exact Option.some_ne_none _) ?_
      rintro ⟨h', heq, hc'⟩
      cases heq
      rw [hc] at hc'
      cases hc'
  all_goals first
    | exact absurd hop Bool.false_ne_true
    | exact iff_of_false (Option.some_ne_none _) (by rintro ⟨h, heq, -⟩; cases heq)

theorem HandleOutcome.create_null {r : HandleManager × Answer} (ho : HandleOutcome A m op r)
    (hstore : m.store = true) (hop : op.isCreate = true) : r.2 = .handle 0 ↔
      m.table.handlesCount = maxHandles ∨ op.entry (m.table.contained A) = none := by
  rcases ho.create_cases hstore hop with ⟨e, room, he, rfl⟩ | ⟨why, rfl⟩
  · refine iff_of_false (fun h0 => ?_) ?_
    · exact A.slot_ne_null room.le (Answer.handle.inj h0)
    · rintro (hfull | hnone)
      · exact absurd hfull (Nat.ne_of_lt room)
      · rw [he] at hnone; cases hnone
  · exact iff_of_true rfl why

/-! ## Creates and destroys in turn -/

/-- `n` times a create, and the destruction of the handle it returned. -/
def churn (A : HandleArray) : Nat → List Op
  | 0 => [.initializeManager]
  | n + 1 => churn A n ++
    [.createGlobalHandleOfType 0x10 .hndtypeStrong, .destroyHandleOfUnknownType (A.slot n)]

/-- Nothing is alive, and `n` handles have been. -/
structure Churned (n : Nat) (r : HandleManager × History) : Prop where
  store : r.1.store = true
  initialised : r.2.initialised = true
  count : r.1.table.handlesCount = n
  live : ∀ h, r.2.live h = none

theorem Churned.step {n : Nat} (hn : n < maxHandles) (hc : Churned n (m, H)) :
    Churned (n + 1) ((historyMachine A).run (m, H)
      [.createGlobalHandleOfType 0x10 .hndtypeStrong, .destroyHandleOfUnknownType (A.slot n)]) := by
  have hstore : m.store = true := hc.store
  have hinit : H.initialised = true := hc.initialised
  obtain rfl : m.table.handlesCount = n := hc.count
  have hcreate : handleStep A m (.createGlobalHandleOfType 0x10 .hndtypeStrong) =
      (m.setTable (m.table.push hn ⟨0x10, .hndtypeStrong, 0, 0⟩),
        .handle (A.slot m.table.handlesCount)) := by
    simp only [handleStep, HandleManager.createGlobalHandleOfType, hstore, if_true,
      createHandleOfType_room hn]
  have hissued := m.table.push_issued (A := A) hn ⟨0x10, .hndtypeStrong, 0, 0⟩
  have hdestroy : handleStep A (m.setTable (m.table.push hn ⟨0x10, .hndtypeStrong, 0, 0⟩))
      (.destroyHandleOfUnknownType (A.slot m.table.handlesCount)) =
        (m.setTable ((m.table.push hn ⟨0x10, .hndtypeStrong, 0, 0⟩).put ⟨_, hn⟩
          ⟨0, ((m.table.push hn ⟨0x10, .hndtypeStrong, 0, 0⟩).entry ⟨_, hn⟩).type, 0, 0⟩),
          .void) := by
    simp only [handleStep, HandleManager.destroyHandleOfUnknownType, HandleManager.setTable, hstore,
      if_true, destroyHandle_issued hissued]
  have hrecord := History.record_created hinit
    (show Op.isCreate (.createGlobalHandleOfType 0x10 .hndtypeStrong) = true from rfl)
    (A.slot_ne_null hn.le)
  have hforget : ∀ H' : History, H'.initialised = true → ∀ h,
      H'.record (.destroyHandleOfUnknownType h) .void =
        { H' with live := Function.update H'.live h none } := by
    intro H' hinit' h
    rw [History.record_update hinit' rfl]
    cases H'.live h <;> rfl
  simp only [Mealy.run_cons, Mealy.run_nil, historyMachine_next, hcreate, hrecord]
  rw [hdestroy, hforget]
  · refine ⟨hstore, hinit, rfl, fun h => ?_⟩
    by_cases hh : h = A.slot m.table.handlesCount
    · subst hh
      exact Function.update_self _ _ _
    · simp only [Function.update_of_ne hh]
      exact hc.live h
  · exact hinit

theorem churned_run (A : HandleArray) {n : Nat} (hn : n ≤ maxHandles) :
    Churned n ((historyMachine A).run (.processStart, .start) (churn A n)) := by
  induction n with
  | zero => exact ⟨rfl, rfl, rfl, fun _ => rfl⟩
  | succ n ih =>
    rw [churn, Mealy.run_append]
    exact (ih (Nat.le_of_succ_le hn)).step hn

/-! ## When a create fails -/

/-- In every reachable state a create returns null exactly when `MaxHandles` handles have been
created, destroyed ones included, or when it is to duplicate a value that `ContainsHandle`
rejects. -/
theorem create_null_iff (A : HandleArray) (ops : List Op) (op : Op) :
    let r := (historyMachine A).run (.processStart, .start) ops
    r.1.store = true → op.isCreate = true →
      ((handleStep A r.1 op).2 = .handle 0 ↔ r.2.created.length = maxHandles ∨
        ∃ h, op = .createDuplicateHandle h ∧ containsHandle A r.1.table h = false) := by
  intro r hstore hop
  have hr : Refines A r.1 r.2 := refines_run A ops
  rw [hr.created_length, ← entry_eq_none hop]
  exact (handleStep_outcome A r.1 op).create_null hstore hop

/-- Behind 65535 creates and as many destroys a create fails. Behind one of each it has room, and
the destroyed handle no duplicate. -/
theorem create_null_after_churn :
    let full := (historyMachine .usual).run (.processStart, .start) (churn .usual 65535)
    let one := (historyMachine .usual).run (.processStart, .start) (churn .usual 1)
    (handleStep .usual full.1 (.createDependentHandle 0x10 0x20)).2 = .handle 0 ∧
      (handleStep .usual one.1 (.createDependentHandle 0x10 0x20)).2 ≠ .handle 0 ∧
      (handleStep .usual one.1 (.createDuplicateHandle 0x600000)).2 = .handle 0 := by
  have hfull := create_null_iff .usual (churn .usual 65535) (.createDependentHandle 0x10 0x20)
  have hone := create_null_iff .usual (churn .usual 1) (.createDependentHandle 0x10 0x20)
  have hduplicate := create_null_iff .usual (churn .usual 1) (.createDuplicateHandle 0x600000)
  have hchurned : Churned 65535 _ := churned_run .usual (Nat.le_refl maxHandles)
  have hcreated := (refines_run .usual (churn .usual 65535)).created_length
  refine ⟨?_, fun hnull => ?_, (hduplicate (by decide) rfl).mpr (.inr ⟨0x600000, rfl, by decide⟩)⟩
  · generalize (historyMachine .usual).run (.processStart, .start) (churn .usual 65535) = full at *
    exact (hfull hchurned.store rfl).mpr (.inl (hcreated.trans hchurned.count))
  · rcases (hone (by decide) rfl).mp hnull with hcount | ⟨h, hop, -⟩
    · exact absurd hcount (by decide)
    · cases hop

/-- After 65535 creates, each followed by the destruction of its handle, no handle is alive, and the
next create returns null. -/
theorem create_fails_with_none_live :
    let r := (historyMachine .usual).run (.processStart, .start) (churn .usual 65535)
    (∀ h, r.2.live h = none) ∧
      (handleStep .usual r.1 (.createGlobalHandleOfType 0x10 .hndtypeStrong)).2 = .handle 0 := by
  intro r
  have hc : Churned 65535 r := churned_run .usual (Nat.le_refl maxHandles)
  refine ⟨hc.live, ?_⟩
  have ho := handleStep_outcome .usual r.1 (.createGlobalHandleOfType 0x10 .hndtypeStrong)
  exact (ho.create_null hc.store rfl).mpr (.inl hc.count)

end

end MiniGC
