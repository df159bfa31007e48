import MiniGC.Handle.Guards
import MiniGC.Lib.Linearized

/-!
# MiniGC.Handle.Interleaved

`StoreObjectInHandle`, `StoreObjectInHandleIfNull` and `InterlockedCompareExchangeObjectInHandle`
ask `ContainsHandle` first, and then access the slot themselves. Between the two other threads run.
Here a store is two steps, one for its guard and one for its access; every other call is one.

* `stores_sequential_iff`  the calls have the effects and the answers they would have one at a time,
  in the order in which they touch the slots, exactly if no access was overtaken.
-/

namespace MiniGC

/-! ## The two steps of a store -/

/-- The slot that a call accesses itself, once `ContainsHandle` has accepted it. -/
def Op.slot : Op → Option W
  | .storeObjectInHandle handle _
  | .storeObjectInHandleIfNull handle _
  | .interlockedCompareExchangeObjectInHandle handle _ _ => some handle
  | _ => none

/-- `g_miniGCHandleStore != nullptr && g_miniGCHandleStore->ContainsHandle(handle)`. -/
def passesGuard (A : HandleArray) (m : HandleManager) (handle : W) : Bool :=
  m.store && containsHandle A m.table handle

/-- What a store does after its guard. The arrays outlive the store object, so this does not need
one. -/
def slotAccess (A : HandleArray) (m : HandleManager) : Op → HandleManager × Answer
  | .storeObjectInHandle handle object => (m.setTable (writeSlot A m.table handle object), .void)
  | .storeObjectInHandleIfNull handle object =>
    let r := compareExchangePointer (readSlot A m.table handle) object 0
    (m.setTable (writeSlot A m.table handle r.1), .flag (r.2 = 0))
  | .interlockedCompareExchangeObjectInHandle handle object comparandObject =>
    let r := compareExchangePointer (readSlot A m.table handle) object comparandObject
    (m.setTable (writeSlot A m.table handle r.1), .object r.2)
  | _ => (m, .void)

/-- What the slot holds after the access, given what it held. -/
def Op.written : Op → W → W
  | .storeObjectInHandle _ object, _ => object
  | .storeObjectInHandleIfNull _ object, held => if held = 0 then object else held
  | .interlockedCompareExchangeObjectInHandle _ object comparandObject, held =>
    if held = comparandObject then object else held
  | _, held => held

def Op.reply : Op → W → Answer
  | .storeObjectInHandleIfNull _ _, held => .flag (held = 0)
  | .interlockedCompareExchangeObjectInHandle _ _ _, held => .object held
  | _, _ => .void

section

variable {A : HandleArray} {m : HandleManager} {op : Op} {handle : W} {i : Fin maxHandles}

theorem passesGuard_iff : passesGuard A m handle = true ↔
    m.store = true ∧ ∃ i, issuedIndex A m.table handle = some i ∧ (m.table.entry i).object ≠ 0 := by
  rw [passesGuard, Bool.and_eq_true, containsHandle_eq_true]

theorem slotAccess_issued (hslot : op.slot = some handle)
    (hi : issuedIndex A m.table handle = some i) :
    slotAccess A m op =
      (m.setTable (m.table.put i
        { m.table.entry i with object := op.written (m.table.entry i).object }),
        op.reply (m.table.entry i).object) := by
  cases op <;> cases hslot <;>
    simp [slotAccess, writeSlot_issued hi, readSlot_issued hi, Op.written, Op.reply]

/-- A store that runs alone, with its guard passed. -/
theorem handleStep_passed (hslot : op.slot = some handle)
    (hguard : passesGuard A m handle = true) : handleStep A m op = slotAccess A m op := by
  rw [passesGuard, Bool.and_eq_true] at hguard
  have hopen : ¬ (m.store = false ∨ containsHandle A m.table handle = false) := by
    simp [hguard.1, hguard.2]
  cases op <;> cases hslot <;>
    simp only [handleStep, slotAccess, HandleManager.storeObjectInHandle,
      HandleManager.storeObjectInHandleIfNull,
      HandleManager.interlockedCompareExchangeObjectInHandle, if_neg hopen]

theorem handleStep_stopped (hslot : op.slot = some handle)
    (hguard : passesGuard A m handle = false) : handleStep A m op = (m, op.failure) := by
  rw [passesGuard, Bool.and_eq_false_iff] at hguard
  cases op <;> cases hslot <;>
    simp only [handleStep, Op.failure, HandleManager.storeObjectInHandle,
      HandleManager.storeObjectInHandleIfNull,
      HandleManager.interlockedCompareExchangeObjectInHandle, if_pos hguard]

end

/-! ## Threads -/

structure HandleThreads (T : Type) where
  manager : HandleManager
  /-- The store that a thread has past its guard. -/
  pending : T → Option Op

inductive HandleAct (T : Type) where
  | call (t : T) (op : Op)
  | access (t : T)

def HandleAct.thread {T : Type} : HandleAct T → T
  | .call t _ | .access t => t

namespace HandleThreads

variable {T : Type}

def start : HandleThreads T := ⟨.processStart, fun _ => none⟩

def setManager (s : HandleThreads T) (m : HandleManager) : HandleThreads T :=
  { s with manager := m }

@[simp] theorem setManager_manager (s : HandleThreads T) (m : HandleManager) :
    (s.setManager m).manager = m := rfl

def setPending [DecidableEq T] (s : HandleThreads T) (t : T) (op : Option Op) : HandleThreads T :=
  { s with pending := Function.update s.pending t op }

variable [DecidableEq T]

@[simp] theorem setPending_manager (s : HandleThreads T) (t : T) (op : Option Op) :
    (s.setPending t op).manager = s.manager := rfl

@[simp] theorem setPending_self (s : HandleThreads T) (t : T) (op : Option Op) :
    (s.setPending t op).pending t = op := Function.update_self ..

theorem setPending_of_ne (s : HandleThreads T) {t t' : T} (h : t' ≠ t) (op : Option Op) :
    (s.setPending t op).pending t' = s.pending t' := Function.update_of_ne h ..

end HandleThreads

section

variable {T : Type} [DecidableEq T]

/-- The answer is the call that the step ends, with what it returns. -/
def interleavedStep (A : HandleArray) (s : HandleThreads T) :
    HandleAct T → HandleThreads T × Option (Op × Answer)
  | .call t op =>
    match s.pending t with
    | some _ => (s, none)
    | none =>
      if op.slot.any (passesGuard A s.manager) then (s.setPending t (some op), none)
      else
        let r := handleStep A s.manager op
        (s.setManager r.1, some (op, r.2))
  | .access t =>
    match s.pending t with
    | none => (s, none)
    | some op =>
      let r := slotAccess A s.manager op
      ((s.setManager r.1).setPending t none, some (op, r.2))

def interleavedMachine (T : Type) [DecidableEq T] (A : HandleArray) :
    Mealy (HandleThreads T) (HandleAct T) (Option (Op × Answer)) where
  step := interleavedStep A

@[simp] theorem interleavedMachine_next (A : HandleArray) (s : HandleThreads T) (a : HandleAct T) :
    (interleavedMachine T A).next s a = (interleavedStep A s a).1 := rfl

@[simp] theorem interleavedMachine_answer (A : HandleArray) (s : HandleThreads T)
    (a : HandleAct T) : (interleavedMachine T A).answer s a = (interleavedStep A s a).2 := rfl

/-- All that a step can do. -/
inductive InterleavedOutcome (A : HandleArray) (s : HandleThreads T) :
    HandleAct T → HandleThreads T × Option (Op × Answer) → Prop where
  /-- A thread inside a store makes no other call. -/
  | busy (t : T) (op op' : Op) (hop : s.pending t = some op') :
      InterleavedOutcome A s (.call t op) (s, none)
  | guarded (t : T) (op : Op) (handle : W) (hidle : s.pending t = none)
      (hslot : op.slot = some handle) (hguard : passesGuard A s.manager handle = true) :
      InterleavedOutcome A s (.call t op) (s.setPending t (some op), none)
  | whole (t : T) (op : Op) (hidle : s.pending t = none)
      (hguard : ∀ handle, op.slot = some handle → passesGuard A s.manager handle = false) :
      InterleavedOutcome A s (.call t op)
        (s.setManager (handleStep A s.manager op).1, some (op, (handleStep A s.manager op).2))
  | idle (t : T) (hidle : s.pending t = none) : InterleavedOutcome A s (.access t) (s, none)
  | accessed (t : T) (op : Op) (hop : s.pending t = some op) :
      InterleavedOutcome A s (.access t)
        ((s.setManager (slotAccess A s.manager op).1).setPending t none,
          some (op, (slotAccess A s.manager op).2))

theorem interleaved_outcome (A : HandleArray) (s : HandleThreads T) (a : HandleAct T) :
    InterleavedOutcome A s a (interleavedStep A s a) := by
  cases a with
  | call t op =>
    cases hidle : s.pending t with
    | some op' =>
      simp only [interleavedStep, hidle]
      exact .busy t op op' hidle
    | none =>
      by_cases hguard : op.slot.any (passesGuard A s.manager) = true
      · obtain ⟨handle, hslot, hpass⟩ := (Option.any_eq_true _ _).mp hguard
        simp only [interleavedStep, hidle, hguard, if_true]
        exact .guarded t op handle hidle hslot hpass
      · simp only [interleavedStep, hidle, hguard]
        refine .whole t op hidle fun handle hslot => ?_
        rw [hslot, Option.any_some] at hguard
        exact Bool.eq_false_iff.mpr hguard
  | access t =>
    cases hop : s.pending t with
    | none =>
      simp only [interleavedStep, hop]
      exact .idle t hop
    | some op =>
      simp only [interleavedStep, hop]
      exact .accessed t op hop

/-! ## Overtaken stores -/

/-- An access to a slot that the guard would stop now, and that the guard would have made a
difference to. -/
def Op.Overtaken (A : HandleArray) (m : HandleManager) : Op → Prop
  | .storeObjectInHandle handle object =>
    passesGuard A m handle = false ∧ readSlot A m.table handle ≠ object
  | .storeObjectInHandleIfNull handle _ => readSlot A m.table handle = 0
  | .interlockedCompareExchangeObjectInHandle handle object comparandObject =>
    passesGuard A m handle = false ∧
      (readSlot A m.table handle ≠ 0 ∨ comparandObject = 0 ∧ object ≠ 0)
  | _ => False

def Overtaken (A : HandleArray) (s : HandleThreads T) : HandleAct T → Prop
  | .access t => ∃ op, s.pending t = some op ∧ op.Overtaken A s.manager
  | .call _ _ => False

/-- The handle of a store past its guard is issued, and stays so. -/
structure PendingInv (A : HandleArray) (s : HandleThreads T) : Prop where
  issued : ∀ t op, s.pending t = some op →
    ∃ h i, op.slot = some h ∧ issuedIndex A s.manager.table h = some i

section

variable {A : HandleArray} {m : HandleManager} {op : Op} {handle : W} {i : Fin maxHandles}

theorem HandleOutcome.issued {r : HandleManager × Answer} (ho : HandleOutcome A m op r)
    (hi : issuedIndex A m.table handle = some i) :
    issuedIndex A r.1.table handle = some i := by
  cases ho with
  | created e _ room _ _ =>
    obtain ⟨hslot, hlt⟩ := issuedIndex_eq_some.mp hi
    exact issuedIndex_eq_some.mpr ⟨hslot, Nat.lt_succ_of_lt hlt⟩
  | _ => exact hi

theorem slotAccess_keeps (hslot : op.slot = some handle)
    (hi : issuedIndex A m.table handle = some i) {handle' : W} {j : Fin maxHandles}
    (hj : issuedIndex A m.table handle' = some j) :
    issuedIndex A (slotAccess A m op).1.table handle' = some j := by
  rw [slotAccess_issued hslot hi]
  exact hj

/-- An access changes the slot of its own handle and no other. -/
theorem slotAccess_object (hslot : op.slot = some handle)
    (hi : issuedIndex A m.table handle = some i) {handle' : W} {j : Fin maxHandles}
    (hj : issuedIndex A m.table handle' = some j) :
    getObject A (slotAccess A m op).1.table handle' =
      if j = i then op.written (getObject A m.table handle') else getObject A m.table handle' := by
  rw [getObject_issued (slotAccess_keeps hslot hi hj), getObject_issued hj,
    slotAccess_issued hslot hi, HandleManager.setTable, HandleTable.put_entry]
  split
  · rename_i hji
    rw [hji]
  · rfl

/-- Writing a slot changes nothing exactly if it held the same. -/
theorem put_object_eq {w : W} :
    m.setTable (m.table.put i { m.table.entry i with object := w }) = m ↔
      w = (m.table.entry i).object := by
  constructor
  · intro h
    have hentry := congrArg (fun m' : HandleManager => (m'.table.entry i).object) h
    simpa [HandleManager.setTable, HandleTable.put_entry] using hentry
  · rintro rfl
    rw [HandleTable.put_entry_self, HandleManager.setTable_self]

theorem overtaken_iff (hslot : op.slot = some handle)
    (hi : issuedIndex A m.table handle = some i) :
    handleStep A m op = slotAccess A m op ↔ ¬ op.Overtaken A m := by
  have hread := readSlot_issued hi
  by_cases hguard : passesGuard A m handle = true
  · refine iff_of_true (handleStep_passed hslot hguard) ?_
    obtain ⟨-, j, hj, hne⟩ := passesGuard_iff.mp hguard
    obtain rfl : i = j := Option.some.inj (hi.symm.trans hj)
    cases op with
    | storeObjectInHandle h object =>
      cases hslot
      exact fun hov => Bool.noConfusion (hguard.symm.trans hov.1)
    | storeObjectInHandleIfNull h object =>
      cases hslot
      exact fun hnull => hne (hread.symm.trans hnull)
    | interlockedCompareExchangeObjectInHandle h object comparandObject =>
      cases hslot
      exact fun hov => Bool.noConfusion (hguard.symm.trans hov.1)
    | _ => cases hslot
  · rw [Bool.not_eq_true] at hguard
    rw [handleStep_stopped hslot hguard, slotAccess_issued hslot hi, Prod.ext_iff,
      eq_comm (a := m), put_object_eq]
    cases op with
    | storeObjectInHandle h object =>
      cases hslot
      simp only [Op.Overtaken, Op.written, Op.reply, Op.failure, hguard, hread, true_and, and_true,
        not_not, ne_eq]
      exact eq_comm
    | storeObjectInHandleIfNull h object =>
      cases hslot
      simp only [Op.Overtaken, Op.written, Op.reply, Op.failure, hread, Answer.flag.injEq]
      by_cases hnull : (m.table.entry i).object = 0
      · exact iff_of_false (fun h => of_decide_eq_false h.2.symm hnull) (not_not_intro hnull)
      · exact iff_of_true ⟨if_neg hnull, (decide_eq_false hnull).symm⟩ hnull
    | interlockedCompareExchangeObjectInHandle h object comparandObject =>
      cases hslot
      simp only [Op.Overtaken, Op.written, Op.reply, Op.failure, hguard, hread, true_and,
        Answer.object.injEq]
      by_cases hnull : (m.table.entry i).object = 0
      · rw [hnull]
        simp only [and_true, not_not, not_and, ne_eq, not_true_eq_false, false_or,
          ite_eq_right_iff]
        rw [eq_comm (a := (0 : W))]
      · exact iff_of_false (fun h => hnull h.2.symm) (not_not_intro (.inl hnull))
    | _ => cases hslot

end

namespace PendingInv

variable {A : HandleArray} {s : HandleThreads T}

theorem step (hp : PendingInv A s) (a : HandleAct T) :
    PendingInv A ((interleavedMachine T A).next s a) := by
  have ho := interleaved_outcome A s a
  rw [interleavedMachine_next]
  generalize interleavedStep A s a = r at ho
  cases ho with
  | busy | idle => exact hp
  | guarded t op handle hidle hslot hguard =>
    obtain ⟨-, i, hi, -⟩ := passesGuard_iff.mp hguard
    refine ⟨fun t' op' hop => ?_⟩
    by_cases ht : t' = t
    · subst ht
      rw [HandleThreads.setPending_self] at hop
      cases hop
      exact ⟨handle, i, hslot, hi⟩
    · rw [s.setPending_of_ne ht] at hop
      exact hp.issued t' op' hop
  | whole t op hidle hguard =>
    refine ⟨fun t' op' hop => ?_⟩
    obtain ⟨h, i, hslot, hi⟩ := hp.issued t' op' hop
    exact ⟨h, i, hslot, (handleStep_outcome A s.manager op).issued hi⟩
  | accessed t op hop =>
    obtain ⟨h, i, hslot, hi⟩ := hp.issued t op hop
    refine ⟨fun t' op' hop' => ?_⟩
    by_cases ht : t' = t
    · subst ht
      rw [HandleThreads.setPending_self] at hop'
      cases hop'
    · rw [HandleThreads.setPending_of_ne _ ht] at hop'
      obtain ⟨h', i', hslot', hi'⟩ := hp.issued t' op' hop'
      exact ⟨h', i', hslot', slotAccess_keeps hslot hi hi'⟩

theorem explains_iff (hp : PendingInv A s) (a : HandleAct T) :
    (interleavedMachine T A).Explains (handleMachine A) HandleThreads.manager s a ↔
      ¬ Overtaken A s a := by
  have ho := interleaved_outcome A s a
  unfold Mealy.Explains
  rw [interleavedMachine_next, interleavedMachine_answer]
  generalize interleavedStep A s a = r at ho
  cases ho with
  | busy => exact iff_of_true rfl id
  | idle t hidle =>
    refine iff_of_true rfl ?_
    rintro ⟨op, hop, -⟩
    rw [hidle] at hop
    cases hop
  | guarded => exact iff_of_true rfl id
  | whole t op => exact iff_of_true rfl id
  | accessed t op hop =>
    obtain ⟨h, i, hslot, hi⟩ := hp.issued t op hop
    refine Iff.trans (overtaken_iff hslot hi) (not_congr ⟨fun hov => ⟨op, hop, hov⟩, ?_⟩)
    rintro ⟨op', hop', hov⟩
    rw [hop] at hop'
    cases hop'
    exact hov

end PendingInv

theorem pendingInv_run (A : HandleArray) (acts : List (HandleAct T)) :
    PendingInv A ((interleavedMachine T A).run .start acts) :=
  (interleavedMachine T A).run_inv (fun _ a hp => hp.step a) ⟨fun _ _ h => by cases h⟩ acts

/-- In every interleaving, the manager is where the calls would have taken it one at a time, in the
order in which they ended, and they got the same answers, exactly if no access was overtaken. -/
theorem stores_sequential_iff (A : HandleArray) (acts : List (HandleAct T)) :
    (interleavedMachine T A).Sequential (handleMachine A) HandleThreads.manager .start acts ↔
      (interleavedMachine T A).EachStep (fun s a => ¬ Overtaken A s a) .start acts := by
  rw [Mealy.sequential_iff]
  constructor
  · intro h p a hpa
    exact ((pendingInv_run A p).explains_iff a).mp (h p a hpa)
  · intro h p a hpa
    exact ((pendingInv_run A p).explains_iff a).mpr (h p a hpa)

end

end MiniGC
