import MiniGC.Handle.Scan

/-!
# MiniGC.Handle.Relocate

Handles are addresses of slots, and the loader decides where the slots are. A process whose arrays
lie at `A'` does with the relocated handles what one whose arrays lie at `A` does with its own.

* `HandleArray.relocate`   the address at `A'` of the slot that has this address at `A`.
* `handleStep_relocate`, `HandleManager.scanHandles_relocate`   one call.
* `handles_relocate`       every run, scans with any callback included.
-/

namespace MiniGC

/-! ## Addresses -/

/-- An address that is no slot's becomes null, which is none either. -/
def HandleArray.relocate (A A' : HandleArray) (handle : W) : W :=
  match getHandleIndex A handle with
  | some index => A'.slot index
  | none => 0

section

variable (A A' : HandleArray)

@[simp] theorem relocate_slot (i : Fin maxHandles) : A.relocate A' (A.slot i) = A'.slot i := by
  rw [HandleArray.relocate, getHandleIndex_slot]

@[simp] theorem relocate_null : A.relocate A' 0 = 0 := rfl

@[simp] theorem getHandleIndex_relocate (handle : W) :
    getHandleIndex A' (A.relocate A' handle) = getHandleIndex A handle := by
  cases h : getHandleIndex A handle with
  | none =>
    rw [HandleArray.relocate, h]
    rfl
  | some i => rw [HandleArray.relocate, h, getHandleIndex_slot]

@[simp] theorem issuedIndex_relocate (t : HandleTable) (handle : W) :
    issuedIndex A' t (A.relocate A' handle) = issuedIndex A t handle := by
  rw [issuedIndex, getHandleIndex_relocate, issuedIndex]

/-! ## The store -/

variable (t : HandleTable) (handle : W)

@[simp] theorem containsHandle_relocate :
    containsHandle A' t (A.relocate A' handle) = containsHandle A t handle := by
  rw [containsHandle, issuedIndex_relocate, containsHandle]

@[simp] theorem destroyHandle_relocate :
    destroyHandle A' t (A.relocate A' handle) = destroyHandle A t handle := by
  rw [destroyHandle, issuedIndex_relocate, destroyHandle]

@[simp] theorem getObject_relocate :
    getObject A' t (A.relocate A' handle) = getObject A t handle := by
  rw [getObject, issuedIndex_relocate, getObject]

@[simp] theorem getDependentSecondary_relocate :
    getDependentSecondary A' t (A.relocate A' handle) = getDependentSecondary A t handle := by
  rw [getDependentSecondary, issuedIndex_relocate, getDependentSecondary]

@[simp] theorem setDependentSecondary_relocate (object : W) :
    setDependentSecondary A' t (A.relocate A' handle) object =
      setDependentSecondary A t handle object := by
  rw [setDependentSecondary, issuedIndex_relocate, setDependentSecondary]

@[simp] theorem getType_relocate : getType A' t (A.relocate A' handle) = getType A t handle := by
  rw [getType, issuedIndex_relocate, getType]

@[simp] theorem setExtraInfo_relocate (value : W) :
    setExtraInfo A' t (A.relocate A' handle) value = setExtraInfo A t handle value := by
  rw [setExtraInfo, issuedIndex_relocate, setExtraInfo]

@[simp] theorem getExtraInfo_relocate :
    getExtraInfo A' t (A.relocate A' handle) = getExtraInfo A t handle := by
  rw [getExtraInfo, issuedIndex_relocate, getExtraInfo]

@[simp] theorem readSlot_relocate : readSlot A' t (A.relocate A' handle) = readSlot A t handle := by
  rw [readSlot, getHandleIndex_relocate, readSlot]

@[simp] theorem writeSlot_relocate (value : W) :
    writeSlot A' t (A.relocate A' handle) value = writeSlot A t handle value := by
  rw [writeSlot, getHandleIndex_relocate, writeSlot]

/-- A create makes the same entry, and returns the relocated handle. -/
@[simp] theorem createHandleOfType_relocate (object : W) (type : HandleType) :
    createHandleOfType A' t object type = ((createHandleOfType A t object type).1,
      A.relocate A' (createHandleOfType A t object type).2) := by
  by_cases h : t.handlesCount < maxHandles
  · rw [createHandleOfType_room h, createHandleOfType_room h]
    exact Prod.ext rfl (relocate_slot A A' ⟨t.handlesCount, h⟩).symm
  · rw [createHandleOfType_full h, createHandleOfType_full h, relocate_null]

end

/-! ## Calls and answers -/

/-- The call with its handle relocated. -/
def Op.relocate (f : W → W) : Op → Op
  | .createDuplicateHandle handle => .createDuplicateHandle (f handle)
  | .destroyHandleOfType handle type => .destroyHandleOfType (f handle) type
  | .destroyHandleOfUnknownType handle => .destroyHandleOfUnknownType (f handle)
  | .setExtraInfoForHandle handle type pExtraInfo =>
    .setExtraInfoForHandle (f handle) type pExtraInfo
  | .getExtraInfoFromHandle handle => .getExtraInfoFromHandle (f handle)
  | .storeObjectInHandle handle object => .storeObjectInHandle (f handle) object
  | .storeObjectInHandleIfNull handle object => .storeObjectInHandleIfNull (f handle) object
  | .setDependentHandleSecondary handle object => .setDependentHandleSecondary (f handle) object
  | .getDependentHandleSecondary handle => .getDependentHandleSecondary (f handle)
  | .interlockedCompareExchangeObjectInHandle handle object comparandObject =>
    .interlockedCompareExchangeObjectInHandle (f handle) object comparandObject
  | .handleFetchType handle => .handleFetchType (f handle)
  | .containsHandle handle => .containsHandle (f handle)
  | .getObject handle => .getObject (f handle)
  | op => op

def Answer.relocate (f : W → W) : Answer → Answer
  | .handle value => .handle (f value)
  | a => a

def Visit.relocate (f : W → W) (v : Visit) : Visit := { v with slot := f v.slot }

/-- The callback that undoes the relocation of all it is given. -/
def PromoteFunc.relocate (back : W → W) (pf : PromoteFunc) : PromoteFunc :=
  fun visits slot object => pf (visits.map (Visit.relocate back)) (back slot) object

def HandleCall.relocate (A A' : HandleArray) : HandleCall → HandleCall
  | .op o => .op (o.relocate (A.relocate A'))
  | .scanHandles pf => .scanHandles (pf.relocate (A'.relocate A))

def HandleResult.relocate (A A' : HandleArray) : HandleResult → HandleResult
  | .answer a => .answer (a.relocate (A.relocate A'))
  | .visits vs => .visits (vs.map (Visit.relocate (A.relocate A')))

theorem storeCreate_relocate (f : W → W) (m : HandleManager) (r : HandleTable × W) :
    storeCreate m (r.1, f r.2) =
      ((storeCreate m r).1, ((storeCreate m r).2).relocate f) := by
  unfold storeCreate
  split <;> rfl

theorem storeRead_relocate (f : W → W) (m : HandleManager) {a : Answer} (ha : a.relocate f = a) :
    storeRead m a = ((storeRead m a).1, ((storeRead m a).2).relocate f) := by
  unfold storeRead
  split
  · rw [ha]
  · rfl

theorem handleStep_relocate (A A' : HandleArray) (m : HandleManager) (op : Op) :
    handleStep A' m (op.relocate (A.relocate A')) =
      ((handleStep A m op).1, (handleStep A m op).2.relocate (A.relocate A')) := by
  cases op with
  | initializeManager | shutdownManager => rfl
  | createGlobalHandleOfType object type =>
    simp only [Op.relocate, handleStep, HandleManager.createGlobalHandleOfType,
      createHandleOfType_relocate A A']
    split <;> rfl
  | createDuplicateHandle handle =>
    simp only [Op.relocate, handleStep, HandleManager.createDuplicateHandle,
      containsHandle_relocate, getObject_relocate, getType_relocate,
      createHandleOfType_relocate A A']
    split <;> rfl
  | destroyHandleOfType handle type | destroyHandleOfUnknownType handle =>
    simp only [Op.relocate, handleStep, HandleManager.destroyHandleOfType,
      HandleManager.destroyHandleOfUnknownType, destroyHandle_relocate]
    rfl
  | setExtraInfoForHandle handle type pExtraInfo =>
    simp only [Op.relocate, handleStep, HandleManager.setExtraInfoForHandle,
      setExtraInfo_relocate]
    rfl
  | setDependentHandleSecondary handle object =>
    simp only [Op.relocate, handleStep, HandleManager.setDependentHandleSecondary,
      setDependentSecondary_relocate]
    rfl
  | getExtraInfoFromHandle handle | getDependentHandleSecondary handle | handleFetchType handle =>
    simp only [Op.relocate, handleStep, HandleManager.getExtraInfoFromHandle,
      HandleManager.getDependentHandleSecondary, HandleManager.handleFetchType,
      getExtraInfo_relocate, getDependentSecondary_relocate, getType_relocate]
    rfl
  | storeObjectInHandle handle object =>
    simp only [Op.relocate, handleStep, HandleManager.storeObjectInHandle,
      containsHandle_relocate, writeSlot_relocate]
    rfl
  | storeObjectInHandleIfNull handle object =>
    simp only [Op.relocate, handleStep, HandleManager.storeObjectInHandleIfNull,
      containsHandle_relocate, readSlot_relocate, writeSlot_relocate]
    rfl
  | interlockedCompareExchangeObjectInHandle handle object comparandObject =>
    simp only [Op.relocate, handleStep, HandleManager.interlockedCompareExchangeObjectInHandle,
      containsHandle_relocate, readSlot_relocate, writeSlot_relocate]
    rfl
  | containsHandle handle | getObject handle =>
    simp only [Op.relocate, handleStep, containsHandle_relocate, getObject_relocate]
    exact storeRead_relocate _ m rfl
  | createHandleOfType object type | createHandleOfTypeOn object type heapToAffinitizeTo =>
    simp only [Op.relocate, handleStep, createHandleOfTypeOn, createHandleOfType_relocate A A']
    exact storeCreate_relocate _ m _
  | createHandleWithExtraInfo object type pExtraInfo =>
    simp only [Op.relocate, handleStep, createHandleWithExtraInfo,
      createHandleOfType_relocate A A', setExtraInfo_relocate]
    exact storeCreate_relocate _ m (_, _)
  | createDependentHandle primary secondary =>
    simp only [Op.relocate, handleStep, createDependentHandle,
      createHandleOfType_relocate A A', setDependentSecondary_relocate]
    exact storeCreate_relocate _ m (_, _)

/-! ## Scans -/

theorem HandleManager.scanHandles_relocate (A A' : HandleArray) (m : HandleManager)
    (pf : PromoteFunc) :
    m.scanHandles A' (pf.relocate (A'.relocate A)) = ((m.scanHandles A pf).1,
      (m.scanHandles A pf).2.map (Visit.relocate (A.relocate A'))) := by
  have hback : ∀ vs : List (Sweep.Visit (Fin maxHandles) W),
      (vs.map (Visit.ofIndex A')).map (Visit.relocate (A'.relocate A)) =
        vs.map (Visit.ofIndex A) := by
    intro vs
    simp [Visit.ofIndex, Visit.relocate, Function.comp_def]
  have hthere : ∀ vs : List (Sweep.Visit (Fin maxHandles) W),
      (vs.map (Visit.ofIndex A)).map (Visit.relocate (A.relocate A')) =
        vs.map (Visit.ofIndex A') := by
    intro vs
    simp [Visit.ofIndex, Visit.relocate, Function.comp_def]
  -- told by index, the callback is the same one
  have hpf : (pf.relocate (A'.relocate A)).atIndex A' = pf.atIndex A := by
    funext vs i object
    rw [PromoteFunc.atIndex, PromoteFunc.relocate, hback, relocate_slot, PromoteFunc.atIndex]
  unfold HandleManager.scanHandles
  split
  · rw [scanHandles_eq, hpf, scanHandles_eq]
    exact Prod.ext rfl (hthere _).symm
  · rfl

/-- The same process, loaded elsewhere: it takes the relocated calls, and gives the relocated
answers. -/
def relocatePart (A A' : HandleArray) : (callMachine A).Part (callMachine A') where
  state m := m
  input call := some (call.relocate A A')
  output result := some (result.relocate A A')
  next m call := by
    cases call with
    | op o => exact (congrArg Prod.fst (handleStep_relocate A A' m o)).symm
    | scanHandles pf => exact (congrArg Prod.fst (m.scanHandles_relocate A A' pf)).symm
  answer m call call' h := by
    cases h
    cases call with
    | op o =>
      exact congrArg (fun a => some (HandleResult.answer a))
        (congrArg Prod.snd (handleStep_relocate A A' m o)).symm
    | scanHandles pf =>
      exact congrArg (fun vs => some (HandleResult.visits vs))
        (congrArg Prod.snd (m.scanHandles_relocate A A' pf)).symm

/-- Where the arrays lie shows in no answer but the handles themselves: over every run, the
relocated calls leave the same arrays and get the relocated answers. -/
theorem handles_relocate (A A' : HandleArray) (m : HandleManager) (calls : List HandleCall) :
    let calls' := calls.map (HandleCall.relocate A A')
    (callMachine A').trace m calls' = ((callMachine A).trace m calls).map
        (fun x => (x.1.relocate A A', x.2.relocate A A')) ∧
      (callMachine A').run m calls' = (callMachine A).run m calls := by
  intro calls'
  have hinput : calls.filterMap (relocatePart A A').input = calls' :=
    congrFun List.filterMap_eq_map calls
  have hentry : ((callMachine A).trace m calls).filterMap (relocatePart A A').entry =
      ((callMachine A).trace m calls).map
        fun x => (x.1.relocate A A', x.2.relocate A A') :=
    congrFun List.filterMap_eq_map _
  have htrace := (relocatePart A A').trace m calls
  have hrun := (relocatePart A A').run m calls
  rw [hinput] at htrace hrun
  rw [hentry] at htrace
  exact ⟨htrace.symm, hrun.symm⟩

end MiniGC
