import MiniGC.Handle.Store
import MiniGC.Lib.Mealy

/-!
# MiniGC.Handle.Manager

`MiniGCHandleManager`, and the machine whose inputs are the calls the EE can make of it and of the
store it gives out.

The arrays live at file scope, the store object does not: `HandleManager.store` says whether
`g_miniGCHandleStore` is set. The functions of the manager test it; those of the store cannot be
called without it, and `handleStep` answers such a call with `void`.

`handleStep_outcome` is all that a call can do.
-/

namespace MiniGC

structure HandleManager where
  table : HandleTable
  /-- `g_miniGCHandleStore != nullptr`. -/
  store : Bool

namespace HandleManager

def processStart : HandleManager := ⟨.processStart, false⟩

section

variable (A : HandleArray) (m : HandleManager)

def setTable (table : HandleTable) : HandleManager := { m with table := table }

def initializeManager : HandleManager × Bool := ({ m with store := true }, true)

def shutdownManager : HandleManager := { m with store := false }

def createGlobalHandleOfType (object : W) (type : HandleType) : HandleManager × W :=
  if m.store then
    let r := createHandleOfType A m.table object type
    (m.setTable r.1, r.2)
  else (m, 0)

def createDuplicateHandle (handle : W) : HandleManager × W :=
  if m.store = false ∨ containsHandle A m.table handle = false then (m, 0)
  else
    let r := createHandleOfType A m.table (getObject A m.table handle) (getType A m.table handle)
    (m.setTable r.1, r.2)

def destroyHandleOfType (handle : W) (_type : HandleType) : HandleManager :=
  if m.store then m.setTable (destroyHandle A m.table handle) else m

def destroyHandleOfUnknownType (handle : W) : HandleManager :=
  if m.store then m.setTable (destroyHandle A m.table handle) else m

def setExtraInfoForHandle (handle : W) (_type : HandleType) (pExtraInfo : W) : HandleManager :=
  if m.store then m.setTable (setExtraInfo A m.table handle pExtraInfo) else m

def getExtraInfoFromHandle (handle : W) : W :=
  if m.store then getExtraInfo A m.table handle else 0

def storeObjectInHandle (handle object : W) : HandleManager :=
  if m.store = false ∨ containsHandle A m.table handle = false then m
  else m.setTable (writeSlot A m.table handle object)

def storeObjectInHandleIfNull (handle object : W) : HandleManager × Bool :=
  if m.store = false ∨ containsHandle A m.table handle = false then (m, false)
  else
    let r := compareExchangePointer (readSlot A m.table handle) object 0
    (m.setTable (writeSlot A m.table handle r.1), r.2 = 0)

def setDependentHandleSecondary (handle object : W) : HandleManager :=
  if m.store then m.setTable (setDependentSecondary A m.table handle object) else m

def getDependentHandleSecondary (handle : W) : W :=
  if m.store then getDependentSecondary A m.table handle else 0

def interlockedCompareExchangeObjectInHandle (handle object comparandObject : W) :
    HandleManager × W :=
  if m.store = false ∨ containsHandle A m.table handle = false then (m, 0)
  else
    let r := compareExchangePointer (readSlot A m.table handle) object comparandObject
    (m.setTable (writeSlot A m.table handle r.1), r.2)

def handleFetchType (handle : W) : HandleType :=
  if m.store then getType A m.table handle else .hndtypeWeakShort

end

end HandleManager

/-! ## The machine -/

/-- A call of the manager, or of the store. -/
inductive Op where
  | initializeManager
  | shutdownManager
  | createGlobalHandleOfType (object : W) (type : HandleType)
  | createDuplicateHandle (handle : W)
  | destroyHandleOfType (handle : W) (type : HandleType)
  | destroyHandleOfUnknownType (handle : W)
  | setExtraInfoForHandle (handle : W) (type : HandleType) (pExtraInfo : W)
  | getExtraInfoFromHandle (handle : W)
  | storeObjectInHandle (handle object : W)
  | storeObjectInHandleIfNull (handle object : W)
  | setDependentHandleSecondary (handle object : W)
  | getDependentHandleSecondary (handle : W)
  | interlockedCompareExchangeObjectInHandle (handle object comparandObject : W)
  | handleFetchType (handle : W)
  | containsHandle (handle : W)
  | createHandleOfType (object : W) (type : HandleType)
  | createHandleOfTypeOn (object : W) (type : HandleType) (heapToAffinitizeTo : BitVec 32)
  | createHandleWithExtraInfo (object : W) (type : HandleType) (pExtraInfo : W)
  | createDependentHandle (primary secondary : W)
  | getObject (handle : W)

inductive Answer where
  | void
  | handle (value : W)
  | object (value : W)
  | flag (value : Bool)
  | type (value : HandleType)
  deriving DecidableEq

/-- A call of the store that creates a handle. -/
def storeCreate (m : HandleManager) (r : HandleTable × W) : HandleManager × Answer :=
  if m.store then (m.setTable r.1, .handle r.2) else (m, .void)

/-- A call of the store that only reads. -/
def storeRead (m : HandleManager) (a : Answer) : HandleManager × Answer :=
  if m.store then (m, a) else (m, .void)

def handleStep (A : HandleArray) (m : HandleManager) : Op → HandleManager × Answer
  | .initializeManager => (m.initializeManager.1, .flag m.initializeManager.2)
  | .shutdownManager => (m.shutdownManager, .void)
  | .createGlobalHandleOfType object type =>
    let r := m.createGlobalHandleOfType A object type
    (r.1, .handle r.2)
  | .createDuplicateHandle handle =>
    let r := m.createDuplicateHandle A handle
    (r.1, .handle r.2)
  | .destroyHandleOfType handle type => (m.destroyHandleOfType A handle type, .void)
  | .destroyHandleOfUnknownType handle => (m.destroyHandleOfUnknownType A handle, .void)
  | .setExtraInfoForHandle handle type pExtraInfo =>
    (m.setExtraInfoForHandle A handle type pExtraInfo, .void)
  | .getExtraInfoFromHandle handle => (m, .object (m.getExtraInfoFromHandle A handle))
  | .storeObjectInHandle handle object => (m.storeObjectInHandle A handle object, .void)
  | .storeObjectInHandleIfNull handle object =>
    let r := m.storeObjectInHandleIfNull A handle object
    (r.1, .flag r.2)
  | .setDependentHandleSecondary handle object =>
    (m.setDependentHandleSecondary A handle object, .void)
  | .getDependentHandleSecondary handle => (m, .object (m.getDependentHandleSecondary A handle))
  | .interlockedCompareExchangeObjectInHandle handle object comparandObject =>
    let r := m.interlockedCompareExchangeObjectInHandle A handle object comparandObject
    (r.1, .object r.2)
  | .handleFetchType handle => (m, .type (m.handleFetchType A handle))
  | .containsHandle handle => storeRead m (.flag (containsHandle A m.table handle))
  | .createHandleOfType object type => storeCreate m (createHandleOfType A m.table object type)
  | .createHandleOfTypeOn object type heapToAffinitizeTo =>
    storeCreate m (createHandleOfTypeOn A m.table object type heapToAffinitizeTo)
  | .createHandleWithExtraInfo object type pExtraInfo =>
    storeCreate m (createHandleWithExtraInfo A m.table object type pExtraInfo)
  | .createDependentHandle primary secondary =>
    storeCreate m (createDependentHandle A m.table primary secondary)
  | .getObject handle => storeRead m (.object (getObject A m.table handle))

def handleMachine (A : HandleArray) : Mealy HandleManager Op Answer where
  step := handleStep A

/-! ## What a call asks for -/

/-- The entry a successful create makes, where `source` gives the entries of existing handles. -/
def Op.entry (source : W → Option Entry) : Op → Option Entry
  | .createGlobalHandleOfType object type
  | .createHandleOfType object type
  | .createHandleOfTypeOn object type _ => some ⟨object, type, 0, 0⟩
  | .createHandleWithExtraInfo object type pExtraInfo => some ⟨object, type, 0, pExtraInfo⟩
  | .createDependentHandle primary secondary => some ⟨primary, .hndtypeDependent, secondary, 0⟩
  | .createDuplicateHandle handle => (source handle).map fun e => ⟨e.object, e.type, 0, 0⟩
  | _ => none

def Op.isCreate : Op → Bool
  | .createGlobalHandleOfType _ _
  | .createHandleOfType _ _
  | .createHandleOfTypeOn _ _ _
  | .createHandleWithExtraInfo _ _ _
  | .createDependentHandle _ _
  | .createDuplicateHandle _ => true
  | _ => false

def Op.isStore : Op → Bool
  | .storeObjectInHandle _ _
  | .storeObjectInHandleIfNull _ _
  | .interlockedCompareExchangeObjectInHandle _ _ _ => true
  | _ => false

/-- Whether there is a store after a call that starts or ends a session. -/
def Op.session : Op → Option Bool
  | .initializeManager => some true
  | .shutdownManager => some false
  | _ => none

/-- The handle a call writes to. -/
def Op.target : Op → Option W
  | .destroyHandleOfType handle _
  | .destroyHandleOfUnknownType handle
  | .setExtraInfoForHandle handle _ _
  | .setDependentHandleSecondary handle _
  | .storeObjectInHandle handle _
  | .storeObjectInHandleIfNull handle _
  | .interlockedCompareExchangeObjectInHandle handle _ _ => some handle
  | _ => none

/-- The handle a call changes, and how, according to the answer it got. `none` is destruction. -/
def Op.update : Op → Answer → Option (W × (Entry → Option Entry))
  | .destroyHandleOfType handle _, _ | .destroyHandleOfUnknownType handle, _ =>
    some (handle, fun _ => none)
  | .setExtraInfoForHandle handle _ pExtraInfo, _ =>
    some (handle, fun e => some { e with extraInfo := pExtraInfo })
  | .setDependentHandleSecondary handle object, _ =>
    some (handle, fun e => some { e with secondary := object })
  | .storeObjectInHandle handle object, _
  | .storeObjectInHandleIfNull handle object, .flag true =>
    some (handle, fun e => some { e with object := object })
  | .interlockedCompareExchangeObjectInHandle handle object comparandObject, .object previous =>
    if previous = comparandObject then some (handle, fun e => some { e with object := object })
    else none
  | _, _ => none

/-- The entry of a handle that `containsHandle` accepts. -/
def HandleTable.contained (A : HandleArray) (t : HandleTable) (handle : W) : Option Entry :=
  if containsHandle A t handle then t.view A handle else none

/-! ## What a call can do -/

/-- What the table holds at `index` after an update of its entry; destruction keeps the type. -/
def HandleTable.after (t : HandleTable) (index : Fin maxHandles) (f : Entry → Option Entry) :
    Entry :=
  (f (t.entry index)).getD ⟨0, (t.entry index).type, 0, 0⟩

inductive HandleOutcome (A : HandleArray) (m : HandleManager) (op : Op) :
    HandleManager × Answer → Prop where
  | session (a : Answer) (store : Bool) (hop : op.session = some store) :
      HandleOutcome A m op ({ m with store := store }, a)
  /-- No store: nothing happens. -/
  | absent (a : Answer) (hstore : m.store = false) (hop : op.session = none) :
      HandleOutcome A m op (m, a)
  | created (e : Entry) (hstore : m.store = true) (room : m.table.handlesCount < maxHandles)
      (hop : op.isCreate = true) (he : op.entry (m.table.contained A) = some e) :
      HandleOutcome A m op
        (m.setTable (m.table.push room e), .handle (A.slot m.table.handlesCount))
  /-- A create that fails: the table is full, or there is nothing to duplicate. -/
  | refused (hstore : m.store = true) (hop : op.isCreate = true)
      (why : m.table.handlesCount = maxHandles ∨ op.entry (m.table.contained A) = none) :
      HandleOutcome A m op (m, .handle 0)
  /-- An attribute is set, or the handle destroyed. -/
  | updated (a : Answer) (handle : W) (f : Entry → Option Entry) (i : Fin maxHandles)
      (hstore : m.store = true) (hop : op.isStore = false) (hu : op.update a = some (handle, f))
      (hi : issuedIndex A m.table handle = some i) :
      HandleOutcome A m op (m.setTable (m.table.put i (m.table.after i f)), a)
  /-- An object is stored, over another one. -/
  | stored (a : Answer) (handle object : W) (i : Fin maxHandles) (hstore : m.store = true)
      (hop : op = .storeObjectInHandle handle object ∨
        op = .interlockedCompareExchangeObjectInHandle handle object (m.table.entry i).object)
      (hu : op.update a = some (handle, fun e => some { e with object := object }))
      (hi : issuedIndex A m.table handle = some i) (hne : (m.table.entry i).object ≠ 0) :
      HandleOutcome A m op
        (m.setTable (m.table.put i { m.table.entry i with object := object }), a)
  /-- A store that the null in the slot makes the guard reject. -/
  | dropped (a : Answer) (handle object : W) (i : Fin maxHandles) (hstore : m.store = true)
      (hop : op = .storeObjectInHandle handle object ∨
        op = .interlockedCompareExchangeObjectInHandle handle object 0)
      (hu : op.update a = some (handle, fun e => some { e with object := object }))
      (hi : issuedIndex A m.table handle = some i) (hnull : (m.table.entry i).object = 0) :
      HandleOutcome A m op (m, a)
  /-- A read, an exchange for another object than the one held, or a value that is not an issued
  handle. -/
  | kept (a : Answer) (hstore : m.store = true) (hop : op.isCreate = false)
      (hsession : op.session = none)
      (hu : ∀ handle f, op.update a = some (handle, f) → issuedIndex A m.table handle = none)
      (hexchange : ∀ handle object comparandObject,
        op = .interlockedCompareExchangeObjectInHandle handle object comparandObject →
          issuedIndex A m.table handle = none ∨ getObject A m.table handle ≠ comparandObject) :
      HandleOutcome A m op (m, a)

section

variable {A : HandleArray} {m : HandleManager}

theorem HandleTable.put_entry_self (t : HandleTable) (i : Fin maxHandles) :
    t.put i (t.entry i) = t := by
  simp [HandleTable.put, HandleTable.entry]

/-- Writing back what a slot holds changes nothing. -/
theorem writeSlot_self {t : HandleTable} {handle : W} {i : Fin maxHandles}
    (hi : issuedIndex A t handle = some i) : writeSlot A t handle (t.entry i).object = t := by
  rw [writeSlot_issued hi]
  exact t.put_entry_self i

/-- A create of the store or the manager, given what it does with and without room. -/
theorem create_outcome {op : Op} {r : HandleTable × W} {e : Entry} (hstore : m.store = true)
    (hop : op.isCreate = true) (he : op.entry (m.table.contained A) = some e)
    (hroom : ∀ room : m.table.handlesCount < maxHandles,
      r = (m.table.push room e, A.slot m.table.handlesCount))
    (hfull : ¬ m.table.handlesCount < maxHandles → r = (m.table, 0)) :
    HandleOutcome A m op (m.setTable r.1, .handle r.2) := by
  by_cases room : m.table.handlesCount < maxHandles
  · rw [hroom room]
    exact .created e hstore room hop he
  · rw [hfull room]
    exact .refused hstore hop (.inl (Nat.le_antisymm m.table.handlesCount_le (Nat.not_lt.mp room)))

/-- A handle that `containsHandle` accepts has an index and holds an object. -/
theorem contained_cases (handle : W) :
    (containsHandle A m.table handle = false ∧ m.table.contained A handle = none ∧
      ∀ i, issuedIndex A m.table handle = some i → (m.table.entry i).object = 0) ∨
    (containsHandle A m.table handle = true ∧ ∃ i, issuedIndex A m.table handle = some i ∧
      (m.table.entry i).object ≠ 0 ∧ m.table.contained A handle = some (m.table.entry i)) := by
  cases hc : containsHandle A m.table handle with
  | false =>
    left
    refine ⟨rfl, by simp [HandleTable.contained, hc], fun i hi => ?_⟩
    by_contra hne
    rw [containsHandle_eq_true.mpr ⟨i, hi, hne⟩] at hc
    cases hc
  | true =>
    right
    obtain ⟨i, hi, hne⟩ := containsHandle_eq_true.mp hc
    exact ⟨rfl, i, hi, hne, by simp [HandleTable.contained, hc, HandleTable.view_issued hi]⟩

/-- An update whose guard only looks at the index. -/
theorem update_outcome {op : Op} {table : HandleTable} {handle : W} {f : Entry → Option Entry}
    (hstore : m.store = true) (hcreate : op.isCreate = false) (hop : op.isStore = false)
    (hsession : op.session = none) (hu : op.update .void = some (handle, f))
    (hissued : ∀ i, issuedIndex A m.table handle = some i →
      table = m.table.put i (m.table.after i f))
    (hunissued : issuedIndex A m.table handle = none → table = m.table) :
    HandleOutcome A m op (m.setTable table, .void) := by
  cases hi : issuedIndex A m.table handle with
  | none =>
    rw [hunissued hi]
    refine .kept _ hstore hcreate hsession (fun handle' f' h => ?_) fun _ _ _ h => ?_
    · rw [hu] at h
      cases h
      exact hi
    · rw [h] at hop
      cases hop
  | some i =>
    rw [hissued i hi]
    exact .updated _ handle f i hstore hop hu hi

/-- `StoreObjectInHandleIfNull` never changes anything: a slot that passes its guard is not null,
and one that is null does not pass. -/
theorem HandleManager.storeObjectInHandleIfNull_eq (handle object : W) :
    m.storeObjectInHandleIfNull A handle object = (m, false) := by
  unfold HandleManager.storeObjectInHandleIfNull
  split
  · rfl
  · rename_i hguard
    rw [not_or, Bool.not_eq_false, Bool.not_eq_false] at hguard
    obtain ⟨i, hi, hne⟩ := containsHandle_eq_true.mp hguard.2
    have hread := readSlot_issued hi
    simp only [compareExchangePointer_result, compareExchangePointer_target, hread, hne,
      if_false, writeSlot_self hi, HandleManager.setTable, decide_false]

/-- A compare-exchange of a slot that holds an object. -/
theorem HandleManager.compareExchange_contained {handle object comparandObject : W}
    {i : Fin maxHandles} (hstore : m.store = true) (hi : issuedIndex A m.table handle = some i)
    (hne : (m.table.entry i).object ≠ 0) :
    m.interlockedCompareExchangeObjectInHandle A handle object comparandObject =
      (if (m.table.entry i).object = comparandObject then
        m.setTable (m.table.put i { m.table.entry i with object := object }) else m,
        (m.table.entry i).object) := by
  have hc := containsHandle_eq_true.mpr ⟨i, hi, hne⟩
  have hread := readSlot_issued hi
  unfold HandleManager.interlockedCompareExchangeObjectInHandle
  rw [if_neg (by simp [hstore, hc])]
  simp only [compareExchangePointer_result, compareExchangePointer_target, hread]
  split
  · rw [writeSlot_issued hi]
  · rw [writeSlot_self hi, HandleManager.setTable]

/-- A compare-exchange of anything else answers null and does nothing. -/
theorem HandleManager.compareExchange_rejected {handle object comparandObject : W}
    (hc : containsHandle A m.table handle = false) :
    m.interlockedCompareExchangeObjectInHandle A handle object comparandObject = (m, 0) := by
  rw [HandleManager.interlockedCompareExchangeObjectInHandle, if_pos (.inr hc)]

theorem storeCreate_store (hstore : m.store = true) (r : HandleTable × W) :
    storeCreate m r = (m.setTable r.1, .handle r.2) := by
  rw [storeCreate, if_pos hstore]

theorem storeRead_store (hstore : m.store = true) (a : Answer) : storeRead m a = (m, a) := by
  rw [storeRead, if_pos hstore]

/-- All that a call can do, without a store. -/
theorem handleStep_absent (op : Op) (hstore : m.store = false) (hop : op.session = none) :
    (handleStep A m op).1 = m := by
  cases op with
  | initializeManager => cases hop
  | shutdownManager => cases hop
  | _ => simp [handleStep, storeCreate, storeRead, hstore, HandleManager.createGlobalHandleOfType,
      HandleManager.createDuplicateHandle, HandleManager.destroyHandleOfType,
      HandleManager.destroyHandleOfUnknownType, HandleManager.setExtraInfoForHandle,
      HandleManager.storeObjectInHandle, HandleManager.storeObjectInHandleIfNull,
      HandleManager.setDependentHandleSecondary,
      HandleManager.interlockedCompareExchangeObjectInHandle]

theorem handleStep_outcome (A : HandleArray) (m : HandleManager) (op : Op) :
    HandleOutcome A m op (handleStep A m op) := by
  by_cases hsession : op.session = none
  case neg =>
    cases op with
    | initializeManager => exact .session _ true rfl
    | shutdownManager => exact .session _ false rfl
    | _ => exact absurd rfl hsession
  cases hstore : m.store with
  | false =>
    have h := handleStep_absent (A := A) op hstore hsession
    rw [show handleStep A m op = (m, (handleStep A m op).2) from Prod.ext h rfl]
    exact .absent _ hstore hsession
  | true =>
    -- a read changes nothing, and asks for no update
    have hread : ∀ (op : Op) (a : Answer), op.isCreate = false → op.session = none →
        op.update a = none → (∀ handle object comparandObject,
          op = .interlockedCompareExchangeObjectInHandle handle object comparandObject →
            getObject A m.table handle ≠ comparandObject) → HandleOutcome A m op (m, a) := by
      intro op a hop hsession hu hexchange
      refine .kept a hstore hop hsession (fun _ _ h => ?_) fun _ _ _ h => .inr (hexchange _ _ _ h)
      rw [hu] at h
      cases h
    cases op with
    | initializeManager => cases hsession
    | shutdownManager => cases hsession
    | createGlobalHandleOfType object type =>
      simp only [handleStep, HandleManager.createGlobalHandleOfType, hstore, if_true]
      exact create_outcome hstore rfl rfl (fun room => createHandleOfType_room room object type)
        (fun full => createHandleOfType_full full object type)
    | createDuplicateHandle handle =>
      rcases contained_cases (A := A) (m := m) handle with ⟨hc, hnone, -⟩ | ⟨hc, i, hi, hne, hsome⟩
      · simp only [handleStep, HandleManager.createDuplicateHandle, hc, or_true, if_true]
        exact .refused hstore rfl (.inr (by rw [Op.entry, hnone]; rfl))
      · simp only [handleStep, HandleManager.createDuplicateHandle, hc, hstore, Bool.true_eq_false,
          or_false, if_false, getObject_issued hi, getType_issued hi]
        exact create_outcome hstore rfl (by rw [Op.entry, hsome]; rfl)
          (fun room => createHandleOfType_room room _ _)
          (fun full => createHandleOfType_full full _ _)
    | destroyHandleOfType handle type =>
      simp only [handleStep, HandleManager.destroyHandleOfType, hstore, if_true]
      exact update_outcome hstore rfl rfl rfl rfl
        (fun _ => destroyHandle_issued) destroyHandle_unissued
    | destroyHandleOfUnknownType handle =>
      simp only [handleStep, HandleManager.destroyHandleOfUnknownType, hstore, if_true]
      exact update_outcome hstore rfl rfl rfl rfl
        (fun _ => destroyHandle_issued) destroyHandle_unissued
    | setExtraInfoForHandle handle type pExtraInfo =>
      simp only [handleStep, HandleManager.setExtraInfoForHandle, hstore, if_true]
      exact update_outcome hstore rfl rfl rfl rfl
        (fun _ => setExtraInfo_issued) setExtraInfo_unissued
    | setDependentHandleSecondary handle object =>
      simp only [handleStep, HandleManager.setDependentHandleSecondary, hstore, if_true]
      exact update_outcome hstore rfl rfl rfl rfl
        (fun _ => setDependentSecondary_issued) setDependentSecondary_unissued
    | storeObjectInHandle handle object =>
      rcases contained_cases (A := A) (m := m) handle with ⟨hc, -, hnull⟩ | ⟨hc, i, hi, hne, -⟩
      · simp only [handleStep, HandleManager.storeObjectInHandle, hc, or_true, if_true]
        cases hi : issuedIndex A m.table handle with
        | none =>
          refine .kept _ hstore rfl rfl (fun _ _ h => ?_) fun _ _ _ h => ?_
          · cases h; exact hi
          · cases h
        | some i => exact .dropped _ handle object i hstore (.inl rfl) rfl hi (hnull i hi)
      · simp only [handleStep, HandleManager.storeObjectInHandle, hc, hstore, Bool.true_eq_false,
          or_false, if_false, writeSlot_issued hi]
        exact .stored _ handle object i hstore (.inl rfl) rfl hi hne
    | storeObjectInHandleIfNull handle object =>
      simp only [handleStep, HandleManager.storeObjectInHandleIfNull_eq]
      exact hread _ _ rfl rfl rfl fun _ _ _ h => by cases h
    | interlockedCompareExchangeObjectInHandle handle object comparandObject =>
      -- the object held is the answer, whether the guard lets the exchange through or not
      have hkept : getObject A m.table handle ≠ comparandObject → ∀ h o c,
          Op.interlockedCompareExchangeObjectInHandle handle object comparandObject =
            .interlockedCompareExchangeObjectInHandle h o c → getObject A m.table h ≠ c := by
        rintro hne h o c he
        cases he
        exact hne
      rcases contained_cases (A := A) (m := m) handle with ⟨hc, -, hnull⟩ | ⟨hc, i, hi, hne, -⟩
      · simp only [handleStep, HandleManager.compareExchange_rejected hc]
        by_cases hcmp : (0 : W) = comparandObject
        · subst hcmp
          have hu : Op.update (.interlockedCompareExchangeObjectInHandle handle object 0)
              (.object 0) = some (handle, fun e => some { e with object := object }) := by
            rw [Op.update, if_pos rfl]
          cases hi : issuedIndex A m.table handle with
          | none =>
            refine .kept _ hstore rfl rfl (fun _ _ h => ?_) fun h o c he => ?_
            · rw [hu] at h
              cases h
              exact hi
            · cases he
              exact .inl hi
          | some i => exact .dropped _ handle object i hstore (.inr rfl) hu hi (hnull i hi)
        · have hheld : getObject A m.table handle = 0 := by
            cases hi : issuedIndex A m.table handle with
            | none => simp [getObject, hi]
            | some i => rw [getObject_issued hi, hnull i hi]
          exact hread _ _ rfl rfl (if_neg hcmp) (hkept (hheld ▸ hcmp))
      · simp only [handleStep, HandleManager.compareExchange_contained hstore hi hne]
        by_cases hcmp : (m.table.entry i).object = comparandObject
        · rw [if_pos hcmp]
          subst hcmp
          exact .stored _ handle object i hstore (.inr rfl) (if_pos rfl) hi hne
        · rw [if_neg hcmp]
          exact hread _ _ rfl rfl (if_neg hcmp) (hkept (getObject_issued hi ▸ hcmp))
    | getExtraInfoFromHandle handle => exact hread _ _ rfl rfl rfl fun _ _ _ h => by cases h
    | getDependentHandleSecondary handle => exact hread _ _ rfl rfl rfl fun _ _ _ h => by cases h
    | handleFetchType handle => exact hread _ _ rfl rfl rfl fun _ _ _ h => by cases h
    | containsHandle handle =>
      rw [handleStep, storeRead_store hstore]
      exact hread _ _ rfl rfl rfl fun _ _ _ h => by cases h
    | getObject handle =>
      rw [handleStep, storeRead_store hstore]
      exact hread _ _ rfl rfl rfl fun _ _ _ h => by cases h
    | createHandleOfType object type =>
      rw [handleStep, storeCreate_store hstore]
      exact create_outcome hstore rfl rfl (fun room => createHandleOfType_room room object type)
        (fun full => createHandleOfType_full full object type)
    | createHandleOfTypeOn object type heapToAffinitizeTo =>
      rw [handleStep, storeCreate_store hstore]
      exact create_outcome hstore rfl rfl (fun room => createHandleOfType_room room object type)
        (fun full => createHandleOfType_full full object type)
    | createHandleWithExtraInfo object type pExtraInfo =>
      rw [handleStep, storeCreate_store hstore]
      exact create_outcome hstore rfl rfl
        (fun room => createHandleWithExtraInfo_room room object type pExtraInfo)
        (fun full => createHandleWithExtraInfo_full full object type pExtraInfo)
    | createDependentHandle primary secondary =>
      rw [handleStep, storeCreate_store hstore]
      exact create_outcome hstore rfl rfl
        (fun room => createDependentHandle_room room primary secondary)
        (fun full => createDependentHandle_full full primary secondary)

end

end MiniGC
