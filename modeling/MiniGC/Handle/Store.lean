import MiniGC.Platform
import Mathlib.Logic.Function.Basic

/-!
# MiniGC.Handle.Store

The four arrays of `MiniGCHandleStore.cpp`, and the functions of `MiniGCHandleStore` over them.

A handle is the address of its slot in `handles`. `HandleArray` says where the loader put that
array; `getHandleIndex` goes from any 64-bit value back to an index, and `getHandleIndex_eq_some`
says it does so for slot addresses only.

`HandleTable.entry i` reads the four arrays at once. Every function that writes is `push`, which
takes the next index, or `put`, which changes one index. `HandleTable.view` is the table as a finite
map from handles; all that the four reads of a handle see is its entry there, and `view_push` and
`view_put` are all there is to know about a write.
-/

namespace MiniGC

inductive HandleType where
  | hndtypeWeakShort
  | hndtypeWeakLong
  | hndtypeStrong
  | hndtypePinned
  | hndtypeVariable
  | hndtypeRefCounted
  | hndtypeDependent
  | hndtypeAsyncPinned
  | hndtypeSizedRef
  | hndtypeWeakNativeCom
  | hndtypeWeakInteriorPointer
  | hndtypeCrossReference
  deriving DecidableEq, Repr

/-! ## Handles and indices -/

def maxHandles : Nat := 65535

/-- `sizeof(handles[0])`. -/
def handleSize : W := 8

/-- Where the array `handles` lies: not at null, and inside the address space. -/
structure HandleArray where
  address : W
  ne_null : address ≠ 0
  fits : address.toNat + 8 * maxHandles < 2 ^ 64

namespace HandleArray

/-- A usual place for the array. -/
def usual : HandleArray := ⟨0x600000, by decide, by decide⟩

/-- `&handles[index]`. -/
def slot (A : HandleArray) (index : Nat) : W := A.address + BitVec.ofNat 64 (8 * index)

theorem slot_toNat (A : HandleArray) {index : Nat} (h : index ≤ maxHandles) :
    (A.slot index).toNat = A.address.toNat + 8 * index := by
  have hfits := A.fits
  have hoff : (BitVec.ofNat 64 (8 * index)).toNat = 8 * index := by
    rw [BitVec.toNat_ofNat, Nat.mod_eq_of_lt (by omega)]
  rw [slot, toNat_add_of_lt (by rw [hoff]; omega), hoff]

theorem slot_injective (A : HandleArray) {i j : Nat} (hi : i ≤ maxHandles) (hj : j ≤ maxHandles)
    (h : A.slot i = A.slot j) : i = j := by
  have := congrArg BitVec.toNat h
  rw [A.slot_toNat hi, A.slot_toNat hj] at this
  omega

theorem slot_ne_null (A : HandleArray) {index : Nat} (h : index ≤ maxHandles) :
    A.slot index ≠ 0 := by
  intro h0
  have hn := A.slot_toNat h
  rw [h0, show (0 : W).toNat = 0 from rfl] at hn
  exact A.ne_null (BitVec.eq_of_toNat_eq (by rw [show (0 : W).toNat = 0 from rfl]; omega))

end HandleArray

/-- An address that passes the three tests of `GetHandleIndex`. -/
def HandleArray.Decodes (A : HandleArray) (address : W) : Prop :=
  ¬ (address < A.slot 0 ∨ A.slot maxHandles ≤ address ∨ (address - A.slot 0) % handleSize ≠ 0)

instance (A : HandleArray) (address : W) : Decidable (A.Decodes address) :=
  inferInstanceAs (Decidable (¬ _))

theorem HandleArray.Decodes.eq {A : HandleArray} {address : W} (h : A.Decodes address) :
    ((address - A.slot 0) / handleSize).toNat < maxHandles ∧
      address = A.slot ((address - A.slot 0) / handleSize).toNat := by
  simp only [HandleArray.Decodes, not_or, BitVec.not_lt, BitVec.not_le, not_not] at h
  obtain ⟨hlo, hhi, hmod⟩ := h
  have h0 := A.slot_toNat (Nat.zero_le maxHandles)
  rw [BitVec.le_def, h0] at hlo
  rw [BitVec.lt_def, A.slot_toNat (Nat.le_refl _)] at hhi
  have hsub : (address - A.slot 0).toNat = address.toNat - A.address.toNat := by
    rw [toNat_sub_of_le (by omega), h0, Nat.mul_zero, Nat.add_zero]
  have hrem := congrArg BitVec.toNat hmod
  rw [BitVec.toNat_umod, hsub, show handleSize.toNat = 8 from rfl,
    show (0 : W).toNat = 0 from rfl] at hrem
  have hlt : ((address - A.slot 0) / handleSize).toNat < maxHandles := by
    rw [BitVec.toNat_udiv, hsub, show handleSize.toNat = 8 from rfl]
    omega
  refine ⟨hlt, BitVec.eq_of_toNat_eq ?_⟩
  rw [A.slot_toNat hlt.le, BitVec.toNat_udiv, hsub, show handleSize.toNat = 8 from rfl]
  omega

/-- `GetHandleIndex`; `none` for its -1. -/
def getHandleIndex (A : HandleArray) (handle : W) : Option (Fin maxHandles) :=
  if handle = 0 then none
  else if h : A.Decodes handle then some ⟨((handle - A.slot 0) / handleSize).toNat, h.eq.1⟩
  else none

theorem getHandleIndex_slot (A : HandleArray) (i : Fin maxHandles) :
    getHandleIndex A (A.slot i) = some i := by
  have hi := i.isLt
  have h0 := A.slot_toNat (Nat.zero_le maxHandles)
  have hslot := A.slot_toNat hi.le
  have hend := A.slot_toNat (Nat.le_refl maxHandles)
  have hsub : (A.slot i - A.slot 0).toNat = 8 * i := by
    rw [toNat_sub_of_le (by omega), h0, hslot]
    omega
  have hdec : A.Decodes (A.slot i) := by
    simp only [HandleArray.Decodes, not_or, BitVec.not_lt, BitVec.not_le, not_not]
    refine ⟨by rw [BitVec.le_def]; omega, by rw [BitVec.lt_def]; omega, BitVec.eq_of_toNat_eq ?_⟩
    rw [BitVec.toNat_umod, hsub, show handleSize.toNat = 8 from rfl, Nat.mul_mod_right]
    rfl
  rw [getHandleIndex, if_neg (A.slot_ne_null hi.le), dif_pos hdec]
  refine congrArg some (Fin.ext ?_)
  show ((A.slot i - A.slot 0) / handleSize).toNat = i
  rw [BitVec.toNat_udiv, hsub, show handleSize.toNat = 8 from rfl,
    Nat.mul_div_cancel_left _ (by decide)]

/-- Only the addresses of the slots decode, each to its own index. -/
theorem getHandleIndex_eq_some {A : HandleArray} {handle : W} {i : Fin maxHandles} :
    getHandleIndex A handle = some i ↔ handle = A.slot i := by
  constructor
  · intro h
    unfold getHandleIndex at h
    split at h
    · cases h
    · split at h
      · rename_i hdec
        cases h
        exact hdec.eq.2
      · cases h
  · rintro rfl
    exact getHandleIndex_slot A i

/-! ## The arrays -/

structure HandleTable where
  handlesCount : Nat
  handlesCount_le : handlesCount ≤ maxHandles
  handles : Fin maxHandles → W
  dependentSecondaries : Fin maxHandles → W
  handleTypes : Fin maxHandles → HandleType
  extraInfo : Fin maxHandles → W

/-- The arrays as the loader leaves them. -/
def HandleTable.processStart : HandleTable where
  handlesCount := 0
  handlesCount_le := Nat.zero_le _
  handles _ := 0
  dependentSecondaries _ := 0
  handleTypes _ := .hndtypeWeakShort
  extraInfo _ := 0

section

variable (A : HandleArray) (t : HandleTable)

/-- The index of a handle that passes `index >= 0 && index < handlesCount`. -/
def issuedIndex (handle : W) : Option (Fin maxHandles) :=
  match getHandleIndex A handle with
  | some index => if index.val < t.handlesCount then some index else none
  | none => none

def containsHandle (handle : W) : Bool :=
  match issuedIndex A t handle with
  | some index => t.handles index ≠ 0
  | none => false

def createHandleOfType (object : W) (type : HandleType) : HandleTable × W :=
  if h : t.handlesCount < maxHandles then
    ({ handlesCount := t.handlesCount + 1
       handlesCount_le := h
       handles := Function.update t.handles ⟨t.handlesCount, h⟩ object
       handleTypes := Function.update t.handleTypes ⟨t.handlesCount, h⟩ type
       dependentSecondaries := Function.update t.dependentSecondaries ⟨t.handlesCount, h⟩ 0
       extraInfo := Function.update t.extraInfo ⟨t.handlesCount, h⟩ 0 }, A.slot t.handlesCount)
  else (t, 0)

/-- The overload with an affinity, which it ignores. -/
def createHandleOfTypeOn (object : W) (type : HandleType) (_heapToAffinitizeTo : BitVec 32) :
    HandleTable × W :=
  createHandleOfType A t object type

def destroyHandle (handle : W) : HandleTable :=
  match issuedIndex A t handle with
  | none => t
  | some index =>
    { t with
      handles := Function.update t.handles index 0
      dependentSecondaries := Function.update t.dependentSecondaries index 0
      extraInfo := Function.update t.extraInfo index 0 }

def getObject (handle : W) : W :=
  match issuedIndex A t handle with
  | some index => t.handles index
  | none => 0

def getDependentSecondary (handle : W) : W :=
  match issuedIndex A t handle with
  | some index => t.dependentSecondaries index
  | none => 0

def setDependentSecondary (handle object : W) : HandleTable :=
  match issuedIndex A t handle with
  | some index =>
    { t with dependentSecondaries := Function.update t.dependentSecondaries index object }
  | none => t

def getType (handle : W) : HandleType :=
  match issuedIndex A t handle with
  | some index => t.handleTypes index
  | none => .hndtypeWeakShort

def setExtraInfo (handle value : W) : HandleTable :=
  match issuedIndex A t handle with
  | some index => { t with extraInfo := Function.update t.extraInfo index value }
  | none => t

def getExtraInfo (handle : W) : W :=
  match issuedIndex A t handle with
  | some index => t.extraInfo index
  | none => 0

def createHandleWithExtraInfo (object : W) (type : HandleType) (pExtraInfo : W) :
    HandleTable × W :=
  let r := createHandleOfType A t object type
  (setExtraInfo A r.1 r.2 pExtraInfo, r.2)

def createDependentHandle (primary secondary : W) : HandleTable × W :=
  let r := createHandleOfType A t primary .hndtypeDependent
  (setDependentSecondary A r.1 r.2 secondary, r.2)

/-- `*(Object**)handle`, for a handle that is the address of a slot. -/
def readSlot (handle : W) : W :=
  match getHandleIndex A handle with
  | some index => t.handles index
  | none => 0

/-- `*(Object**)handle = value`, for a handle that is the address of a slot. -/
def writeSlot (handle value : W) : HandleTable :=
  match getHandleIndex A handle with
  | some index => { t with handles := Function.update t.handles index value }
  | none => t

end

/-! ## One index of the four arrays -/

structure Entry where
  object : W
  type : HandleType
  secondary : W
  extraInfo : W
  deriving DecidableEq

namespace HandleTable

def entry (t : HandleTable) (index : Fin maxHandles) : Entry where
  object := t.handles index
  type := t.handleTypes index
  secondary := t.dependentSecondaries index
  extraInfo := t.extraInfo index

/-- Take the next index, for the entry `e`. -/
def push (t : HandleTable) (h : t.handlesCount < maxHandles) (e : Entry) : HandleTable where
  handlesCount := t.handlesCount + 1
  handlesCount_le := h
  handles := Function.update t.handles ⟨t.handlesCount, h⟩ e.object
  handleTypes := Function.update t.handleTypes ⟨t.handlesCount, h⟩ e.type
  dependentSecondaries := Function.update t.dependentSecondaries ⟨t.handlesCount, h⟩ e.secondary
  extraInfo := Function.update t.extraInfo ⟨t.handlesCount, h⟩ e.extraInfo

/-- Change one index to the entry `e`. -/
def put (t : HandleTable) (index : Fin maxHandles) (e : Entry) : HandleTable where
  handlesCount := t.handlesCount
  handlesCount_le := t.handlesCount_le
  handles := Function.update t.handles index e.object
  handleTypes := Function.update t.handleTypes index e.type
  dependentSecondaries := Function.update t.dependentSecondaries index e.secondary
  extraInfo := Function.update t.extraInfo index e.extraInfo

@[simp] theorem push_handlesCount (t : HandleTable) (h : t.handlesCount < maxHandles) (e : Entry) :
    (t.push h e).handlesCount = t.handlesCount + 1 := rfl

theorem push_entry (t : HandleTable) (h : t.handlesCount < maxHandles) (e : Entry)
    (j : Fin maxHandles) :
    (t.push h e).entry j = if j.val = t.handlesCount then e else t.entry j := by
  by_cases hj : j.val = t.handlesCount
  · obtain rfl : j = ⟨t.handlesCount, h⟩ := Fin.ext hj
    simp [push, entry]
  · have hne : j ≠ ⟨t.handlesCount, h⟩ := fun he => hj (congrArg Fin.val he)
    simp [push, entry, hne, hj]

theorem put_entry (t : HandleTable) (i : Fin maxHandles) (e : Entry) (j : Fin maxHandles) :
    (t.put i e).entry j = if j = i then e else t.entry j := by
  by_cases hj : j = i
  · subst hj
    simp [put, entry]
  · simp [put, entry, hj]

end HandleTable

section

variable {A : HandleArray} {t : HandleTable}

theorem issuedIndex_eq_some {handle : W} {i : Fin maxHandles} :
    issuedIndex A t handle = some i ↔ handle = A.slot i ∧ i.val < t.handlesCount := by
  rw [← getHandleIndex_eq_some, issuedIndex]
  rcases getHandleIndex A handle with _ | j
  · simp
  · by_cases hj : j.val < t.handlesCount
    · simp only [if_pos hj, Option.some.injEq]
      exact ⟨fun h => ⟨h, h ▸ hj⟩, fun h => h.1⟩
    · simp only [if_neg hj, Option.some.injEq, reduceCtorEq, false_iff, not_and]
      rintro rfl
      exact hj

theorem containsHandle_eq_true {handle : W} : containsHandle A t handle = true ↔
    ∃ i, issuedIndex A t handle = some i ∧ (t.entry i).object ≠ 0 := by
  unfold containsHandle
  cases hi : issuedIndex A t handle with
  | none => simp
  | some i => simp [HandleTable.entry]

theorem createHandleOfType_room (h : t.handlesCount < maxHandles) (object : W)
    (type : HandleType) : createHandleOfType A t object type =
      (t.push h ⟨object, type, 0, 0⟩, A.slot t.handlesCount) := by
  rw [createHandleOfType, dif_pos h]
  rfl

theorem createHandleOfType_full (h : ¬ t.handlesCount < maxHandles) (object : W)
    (type : HandleType) : createHandleOfType A t object type = (t, 0) := by
  rw [createHandleOfType, dif_neg h]

theorem destroyHandle_issued {handle : W} {i : Fin maxHandles}
    (h : issuedIndex A t handle = some i) :
    destroyHandle A t handle = t.put i ⟨0, (t.entry i).type, 0, 0⟩ := by
  simp [destroyHandle, h, HandleTable.put, HandleTable.entry]

theorem setDependentSecondary_issued {handle object : W} {i : Fin maxHandles}
    (h : issuedIndex A t handle = some i) : setDependentSecondary A t handle object =
      t.put i { t.entry i with secondary := object } := by
  simp [setDependentSecondary, h, HandleTable.put, HandleTable.entry]

theorem setExtraInfo_issued {handle value : W} {i : Fin maxHandles}
    (h : issuedIndex A t handle = some i) : setExtraInfo A t handle value =
      t.put i { t.entry i with extraInfo := value } := by
  simp [setExtraInfo, h, HandleTable.put, HandleTable.entry]

theorem writeSlot_issued {handle value : W} {i : Fin maxHandles}
    (h : issuedIndex A t handle = some i) : writeSlot A t handle value =
      t.put i { t.entry i with object := value } := by
  have hg := getHandleIndex_eq_some.mpr (issuedIndex_eq_some.mp h).1
  simp [writeSlot, hg, HandleTable.put, HandleTable.entry]

theorem readSlot_issued {handle : W} {i : Fin maxHandles}
    (h : issuedIndex A t handle = some i) : readSlot A t handle = (t.entry i).object := by
  have hg := getHandleIndex_eq_some.mpr (issuedIndex_eq_some.mp h).1
  simp [readSlot, hg, HandleTable.entry]

theorem getObject_issued {handle : W} {i : Fin maxHandles}
    (h : issuedIndex A t handle = some i) : getObject A t handle = (t.entry i).object := by
  simp [getObject, h, HandleTable.entry]

theorem getObject_unissued {handle : W} (h : issuedIndex A t handle = none) :
    getObject A t handle = 0 := by
  simp [getObject, h]

theorem getType_issued {handle : W} {i : Fin maxHandles}
    (h : issuedIndex A t handle = some i) : getType A t handle = (t.entry i).type := by
  simp [getType, h, HandleTable.entry]

/-- The handle a `push` gives out is issued, and the entry is its own. -/
theorem HandleTable.push_issued (h : t.handlesCount < maxHandles) (e : Entry) :
    issuedIndex A (t.push h e) (A.slot t.handlesCount) = some ⟨t.handlesCount, h⟩ :=
  issuedIndex_eq_some.mpr ⟨rfl, Nat.lt_succ_self _⟩

/-- Setting an attribute of the entry just pushed is pushing it with that attribute. -/
theorem HandleTable.push_put (h : t.handlesCount < maxHandles) (e e' : Entry) :
    (t.push h e).put ⟨t.handlesCount, h⟩ e' = t.push h e' := by
  simp [HandleTable.push, HandleTable.put]

theorem createHandleWithExtraInfo_room (h : t.handlesCount < maxHandles) (object : W)
    (type : HandleType) (pExtraInfo : W) :
    createHandleWithExtraInfo A t object type pExtraInfo =
      (t.push h ⟨object, type, 0, pExtraInfo⟩, A.slot t.handlesCount) := by
  rw [createHandleWithExtraInfo, createHandleOfType_room h,
    setExtraInfo_issued (t.push_issued h _), HandleTable.push_put, HandleTable.push_entry,
    if_pos rfl]

theorem createDependentHandle_room (h : t.handlesCount < maxHandles) (primary secondary : W) :
    createDependentHandle A t primary secondary =
      (t.push h ⟨primary, .hndtypeDependent, secondary, 0⟩, A.slot t.handlesCount) := by
  rw [createDependentHandle, createHandleOfType_room h,
    setDependentSecondary_issued (t.push_issued h _), HandleTable.push_put,
    HandleTable.push_entry, if_pos rfl]

theorem issuedIndex_null : issuedIndex A t 0 = none := by
  cases h : issuedIndex A t 0 with
  | none => rfl
  | some i => exact absurd (issuedIndex_eq_some.mp h).1.symm (A.slot_ne_null i.isLt.le)

theorem setExtraInfo_unissued {handle value : W} (h : issuedIndex A t handle = none) :
    setExtraInfo A t handle value = t := by
  simp [setExtraInfo, h]

theorem setDependentSecondary_unissued {handle object : W} (h : issuedIndex A t handle = none) :
    setDependentSecondary A t handle object = t := by
  simp [setDependentSecondary, h]

theorem destroyHandle_unissued {handle : W} (h : issuedIndex A t handle = none) :
    destroyHandle A t handle = t := by
  simp [destroyHandle, h]

/-- The second half of a combined create does nothing when the first has failed. -/
theorem createHandleWithExtraInfo_full (h : ¬ t.handlesCount < maxHandles) (object : W)
    (type : HandleType) (pExtraInfo : W) :
    createHandleWithExtraInfo A t object type pExtraInfo = (t, 0) := by
  rw [createHandleWithExtraInfo, createHandleOfType_full h]
  simp only [setExtraInfo_unissued issuedIndex_null]

theorem createDependentHandle_full (h : ¬ t.handlesCount < maxHandles) (primary secondary : W) :
    createDependentHandle A t primary secondary = (t, 0) := by
  rw [createDependentHandle, createHandleOfType_full h]
  simp only [setDependentSecondary_unissued issuedIndex_null]

/-! ## The table as a finite map -/

/-- The entry of an issued handle. -/
def HandleTable.view (A : HandleArray) (t : HandleTable) (handle : W) : Option Entry :=
  (issuedIndex A t handle).map t.entry

theorem HandleTable.view_issued {handle : W} {i : Fin maxHandles}
    (h : issuedIndex A t handle = some i) : t.view A handle = some (t.entry i) := by
  rw [HandleTable.view, h, Option.map_some]

theorem HandleTable.view_unissued {handle : W} (h : issuedIndex A t handle = none) :
    t.view A handle = none := by
  rw [HandleTable.view, h, Option.map_none]

theorem HandleTable.view_eq_some {handle : W} {e : Entry} : t.view A handle = some e ↔
    ∃ i, issuedIndex A t handle = some i ∧ t.entry i = e := by
  simp [HandleTable.view]

/-- The handle that the next create returns is not issued yet. -/
theorem HandleTable.view_next (room : t.handlesCount < maxHandles) :
    t.view A (A.slot t.handlesCount) = none := by
  apply view_unissued
  cases hi : issuedIndex A t (A.slot t.handlesCount) with
  | none => rfl
  | some i =>
    obtain ⟨hslot, hlt⟩ := issuedIndex_eq_some.mp hi
    exact absurd (A.slot_injective room.le i.isLt.le hslot).symm (Nat.ne_of_lt hlt)

theorem HandleTable.view_push (room : t.handlesCount < maxHandles) (e : Entry) :
    (t.push room e).view A = Function.update (t.view A) (A.slot t.handlesCount) (some e) := by
  funext handle
  by_cases hh : handle = A.slot t.handlesCount
  · subst hh
    rw [Function.update_self, view_issued (t.push_issued room e), push_entry, if_pos rfl]
  · rw [Function.update_of_ne hh]
    -- the other issued handles are the ones from before, with the entries from before
    have hother : ∀ i, issuedIndex A (t.push room e) handle = some i ↔
        issuedIndex A t handle = some i := by
      intro i
      rw [issuedIndex_eq_some, issuedIndex_eq_some, push_handlesCount]
      refine and_congr_right fun hslot => ⟨fun hlt => ?_, fun hlt => Nat.lt_succ_of_lt hlt⟩
      have hne : i.val ≠ t.handlesCount := fun h => hh (h ▸ hslot)
      omega
    have hidx : issuedIndex A (t.push room e) handle = issuedIndex A t handle :=
      Option.ext fun i => hother i
    cases hi : issuedIndex A t handle with
    | none => rw [view_unissued (hidx.trans hi), view_unissued hi]
    | some i =>
      have hlt := (issuedIndex_eq_some.mp hi).2
      rw [view_issued (hidx.trans hi), view_issued hi, push_entry, if_neg (Nat.ne_of_lt hlt)]

theorem HandleTable.view_put {handle : W} {i : Fin maxHandles}
    (hi : issuedIndex A t handle = some i) (e : Entry) :
    (t.put i e).view A = Function.update (t.view A) handle (some e) := by
  have hidx : ∀ h, issuedIndex A (t.put i e) h = issuedIndex A t h := fun _ => rfl
  funext h
  by_cases hh : h = handle
  · subst hh
    rw [Function.update_self, view_issued ((hidx h).trans hi), put_entry, if_pos rfl]
  · rw [Function.update_of_ne hh]
    cases hj : issuedIndex A t h with
    | none => rw [view_unissued ((hidx h).trans hj), view_unissued hj]
    | some j =>
      have hne : j ≠ i := by
        rintro rfl
        exact hh ((issuedIndex_eq_some.mp hj).1.trans (issuedIndex_eq_some.mp hi).1.symm)
      rw [view_issued ((hidx h).trans hj), view_issued hj, put_entry, if_neg hne]

theorem getObject_view (handle : W) :
    getObject A t handle = ((t.view A handle).map Entry.object).getD 0 := by
  cases h : issuedIndex A t handle <;> simp [getObject, HandleTable.view, h, HandleTable.entry]

theorem getType_view (handle : W) :
    getType A t handle = ((t.view A handle).map Entry.type).getD .hndtypeWeakShort := by
  cases h : issuedIndex A t handle <;> simp [getType, HandleTable.view, h, HandleTable.entry]

theorem getDependentSecondary_view (handle : W) :
    getDependentSecondary A t handle = ((t.view A handle).map Entry.secondary).getD 0 := by
  cases h : issuedIndex A t handle <;>
    simp [getDependentSecondary, HandleTable.view, h, HandleTable.entry]

theorem getExtraInfo_view (handle : W) :
    getExtraInfo A t handle = ((t.view A handle).map Entry.extraInfo).getD 0 := by
  cases h : issuedIndex A t handle <;> simp [getExtraInfo, HandleTable.view, h, HandleTable.entry]

theorem containsHandle_view (handle : W) : containsHandle A t handle = true ↔
    ∃ e, t.view A handle = some e ∧ e.object ≠ 0 := by
  rw [containsHandle_eq_true]
  constructor
  · rintro ⟨i, hi, hne⟩
    exact ⟨t.entry i, HandleTable.view_issued hi, hne⟩
  · rintro ⟨e, he, hne⟩
    obtain ⟨i, hi, rfl⟩ := HandleTable.view_eq_some.mp he
    exact ⟨i, hi, hne⟩

end

end MiniGC
