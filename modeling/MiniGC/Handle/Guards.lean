import MiniGC.Handle.Scan
import MiniGC.Lib.PartialMap

/-!
# MiniGC.Handle.Guards

The guards of the operations: what they reject, and what they let through.

* `guards_reject`   a value that is not an issued handle changes nothing, whichever operation it is
  given to, and neither does a create without room.
* `Dead H h`        `h` was created and has been destroyed.
* `dead_stays_dead_iff`   dead handles read null and no operation on one changes anything, in every
  run, exactly as long as none is given an extra info or a secondary other than null: the guard of
  these two attributes asks for an issued index, not for a live handle.
-/

namespace MiniGC

/-! ## What an operation is given, and how it fails -/

/-- The handle a call is given, to read, to write or to duplicate. -/
def Op.given : Op → Option W
  | .createDuplicateHandle handle
  | .destroyHandleOfType handle _
  | .destroyHandleOfUnknownType handle
  | .setExtraInfoForHandle handle _ _
  | .getExtraInfoFromHandle handle
  | .storeObjectInHandle handle _
  | .storeObjectInHandleIfNull handle _
  | .setDependentHandleSecondary handle _
  | .getDependentHandleSecondary handle
  | .interlockedCompareExchangeObjectInHandle handle _ _
  | .handleFetchType handle
  | .containsHandle handle
  | .getObject handle => some handle
  | _ => none

/-- A function of the store itself, which there is no way to call without a store. -/
def Op.ofStore : Op → Bool
  | .containsHandle _
  | .createHandleOfType _ _
  | .createHandleOfTypeOn _ _ _
  | .createHandleWithExtraInfo _ _ _
  | .createDependentHandle _ _
  | .getObject _ => true
  | _ => false

/-- The answer that reports failure: null, false, or `HNDTYPE_WEAK_SHORT`. -/
def Op.failure : Op → Answer
  | .createGlobalHandleOfType _ _
  | .createDuplicateHandle _
  | .createHandleOfType _ _
  | .createHandleOfTypeOn _ _ _
  | .createHandleWithExtraInfo _ _ _
  | .createDependentHandle _ _ => .handle 0
  | .getExtraInfoFromHandle _
  | .getDependentHandleSecondary _
  | .interlockedCompareExchangeObjectInHandle _ _ _
  | .getObject _ => .object 0
  | .storeObjectInHandleIfNull _ _
  | .containsHandle _ => .flag false
  | .handleFetchType _ => .type .hndtypeWeakShort
  | _ => .void

section

variable {A : HandleArray} {m : HandleManager} {H : History}

/-- What the functions of the store do with a value they reject. -/
structure StoreRejects (A : HandleArray) (t : HandleTable) (h : W) : Prop where
  contains : containsHandle A t h = false
  destroy : destroyHandle A t h = t
  object : getObject A t h = 0
  secondary : getDependentSecondary A t h = 0
  setSecondary : ∀ object, setDependentSecondary A t h object = t
  type : getType A t h = .hndtypeWeakShort
  setExtraInfo : ∀ value, setExtraInfo A t h value = t
  extraInfo : getExtraInfo A t h = 0

theorem issuedIndex_eq_none {t : HandleTable} {h : W} :
    issuedIndex A t h = none ↔ ∀ i < t.handlesCount, h ≠ A.slot i := by
  rw [Option.eq_none_iff_forall_ne_some]
  constructor
  · intro hnone i hi hslot
    exact hnone ⟨i, hi.trans_le t.handlesCount_le⟩ (issuedIndex_eq_some.mpr ⟨hslot, hi⟩)
  · intro hne i hi
    obtain ⟨hslot, hlt⟩ := issuedIndex_eq_some.mp hi
    exact hne i hlt hslot

theorem storeRejects {t : HandleTable} {h : W} (hi : issuedIndex A t h = none) :
    StoreRejects A t h where
  contains := by simp [containsHandle, hi]
  destroy := destroyHandle_unissued hi
  object := by simp [getObject, hi]
  secondary := by simp [getDependentSecondary, hi]
  setSecondary _ := setDependentSecondary_unissued hi
  type := by simp [getType, hi]
  setExtraInfo _ := setExtraInfo_unissued hi
  extraInfo := by simp [getExtraInfo, hi]

theorem HandleManager.setTable_self (m : HandleManager) : m.setTable m.table = m := rfl

/-- Every call passes such a value on to the store, or asks it whether it contains it. -/
theorem handleStep_rejected {op : Op} {h : W} (hr : StoreRejects A m.table h)
    (hop : op.given = some h) (hstore : op.ofStore = true → m.store = true) :
    handleStep A m op = (m, op.failure) := by
  cases op <;> cases hop
  case containsHandle =>
    rw [handleStep, storeRead_store (hstore rfl), hr.contains]
    rfl
  case getObject =>
    rw [handleStep, storeRead_store (hstore rfl), hr.object]
    rfl
  case storeObjectInHandleIfNull object =>
    simp only [handleStep, HandleManager.storeObjectInHandleIfNull_eq, Op.failure]
  all_goals
    simp [handleStep, Op.failure, HandleManager.createDuplicateHandle,
      HandleManager.destroyHandleOfType, HandleManager.destroyHandleOfUnknownType,
      HandleManager.setExtraInfoForHandle, HandleManager.getExtraInfoFromHandle,
      HandleManager.storeObjectInHandle, HandleManager.setDependentHandleSecondary,
      HandleManager.getDependentHandleSecondary,
      HandleManager.interlockedCompareExchangeObjectInHandle, HandleManager.handleFetchType,
      hr.contains, hr.destroy, hr.secondary, hr.setSecondary, hr.type, hr.setExtraInfo,
      hr.extraInfo, HandleManager.setTable_self]

theorem handleStep_full {op : Op} (hfull : m.table.handlesCount = maxHandles)
    (hop : op.isCreate = true) (hstore : op.ofStore = true → m.store = true) :
    handleStep A m op = (m, .handle 0) := by
  cases hs : m.store with
  | true =>
    rcases (handleStep_outcome A m op).create_cases hs hop with ⟨_, room, -⟩ | ⟨-, he⟩
    · exact absurd hfull (Nat.ne_of_lt room)
    · exact he
  | false =>
    rw [hs] at hstore
    cases op
    case createGlobalHandleOfType => simp [handleStep, HandleManager.createGlobalHandleOfType, hs]
    case createDuplicateHandle => simp [handleStep, HandleManager.createDuplicateHandle, hs]
    all_goals first
      | exact absurd (hstore rfl) Bool.false_ne_true
      | cases hop

/-- In any state, a value that is not the address of one of the first `handlesCount` slots is
rejected by every operation, which changes nothing and reports failure; and so is every create when
the table is full. -/
theorem guards_reject (A : HandleArray) (m : HandleManager) :
    (∀ h, (∀ i < m.table.handlesCount, h ≠ A.slot i) → StoreRejects A m.table h ∧
      ∀ op : Op, op.given = some h → (op.ofStore = true → m.store = true) →
        handleStep A m op = (m, op.failure)) ∧
    (m.table.handlesCount = maxHandles → ∀ op : Op, op.isCreate = true →
      (op.ofStore = true → m.store = true) → handleStep A m op = (m, .handle 0)) := by
  refine ⟨fun h hne => ?_, fun hfull op hop hstore => handleStep_full hfull hop hstore⟩
  have hr := storeRejects (issuedIndex_eq_none.mpr hne)
  exact ⟨hr, fun op hop hstore => handleStep_rejected hr hop hstore⟩

theorem guards_reject_misaligned :
    let m := (handleMachine .usual).run .processStart
      [.initializeManager, .createGlobalHandleOfType 0x10 .hndtypeStrong]
    handleStep .usual m (.setExtraInfoForHandle 0x600001 .hndtypeStrong 0x5) = (m, .void) :=
  ((guards_reject .usual _).1 0x600001 (by decide)).2
    (.setExtraInfoForHandle 0x600001 .hndtypeStrong 0x5) rfl (fun _ => rfl)

/-! ## Destroyed handles -/

def Dead (H : History) (h : W) : Prop := h ∈ H.created ∧ H.live h = none

/-- Every dead handle reads null. -/
def DeadClear (A : HandleArray) (r : HandleManager × History) : Prop :=
  ∀ h, Dead r.2 h → getObject A r.1.table h = 0 ∧ getDependentSecondary A r.1.table h = 0 ∧
    getExtraInfo A r.1.table h = 0

/-- If the call is given a dead handle, it changes no slot and takes no new one. -/
def DeadUntouched (A : HandleArray) (r : HandleManager × History) (call : HandleCall) : Prop :=
  ∀ op h, call = .op op → op.given = some h → Dead r.2 h → (handleStep A r.1 op).1 = r.1

/-- The handle and the value of an attribute that is set. -/
def Op.attribute : Op → Option (W × W)
  | .setExtraInfoForHandle handle _ pExtraInfo => some (handle, pExtraInfo)
  | .setDependentHandleSecondary handle object => some (handle, object)
  | _ => none

structure Entry.Clear (e : Entry) : Prop where
  object : e.object = 0
  secondary : e.secondary = 0
  extraInfo : e.extraInfo = 0

theorem Refines.mem_created (hr : Refines A m H) {h : W} :
    h ∈ H.created ↔ ∃ e, m.table.view A h = some e := by
  rw [hr.created_eq, List.mem_map]
  constructor
  · rintro ⟨i, hi, rfl⟩
    have hlt := m.table.mem_indices.mp hi
    exact ⟨_, HandleTable.view_issued (issuedIndex_eq_some.mpr ⟨rfl, hlt⟩)⟩
  · rintro ⟨e, he⟩
    obtain ⟨i, hi, -⟩ := HandleTable.view_eq_some.mp he
    obtain ⟨hslot, hlt⟩ := issuedIndex_eq_some.mp hi
    exact ⟨i, m.table.mem_indices.mpr hlt, hslot.symm⟩

theorem Refines.deadClear_iff (hr : Refines A m H) : DeadClear A (m, H) ↔
    PartialMap.OffDomain Entry.Clear (m.table.view A) H.live := by
  have hread : ∀ {h e}, m.table.view A h = some e → (e.Clear ↔ getObject A m.table h = 0 ∧
      getDependentSecondary A m.table h = 0 ∧ getExtraInfo A m.table h = 0) := by
    intro h e he
    simp only [getObject_view, getDependentSecondary_view, getExtraInfo_view, he, Option.map_some,
      Option.getD_some]
    exact ⟨fun hc => ⟨hc.object, hc.secondary, hc.extraInfo⟩, fun hc => ⟨hc.1, hc.2.1, hc.2.2⟩⟩
  constructor
  · intro hd h e he hl
    exact (hread he).mpr (hd h ⟨hr.mem_created.mpr ⟨e, he⟩, hl⟩)
  · rintro hd h ⟨hmem, hl⟩
    obtain ⟨e, he⟩ := hr.mem_created.mp hmem
    exact (hread he).mp (hd h e he hl)

/-- Destroying an entry that is clear already leaves it as it is. -/
theorem Entry.Clear.eq {e : Entry} (hc : e.Clear) : e = ⟨0, e.type, 0, 0⟩ := by
  obtain ⟨object, type, secondary, extraInfo⟩ := e
  obtain ⟨rfl, rfl, rfl⟩ := hc
  rfl

theorem Op.given_of_target {op : Op} {h : W} (hop : op.target = some h) : op.given = some h := by
  cases op <;> first | exact hop | cases hop

theorem Op.attribute_of_create {op : Op} (hop : op.isCreate = true) : op.attribute = none := by
  cases op <;> first | rfl | cases hop

theorem Op.given_of_create {op : Op} {h : W} (hop : op.isCreate = true) (hg : op.given = some h) :
    op = .createDuplicateHandle h := by
  cases op <;> cases hop <;> cases hg
  rfl

theorem Op.update_of_attribute {op : Op} {h v : W} (hop : op.attribute = some (h, v)) (a : Answer) :
    ∃ f, op.update a = some (h, f) := by
  cases op <;> cases hop <;> exact ⟨_, rfl⟩

/-- An update that is not a store destroys the handle, or sets the attribute the call names. -/
theorem Op.update_attribute_cases {op : Op} {a : Answer} {handle : W} {f : Entry → Option Entry}
    (hop : op.isStore = false) (hu : op.update a = some (handle, f)) :
    (op.attribute = none ∧ f = fun _ => none) ∨ ∃ v, op.attribute = some (handle, v) ∧
      ((f = fun e => some { e with extraInfo := v }) ∨
        f = fun e => some { e with secondary := v }) := by
  cases op <;> cases hop <;> cases hu
  case destroyHandleOfType => exact .inl ⟨rfl, rfl⟩
  case destroyHandleOfUnknownType => exact .inl ⟨rfl, rfl⟩
  case setExtraInfoForHandle v => exact .inr ⟨v, rfl, .inl rfl⟩
  case setDependentHandleSecondary v => exact .inr ⟨v, rfl, .inr rfl⟩

/-- The call sets an attribute of a dead handle to something other than null. -/
def Op.WritesDead (op : Op) (m : HandleManager) (H : History) : Prop :=
  ∃ h v, m.store = true ∧ op.attribute = some (h, v) ∧ Dead H h ∧ v ≠ 0

/-- What one call does to dead handles, and what it may do to them. -/
def Op.SparesDead (A : HandleArray) (op : Op) (m : HandleManager) (H : History)
    (r : HandleManager × Answer) : Prop :=
  PartialMap.OffDomain Entry.Clear (r.1.table.view A) (H.record op r.2).live ∧
    ∀ h, op.given = some h → Dead H h → r.1 = m

variable {op : Op}

theorem Op.not_writesDead (hop : op.attribute = none) : ¬ op.WritesDead m H := by
  rintro ⟨h, v, -, hattr, -⟩
  rw [hop] at hattr
  cases hattr

theorem Op.writesDead_iff (hstore : m.store = true) {h v : W} (hcreated : h ∈ H.created)
    (hattr : op.attribute = some (h, v)) : op.WritesDead m H ↔ H.live h = none ∧ v ≠ 0 := by
  constructor
  · rintro ⟨h', v', -, hattr', ⟨-, hl⟩, hne⟩
    rw [hattr] at hattr'
    cases hattr'
    exact ⟨hl, hne⟩
  · rintro ⟨hl, hne⟩
    exact ⟨h, v, hstore, hattr, ⟨hcreated, hl⟩, hne⟩

/-- A call that leaves the table as it is, and destroys no handle in the record. -/
theorem sparesDead_same (hd : PartialMap.OffDomain Entry.Clear (m.table.view A) H.live) {a : Answer}
    {store : Bool} (hstore : op.session = none → store = m.store)
    (hlive : ∀ h, (H.record op a).live h = none → H.live h = none) :
    op.SparesDead A m H ({ m with store := store }, a) := by
  refine ⟨fun h e hv hl => hd h e hv (hlive h hl), fun h hg _ => ?_⟩
  have hsession : op.session = none := by cases op <;> first | rfl | cases hg
  rw [hstore hsession]

theorem updated_sparesDead (hr : Refines A m H)
    (hd : PartialMap.OffDomain Entry.Clear (m.table.view A) H.live) {a : Answer} {handle : W}
    {f : Entry → Option Entry} {i : Fin maxHandles} (hstore : m.store = true)
    (hop : op.isStore = false) (hu : op.update a = some (handle, f))
    (hi : issuedIndex A m.table handle = some i) :
    op.SparesDead A m H (m.setTable (m.table.put i (m.table.after i f)), a) ↔
      ¬ op.WritesDead m H := by
  have hview : m.table.view A handle = some (m.table.entry i) := HandleTable.view_issued hi
  have hgiven : ∀ h, op.given = some h → h = handle := by
    intro h hg
    rw [Op.given_of_target (Op.update_cases hu).1] at hg
    exact (Option.some.inj hg).symm
  have hupdate : PartialMap.OffDomain Entry.Clear
      ((m.setTable (m.table.put i (m.table.after i f))).table.view A) (H.record op a).live ↔
      ((H.live handle).bind f = none → (m.table.after i f).Clear) := by
    rw [History.record_update (hr.initialised.trans hstore) hu, HandleManager.setTable,
      HandleTable.view_put hi]
    exact PartialMap.offDomain_update hd
  have hsame : m.table.after i f = m.table.entry i →
      m.setTable (m.table.put i (m.table.after i f)) = m := by
    intro heq
    rw [heq, HandleTable.put_entry_self, HandleManager.setTable_self]
  unfold Op.SparesDead
  rw [hupdate]
  rcases Op.update_attribute_cases hop hu with ⟨hnone, rfl⟩ | ⟨v, hattr, hf⟩
  · refine iff_of_true ⟨fun _ => ⟨rfl, rfl, rfl⟩, fun h hg hdead => hsame ?_⟩
      (Op.not_writesDead hnone)
    obtain rfl := hgiven h hg
    exact (hd h _ hview hdead.2).eq.symm
  · rw [Op.writesDead_iff hstore (hr.mem_created.mpr ⟨_, hview⟩) hattr]
    cases hl : H.live handle with
    | some e' =>
      refine iff_of_true ⟨fun hbind => ?_, fun h hg hdead => ?_⟩ fun h => by cases h.1
      · obtain rfl | rfl := hf <;> cases hbind
      · obtain rfl := hgiven h hg
        rw [hdead.2] at hl
        cases hl
    | none =>
      have hclear := hd handle _ hview hl
      have hafter : (m.table.after i f).Clear ↔ v = 0 := by
        obtain rfl | rfl := hf
        · exact ⟨fun hc => hc.extraInfo, fun h0 => ⟨hclear.object, hclear.secondary, h0⟩⟩
        · exact ⟨fun hc => hc.secondary, fun h0 => ⟨hclear.object, h0, hclear.extraInfo⟩⟩
      rw [not_and, not_not, Option.bind_none, hafter]
      constructor
      · exact fun h _ => h.1 rfl
      · intro h
        have h0 := h rfl
        refine ⟨fun _ => h0, fun _ _ _ => hsame ?_⟩
        have htype : (m.table.after i f).type = (m.table.entry i).type := by
          obtain rfl | rfl := hf <;> rfl
        rw [(hafter.mpr h0).eq, htype]
        exact hclear.eq.symm

/-- A call made while dead handles are clear keeps them so, and changes nothing through one, unless
it writes an attribute of one. -/
theorem sparesDead_iff (hr : Refines A m H)
    (hd : PartialMap.OffDomain Entry.Clear (m.table.view A) H.live) {r : HandleManager × Answer}
    (ho : HandleOutcome A m op r) : op.SparesDead A m H r ↔ ¬ op.WritesDead m H := by
  cases ho with
  | session a store hop =>
    refine iff_of_true (sparesDead_same hd (fun h => ?_) fun h => ?_) (Op.not_writesDead ?_)
    · rw [hop] at h; cases h
    · rw [History.record_session hop]; exact id
    · cases op <;> first | rfl | cases hop
  | absent a hstore hop =>
    refine iff_of_true (sparesDead_same hd (fun _ => rfl) fun h => ?_) ?_
    · rw [History.record_absent hop (hr.initialised.trans hstore)]; exact id
    · rintro ⟨h, v, hs, -⟩
      rw [hstore] at hs
      cases hs
  | refused hstore hop why =>
    refine iff_of_true (sparesDead_same hd (fun _ => rfl) fun h => ?_)
      (Op.not_writesDead (Op.attribute_of_create hop))
    rw [History.record_refused (hr.initialised.trans hstore) hop]; exact id
  | created e hstore room hop he =>
    refine iff_of_true ⟨?_, fun h hg hdead => ?_⟩ (Op.not_writesDead (Op.attribute_of_create hop))
    · obtain ⟨e', he', -⟩ := hr.entry he
      rw [History.record_created (hr.initialised.trans hstore) hop (A.slot_ne_null room.le), he',
        HandleManager.setTable, HandleTable.view_push]
      exact (PartialMap.offDomain_update hd).mpr fun h => by cases h
    · -- only a contained handle is duplicated, and that is a live one
      obtain rfl := Op.given_of_create hop hg
      obtain ⟨e₀, hc, -⟩ := Option.map_eq_some_iff.mp he
      obtain ⟨-, e', hl, -⟩ := hr.live_of_contained hc
      rw [hdead.2] at hl
      cases hl
  | updated a handle f i hstore hop hu hi => exact updated_sparesDead hr hd hstore hop hu hi
  | stored a handle object i hstore hop hu hi hne =>
    have hstored : op.attribute = none := by
      obtain rfl | rfl := hop <;> rfl
    obtain ⟨e', hl⟩ : ∃ e', H.live handle = some e' :=
      Option.ne_none_iff_exists'.mp fun hl => hne (hr.dead_object hi hl)
    refine iff_of_true ⟨?_, fun h hg hdead => ?_⟩ (Op.not_writesDead hstored)
    · rw [History.record_update (hr.initialised.trans hstore) hu, HandleManager.setTable,
        HandleTable.view_put hi, hl]
      exact (PartialMap.offDomain_update hd).mpr fun h => by cases h
    · rw [Op.given_of_target (Op.update_cases hu).1] at hg
      obtain rfl := Option.some.inj hg
      rw [hdead.2] at hl
      cases hl
  | dropped a handle object i hstore hop hu hi hnull =>
    have hstored : op.attribute = none := by
      obtain rfl | rfl := hop <;> rfl
    refine iff_of_true (sparesDead_same hd (fun _ => rfl) fun h hl => ?_)
      (Op.not_writesDead hstored)
    rw [History.record_update (hr.initialised.trans hstore) hu] at hl
    by_cases hh : h = handle
    · subst hh
      simp only [Function.update_self, Option.bind_eq_none_iff] at hl
      cases hlive : H.live h with
      | none => rfl
      | some e' => cases hl e' hlive
    · simpa only [Function.update_of_ne hh] using hl
  | kept a hstore hop hsession hu _ =>
    have hrecord := History.record_kept (hr.initialised.trans hstore) hsession hop
      fun handle f h => hr.live_none (hu handle f h)
    refine iff_of_true (sparesDead_same hd (fun _ => rfl) fun h => ?_) ?_
    · rw [hrecord]; exact id
    · rintro ⟨h, v, -, hattr, ⟨hmem, -⟩, -⟩
      obtain ⟨f, hf⟩ := Op.update_of_attribute hattr a
      obtain ⟨e, he⟩ := hr.mem_created.mp hmem
      rw [HandleTable.view_unissued (hu h f hf)] at he
      cases he

/-- A scan changes no dead handle: there is no object in it to visit. -/
theorem DeadClear.scan (hr : Refines A m H) (hd : DeadClear A (m, H)) (pf : PromoteFunc) :
    DeadClear A ((m.scanHandles A pf).1, H) := by
  by_cases hstore : m.store = true
  · intro h hdead
    have hs := scanned A m.table pf
    obtain ⟨hobject, hsecondary, hextra⟩ := hd h hdead
    obtain ⟨-, hsecondary', hextra'⟩ := hs.attributes h
    obtain ⟨e, he⟩ := hr.mem_created.mp hdead.1
    obtain ⟨i, hi, -⟩ := HandleTable.view_eq_some.mp he
    rw [HandleManager.scanHandles_store hstore]
    refine ⟨?_, hsecondary'.trans hsecondary, hextra'.trans hextra⟩
    rw [HandleManager.setTable, getObject_issued ((hs.issued h).trans hi)]
    rw [getObject_issued hi] at hobject
    exact hs.null hobject
  · rw [HandleManager.scanHandles_absent hstore]
    exact hd

/-- In every run, destroyed handles read null at every moment and no operation on one changes any
slot or takes a new one, exactly as long as no operation gives one of them an extra info or a
secondary other than null. -/
theorem dead_stays_dead_iff (A : HandleArray) (calls : List HandleCall) :
    (scanMachine A).Always (DeadClear A) (.processStart, .start) calls ∧
      (scanMachine A).EachStep (DeadUntouched A) (.processStart, .start) calls ↔
    (scanMachine A).EachStep (fun r call => ∀ op, call = .op op → ¬ op.WritesDead r.1 r.2)
      (.processStart, .start) calls := by
  have hstart : DeadClear A (.processStart, .start) := fun h hdead => by cases hdead.1
  refine Mealy.always_eachStep_iff _ hstart fun p call _ hd => ?_
  have hr := refines_scan_run A p
  generalize (scanMachine A).run (.processStart, .start) p = r at hr hd
  obtain ⟨m, H⟩ := r
  cases call with
  | scanHandles pf =>
    exact iff_of_true ⟨hd.scan hr pf, fun _ _ hcall => by cases hcall⟩ fun _ hcall => by cases hcall
  | op op =>
    have ho := handleStep_outcome A m op
    have hiff := sparesDead_iff hr (hr.deadClear_iff.mp hd) ho
    have hnext := (hr.step ho).deadClear_iff
    constructor
    · rintro ⟨hclear, huntouched⟩ _ hcall
      cases hcall
      exact hiff.mp ⟨hnext.mp hclear, fun h hg hdead => huntouched op h rfl hg hdead⟩
    · intro hno
      obtain ⟨hclear, huntouched⟩ := hiff.mpr (hno op rfl)
      refine ⟨hnext.mpr hclear, fun op' h hcall hg hdead => ?_⟩
      cases hcall
      exact huntouched h hg hdead

/-- A handle is created and destroyed, and then given an extra info, which it keeps. -/
theorem dead_handle_written :
    ¬ ((scanMachine .usual).Always (DeadClear .usual) (.processStart, .start)
        [.op .initializeManager, .op (.createGlobalHandleOfType 0x10 .hndtypeStrong),
          .op (.destroyHandleOfUnknownType 0x600000),
          .op (.setExtraInfoForHandle 0x600000 .hndtypeStrong 0x5)]) := by
  intro hall
  have hread := (hall _ (List.prefix_refl _) 0x600000 ⟨by decide, rfl⟩).2.2
  exact absurd hread (by decide)

end

end MiniGC
