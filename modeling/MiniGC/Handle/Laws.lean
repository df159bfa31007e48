import MiniGC.Handle.History
import MiniGC.Lib.PartialMap

/-!
# MiniGC.Handle.Laws

What the operations on a live handle promise, and when they keep it. A slot that holds null looks
destroyed to `containsHandle`, and the three stores go through that guard.

* `compareExchange_iff`   the law of compare-exchange.
* `storeIfNull_iff`       publication by the first of several `StoreObjectInHandleIfNull` calls.
* `objects_iff`           a live handle holds what was last stored in it.
* `membership_iff`        `ContainsHandle` says which handles are live.
-/

namespace MiniGC

open PartialMap

section

variable {A : HandleArray} {m : HandleManager} {H : History} {op : Op} {a : Answer}

theorem Refines.live_issued (hr : Refines A m H) {h : W} (hlive : H.live h ≠ none) :
    ∃ i, issuedIndex A m.table h = some i := by
  cases hi : issuedIndex A m.table h with
  | none => exact absurd (hr.live_none hi) hlive
  | some i => exact ⟨i, rfl⟩

theorem contained_of_object {h : W} {i : Fin maxHandles} (hi : issuedIndex A m.table h = some i) :
    containsHandle A m.table h = true ↔ (m.table.entry i).object ≠ 0 := by
  rw [containsHandle_eq_true]
  constructor
  · rintro ⟨j, hj, hne⟩
    rw [hi] at hj
    cases hj
    exact hne
  · exact fun hne => ⟨i, hi, hne⟩

/-! ## Compare-exchange -/

/-- The law of `InterlockedCompareExchangeObjectInHandle` on `h`: the answer is the object held,
and the exchange happens exactly if that is the comparand. -/
def CompareExchangeLaw (A : HandleArray) (m : HandleManager) (h object comparand : W) : Prop :=
  let held := getObject A m.table h
  let r := m.interlockedCompareExchangeObjectInHandle A h object comparand
  r.2 = held ∧ getObject A r.1.table h = if held = comparand then object else held

theorem compareExchangeLaw_iff {h object comparand : W} {i : Fin maxHandles}
    (hstore : m.store = true) (hi : issuedIndex A m.table h = some i) :
    CompareExchangeLaw A m h object comparand ↔
      ¬ (getObject A m.table h = 0 ∧ comparand = 0 ∧ object ≠ 0) := by
  have hheld := getObject_issued hi
  unfold CompareExchangeLaw
  by_cases hne : (m.table.entry i).object ≠ 0
  · refine iff_of_true ?_ fun hx => hne (hheld ▸ hx.1)
    rw [HandleManager.compareExchange_contained hstore hi hne, hheld]
    refine ⟨rfl, ?_⟩
    split
    · have hv : (m.setTable (m.table.put i
          { m.table.entry i with object := object })).table.view A h =
            some { m.table.entry i with object := object } := by
        simp only [HandleManager.setTable, HandleTable.view_put hi, Function.update_self]
      rw [getObject_view, hv]
      rfl
    · exact hheld
  · rw [not_not] at hne
    have hc : containsHandle A m.table h = false := by
      rw [Bool.eq_false_iff, ne_eq, contained_of_object hi]
      exact not_not_intro hne
    have hnull : getObject A m.table h = 0 := hheld.trans hne
    rw [HandleManager.compareExchange_rejected hc]
    simp only [hnull, true_and, not_and, not_not]
    constructor
    · intro h0 hcmp
      rw [if_pos hcmp.symm] at h0
      exact h0.symm
    · intro h0
      split
      · rename_i hcmp
        exact (h0 hcmp.symm).symm
      · rfl

/-- In every reachable state a compare-exchange of a live handle keeps its law, unless it is an
exchange of null for an object on a handle that holds null: that one is dropped, and reported as
done. -/
theorem compareExchange_iff (A : HandleArray) (ops : List Op) (h object comparand : W) :
    let r := (historyMachine A).run (.processStart, .start) ops
    r.1.store = true → r.2.live h ≠ none →
      (CompareExchangeLaw A r.1 h object comparand ↔
        ¬ (getObject A r.1.table h = 0 ∧ comparand = 0 ∧ object ≠ 0)) := by
  intro r hstore hlive
  obtain ⟨i, hi⟩ := (refines_run A ops).live_issued hlive
  exact compareExchangeLaw_iff hstore hi

theorem compareExchange_object :
    let r := (historyMachine .usual).run (.processStart, .start)
      [.initializeManager, .createGlobalHandleOfType 0x10 .hndtypeStrong]
    CompareExchangeLaw .usual r.1 0x600000 0x20 0x10 :=
  (compareExchange_iff .usual [.initializeManager, .createGlobalHandleOfType 0x10 .hndtypeStrong]
    0x600000 0x20 0x10 (by decide) (by decide)).mpr (by decide)

/-- A handle made for null: the exchange of null for an object answers null and leaves null. -/
theorem compareExchange_null :
    let r := (historyMachine .usual).run (.processStart, .start)
      [.initializeManager, .createGlobalHandleOfType 0 .hndtypeStrong]
    r.1.store = true ∧ r.2.live 0x600000 ≠ none ∧
      ¬ CompareExchangeLaw .usual r.1 0x600000 0x20 0 := by
  refine ⟨by decide, by decide, fun hlaw => ?_⟩
  exact absurd hlaw.2 (by decide)

/-! ## Publication by `StoreObjectInHandleIfNull` -/

/-- The `StoreObjectInHandleIfNull` calls on `h` in a run: the object of each, and its result. -/
def attempts (h : W) (trace : List (Op × Answer)) : List (W × Bool) :=
  trace.filterMap fun x =>
    match x with
    | (.storeObjectInHandleIfNull handle object, .flag result) =>
      if handle = h then some (object, result) else none
    | _ => none

/-- An operation on another handle, or an attempt to store an object in `h`. -/
def Contends (h : W) (op : Op) : Prop :=
  op.session = none ∧
    (op.target = some h → ∃ object, object ≠ 0 ∧ op = .storeObjectInHandleIfNull h object)

/-- The first attempt on a handle that holds null succeeds and stays; all others fail. Attempts on
a handle that holds an object fail and change nothing. -/
def PublicationLaw (A : HandleArray) (m : HandleManager) (h : W) (ops : List Op) : Prop :=
  let tries := attempts h ((handleMachine A).trace m ops)
  let final := getObject A ((handleMachine A).run m ops).table h
  if getObject A m.table h = 0 then
    ∃ object rest, tries = (object, true) :: rest ∧ (∀ x ∈ rest, x.2 = false) ∧ final = object
  else
    (∀ x ∈ tries, x.2 = false) ∧ final = getObject A m.table h ∧
      ∀ p object, p ++ [.storeObjectInHandleIfNull h object] <+: ops →
        (handleMachine A).next ((handleMachine A).run m p) (.storeObjectInHandleIfNull h object) =
          (handleMachine A).run m p

theorem attempts_false (A : HandleArray) (m : HandleManager) (h : W) (ops : List Op) :
    ∀ x ∈ attempts h ((handleMachine A).trace m ops), x.2 = false := by
  rintro ⟨object, result⟩ hx
  obtain ⟨⟨op, a⟩, hmem, hop⟩ := List.mem_filterMap.mp hx
  obtain ⟨p, -, ha⟩ := (handleMachine A).mem_trace hmem
  simp only at hop ha
  split at hop
  · rename_i handle object' result' heq
    cases heq
    split at hop
    · cases hop
      have hanswer : (handleMachine A).answer ((handleMachine A).run m p)
          (.storeObjectInHandleIfNull handle object) = .flag false := by
        simp only [Mealy.answer, handleMachine, handleStep,
          HandleManager.storeObjectInHandleIfNull_eq]
      rw [hanswer] at ha
      exact Answer.flag.inj ha
    · cases hop
  · cases hop

/-- Contenders leave the entry of an issued handle as it is. -/
theorem view_contends {h : W} {e : Entry} (hv : m.table.view A h = some e)
    (hop : Contends h op) : ((handleMachine A).next m op).table.view A h = some e := by
  by_cases ht : op.target = some h
  · obtain ⟨object, -, rfl⟩ := hop.2 ht
    simp only [Mealy.next, handleMachine, handleStep, HandleManager.storeObjectInHandleIfNull_eq]
    exact hv
  · have hview := (handleStep_outcome A m op).view_eq ht fun _ => by
      rw [hv]; exact Option.some_ne_none e
    exact hview.trans hv

theorem view_contends_run {h : W} {e : Entry} (hv : m.table.view A h = some e) {ops : List Op}
    (hops : ∀ op ∈ ops, Contends h op) :
    ((handleMachine A).run m ops).table.view A h = some e := by
  induction ops generalizing m with
  | nil => exact hv
  | cons op ops ih =>
    exact ih (view_contends hv (hops op List.mem_cons_self))
      fun op' h' => hops op' (List.mem_cons_of_mem op h')

theorem publicationLaw_iff {h : W} {e : Entry} (hv : m.table.view A h = some e) {ops : List Op}
    (hops : ∀ op ∈ ops, Contends h op) :
    PublicationLaw A m h ops ↔ getObject A m.table h ≠ 0 := by
  have hfalse := attempts_false A m h ops
  unfold PublicationLaw
  split
  · rename_i hnull
    refine iff_of_false ?_ (not_not_intro hnull)
    rintro ⟨object, rest, htries, -, -⟩
    rw [htries] at hfalse
    cases hfalse _ List.mem_cons_self
  · rename_i hne
    refine iff_of_true ⟨hfalse, ?_, fun p object _ => ?_⟩ hne
    · rw [getObject_view, getObject_view, view_contends_run hv hops, hv]
    · simp only [Mealy.next, handleMachine, handleStep, HandleManager.storeObjectInHandleIfNull_eq]

/-- From every reachable state, for every run of attempts on a live handle, among operations on
other handles, publication works exactly if the handle holds an object already, so that there is
nothing to publish: on a handle that holds null every attempt fails. -/
theorem storeIfNull_iff (A : HandleArray) (before : List Op) (h : W) (ops : List Op) :
    let r := (historyMachine A).run (.processStart, .start) before
    r.1.store = true → r.2.live h ≠ none → (∀ op ∈ ops, Contends h op) →
      (∃ op ∈ ops, op.target = some h) →
      (PublicationLaw A r.1 h ops ↔ getObject A r.1.table h ≠ 0) := by
  intro r _ hlive hops _
  obtain ⟨i, hi⟩ := (refines_run A before).live_issued hlive
  exact publicationLaw_iff (HandleTable.view_issued hi) hops

theorem storeIfNull_object :
    let r := (historyMachine .usual).run (.processStart, .start)
      [.initializeManager, .createGlobalHandleOfType 0x10 .hndtypeStrong]
    PublicationLaw .usual r.1 0x600000 [.storeObjectInHandleIfNull 0x600000 0x20] := by
  refine (storeIfNull_iff .usual [.initializeManager, .createGlobalHandleOfType 0x10 .hndtypeStrong]
    0x600000 [.storeObjectInHandleIfNull 0x600000 0x20] (by decide) (by decide) ?_ ?_).mpr
    (by decide)
  · intro op hop
    obtain rfl := List.mem_singleton.mp hop
    exact ⟨rfl, fun _ => ⟨0x20, by decide, rfl⟩⟩
  · exact ⟨_, List.mem_singleton_self _, rfl⟩

/-- A handle made for null, and one attempt to publish an object in it. -/
theorem storeIfNull_null :
    let r := (historyMachine .usual).run (.processStart, .start)
      [.initializeManager, .createGlobalHandleOfType 0 .hndtypeStrong]
    r.2.live 0x600000 ≠ none ∧ getObject .usual r.1.table 0x600000 = 0 ∧
      ¬ PublicationLaw .usual r.1 0x600000 [.storeObjectInHandleIfNull 0x600000 0x20] := by
  refine ⟨by decide, by decide, fun hlaw => ?_⟩
  rw [PublicationLaw, if_pos (by decide)] at hlaw
  obtain ⟨object, rest, htries, -, -⟩ := hlaw
  have hfalse := attempts_false _ _ _ _ (object, true) (htries ▸ List.mem_cons_self)
  cases hfalse

/-! ## The object last stored -/

/-- Every live handle holds the object that the record gives it. -/
def ObjectsAgree (A : HandleArray) (r : HandleManager × History) : Prop :=
  ∀ h e, r.2.live h = some e → getObject A r.1.table h = e.object

/-- The same, of the two finite maps. -/
def Agree (view live : W → Option Entry) : Prop :=
  Related (fun e e' => e.object = e'.object) view live

theorem Refines.objectsAgree_iff (hr : Refines A m H) :
    ObjectsAgree A (m, H) ↔ Agree (m.table.view A) H.live := by
  constructor
  · intro hagree h e e' hv hl
    have := hagree h e' hl
    rwa [getObject_view, hv] at this
  · intro hagree h e' hl
    obtain ⟨e, hv, -⟩ := hr.attributes h e' hl
    rw [getObject_view, hv]
    exact hagree h e e' hv hl

/-- A duplicate starts with the object the record has for its source. -/
theorem Refines.entry_object (hr : Refines A m H) (hagree : Agree (m.table.view A) H.live)
    {e e' : Entry} (he : op.entry (m.table.contained A) = some e)
    (he' : op.entry H.live = some e') : e.object = e'.object := by
  cases op
  case createDuplicateHandle h =>
    obtain ⟨e₀, hc, rfl⟩ := Option.map_eq_some_iff.mp he
    obtain ⟨e₀', hl, rfl⟩ := Option.map_eq_some_iff.mp he'
    exact hagree h e₀ e₀' (hr.live_of_contained hc).1 hl
  all_goals exact congrArg Entry.object (Option.some.inj (he.symm.trans he'))

/-- `StoreObjectInHandleIfNull` and the compare-exchange. -/
def Op.isExchange : Op → Bool
  | .storeObjectInHandleIfNull _ _ => true
  | .interlockedCompareExchangeObjectInHandle _ _ _ => true
  | _ => false

/-- A store of an object in a live handle that holds null. -/
def DropsStore (A : HandleArray) (r : HandleManager × History) (op : Op) : Prop :=
  r.1.store = true ∧ ∃ h object, op = .storeObjectInHandle h object ∧ r.2.live h ≠ none ∧
    getObject A r.1.table h = 0 ∧ object ≠ 0

theorem DropsStore.isStore {r : HandleManager × History} (h : DropsStore A r op) :
    op.isStore = true := by
  obtain ⟨-, h, object, rfl, -⟩ := h
  rfl

/-- A call keeps the objects in agreement exactly if it does not drop a store. -/
theorem Refines.agree_step (hr : Refines A m H) (hagree : Agree (m.table.view A) H.live)
    (hx : op.isExchange = false) {r : HandleManager × Answer} (ho : HandleOutcome A m op r) :
    Agree (r.1.table.view A) (H.record op r.2).live ↔ ¬ DropsStore A (m, H) op := by
  have hinit := hr.initialised
  cases ho with
  | session a store hop =>
    rw [History.record_session hop]
    refine iff_of_true hagree fun hd => ?_
    obtain ⟨-, h, object, rfl, -⟩ := hd
    cases hop
  | absent a hstore hop =>
    rw [History.record_absent hop (hinit.trans hstore)]
    refine iff_of_true hagree fun hd => ?_
    have hstore' : m.store = true := hd.1
    rw [hstore] at hstore'
    cases hstore'
  | created e hstore room hop he =>
    rw [History.record_created (hinit.trans hstore) hop (A.slot_ne_null room.le)]
    simp only [HandleManager.setTable, HandleTable.view_push]
    refine iff_of_true ((related_update hagree).mpr fun e' he' => hr.entry_object hagree he he') ?_
    rintro ⟨-, h, object, rfl, -⟩
    cases hop
  | refused hstore hop why =>
    rw [History.record_refused (hinit.trans hstore) hop]
    refine iff_of_true hagree ?_
    rintro ⟨-, h, object, rfl, -⟩
    cases hop
  | updated a handle f i hstore hop hu hi =>
    rw [History.record_update (hinit.trans hstore) hu]
    simp only [HandleManager.setTable, HandleTable.view_put hi]
    refine iff_of_true ((related_update hagree).mpr fun e' he' => ?_) fun hd => ?_
    · obtain ⟨e₁, hl, hf⟩ := Option.bind_eq_some_iff.mp he'
      have hobj := hagree handle _ e₁ (HandleTable.view_issued hi) hl
      obtain rfl | ⟨v, rfl⟩ | ⟨v, rfl⟩ := Op.update_attribute hu hop <;> cases hf
      · exact hobj
      · exact hobj
    · rw [hd.isStore] at hop
      cases hop
  | stored a handle object i hstore hop hu hi hne =>
    rw [History.record_update (hinit.trans hstore) hu]
    simp only [HandleManager.setTable, HandleTable.view_put hi]
    refine iff_of_true ((related_update hagree).mpr fun e' he' => ?_) ?_
    · obtain ⟨e₁, -, hf⟩ := Option.bind_eq_some_iff.mp he'
      cases hf
      rfl
    · rintro ⟨-, h, object', rfl, -, hnull, -⟩
      rcases hop with hop | hop
      · cases hop
        exact hne (getObject_issued hi ▸ hnull)
      · cases hop
  | dropped a handle object i hstore hop hu hi hnull =>
    rw [History.record_update (hinit.trans hstore) hu]
    have hv := HandleTable.view_issued hi
    refine (related_update_right hagree hv).trans ?_
    rcases hop with rfl | rfl
    · have hheld : getObject A m.table handle = 0 := (getObject_issued hi).trans hnull
      rw [hnull]
      constructor
      · rintro hnew ⟨-, h, object', heq, hlive, -, hne⟩
        cases heq
        obtain ⟨e₁, hl⟩ := Option.ne_none_iff_exists'.mp hlive
        exact hne (hnew { e₁ with object := object } (by
          rw [show H.live handle = some e₁ from hl, Option.bind_some])).symm
      · intro hnot e' he'
        obtain ⟨e₁, hl, hf⟩ := Option.bind_eq_some_iff.mp he'
        cases hf
        by_contra hne
        have hlive : H.live handle ≠ none := by rw [hl]; exact Option.some_ne_none _
        exact hnot ⟨hstore, handle, object, rfl, hlive, hheld, fun h0 => hne h0.symm⟩
    · cases hx
  | kept a hstore hop hsession hu _ =>
    rw [History.record_kept (hinit.trans hstore) hsession hop
      fun handle f h => hr.live_none (hu handle f h)]
    refine iff_of_true hagree ?_
    rintro ⟨-, h, object, rfl, hlive, -⟩
    exact hlive (hr.live_none (hu h _ rfl))

/-- In a run of creates, reads, destroys, attribute updates and `StoreObjectInHandle` calls, every
live handle holds at every moment what was last stored in it, exactly if no object is ever stored
in a live handle that holds null. -/
theorem objects_iff (A : HandleArray) (ops : List Op) (hx : ∀ op ∈ ops, op.isExchange = false) :
    (historyMachine A).Always (ObjectsAgree A) (.processStart, .start) ops ↔
      (historyMachine A).EachStep (fun r op => ¬ DropsStore A r op)
        (.processStart, .start) ops := by
  refine Mealy.always_iff _ (fun h e hl => by cases hl) fun p op hp hagree => ?_
  have hr := refines_run A p
  have hop : op.isExchange = false := hx op (hp.subset (by simp))
  have ho := handleStep_outcome A ((historyMachine A).run (.processStart, .start) p).1 op
  have hagree' := hr.objectsAgree_iff.mp hagree
  exact (hr.step ho).objectsAgree_iff.trans (hr.agree_step hagree' hop ho)

/-- Stores over an object: of another one, of null, and into a handle that is destroyed by then. -/
def storesOverObject : List Op :=
  [.initializeManager, .createGlobalHandleOfType 0x10 .hndtypeStrong,
    .storeObjectInHandle 0x600000 0x20, .createGlobalHandleOfType 0x30 .hndtypePinned,
    .storeObjectInHandle 0x600008 0, .destroyHandleOfUnknownType 0x600000,
    .storeObjectInHandle 0x600000 0x40]

theorem objects_over_object :
    (historyMachine .usual).Always (ObjectsAgree .usual) (.processStart, .start)
      storesOverObject := by
  refine (objects_iff .usual _ (by decide)).mpr ?_
  simp only [storesOverObject, Mealy.eachStep_cons]
  refine ⟨?_, ?_, ?_, ?_, ?_, ?_, ?_, Mealy.eachStep_nil _ _ _⟩ <;> rintro ⟨-, h, object, hop, hd⟩
  · cases hop
  · cases hop
  · cases hop
    exact absurd hd.2.1 (by decide)
  · cases hop
  · cases hop
    exact hd.2.2 rfl
  · cases hop
  · cases hop
    exact hd.1 (by decide)

/-- A handle made for null, and a store of an object in it: the handle still holds null. -/
theorem objects_after_null :
    ¬ (historyMachine .usual).Always (ObjectsAgree .usual) (.processStart, .start)
      [.initializeManager, .createGlobalHandleOfType 0 .hndtypeStrong,
        .storeObjectInHandle 0x600000 0x20] := by
  intro hall
  have hagree := hall _ (List.prefix_refl _) 0x600000 ⟨0x20, .hndtypeStrong, 0, 0⟩ (by decide)
  exact absurd hagree (by decide)

/-! ## Membership -/

/-- `containsHandle` accepts exactly the live handles. -/
def MembershipExact (A : HandleArray) (r : HandleManager × History) : Prop :=
  ∀ h, containsHandle A r.1.table h = true ↔ r.2.live h ≠ none

/-- A call that leaves a live handle holding null: a create for null, a store of null over an
object, and a compare-exchange of the object held for null. -/
inductive PutsNull (A : HandleArray) (m : HandleManager) : Op → Prop where
  | created {op : Op} {e : Entry} (room : m.table.handlesCount < maxHandles)
      (he : op.entry (fun _ => none) = some e) (hnull : e.object = 0) : PutsNull A m op
  | stored {h : W} (hheld : getObject A m.table h ≠ 0) : PutsNull A m (.storeObjectInHandle h 0)
  | exchanged {h comparandObject : W} (hheld : getObject A m.table h ≠ 0)
      (hcmp : getObject A m.table h = comparandObject) :
      PutsNull A m (.interlockedCompareExchangeObjectInHandle h 0 comparandObject)

def HoldObjects (view live : W → Option Entry) : Prop := Related (fun e _ => e.object ≠ 0) view live

theorem Refines.membershipExact_iff (hr : Refines A m H) :
    MembershipExact A (m, H) ↔ HoldObjects (m.table.view A) H.live := by
  constructor
  · intro hexact h e e' hv hl
    have hlive : H.live h ≠ none := by rw [hl]; exact Option.some_ne_none _
    obtain ⟨e₀, hv₀, hne⟩ := (containsHandle_view h).mp ((hexact h).mpr hlive)
    rw [hv] at hv₀
    cases hv₀
    exact hne
  · intro hhold h
    constructor
    · intro hc
      obtain ⟨e, hv, hne⟩ := (containsHandle_view h).mp hc
      exact fun hl => hne (hr.dead h e hv hl)
    · intro hlive
      obtain ⟨e', hl⟩ := Option.ne_none_iff_exists'.mp hlive
      obtain ⟨e, hv, -⟩ := hr.attributes h e' hl
      exact (containsHandle_view h).mpr ⟨e, hv, hhold h e e' hv hl⟩

/-- A call whose entry does not come from another handle is a create for an object. -/
theorem Op.entry_given {e : Entry} (he : op.entry (fun _ => none) = some e) :
    op.isCreate = true ∧ ∀ source, op.entry source = some e := by
  cases op <;> first
    | exact ⟨rfl, fun _ => he⟩
    | cases he

/-- What a create makes holds null exactly if it was asked to; a duplicate never does. -/
theorem putsNull_created {e : Entry} (room : m.table.handlesCount < maxHandles)
    (hop : op.isCreate = true) (he : op.entry (m.table.contained A) = some e) :
    PutsNull A m op ↔ e.object = 0 := by
  constructor
  · intro hp
    cases hp with
    | created _ he' hnull =>
      rw [(Op.entry_given he').2] at he
      exact Option.some.inj he ▸ hnull
    | stored => cases hop
    | exchanged => cases hop
  · intro hnull
    cases op
    case createDuplicateHandle h =>
      obtain ⟨e₀, hc, rfl⟩ := Option.map_eq_some_iff.mp he
      rcases contained_cases (A := A) (m := m) h with ⟨-, hnone, -⟩ | ⟨-, i, -, hne, hsome⟩
      · rw [hnone] at hc; cases hc
      · rw [hsome] at hc; cases hc; exact absurd hnull hne
    all_goals exact .created room he hnull

/-- A store puts null in a handle exactly if it replaces an object by null. -/
theorem putsNull_store {handle object : W} {i : Fin maxHandles}
    (hi : issuedIndex A m.table handle = some i)
    (hop : op = .storeObjectInHandle handle object ∨
      op = .interlockedCompareExchangeObjectInHandle handle object (m.table.entry i).object) :
    PutsNull A m op ↔ (m.table.entry i).object ≠ 0 ∧ object = 0 := by
  have hheld := getObject_issued hi
  constructor
  · intro hp
    rcases hop with rfl | rfl
    · cases hp with
      | created _ he => cases he
      | stored hne => exact ⟨hheld ▸ hne, rfl⟩
    · cases hp with
      | created _ he => cases he
      | exchanged hne => exact ⟨hheld ▸ hne, rfl⟩
  · rintro ⟨hne, rfl⟩
    rcases hop with rfl | rfl
    · exact .stored (hheld ▸ hne)
    · exact .exchanged (hheld ▸ hne) hheld

/-- A call keeps membership exact exactly if it does not put null in a live handle. -/
theorem Refines.hold_step (hr : Refines A m H) (hhold : HoldObjects (m.table.view A) H.live)
    {r : HandleManager × Answer} (ho : HandleOutcome A m op r) :
    HoldObjects (r.1.table.view A) (H.record op r.2).live ↔
      ¬ (m.store = true ∧ PutsNull A m op) := by
  have hinit := hr.initialised
  cases ho with
  | session a store hop =>
    rw [History.record_session hop]
    refine iff_of_true hhold fun hp => ?_
    cases hp.2 with
    | created _ he => rw [Op.session_of_create (Op.entry_given he).1] at hop; cases hop
    | stored => cases hop
    | exchanged => cases hop
  | absent a hstore hop =>
    rw [History.record_absent hop (hinit.trans hstore)]
    refine iff_of_true hhold fun hp => ?_
    rw [hstore] at hp
    cases hp.1
  | created e hstore room hop he =>
    rw [History.record_created (hinit.trans hstore) hop (A.slot_ne_null room.le)]
    simp only [HandleManager.setTable, HandleTable.view_push]
    rw [putsNull_created room hop he]
    obtain ⟨e', he', -⟩ := hr.entry he
    refine (related_update hhold).trans ?_
    constructor
    · exact fun hnew hp => hnew e' he' hp.2
    · exact fun hnot _ _ h0 => hnot ⟨hstore, h0⟩
  | refused hstore hop why =>
    rw [History.record_refused (hinit.trans hstore) hop]
    refine iff_of_true hhold fun hp => ?_
    cases hp.2 with
    | created room he =>
      rcases why with hfull | hnone
      · exact absurd hfull (Nat.ne_of_lt room)
      · rw [(Op.entry_given he).2] at hnone
        cases hnone
    | stored => cases hop
    | exchanged => cases hop
  | updated a handle f i hstore hop hu hi =>
    rw [History.record_update (hinit.trans hstore) hu]
    simp only [HandleManager.setTable, HandleTable.view_put hi]
    refine iff_of_true ((related_update hhold).mpr fun e' he' => ?_) fun hp => ?_
    · obtain ⟨e₁, hl, hf⟩ := Option.bind_eq_some_iff.mp he'
      have hne := hhold handle _ e₁ (HandleTable.view_issued hi) hl
      obtain rfl | ⟨v, rfl⟩ | ⟨v, rfl⟩ := Op.update_attribute hu hop <;> cases hf
      · exact hne
      · exact hne
    · cases hp.2 with
      | created room he =>
        have hcreate := (Op.entry_given he).1
        rw [Op.isCreate_of_update hu] at hcreate
        cases hcreate
      | stored => cases hop
      | exchanged => cases hop
  | stored a handle object i hstore hop hu hi hne =>
    rw [History.record_update (hinit.trans hstore) hu]
    simp only [HandleManager.setTable, HandleTable.view_put hi]
    have hlive : ∃ e', H.live handle = some e' :=
      Option.ne_none_iff_exists'.mp fun hl => hne (hr.dead_object hi hl)
    obtain ⟨e', hl⟩ := hlive
    rw [putsNull_store hi hop]
    refine (related_update hhold).trans ?_
    constructor
    · exact fun hnew hp => hnew _ (by rw [hl, Option.bind_some]) hp.2.2
    · exact fun hnot _ _ h0 => hnot ⟨hstore, hne, h0⟩
  | dropped a handle object i hstore hop hu hi hnull =>
    have hl : H.live handle = none := by
      cases hl : H.live handle with
      | none => rfl
      | some e' => exact absurd hnull (hhold handle _ e' (HandleTable.view_issued hi) hl)
    rw [History.record_update (hinit.trans hstore) hu, hl]
    refine iff_of_true ?_ fun hp => ?_
    · exact (related_update_right hhold (HandleTable.view_issued hi)).mpr fun _ h => by cases h
    · rw [← hnull] at hop
      exact ((putsNull_store hi hop).mp hp.2).1 hnull
  | kept a hstore hop hsession hu hexchange =>
    rw [History.record_kept (hinit.trans hstore) hsession hop
      fun handle f h => hr.live_none (hu handle f h)]
    refine iff_of_true hhold fun hp => ?_
    cases hp.2 with
    | created room he => rw [(Op.entry_given he).1] at hop; cases hop
    | stored hne => exact hne (getObject_unissued (hu _ _ rfl))
    | exchanged hne hcmp =>
      rcases hexchange _ _ _ rfl with hi | hdiff
      · exact hne (getObject_unissued hi)
      · exact hdiff hcmp

/-- In a run of any calls `ContainsHandle` accepts exactly the live handles, at every moment,
exactly if no call leaves a live handle holding null. -/
theorem membership_iff (A : HandleArray) (ops : List Op) :
    (historyMachine A).Always (MembershipExact A) (.processStart, .start) ops ↔
      (historyMachine A).EachStep (fun r op => ¬ (r.1.store = true ∧ PutsNull A r.1 op))
        (.processStart, .start) ops := by
  have hstart : MembershipExact A (.processStart, .start) := by
    refine Refines.start.membershipExact_iff.mpr fun h e e' _ hl => ?_
    cases hl
  refine Mealy.always_iff _ hstart fun p op _ hexact => ?_
  have hr := refines_run A p
  have ho := handleStep_outcome A ((historyMachine A).run (.processStart, .start) p).1 op
  exact (hr.step ho).membershipExact_iff.trans (hr.hold_step (hr.membershipExact_iff.mp hexact) ho)

/-- A handle made for null is live, and `ContainsHandle` rejects it. -/
theorem membership_null :
    ¬ (historyMachine .usual).Always (MembershipExact .usual) (.processStart, .start)
      [.initializeManager, .createGlobalHandleOfType 0 .hndtypeStrong] := by
  intro hall
  have hmem := (hall _ (List.prefix_refl _) 0x600000).mpr (by decide)
  exact absurd hmem (by decide)

end

end MiniGC
