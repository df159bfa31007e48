import MiniGC.Handle.Manager

/-!
# MiniGC.Handle.History

What the handles are for: a finite map from handles to entries, kept by someone who only sees the
calls and their answers.

* `History`   that map, next to every handle a create has ever returned. A destroyed handle has no
  entry. `History.record` says what a call should mean.
* `Refines`   the arrays agree with it: the same handles, and the same type, secondary and extra
  info for each. About objects it only says that a destroyed handle holds none.
* `handles_refine`   every call of every run keeps that, gives out only new handles, and leaves
  every other handle alone.
-/

namespace MiniGC

structure History where
  initialised : Bool
  /-- The handles that creates have returned, oldest first. -/
  created : List W
  live : W → Option Entry

namespace History

def start : History := ⟨false, [], fun _ => none⟩

/-- A call made while the manager is initialised. -/
def recordCall (H : History) (op : Op) (a : Answer) : History :=
  if op.isCreate then
    match a with
    | .handle h =>
      if h = 0 then H
      else { H with
        created := H.created ++ [h]
        live := Function.update H.live h (op.entry H.live) }
    | _ => H
  else
    match op.update a with
    | some (h, f) => { H with live := Function.update H.live h ((H.live h).bind f) }
    | none => H

def record (H : History) (op : Op) (a : Answer) : History :=
  match op.session with
  | some initialised => { H with initialised := initialised }
  | none => if H.initialised then H.recordCall op a else H

end History

def historyMachine (A : HandleArray) : Mealy (HandleManager × History) Op Answer :=
  (handleMachine A).observed History.record

@[simp] theorem historyMachine_next (A : HandleArray) (r : HandleManager × History) (op : Op) :
    (historyMachine A).next r op =
      ((handleStep A r.1 op).1, r.2.record op (handleStep A r.1 op).2) := rfl

/-! ## Reading the record -/

section

variable {H : History} {op : Op} {a : Answer}

theorem Op.session_of_update {x : W × (Entry → Option Entry)} (hu : op.update a = some x) :
    op.session = none := by
  cases op <;> first | rfl | cases hu

theorem Op.isCreate_of_update {x : W × (Entry → Option Entry)} (hu : op.update a = some x) :
    op.isCreate = false := by
  cases op <;> first | rfl | cases hu

theorem Op.session_of_create (hop : op.isCreate = true) : op.session = none := by
  cases op <;> first | rfl | cases hop

/-- An update is of the handle the call was given. It destroys the handle, or sets one part of its
entry. -/
theorem Op.update_cases {handle : W} {f : Entry → Option Entry}
    (hu : op.update a = some (handle, f)) : op.target = some handle ∧
      ((op.isStore = false ∧ ((f = fun _ => none) ∨
          (∃ v, f = fun e => some { e with extraInfo := v }) ∨
          (∃ v, f = fun e => some { e with secondary := v }))) ∨
        (op.isStore = true ∧ ∃ v, f = fun e => some { e with object := v })) := by
  cases op
  case destroyHandleOfType h t => cases hu; exact ⟨rfl, .inl ⟨rfl, .inl rfl⟩⟩
  case destroyHandleOfUnknownType h => cases hu; exact ⟨rfl, .inl ⟨rfl, .inl rfl⟩⟩
  case setExtraInfoForHandle h t v => cases hu; exact ⟨rfl, .inl ⟨rfl, .inr (.inl ⟨v, rfl⟩)⟩⟩
  case setDependentHandleSecondary h o => cases hu; exact ⟨rfl, .inl ⟨rfl, .inr (.inr ⟨o, rfl⟩)⟩⟩
  case storeObjectInHandle h o => cases hu; exact ⟨rfl, .inr ⟨rfl, o, rfl⟩⟩
  case storeObjectInHandleIfNull h o =>
    cases a with
    | flag b =>
      cases b with
      | true => cases hu; exact ⟨rfl, .inr ⟨rfl, o, rfl⟩⟩
      | false => cases hu
    | _ => cases hu
  case interlockedCompareExchangeObjectInHandle h o c =>
    cases a with
    | object previous =>
      by_cases hcmp : previous = c
      · rw [Op.update, if_pos hcmp] at hu
        cases hu
        exact ⟨rfl, .inr ⟨rfl, o, rfl⟩⟩
      · rw [Op.update, if_neg hcmp] at hu
        cases hu
    | _ => cases hu
  all_goals cases hu

theorem Op.update_attribute {handle : W} {f : Entry → Option Entry}
    (hu : op.update a = some (handle, f)) (hnot : op.isStore = false) : (f = fun _ => none) ∨
      (∃ v, f = fun e => some { e with extraInfo := v }) ∨
      (∃ v, f = fun e => some { e with secondary := v }) := by
  rcases (Op.update_cases hu).2 with ⟨-, h⟩ | ⟨hstore, -⟩
  · exact h
  · rw [hnot] at hstore; cases hstore

theorem History.record_session {store : Bool} (hop : op.session = some store) :
    H.record op a = { H with initialised := store } := by
  rw [History.record, hop]

theorem History.record_absent (hop : op.session = none) (hinit : H.initialised = false) :
    H.record op a = H := by
  simp [History.record, hop, hinit]

theorem History.record_created {handle : W} (hinit : H.initialised = true)
    (hop : op.isCreate = true) (hne : handle ≠ 0) :
    H.record op (.handle handle) = { H with
      created := H.created ++ [handle]
      live := Function.update H.live handle (op.entry H.live) } := by
  simp only [History.record, Op.session_of_create hop, hinit, History.recordCall, hop, if_true,
    if_neg hne]

theorem History.record_refused (hinit : H.initialised = true) (hop : op.isCreate = true) :
    H.record op (.handle 0) = H := by
  simp only [History.record, Op.session_of_create hop, hinit, History.recordCall, hop, if_true]

theorem History.record_update {handle : W} {f : Entry → Option Entry} (hinit : H.initialised = true)
    (hu : op.update a = some (handle, f)) :
    H.record op a = { H with live := Function.update H.live handle ((H.live handle).bind f) } := by
  simp only [History.record, Op.session_of_update hu, hinit, History.recordCall,
    Op.isCreate_of_update hu, hu, if_true, Bool.false_eq_true, if_false]

theorem History.record_kept (hinit : H.initialised = true) (hsession : op.session = none)
    (hop : op.isCreate = false)
    (hu : ∀ handle f, op.update a = some (handle, f) → H.live handle = none) :
    H.record op a = H := by
  cases hup : op.update a with
  | none =>
    simp only [History.record, hsession, hinit, History.recordCall, hop, hup, if_true,
      Bool.false_eq_true, if_false]
  | some x =>
    obtain ⟨handle, f⟩ := x
    have hnone := hu handle f hup
    rw [History.record_update hinit hup, hnone, Option.bind_none,
      Function.update_eq_self_iff.mpr hnone.symm]

/-! ## The arrays agree with the record -/

/-- Agreement in all but the object. -/
structure Entry.SameAttributes (e e' : Entry) : Prop where
  type : e.type = e'.type
  secondary : e.secondary = e'.secondary
  extraInfo : e.extraInfo = e'.extraInfo

structure Refines (A : HandleArray) (m : HandleManager) (H : History) : Prop where
  initialised : H.initialised = m.store
  created : H.created = (List.range m.table.handlesCount).map A.slot
  attributes : ∀ h e', H.live h = some e' → ∃ e, m.table.view A h = some e ∧ e.SameAttributes e'
  dead : ∀ h e, m.table.view A h = some e → H.live h = none → e.object = 0

variable {A : HandleArray} {m : HandleManager}

theorem Entry.SameAttributes.refl (e : Entry) : e.SameAttributes e := ⟨rfl, rfl, rfl⟩

namespace Refines

theorem start : Refines A .processStart .start where
  initialised := rfl
  created := rfl
  attributes := by simp [History.start]
  dead h e he := by
    obtain ⟨i, -, rfl⟩ := HandleTable.view_eq_some.mp he
    intro _
    rfl

/-- A handle that `containsHandle` accepts is live. -/
theorem live_of_contained (hr : Refines A m H) {h : W} {e : Entry}
    (he : m.table.contained A h = some e) :
    m.table.view A h = some e ∧ ∃ e', H.live h = some e' ∧ e.SameAttributes e' := by
  rcases contained_cases (A := A) (m := m) h with ⟨-, hnone, -⟩ | ⟨-, i, hi, hne, hsome⟩
  · rw [hnone] at he; cases he
  · rw [hsome] at he
    cases he
    have hv := HandleTable.view_issued hi
    refine ⟨hv, ?_⟩
    cases hl : H.live h with
    | none => exact absurd (hr.dead h _ hv hl) hne
    | some e' =>
      obtain ⟨e, he, hsame⟩ := hr.attributes h e' hl
      rw [hv] at he
      cases he
      exact ⟨e', rfl, hsame⟩

/-- What a create makes is what the record says it makes, up to the object of a duplicate. -/
theorem entry (hr : Refines A m H) {e : Entry}
    (he : op.entry (m.table.contained A) = some e) :
    ∃ e', op.entry H.live = some e' ∧ e.SameAttributes e' := by
  cases op
  case createDuplicateHandle h =>
    obtain ⟨e₀, hc, rfl⟩ := Option.map_eq_some_iff.mp he
    obtain ⟨-, e', hl, hsame⟩ := hr.live_of_contained hc
    exact ⟨⟨e'.object, e'.type, 0, 0⟩, by rw [Op.entry, hl]; rfl, hsame.type, rfl, rfl⟩
  all_goals exact ⟨e, he, .refl e⟩

theorem created_step (hr : Refines A m H) {e : Entry} (hstore : m.store = true)
    (room : m.table.handlesCount < maxHandles) (hop : op.isCreate = true)
    (he : op.entry (m.table.contained A) = some e) :
    Refines A (m.setTable (m.table.push room e))
      (H.record op (.handle (A.slot m.table.handlesCount))) := by
  obtain ⟨e', he', hsame⟩ := hr.entry he
  rw [History.record_created (hr.initialised.trans hstore) hop (A.slot_ne_null room.le), he']
  refine ⟨hr.initialised, ?_, fun h e₁ hl => ?_, fun h e₁ hv hl => ?_⟩
  · simp only [HandleManager.setTable, HandleTable.push_handlesCount, List.range_succ,
      List.map_append, List.map_cons, List.map_nil, hr.created]
  · simp only [HandleManager.setTable, HandleTable.view_push]
    by_cases hh : h = A.slot m.table.handlesCount
    · subst hh
      simp only [Function.update_self, Option.some.injEq] at hl ⊢
      exact ⟨e, rfl, hl ▸ hsame⟩
    · simp only [Function.update_of_ne hh] at hl ⊢
      exact hr.attributes h e₁ hl
  · simp only [HandleManager.setTable, HandleTable.view_push] at hv
    by_cases hh : h = A.slot m.table.handlesCount
    · subst hh
      simp only [Function.update_self, reduceCtorEq] at hl
    · simp only [Function.update_of_ne hh] at hv hl
      exact hr.dead h e₁ hv hl

/-- A write to an issued handle, next to what the record makes of it. -/
theorem put_step (hr : Refines A m H) {handle : W} {f : Entry → Option Entry} {e : Entry}
    {i : Fin maxHandles} (hi : issuedIndex A m.table handle = some i)
    (hsame : ∀ e₁ e₂, (m.table.entry i).SameAttributes e₁ → f e₁ = some e₂ → e.SameAttributes e₂)
    (hdead : (∀ e₁, H.live handle = some e₁ → f e₁ = none) → e.object = 0) :
    Refines A (m.setTable (m.table.put i e))
      { H with live := Function.update H.live handle ((H.live handle).bind f) } := by
  have hview := HandleTable.view_issued hi
  refine ⟨hr.initialised, hr.created, fun h e₁ hl => ?_, fun h e₁ hv hl => ?_⟩
  · simp only [HandleManager.setTable, HandleTable.view_put hi]
    by_cases hh : h = handle
    · subst hh
      simp only [Function.update_self, Option.bind_eq_some_iff] at hl ⊢
      refine ⟨e, rfl, ?_⟩
      obtain ⟨e', hl', hf⟩ := hl
      obtain ⟨e₀, he₀, hsame₀⟩ := hr.attributes h e' hl'
      rw [hview] at he₀
      cases he₀
      exact hsame e' e₁ hsame₀ hf
    · simp only [Function.update_of_ne hh] at hl ⊢
      exact hr.attributes h e₁ hl
  · simp only [HandleManager.setTable, HandleTable.view_put hi] at hv
    by_cases hh : h = handle
    · subst hh
      simp only [Function.update_self, Option.some.injEq, Option.bind_eq_none_iff] at hv hl
      exact hv ▸ hdead fun e' hl' => hl e' hl'
    · simp only [Function.update_of_ne hh] at hv hl
      exact hr.dead h e₁ hv hl

theorem live_none (hr : Refines A m H) {h : W} (hi : issuedIndex A m.table h = none) :
    H.live h = none := by
  cases hl : H.live h with
  | none => rfl
  | some e' =>
    obtain ⟨e, he, -⟩ := hr.attributes h e' hl
    rw [HandleTable.view_unissued hi] at he
    cases he

/-- An issued handle that is not live holds no object. -/
theorem dead_object (hr : Refines A m H) {handle : W} {i : Fin maxHandles}
    (hi : issuedIndex A m.table handle = some i) (hl : H.live handle = none) :
    (m.table.entry i).object = 0 :=
  hr.dead handle _ (HandleTable.view_issued hi) hl

theorem updated_step (hr : Refines A m H) {handle : W} {f : Entry → Option Entry}
    {i : Fin maxHandles} (hop : op.isStore = false) (hu : op.update a = some (handle, f))
    (hi : issuedIndex A m.table handle = some i) :
    Refines A (m.setTable (m.table.put i (m.table.after i f)))
      { H with live := Function.update H.live handle ((H.live handle).bind f) } := by
  refine hr.put_step hi (fun e₁ e₂ hsame hf => ?_) fun hnone => ?_
  · obtain rfl | ⟨v, rfl⟩ | ⟨v, rfl⟩ := Op.update_attribute hu hop <;> cases hf
    · exact ⟨hsame.type, hsame.secondary, rfl⟩
    · exact ⟨hsame.type, rfl, hsame.extraInfo⟩
  · have hlive : f = (fun _ => none) ∨ H.live handle = none := by
      cases hl : H.live handle with
      | none => exact .inr rfl
      | some e' =>
        left
        have hf := hnone e' hl
        obtain rfl | ⟨v, rfl⟩ | ⟨v, rfl⟩ := Op.update_attribute hu hop
        · rfl
        · cases hf
        · cases hf
    rcases hlive with rfl | hl
    · rfl
    · have hnull := hr.dead_object hi hl
      obtain rfl | ⟨v, rfl⟩ | ⟨v, rfl⟩ := Op.update_attribute hu hop
      · rfl
      · exact hnull
      · exact hnull

/-- A store that finds an object, and one that is dropped because it finds none, leave the
attributes as they are. -/
theorem stored_step (hr : Refines A m H) {handle object object' : W} {i : Fin maxHandles}
    (hi : issuedIndex A m.table handle = some i) (hlive : H.live handle = none → object = 0) :
    Refines A (m.setTable (m.table.put i { m.table.entry i with object := object }))
      { H with
        live := Function.update H.live handle
          ((H.live handle).bind fun e => some { e with object := object' }) } := by
  refine hr.put_step hi (fun e₁ e₂ hsame hf => ?_) fun hnone => ?_
  · cases hf
    exact ⟨hsame.type, hsame.secondary, hsame.extraInfo⟩
  · apply hlive
    cases hl : H.live handle with
    | none => rfl
    | some e' => cases hnone e' hl

theorem step (hr : Refines A m H) {r : HandleManager × Answer} (ho : HandleOutcome A m op r) :
    Refines A r.1 (H.record op r.2) := by
  cases ho with
  | session a store hop =>
    rw [History.record_session hop]
    exact ⟨rfl, hr.created, hr.attributes, hr.dead⟩
  | absent a hstore hop =>
    rw [History.record_absent hop (hr.initialised.trans hstore)]
    exact hr
  | created e hstore room hop he => exact hr.created_step hstore room hop he
  | refused hstore hop why =>
    rw [History.record_refused (hr.initialised.trans hstore) hop]
    exact hr
  | updated a handle f i hstore hop hu hi =>
    rw [History.record_update (hr.initialised.trans hstore) hu]
    exact hr.updated_step hop hu hi
  | stored a handle object i hstore hop hu hi hne =>
    rw [History.record_update (hr.initialised.trans hstore) hu]
    exact hr.stored_step hi fun hl => absurd (hr.dead_object hi hl) hne
  | dropped a handle object i hstore hop hu hi hnull =>
    rw [History.record_update (hr.initialised.trans hstore) hu]
    have hself : m.setTable (m.table.put i { m.table.entry i with object := 0 }) = m := by
      rw [← hnull]
      exact congrArg m.setTable (m.table.put_entry_self i)
    exact hself ▸ hr.stored_step hi fun _ => rfl
  | kept a hstore hop hsession hu _ =>
    rw [History.record_kept (hr.initialised.trans hstore) hsession hop
      fun handle f h => hr.live_none (hu handle f h)]
    exact hr

end Refines

/-! ## Every run -/

theorem refines_run (A : HandleArray) (ops : List Op) :
    Refines A ((historyMachine A).run (.processStart, .start) ops).1
      ((historyMachine A).run (.processStart, .start) ops).2 := by
  have := (historyMachine A).run_inv (P := fun r => Refines A r.1 r.2)
    (fun r op hr => hr.step (handleStep_outcome A r.1 op)) (s := (.processStart, .start))
    Refines.start ops
  exact this

/-- A call changes the entry of no handle but the one it was given and the new one it returns. -/
theorem HandleOutcome.view_eq {r : HandleManager × Answer} (ho : HandleOutcome A m op r) {h : W}
    (htarget : op.target ≠ some h) (hanswer : r.2 = .handle h → m.table.view A h ≠ none) :
    r.1.table.view A h = m.table.view A h := by
  cases ho with
  | created e hstore room hop he =>
    have hne : h ≠ A.slot m.table.handlesCount := by
      rintro rfl
      exact hanswer rfl (HandleTable.view_next room)
    simp only [HandleManager.setTable, HandleTable.view_push, Function.update_of_ne hne]
  | updated a handle f i hstore hop hu hi =>
    have hne : h ≠ handle := fun hh => htarget (hh ▸ (Op.update_cases hu).1)
    simp only [HandleManager.setTable, HandleTable.view_put hi, Function.update_of_ne hne]
  | stored a handle object i hstore hop hu hi hobj =>
    have hne : h ≠ handle := fun hh => htarget (hh ▸ (Op.update_cases hu).1)
    simp only [HandleManager.setTable, HandleTable.view_put hi, Function.update_of_ne hne]
  | _ => rfl

/-- A create takes the next slot, or fails and changes nothing. -/
theorem HandleOutcome.create_cases {r : HandleManager × Answer} (ho : HandleOutcome A m op r)
    (hstore : m.store = true) (hop : op.isCreate = true) :
    (∃ (e : Entry) (room : m.table.handlesCount < maxHandles),
      op.entry (m.table.contained A) = some e ∧
        r = (m.setTable (m.table.push room e), .handle (A.slot m.table.handlesCount))) ∨
    ((m.table.handlesCount = maxHandles ∨ op.entry (m.table.contained A) = none) ∧
      r = (m, .handle 0)) := by
  cases ho with
  | created e _ room _ he => exact .inl ⟨e, room, he, rfl⟩
  | refused _ _ why => exact .inr ⟨why, rfl⟩
  | session a store hsession => rw [Op.session_of_create hop] at hsession; cases hsession
  | absent a hs => rw [hs] at hstore; cases hstore
  | updated a handle f i hs hnot hu => rw [Op.isCreate_of_update hu] at hop; cases hop
  | stored a handle object i hs hnot hu => rw [Op.isCreate_of_update hu] at hop; cases hop
  | dropped a handle object i hs hnot hu => rw [Op.isCreate_of_update hu] at hop; cases hop
  | kept a hs hnot => rw [hop] at hnot; cases hnot

/-- The next slot has not been handed out. -/
theorem Refines.slot_fresh (hr : Refines A m H) (room : m.table.handlesCount < maxHandles) :
    A.slot m.table.handlesCount ∉ H.created := by
  rw [hr.created, List.mem_map]
  rintro ⟨j, hj, hslot⟩
  have hlt := List.mem_range.mp hj
  exact absurd (A.slot_injective (hlt.le.trans room.le) room.le hslot) (Nat.ne_of_lt hlt)

/-- A create that succeeds returns a handle that no create has returned before. -/
theorem HandleOutcome.created_fresh {r : HandleManager × Answer} (ho : HandleOutcome A m op r)
    (hr : Refines A m H) (hstore : m.store = true) (hop : op.isCreate = true) {h : W} (hne : h ≠ 0)
    (ha : r.2 = .handle h) : h ∉ H.created := by
  rcases ho.create_cases hstore hop with ⟨e, room, -, rfl⟩ | ⟨-, rfl⟩
  · cases ha
    exact hr.slot_fresh room
  · cases ha
    exact absurd rfl hne

/-- Over every run: a create returns null or a handle that no create has returned before; a live
handle reads back its type, secondary and extra info; and a call leaves all that other handles read
unchanged. -/
theorem handles_refine (A : HandleArray) (ops : List Op) (op : Op) :
    let r := (historyMachine A).run (.processStart, .start) ops
    let r' := handleStep A r.1 op
    (∀ h, r.1.store = true → op.isCreate = true → r'.2 = .handle h → h = 0 ∨ h ∉ r.2.created) ∧
    (∀ h e, r.1.store = true → r.2.live h = some e →
      r.1.handleFetchType A h = e.type ∧ r.1.getDependentHandleSecondary A h = e.secondary ∧
        r.1.getExtraInfoFromHandle A h = e.extraInfo) ∧
    (∀ h, op.target ≠ some h → r'.2 ≠ .handle h →
      getObject A r'.1.table h = getObject A r.1.table h ∧
        getType A r'.1.table h = getType A r.1.table h ∧
        getDependentSecondary A r'.1.table h = getDependentSecondary A r.1.table h ∧
        getExtraInfo A r'.1.table h = getExtraInfo A r.1.table h) := by
  intro r r'
  have hr : Refines A r.1 r.2 := refines_run A ops
  have ho : HandleOutcome A r.1 op r' := handleStep_outcome A r.1 op
  refine ⟨fun h hstore hop ha => ?_, fun h e' hstore hl => ?_, fun h htarget hanswer => ?_⟩
  · by_cases hne : h = 0
    · exact .inl hne
    · exact .inr (ho.created_fresh hr hstore hop hne ha)
  · obtain ⟨e, hv, hsame⟩ := hr.attributes h e' hl
    simp only [HandleManager.handleFetchType, HandleManager.getDependentHandleSecondary,
      HandleManager.getExtraInfoFromHandle, hstore, if_true, getType_view,
      getDependentSecondary_view, getExtraInfo_view, hv, Option.map_some, Option.getD_some]
    exact ⟨hsame.type, hsame.secondary, hsame.extraInfo⟩
  · have hv := ho.view_eq htarget fun h' => absurd h' hanswer
    simp only [getObject_view, getType_view, getDependentSecondary_view, getExtraInfo_view, hv,
      and_self]

end

end MiniGC
