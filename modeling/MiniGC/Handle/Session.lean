import MiniGC.Handle.Capacity
import MiniGC.Handle.Scan

/-!
# MiniGC.Handle.Session

What is left after `Shutdown` and `Initialize`. `Shutdown` deletes the store object, but the arrays
and `handlesCount` are not part of it.

* `BehavesFresh`   the store does what the first one of a process does.
* `restart_fresh_iff`   after a restart it does so exactly if no create has ever succeeded.
-/

namespace MiniGC

/-- The manager of a process after its first `Initialize`. -/
def HandleManager.fresh : HandleManager := HandleManager.processStart.initializeManager.1

/-- A create that needs no other handle. -/
def Op.createsNew (op : Op) : Prop := op.isCreate = true ∧ ∀ h, op ≠ .createDuplicateHandle h

structure BehavesFresh (A : HandleArray) (m : HandleManager) : Prop where
  empty : ∀ h, containsHandle A m.table h = false
  object : ∀ h, getObject A m.table h = 0
  secondary : ∀ h, getDependentSecondary A m.table h = 0
  extraInfo : ∀ h, getExtraInfo A m.table h = 0
  roots : ∀ pf, (m.scanHandles A pf).2 = []
  capacity : ∀ creates : List Op, creates.length = maxHandles → (∀ op ∈ creates, op.createsNew) →
    (handleMachine A).EachStep (fun m op => (handleStep A m op).2 ≠ .handle 0) m creates
  same : ∀ calls, (callMachine A).trace m calls = (callMachine A).trace .fresh calls

section

variable {A : HandleArray} {m : HandleManager}

/-! ## How many creates succeed -/

theorem createsNew_step (hstore : m.store = true) {op : Op} (hop : op.createsNew) :
    (m.table.handlesCount < maxHandles ∧ (handleStep A m op).2 ≠ .handle 0 ∧
      (handleStep A m op).1.store = true ∧
      (handleStep A m op).1.table.handlesCount = m.table.handlesCount + 1) ∨
    (m.table.handlesCount = maxHandles ∧ (handleStep A m op).2 = .handle 0) := by
  have hentry : op.entry (m.table.contained A) ≠ none := by
    rw [ne_eq, entry_eq_none hop.1]
    rintro ⟨h, he, -⟩
    exact hop.2 h he
  rcases (handleStep_outcome A m op).create_cases hstore hop.1 with ⟨e, room, -, he⟩ | ⟨why, he⟩
  · left
    rw [he]
    exact ⟨room, fun h0 => A.slot_ne_null room.le (Answer.handle.inj h0), hstore, rfl⟩
  · right
    rw [he]
    exact ⟨why.resolve_right hentry, rfl⟩

/-- Creates in a row all succeed exactly if the table has room for all of them. -/
theorem creates_succeed_iff (hstore : m.store = true) {creates : List Op}
    (hcreates : ∀ op ∈ creates, op.createsNew) :
    ((handleMachine A).EachStep (fun m op => (handleStep A m op).2 ≠ .handle 0) m creates ↔
      m.table.handlesCount + creates.length ≤ maxHandles) ∧
    (m.table.handlesCount + creates.length ≤ maxHandles →
      ((handleMachine A).run m creates).store = true ∧
      ((handleMachine A).run m creates).table.handlesCount =
        m.table.handlesCount + creates.length) := by
  induction creates using List.reverseRecOn with
  | nil =>
    exact ⟨iff_of_true (Mealy.eachStep_nil _ _ _) m.table.handlesCount_le, fun _ => ⟨hstore, rfl⟩⟩
  | append_singleton creates op ih =>
    obtain ⟨hiff, hrun⟩ := ih fun op' hmem => hcreates op' (List.mem_append_left _ hmem)
    have hop : op.createsNew := hcreates op (by simp)
    rw [Mealy.eachStep_snoc, hiff, List.length_append, List.length_singleton, Mealy.run_append]
    by_cases hbefore : m.table.handlesCount + creates.length ≤ maxHandles
    · obtain ⟨hstore', hcount⟩ := hrun hbefore
      have hmachine : ∀ m' : HandleManager,
          (handleMachine A).run m' [op] = (handleStep A m' op).1 := fun _ => rfl
      rw [hmachine]
      rcases createsNew_step (A := A) hstore' hop with ⟨hlt, hne, hs, hc⟩ | ⟨hfull, hnull⟩
      · rw [hcount] at hlt hc
        exact ⟨iff_of_true ⟨hbefore, hne⟩ (by omega), fun _ => ⟨hs, by omega⟩⟩
      · rw [hcount] at hfull
        exact ⟨iff_of_false (fun h => h.2 hnull) (by omega), fun hle => by omega⟩
    · exact ⟨iff_of_false (fun h => hbefore h.1) (by omega), fun hle => by omega⟩

/-! ## The arrays are written through issued handles only -/

/-- As long as no index has been taken, the arrays are as the loader left them. -/
def Untouched (m : HandleManager) : Prop := m.table.handlesCount = 0 → m.table = .processStart

theorem Untouched.of_issued {table : HandleTable} {handle : W} {i : Fin maxHandles} {e : Entry}
    (hi : issuedIndex A table handle = some i) (m : HandleManager) :
    Untouched (m.setTable (table.put i e)) := by
  intro h0
  have hlt := (issuedIndex_eq_some.mp hi).2
  rw [show table.handlesCount = 0 from h0] at hlt
  exact absurd hlt (Nat.not_lt_zero _)

theorem HandleOutcome.untouched {op : Op} {r : HandleManager × Answer}
    (ho : HandleOutcome A m op r) (hu : Untouched m) : Untouched r.1 := by
  cases ho with
  | created e _ room _ _ => exact fun h0 => absurd h0 (Nat.succ_ne_zero _)
  | updated a handle f i _ _ _ hi => exact .of_issued hi m
  | stored a handle object i _ _ _ hi _ => exact .of_issued hi m
  | _ => exact hu

theorem scanHandles_empty {t : HandleTable} (h0 : t.handlesCount = 0) (pf : PromoteFunc) :
    scanHandles A t pf = (t, []) := by
  have hnil : t.indices = [] := by
    rw [← List.length_eq_zero_iff, HandleTable.indices, List.length_map, List.length_finRange, h0]
  rw [scanHandles, hnil, List.foldl_nil]

theorem Untouched.scan (hu : Untouched m) (pf : PromoteFunc) :
    Untouched (m.scanHandles A pf).1 := by
  by_cases hstore : m.store = true
  · rw [HandleManager.scanHandles_store hstore]
    intro h0
    have hcount : m.table.handlesCount = 0 := (scanned A m.table pf).handlesCount.symm.trans h0
    show (scanHandles A m.table pf).1 = _
    rw [scanHandles_empty hcount]
    exact hu hcount
  · rw [HandleManager.scanHandles_absent hstore]
    exact hu

theorem untouched_run (A : HandleArray) (calls : List HandleCall) :
    Untouched ((scanMachine A).run (.processStart, .start) calls).1 := by
  refine (scanMachine A).run_inv (P := fun r => Untouched r.1) (fun r call hu => ?_)
    (fun _ => rfl) calls
  cases call with
  | op op => exact (handleStep_outcome A r.1 op).untouched hu
  | scanHandles pf => exact hu.scan pf

/-! ## A restart -/

theorem issuedIndex_empty {t : HandleTable} (h0 : t.handlesCount = 0) (h : W) :
    issuedIndex A t h = none := by
  cases hi : issuedIndex A t h with
  | none => rfl
  | some i =>
    have hlt := (issuedIndex_eq_some.mp hi).2
    omega

theorem fresh_unissued (A : HandleArray) (h : W) :
    issuedIndex A HandleManager.fresh.table h = none :=
  issuedIndex_empty rfl h

theorem behavesFresh_fresh (A : HandleArray) : BehavesFresh A .fresh where
  empty h := by simp [containsHandle, fresh_unissued]
  object h := by simp [getObject, fresh_unissued]
  secondary h := by simp [getDependentSecondary, fresh_unissued]
  extraInfo h := by simp [getExtraInfo, fresh_unissued]
  roots pf := by
    rw [HandleManager.scanHandles_store rfl]
    exact congrArg Prod.snd (scanHandles_empty rfl pf)
  capacity creates hlen hcreates := by
    refine (creates_succeed_iff rfl hcreates).1.mpr ?_
    rw [hlen]
    exact (Nat.zero_add _).le
  same _ := rfl

/-- With a handle created before, `MaxHandles` creates do not all succeed. -/
theorem BehavesFresh.count {A : HandleArray} {m : HandleManager} (hb : BehavesFresh A m)
    (hstore : m.store = true) : m.table.handlesCount = 0 := by
  have hnew : ∀ op ∈ List.replicate maxHandles (Op.createGlobalHandleOfType 0x10 .hndtypeStrong),
      op.createsNew := by
    intro op hmem
    rw [List.eq_of_mem_replicate hmem]
    exact ⟨rfl, fun _ he => by cases he⟩
  have hall := hb.capacity _ List.length_replicate hnew
  have hle := (creates_succeed_iff hstore hnew).1.mp hall
  rw [List.length_replicate] at hle
  omega

/-- After any calls, a `Shutdown` and an `Initialize` leave a store that behaves like the first one
of a process exactly if no create has returned a handle before. -/
theorem restart_fresh_iff (A : HandleArray) (calls : List HandleCall) :
    let r := (scanMachine A).run (.processStart, .start) calls
    let r' := (scanMachine A).run r [.op .shutdownManager, .op .initializeManager]
    BehavesFresh A r'.1 ↔ r.2.created = [] := by
  intro r r'
  have hr : Refines A r.1 r.2 := refines_scan_run A calls
  have hu : Untouched r.1 := untouched_run A calls
  have hrestart : r'.1 = ⟨r.1.table, true⟩ := rfl
  rw [hrestart, ← List.length_eq_zero_iff, hr.created_length]
  constructor
  · intro hb
    exact hb.count rfl
  · intro h0
    rw [hu h0]
    exact behavesFresh_fresh A

/-- One handle, and a restart: the store still contains it. -/
theorem restart_keeps_handle :
    let r := (scanMachine .usual).run (.processStart, .start)
      [.op .initializeManager, .op (.createGlobalHandleOfType 0x10 .hndtypeStrong),
        .op .shutdownManager, .op .initializeManager]
    ¬ BehavesFresh .usual r.1 := by
  intro r hb
  have hempty := hb.empty 0x600000
  exact absurd hempty (by decide)

end

end MiniGC
