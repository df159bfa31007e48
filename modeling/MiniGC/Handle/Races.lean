import MiniGC.Handle.Interleaved

/-!
# MiniGC.Handle.Races

What the stores do to a slot that other threads empty. `ContainsHandle` refuses a slot that holds
null, so a store can find null only where another thread has put it since the guard.

* `filled_by_race`      a slot that holds null gets an object, and `StoreObjectInHandleIfNull`
  answers true, only there.
* `wins_le_emptyings`   each time a slot is emptied, at most one `StoreObjectInHandleIfNull` wins,
  and between two that win the slot is emptied.
-/

namespace MiniGC

section

variable {A : HandleArray} {m : HandleManager} {op : Op} {handle : W} {i : Fin maxHandles}

/-- A call that runs alone leaves null where it is. -/
theorem HandleOutcome.null_kept {r : HandleManager × Answer} (ho : HandleOutcome A m op r)
    (hi : issuedIndex A m.table handle = some i) (hnull : (m.table.entry i).object = 0) :
    (r.1.table.entry i).object = 0 := by
  cases ho with
  | created e _ room _ _ =>
    have hlt := (issuedIndex_eq_some.mp hi).2
    simp only [HandleManager.setTable, HandleTable.push_entry, if_neg (Nat.ne_of_lt hlt), hnull]
  | updated a handle' f j _ hop hu _ =>
    simp only [HandleManager.setTable, HandleTable.put_entry]
    split
    · rename_i hij
      subst hij
      obtain rfl | ⟨v, rfl⟩ | ⟨v, rfl⟩ := Op.update_attribute hu hop
      · rfl
      · exact hnull
      · exact hnull
    · exact hnull
  | stored a handle' object j _ _ _ _ hne =>
    have hij : i ≠ j := by
      rintro rfl
      exact hne hnull
    simp only [HandleManager.setTable, HandleTable.put_entry, if_neg hij, hnull]
  | _ => exact hnull

end

section

variable {T : Type} [DecidableEq T] {A : HandleArray} {s : HandleThreads T}

def HandleThreads.held (A : HandleArray) (s : HandleThreads T) (h : W) : W :=
  getObject A s.manager.table h

/-- The act puts null in the place of an object. -/
def Emptied (A : HandleArray) (h : W) (s : HandleThreads T) (a : HandleAct T) : Prop :=
  s.held A h ≠ 0 ∧ ((interleavedMachine T A).next s a).held A h = 0

/-- After the acts `p`, the thread `t` is inside the store `op` on the slot of `h`, and another
thread has emptied the slot since `ContainsHandle` accepted it: `t` made the call after the acts
`q`, and has been inside it ever since. -/
structure StaleStore (A : HandleArray) (p : List (HandleAct T)) (t : T) (op : Op) (h : W) :
    Prop where
  slot : op.slot = some h
  pending : ((interleavedMachine T A).run .start p).pending t = some op
  emptied : ∃ q r b r', p = q ++ .call t op :: (r ++ b :: r') ∧ b.thread ≠ t ∧
    ((interleavedMachine T A).run .start q).pending t = none ∧
    passesGuard A ((interleavedMachine T A).run .start q).manager h = true ∧
    (∀ l, l <+: r ++ b :: r' →
      ((interleavedMachine T A).run .start (q ++ .call t op :: l)).pending t = some op) ∧
    Emptied A h ((interleavedMachine T A).run .start (q ++ .call t op :: r)) b

/-- A slot that has lost its object was emptied by one of the acts. -/
theorem emptied_since {h : W} {l : List (HandleAct T)} (hheld : s.held A h ≠ 0)
    (hnull : ((interleavedMachine T A).run s l).held A h = 0) :
    ∃ r b r', l = r ++ b :: r' ∧ Emptied A h ((interleavedMachine T A).run s r) b := by
  obtain ⟨r, b, r', rfl, hb, hempty⟩ := Mealy.exists_since (M := interleavedMachine T A)
    (P := fun s => s.held A h = 0) hheld hnull
  have hafter := hempty [] List.nil_prefix
  rw [Mealy.run_append, Mealy.run_cons, Mealy.run_nil] at hafter
  exact ⟨r, b, r', rfl, hb, hafter⟩

/-- A store starts with its guard, and ends with the access. -/
theorem pending_begins {t : T} {op : Op} {a : HandleAct T} (hbefore : s.pending t ≠ some op)
    (hafter : ((interleavedMachine T A).next s a).pending t = some op) :
    a = .call t op ∧ s.pending t = none ∧
      ((interleavedMachine T A).next s a).manager = s.manager ∧
      ∀ h, op.slot = some h → passesGuard A s.manager h = true := by
  have ho := interleaved_outcome A s a
  rw [interleavedMachine_next] at hafter ⊢
  generalize interleavedStep A s a = r at ho hafter
  cases ho with
  | busy | idle | whole => exact absurd hafter hbefore
  | guarded t' op' handle hidle hslot hguard =>
    by_cases ht : t = t'
    · subst ht
      rw [HandleThreads.setPending_self] at hafter
      cases hafter
      refine ⟨rfl, hidle, rfl, fun h hh => ?_⟩
      rw [hslot] at hh
      cases hh
      exact hguard
    · rw [s.setPending_of_ne ht] at hafter
      exact absurd hafter hbefore
  | accessed t' op' hop =>
    by_cases ht : t = t'
    · subst ht
      rw [HandleThreads.setPending_self] at hafter
      cases hafter
    · rw [HandleThreads.setPending_of_ne _ ht] at hafter
      exact absurd hafter hbefore

/-- A thread that stays inside a store changes nothing meanwhile. -/
theorem pending_stays {t : T} {op : Op} {a : HandleAct T} (hbefore : s.pending t = some op)
    (hafter : ((interleavedMachine T A).next s a).pending t = some op) (ha : a.thread = t) :
    ((interleavedMachine T A).next s a).manager = s.manager := by
  have ho := interleaved_outcome A s a
  rw [interleavedMachine_next] at hafter ⊢
  generalize interleavedStep A s a = r at ho hafter
  cases ho with
  | busy | idle | guarded => rfl
  | whole t' op' hidle =>
    obtain rfl : t' = t := ha
    rw [hidle] at hbefore
    cases hbefore
  | accessed t' op' hop =>
    obtain rfl : t' = t := ha
    rw [HandleThreads.setPending_self] at hafter
    cases hafter

/-- Where a store is past its guard and the slot holds null, another thread has emptied it. -/
theorem staleStore_of_null {p : List (HandleAct T)} {t : T} {op : Op} {h : W}
    (hslot : op.slot = some h)
    (hop : ((interleavedMachine T A).run .start p).pending t = some op)
    (hnull : ((interleavedMachine T A).run .start p).held A h = 0) : StaleStore A p t op h := by
  refine ⟨hslot, hop, ?_⟩
  let M := interleavedMachine T A
  -- the act that passed the guard, and what came after it
  obtain ⟨q, a, r, rfl, hq, hsince⟩ := Mealy.exists_since (M := M)
    (P := fun s => s.pending t = some op) (fun h => by cases h) hop
  have hrun : ∀ l, M.run .start (q ++ a :: l) = M.run (M.next (M.run .start q) a) l := by
    intro l
    rw [Mealy.run_append, Mealy.run_cons]
  simp only [hrun] at hsince
  obtain ⟨rfl, hidle, hsame, hguard⟩ := pending_begins hq (hsince [] List.nil_prefix)
  have hpass := hguard h hslot
  have hheld : (M.next (M.run .start q) (.call t op)).held A h ≠ 0 := by
    obtain ⟨-, i, hi, hne⟩ := passesGuard_iff.mp hpass
    rw [HandleThreads.held, hsame, getObject_issued hi]
    exact hne
  -- the act that emptied the slot
  obtain ⟨r, b, r', rfl, hempty⟩ := emptied_since hheld (by rw [← hrun]; exact hnull)
  have hpb := hsince r (List.prefix_append r (b :: r'))
  have hpb' := hsince (r ++ [b]) ((List.prefix_append_right_inj r).mpr
    (List.prefix_cons_inj b |>.mpr List.nil_prefix))
  rw [Mealy.run_append, Mealy.run_cons, Mealy.run_nil] at hpb'
  refine ⟨q, r, b, r', rfl, fun hbt => hempty.1 ?_, hidle, hpass, fun l hl => ?_, ?_⟩
  · have hafter := hempty.2
    rw [HandleThreads.held, pending_stays hpb hpb' hbt] at hafter
    exact hafter
  · rw [hrun]
    exact hsince l hl
  · rw [hrun]
    exact hempty

theorem accessed_held {t : T} {op : Op} {h : W} (hp : PendingInv A s)
    (hop : s.pending t = some op) (hslot : op.slot = some h) :
    ((interleavedMachine T A).next s (.access t)).held A h = op.written (s.held A h) ∧
      (interleavedMachine T A).answer s (.access t) = some (op, op.reply (s.held A h)) := by
  obtain ⟨h', i, hslot', hi⟩ := hp.issued t op hop
  obtain rfl : h = h' := Option.some.inj (hslot.symm.trans hslot')
  have hobject := slotAccess_object hslot hi hi
  rw [if_pos rfl] at hobject
  have hreply : (slotAccess A s.manager op).2 = op.reply (s.held A h) := by
    rw [slotAccess_issued hslot hi, HandleThreads.held, getObject_issued hi]
  simp only [interleavedMachine_next, interleavedMachine_answer, interleavedStep, hop]
  exact ⟨hobject, by rw [hreply]⟩

/-- Null gives way to an object only in an access to that slot. -/
theorem null_filled {a : HandleAct T} {h : W} {i : Fin maxHandles} (hp : PendingInv A s)
    (hi : issuedIndex A s.manager.table h = some i) (hnull : s.held A h = 0)
    (hne : ((interleavedMachine T A).next s a).held A h ≠ 0) :
    ∃ t op, a = .access t ∧ s.pending t = some op ∧ op.slot = some h := by
  have hobject : (s.manager.table.entry i).object = 0 := (getObject_issued hi).symm.trans hnull
  have ho := interleaved_outcome A s a
  rw [interleavedMachine_next] at hne
  generalize interleavedStep A s a = r at ho hne
  cases ho with
  | busy | idle | guarded => exact absurd hnull hne
  | whole t op hidle hguard =>
    have hout := handleStep_outcome A s.manager op
    have hafter := (getObject_issued (hout.issued hi)).trans (hout.null_kept hi hobject)
    exact absurd hafter hne
  | accessed t op hop =>
    obtain ⟨h', i', hslot, hi'⟩ := hp.issued t op hop
    refine ⟨t, op, rfl, hop, ?_⟩
    by_cases hii : i = i'
    · subst hii
      rw [hslot, (issuedIndex_eq_some.mp hi).1, (issuedIndex_eq_some.mp hi').1]
    · have hkept := slotAccess_object hslot hi' hi
      rw [if_neg hii] at hkept
      exact absurd (hkept.trans hnull) hne

/-- `StoreObjectInHandleIfNull` answers true only in an access to a slot that holds null. -/
theorem ifNull_wins {a : HandleAct T} {h object : W} (hp : PendingInv A s)
    (ha : (interleavedMachine T A).answer s a =
      some (.storeObjectInHandleIfNull h object, .flag true)) :
    ∃ t, a = .access t ∧ s.pending t = some (.storeObjectInHandleIfNull h object) ∧
      s.held A h = 0 := by
  have ho := interleaved_outcome A s a
  rw [interleavedMachine_answer] at ha
  generalize hr : interleavedStep A s a = r at ho ha
  cases ho with
  | busy | idle | guarded => cases ha
  | whole t op hidle hguard =>
    obtain ⟨rfl, hanswer⟩ := Prod.ext_iff.mp (Option.some.inj ha)
    rw [handleStep, HandleManager.storeObjectInHandleIfNull_eq] at hanswer
    cases hanswer
  | accessed t op hop =>
    obtain ⟨rfl, -⟩ := Prod.ext_iff.mp (Option.some.inj ha)
    refine ⟨t, rfl, hop, ?_⟩
    have hreply := (accessed_held hp hop (h := h) rfl).2
    rw [interleavedMachine_answer, hr] at hreply
    have hflag := (Prod.ext_iff.mp (Option.some.inj (hreply.symm.trans ha))).2
    exact of_decide_eq_true (Answer.flag.inj hflag)

/-- In every interleaving, a slot that holds null gets an object, and `StoreObjectInHandleIfNull`
answers true, only in a store whose guard saw an object that another thread has taken away since. -/
theorem filled_by_race (A : HandleArray) (p : List (HandleAct T)) (a : HandleAct T) (h : W) :
    let s := (interleavedMachine T A).run .start p
    ((∃ i, issuedIndex A s.manager.table h = some i) → s.held A h = 0 →
      ((interleavedMachine T A).next s a).held A h ≠ 0 →
        ∃ t op, a = .access t ∧ StaleStore A p t op h) ∧
    ∀ object, (interleavedMachine T A).answer s a =
      some (.storeObjectInHandleIfNull h object, .flag true) →
        ∃ t, a = .access t ∧ StaleStore A p t (.storeObjectInHandleIfNull h object) h := by
  intro s
  have hp : PendingInv A s := pendingInv_run A p
  constructor
  · rintro ⟨i, hi⟩ hnull hne
    obtain ⟨t, op, rfl, hop, hslot⟩ := null_filled hp hi hnull hne
    exact ⟨t, op, rfl, staleStore_of_null hslot hop hnull⟩
  · intro object ha
    obtain ⟨t, rfl, hop, hnull⟩ := ifNull_wins hp ha
    exact ⟨t, rfl, staleStore_of_null rfl hop hnull⟩

/-- One thread destroys the handle while another is between the guard and the exchange of
`StoreObjectInHandleIfNull`. -/
def destroyedMeanwhile : List (HandleAct Bool) :=
  [.call false .initializeManager, .call false (.createGlobalHandleOfType 0x10 .hndtypeStrong),
    .call true (.storeObjectInHandleIfNull 0x600000 0x20),
    .call false (.destroyHandleOfUnknownType 0x600000)]

theorem filled_by_race_destroyed :
    StaleStore .usual destroyedMeanwhile true (.storeObjectInHandleIfNull 0x600000 0x20)
      0x600000 := by
  obtain ⟨t, ht, hstale⟩ := (filled_by_race .usual destroyedMeanwhile (.access true) 0x600000).2
    0x20 rfl
  cases ht
  exact hstale

/-! ## Winners -/

/-- How often a slot was emptied, and how often a `StoreObjectInHandleIfNull` filled it. -/
structure Tally where
  emptied : Nat
  won : Nat
  deriving DecidableEq

/-- `StoreObjectInHandleIfNull` on `h`, for an object, has answered true. -/
def wins (h : W) : Option (Op × Answer) → Bool
  | some (.storeObjectInHandleIfNull handle object, .flag result) =>
    handle = h ∧ object ≠ 0 ∧ result
  | _ => false

instance (A : HandleArray) (h : W) (s : HandleThreads T) (a : HandleAct T) :
    Decidable (Emptied A h s a) := inferInstanceAs (Decidable (_ ∧ _))

/-- The threads, next to the tally of the slot of `h`. -/
def tallyMachine (T : Type) [DecidableEq T] (A : HandleArray) (h : W) :
    Mealy (HandleThreads T × Tally) (HandleAct T) (Option (Op × Answer)) where
  step r a :=
    let s' := interleavedStep A r.1 a
    ((s'.1, { emptied := if Emptied A h r.1 a then r.2.emptied + 1 else r.2.emptied
              won := if wins h s'.2 then r.2.won + 1 else r.2.won }), s'.2)

/-- A slot that has never been emptied has no store past its guard while it holds null; one that
has can still be won once. -/
structure TallyInv (A : HandleArray) (h : W) (r : HandleThreads T × Tally) : Prop where
  pending : PendingInv A r.1
  bound : r.2.won ≤ r.2.emptied
  free : r.1.held A h = 0 → r.2.won < r.2.emptied ∨
    r.2.emptied = 0 ∧ ∀ t op, r.1.pending t = some op → op.slot ≠ some h

theorem wins_iff {h : W} {x : Option (Op × Answer)} : wins h x = true ↔
    ∃ object, object ≠ 0 ∧ x = some (.storeObjectInHandleIfNull h object, .flag true) := by
  constructor
  · intro hwin
    unfold wins at hwin
    split at hwin
    · obtain ⟨rfl, hne, rfl⟩ := of_decide_eq_true hwin
      exact ⟨_, hne, rfl⟩
    · cases hwin
  · rintro ⟨object, hne, rfl⟩
    exact decide_eq_true ⟨rfl, hne, rfl⟩

/-- No guard lets a store begin on a slot that holds null. -/
theorem no_store_begins {a : HandleAct T} {h : W} (hnull : s.held A h = 0)
    (hfree : ∀ t op, s.pending t = some op → op.slot ≠ some h) :
    ∀ t op, ((interleavedMachine T A).next s a).pending t = some op → op.slot ≠ some h := by
  intro t op hafter hslot
  by_cases hbefore : s.pending t = some op
  · exact hfree t op hbefore hslot
  · obtain ⟨-, -, -, hguard⟩ := pending_begins hbefore hafter
    obtain ⟨-, i, hi, hne⟩ := passesGuard_iff.mp (hguard h hslot)
    exact hne ((getObject_issued hi).symm.trans hnull)

theorem tallyMachine_next (h : W) (s : HandleThreads T) (t : Tally) (a : HandleAct T) :
    (tallyMachine T A h).next (s, t) a =
      ((interleavedMachine T A).next s a,
        ⟨if Emptied A h s a then t.emptied + 1 else t.emptied,
          if wins h ((interleavedMachine T A).answer s a) then t.won + 1 else t.won⟩) := rfl

/-- The winner fills the slot, which was empty. -/
theorem wins_fills {h : W} {a : HandleAct T} (hp : PendingInv A s)
    (hwin : wins h ((interleavedMachine T A).answer s a) = true) :
    s.held A h = 0 ∧ ((interleavedMachine T A).next s a).held A h ≠ 0 ∧
      ∃ t op, s.pending t = some op ∧ op.slot = some h := by
  obtain ⟨object, hne, ha⟩ := wins_iff.mp hwin
  obtain ⟨t, rfl, hop, hnull⟩ := ifNull_wins hp ha
  refine ⟨hnull, ?_, t, _, hop, rfl⟩
  rw [(accessed_held hp hop rfl).1, Op.written, if_pos hnull]
  exact hne

/-- Behind a win the slot has to be emptied before the next one. -/
theorem emptied_between_wins {p m : List (HandleAct T)} {a b : HandleAct T} {h : W}
    (ha : wins h ((interleavedMachine T A).answer
      ((interleavedMachine T A).run .start p) a) = true)
    (hb : wins h ((interleavedMachine T A).answer
      ((interleavedMachine T A).run .start (p ++ a :: m)) b) = true) :
    ∃ m₁ c m₂, m = m₁ ++ c :: m₂ ∧
      Emptied A h ((interleavedMachine T A).run .start (p ++ a :: m₁)) c := by
  obtain ⟨-, hfull, -⟩ := wins_fills (pendingInv_run A p) ha
  obtain ⟨hnull, -⟩ := wins_fills (pendingInv_run A (p ++ a :: m)) hb
  rw [Mealy.run_append, Mealy.run_cons] at hnull
  obtain ⟨m₁, c, m₂, rfl, hempty⟩ := emptied_since hfull hnull
  refine ⟨m₁, c, m₂, rfl, ?_⟩
  rw [Mealy.run_append, Mealy.run_cons]
  exact hempty

theorem TallyInv.step {h : W} {r : HandleThreads T × Tally} (hr : TallyInv A h r)
    (a : HandleAct T) : TallyInv A h ((tallyMachine T A h).next r a) := by
  obtain ⟨s, tally⟩ := r
  obtain ⟨hp, hbound, hfree⟩ := hr
  dsimp only at hp hbound hfree
  rw [tallyMachine_next]
  by_cases hwin : wins h ((interleavedMachine T A).answer s a) = true
  · -- the winner fills the slot that was emptied for it
    obtain ⟨hnull, hfull, t, op, hop, hslot⟩ := wins_fills hp hwin
    have hkept : ¬ Emptied A h s a := fun hempty => hfull hempty.2
    rw [if_neg hkept, if_pos hwin]
    refine ⟨hp.step a, ?_, fun hnull' => absurd hnull' hfull⟩
    exact (hfree hnull).resolve_right fun hnone => hnone.2 t op hop hslot
  · rw [if_neg hwin]
    by_cases hempty : Emptied A h s a
    · rw [if_pos hempty]
      exact ⟨hp.step a, Nat.le_succ_of_le hbound, fun _ => .inl (Nat.lt_succ_of_le hbound)⟩
    · rw [if_neg hempty]
      refine ⟨hp.step a, hbound, fun hnull' => ?_⟩
      have hnull : s.held A h = 0 := by
        by_contra hne
        exact hempty ⟨hne, hnull'⟩
      exact (hfree hnull).imp_right (And.imp_right (no_store_begins hnull))

/-- In every interleaving, for every handle, each emptying of the slot is won at most once: among
any number of threads, `StoreObjectInHandleIfNull` wins no more often than the slot is emptied, less
often while it is empty, and never twice without an emptying in between. -/
theorem wins_le_emptyings (A : HandleArray) (h : W) (acts : List (HandleAct T)) :
    let M := interleavedMachine T A
    let r := (tallyMachine T A h).run (.start, ⟨0, 0⟩) acts
    r.2.won ≤ r.2.emptied ∧ (r.1.held A h = 0 → 0 < r.2.emptied → r.2.won < r.2.emptied) ∧
      ∀ p a m b, p ++ a :: (m ++ [b]) <+: acts →
        wins h (M.answer (M.run .start p) a) = true →
          wins h (M.answer (M.run .start (p ++ a :: m)) b) = true →
            ∃ m₁ c m₂, m = m₁ ++ c :: m₂ ∧ Emptied A h (M.run .start (p ++ a :: m₁)) c := by
  intro M r
  have hidle : ∀ t op, (HandleThreads.start : HandleThreads T).pending t = some op → False :=
    fun _ _ hop => by cases hop
  have hstart : TallyInv A h (.start, ⟨0, 0⟩) :=
    ⟨⟨fun t op hop => (hidle t op hop).elim⟩, Nat.le_refl 0,
      fun _ => .inr ⟨rfl, fun t op hop => (hidle t op hop).elim⟩⟩
  have hr : TallyInv A h r :=
    (tallyMachine T A h).run_inv (fun _ a hr => hr.step a) hstart acts
  refine ⟨hr.bound, fun hnull hpos => ?_, fun _ _ _ _ _ => emptied_between_wins⟩
  exact (hr.free hnull).resolve_right fun hnone => Nat.ne_of_gt hpos hnone.1

/-- Two stores past their guards when the handle is destroyed: the second finds the slot taken. -/
example : ((tallyMachine (Fin 3) .usual 0x600000).run (.start, ⟨0, 0⟩)
    [.call 0 .initializeManager, .call 0 (.createGlobalHandleOfType 0x10 .hndtypeStrong),
      .call 1 (.storeObjectInHandleIfNull 0x600000 0x20),
      .call 2 (.storeObjectInHandleIfNull 0x600000 0x30),
      .call 0 (.destroyHandleOfUnknownType 0x600000), .access 1, .access 2]).2 = ⟨1, 1⟩ := by
  decide

end

end MiniGC
