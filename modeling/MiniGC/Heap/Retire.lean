import MiniGC.Heap.Shares
import Mathlib.Data.List.Perm.Basic

/-!
# MiniGC.Heap.Retire

Contexts that the EE takes back. When a thread ends, the EE calls `FixAllocContext` on its context,
which does nothing here, and then `gc_alloc_context::init`; whoever has the context next starts
without a segment.

* `retireMachine`   the threads, with contexts taken back whenever their owner runs managed code.
* `RetireInv`       the invariant of the threads outlives that: the segment counts as left.
* `retired_apart`   so blocks still tile their segments and never overlap, and nothing is handed out
  of a segment once its context was taken back.
* `retired_lost`    every segment is in use by one context, in flight, or lost for good.
-/

namespace MiniGC

open Tiling

section

variable {T C : Type} [DecidableEq T] [DecidableEq C]

/-- The body of `FixAllocContext` is empty. -/
def fixAllocContext (acontext : GcAllocContext) : GcAllocContext := acontext

def isThreadUsingAllocationContextHeap (acontext : GcAllocContext) : Bool :=
  acontext.allocLimit ≠ 0

inductive RetireAct (T C : Type) where
  | act (a : Act T C)
  /-- The EE takes the context back from thread `t`. -/
  | retire (t : T) (acontext : C)

/-- `FixAllocContext`, then `init`. The segment is left where `alloc_ptr` stood between the two. -/
def Threads.retire (s : Threads T C) (c : C) : Threads T C × Ledger C :=
  let ctx := fixAllocContext (s.world.ctxs c)
  let left := if ctx.allocLimit ≠ 0 then [(c, ctx.allocLimit - growthSize, ctx.allocPtr)] else []
  (s.setCtx c .init, ⟨[], [], left⟩)

def Threads.retireStep (owner : C → T) (s : Threads T C) :
    RetireAct T C → Threads T C × Ledger C
  | .act a => s.step owner a
  | .retire t c =>
    match s.thread t with
    | .inAlloc _ _ _ => (s, .empty)
    | .managed _ => if owner c = t then s.retire c else (s, .empty)

/-- The threads next to the ledger of everything that has happened. -/
def retireMachine (owner : C → T) :
    Mealy (Threads T C × Ledger C) (RetireAct T C) (Ledger C) :=
  Mealy.observed ⟨Threads.retireStep owner⟩ fun L _ L' => L.append L'

theorem retireMachine_next (owner : C → T) (r : Threads T C × Ledger C) (a : RetireAct T C) :
    (retireMachine owner).next r a =
      ((r.1.retireStep owner a).1, r.2.append (r.1.retireStep owner a).2) := rfl

section

omit [DecidableEq T]

@[simp] theorem Threads.retire_ctx_self (s : Threads T C) (c : C) :
    (s.retire c).1.world.ctxs c = .init := by
  simp [Threads.retire, Threads.setCtx]

theorem Threads.retire_ctx_of_ne (s : Threads T C) {c c' : C} (h : c' ≠ c) :
    (s.retire c).1.world.ctxs c' = s.world.ctxs c' := by
  simp [Threads.retire, Threads.setCtx, h]

theorem Threads.retire_current (s : Threads T C) {c c' : C} {S : W} :
    (s.retire c).1.world.Current c' S ↔ c' ≠ c ∧ s.world.Current c' S := by
  by_cases hcc : c' = c
  · subst hcc
    refine iff_of_false (fun h => ?_) fun h => h.1 rfl
    rw [World.Current, Threads.retire_ctx_self, growthSize_toNat] at h
    exact absurd h.symm (Nat.succ_ne_zero _)
  · have hlimit := congrArg GcAllocContext.allocLimit (s.retire_ctx_of_ne hcc)
    exact (World.current_congr hlimit S).trans (and_iff_right hcc).symm

/-- What is left is what a switch to a new segment would leave. -/
theorem Ledger.mem_left_retire {s : Threads T C} {L : Ledger C} {c c' : C} {S stop : W} :
    (c', S, stop) ∈ (L.append (s.retire c).2).left ↔
      (c', S, stop) ∈ L.left ∨ ((s.world.ctxs c).allocLimit ≠ 0 ∧ c' = c ∧
        S = (s.world.ctxs c).allocLimit - growthSize ∧ stop = (s.world.ctxs c).allocPtr) := by
  by_cases hl : (s.world.ctxs c).allocLimit = 0 <;>
    simp only [Ledger.append, Threads.retire, fixAllocContext, List.mem_append, hl, ne_eq,
      not_true_eq_false, not_false_eq_true, if_true, if_false, true_and, false_and, or_false,
      List.mem_singleton, List.not_mem_nil, Prod.mk.injEq]

end

namespace Inv

variable {owner : C → T} {s : Threads T C} {L : Ledger C} {c : C}

section

omit [DecidableEq T] [DecidableEq C]

/-- A context that has a segment carved it. -/
theorem current_carved (hi : Inv owner s L) {S : W} (h : s.world.Current c S) :
    (c, S) ∈ L.carved := by
  rcases hi.ctx c with ⟨-, hl⟩ | ⟨S', hS', hin⟩
  · rw [World.Current, hl, growthSize_toNat] at h
    exact absurd h.symm (Nat.succ_ne_zero _)
  · have hcur : s.world.Current c S' := hin.limit
    exact hcur.unique h ▸ hS'

theorem using_iff (hi : Inv owner s L) :
    isThreadUsingAllocationContextHeap (s.world.ctxs c) = true ↔
      ∃ S, (c, S) ∈ L.carved ∧ s.world.Current c S := by
  rw [isThreadUsingAllocationContextHeap, decide_eq_true_eq]
  constructor
  · intro hlimit
    rcases hi.ctx c with ⟨-, hl⟩ | ⟨S, hS, hin⟩
    · exact absurd hl hlimit
    · exact ⟨S, hS, hin.limit⟩
  · rintro ⟨S, hS, hcur⟩
    exact hi.limit_ne_zero hS hcur

end

theorem retire (hi : Inv owner s L) (c : C) :
    Inv owner (s.retire c).1 (L.append (s.retire c).2) := by
  have hcarved : (L.append (s.retire c).2).carved = L.carved := List.append_nil _
  have hhanded : (L.append (s.retire c).2).handed = L.handed := List.append_nil _
  have hblocks : ∀ S, (L.append (s.retire c).2).blocks S = L.blocks S := by
    intro S
    rw [Ledger.blocks, hhanded, Ledger.blocks]
  -- a segment that is left now is the one its context allocated from
  have hnow : (s.world.ctxs c).allocLimit ≠ 0 →
      (c, (s.world.ctxs c).allocLimit - growthSize) ∈ L.carved ∧
        s.world.Current c ((s.world.ctxs c).allocLimit - growthSize) := by
    intro hl
    obtain ⟨S, hS, hcur⟩ := hi.using_iff.mp (decide_eq_true hl)
    rw [hcur.limit_sub]
    exact ⟨hS, hcur⟩
  refine ⟨hi.heap, hcarved ▸ hi.carved, ?_, hi.flight, ?_, ?_, ?_, ?_, ?_⟩
  · intro c'
    rw [hcarved]
    by_cases hcc : c' = c
    · subst hcc
      rw [Threads.retire_ctx_self]
      exact .inl ⟨rfl, rfl⟩
    · rw [s.retire_ctx_of_ne hcc]
      exact hi.ctx c'
  · intro t c' size S ht
    obtain ⟨h1, h2, h3, h4⟩ := hi.carving t c' size S ht
    refine ⟨hcarved ▸ h1, fun h => h2 (s.retire_current.mp h).2, ?_, (hblocks S).trans h4⟩
    intro stop hmem
    rcases Ledger.mem_left_retire.mp hmem with hold | ⟨hl, rfl, rfl, -⟩
    · exact h3 stop hold
    · exact h2 (hnow hl).2
  · intro c' S stop hmem
    rw [hcarved]
    rcases Ledger.mem_left_retire.mp hmem with hold | ⟨hl, rfl, rfl, -⟩
    · obtain ⟨h1, h2⟩ := hi.left c' S stop hold
      exact ⟨h1, fun h => h2 (s.retire_current.mp h).2⟩
    · exact ⟨(hnow hl).1, fun h => (s.retire_current.mp h).1 rfl⟩
  · have honce : ((L.append (s.enter (owner c) c 0 0).2).left.map
        fun x => (x.1, x.2.1)).Nodup := hi.enter_left_once
    exact honce
  · intro c' S hS
    rw [hcarved] at hS
    obtain ⟨stop, hext, htile, hle⟩ := hi.extent c' S hS
    refine ⟨stop, ?_, (hblocks S).symm ▸ htile, hle⟩
    cases hext with
    | current h =>
      by_cases hcc : c' = c
      · subst hcc
        exact .left (Ledger.mem_left_retire.mpr
          (.inr ⟨hi.limit_ne_zero hS h, rfl, h.limit_sub.symm, rfl⟩))
      · rw [← s.retire_ctx_of_ne hcc]
        exact .current (s.retire_current.mpr ⟨hcc, h⟩)
    | left h => exact .left (Ledger.mem_left_retire.mpr (.inl h))
    | inFlight h => exact .inFlight h
  · rw [hhanded, hcarved]
    exact hi.handed

end Inv

/-! ## Left segments -/

/-- A block lies in the segment that its context has once it has the block. -/
theorem ActOutcome.handed_current {owner : C → T} {s : Threads T C} {L : Ledger C} {a : Act T C}
    {r : Threads T C × Ledger C} (ho : ActOutcome owner s a r) (hi : Inv owner s L) :
    ∀ x ∈ r.2.handed, r.1.world.Current x.ctx x.seg ∨ x.seg = 0 - growthSize := by
  have hbump : ∀ c, s.world.Current c ((s.world.ctxs c).allocLimit - growthSize) ∨
      (s.world.ctxs c).allocLimit - growthSize = 0 - growthSize := by
    intro c
    rcases hi.ctx c with ⟨-, hl⟩ | ⟨S, -, hin⟩
    · rw [hl]
      exact .inr rfl
    · have hcur : s.world.Current c S := hin.limit
      rw [hcur.limit_sub]
      exact .inl hcur
  intro x hx
  cases ho with
  | @served t c size =>
    obtain rfl := List.mem_singleton.mp hx
    exact (hbump c).imp_left (s.handOut_current c size c _).mpr
  | @bumped t c n =>
    obtain rfl := List.mem_singleton.mp hx
    exact (hbump c).imp_left (s.handOut_current c n c _).mpr
  | entered ht =>
    obtain rfl := List.mem_singleton.mp hx
    exact .inl (hi.enter_in ht).limit
  | carved hat _ count hs' =>
    subst hs'
    obtain rfl := List.mem_singleton.mp hx
    exact .inl ((hat.begun hi count).enter_in (Threads.setThread_thread _ _ _)).limit
  | _ => cases hx

/-- Nothing comes out of a segment that its context has left. -/
theorem ActOutcome.left_closed {owner : C → T} {s : Threads T C} {L : Ledger C} {a : Act T C}
    {r : Threads T C × Ledger C} (ho : ActOutcome owner s a r) (hi : Inv owner s L)
    (hi' : Inv owner r.1 (L.append r.2)) {c : C} {S stop : W} (h : (c, S, stop) ∈ L.left) :
    (L.append r.2).blocks S = L.blocks S := by
  obtain ⟨hS, hnot⟩ := hi'.left c S stop (List.mem_append_left _ h)
  suffices hnone : r.2.blocks S = [] by rw [Ledger.blocks_append, hnone, List.append_nil]
  rw [Ledger.blocks, List.map_eq_nil_iff, List.filter_eq_nil_iff]
  intro x hx hseg
  obtain rfl : x.seg = S := of_decide_eq_true hseg
  rcases ho.handed_current hi x hx with hcur | hunused
  · exact hnot (hi'.ctx_unique (hi'.current_carved hcur) hS ▸ hcur)
  · exact hi'.seg_ne hS hunused

/-! ## Where the segments are -/

/-- The segment that thread `owner c` has in flight for `c`. -/
def flightSegments (owner : C → T) (s : Threads T C) (c : C) : List W :=
  match s.thread (owner c) with
  | .inAlloc c' _ (.stompWriteBarrier S) => if c' = c then [S] else []
  | _ => []

section

omit [DecidableEq T]

theorem length_flightSegments (owner : C → T) (s : Threads T C) (c : C) :
    (flightSegments owner s c).length = inFlight owner s c := by
  unfold flightSegments inFlight
  split
  · rename_i c' size S ht
    by_cases hcc : c' = c <;> simp [ht, ThreadState.telling, hcc]
  · rename_i ht
    have hquiet : (s.thread (owner c)).telling c = false := by
      cases hst : s.thread (owner c) with
      | managed => rfl
      | inAlloc c' size stage =>
        cases stage with
        | stompWriteBarrier S => exact absurd hst (ht c' size S)
        | _ => rfl
    rw [hquiet]
    rfl

theorem mem_flightSegments {owner : C → T} {s : Threads T C} {c : C} {S : W} :
    S ∈ flightSegments owner s c ↔
      ∃ size, s.thread (owner c) = .inAlloc c size (.stompWriteBarrier S) := by
  unfold flightSegments
  split
  · rename_i c' size S' ht
    by_cases hcc : c' = c
    · subst hcc
      simp [ht, eq_comm]
    · simp [ht, hcc]
  · rename_i ht
    refine iff_of_false List.not_mem_nil ?_
    rintro ⟨size, hst⟩
    exact ht c size S hst

theorem flightSegments_nodup (owner : C → T) (s : Threads T C) (c : C) :
    (flightSegments owner s c).Nodup := by
  unfold flightSegments
  split
  · split
    · exact List.nodup_singleton _
    · exact List.nodup_nil
  · exact List.nodup_nil

/-- A segment that was carved for a context has been left, or is in use, or in flight. -/
theorem Inv.carvedCount_eq {owner : C → T} {s : Threads T C} {L : Ledger C} (hi : Inv owner s L)
    (c : C) : L.carvedCount c = enteredCount s L c + inFlight owner s c := by
  let carved := (L.carved.filter fun x => x.1 = c).map Prod.snd
  let left := (L.left.filter fun x => x.1 = c).map fun x => x.2.1
  let used := if (s.world.ctxs c).allocLimit = 0 then []
    else [(s.world.ctxs c).allocLimit - growthSize]
  have hcarved : ∀ S, S ∈ carved ↔ (c, S) ∈ L.carved := by
    intro S
    simp [carved]
  have hleft : ∀ S, S ∈ left ↔ ∃ stop, (c, S, stop) ∈ L.left := by
    intro S
    simp [left]
  have hused : ∀ S, S ∈ used ↔ s.world.Current c S := by
    intro S
    by_cases hl : (s.world.ctxs c).allocLimit = 0
    · simp only [used, if_pos hl, List.not_mem_nil, false_iff]
      exact fun hcur => hi.limit_ne_zero (hi.current_carved hcur) hcur hl
    · obtain ⟨S', -, hcur⟩ := hi.using_iff.mp (decide_eq_true hl)
      simp only [used, if_neg hl, List.mem_singleton, hcur.limit_sub]
      exact ⟨fun h => h ▸ hcur, fun h => h.unique hcur⟩
  have hleft_nodup : left.Nodup := by
    have hpairs : ((L.left.filter fun x => x.1 = c).map fun x => (x.1, x.2.1)).Nodup :=
      hi.left_once.sublist (List.filter_sublist.map _)
    refine List.Nodup.map_on (fun x hx y hy hxy => ?_) hpairs.of_map
    have hxc : x.1 = c := of_decide_eq_true (List.mem_filter.mp hx).2
    have hyc : y.1 = c := of_decide_eq_true (List.mem_filter.mp hy).2
    exact List.inj_on_of_nodup_map hpairs hx hy (Prod.ext (hxc.trans hyc.symm) hxy)
  have hperm : carved.Perm (left ++ (used ++ flightSegments owner s c)) := by
    refine (List.perm_ext_iff_of_nodup ?_ ?_).mpr fun S => ?_
    · have hnodup : (L.carved.map Prod.snd).Nodup := hi.carved ▸ hi.heap.segments_nodup
      exact hnodup.sublist (List.filter_sublist.map _)
    · have hflight : ∀ S ∈ flightSegments owner s c, ¬ s.world.Current c S ∧
          ∀ stop, (c, S, stop) ∉ L.left := by
        intro S hS
        obtain ⟨size, ht⟩ := mem_flightSegments.mp hS
        obtain ⟨-, hcur, hnot, -⟩ := hi.carving _ c size S ht
        exact ⟨hcur, hnot⟩
      refine List.nodup_append.mpr ⟨hleft_nodup, List.nodup_append.mpr ⟨?_,
        flightSegments_nodup owner s c, ?_⟩, ?_⟩
      · by_cases hl : (s.world.ctxs c).allocLimit = 0
        · simp only [used, if_pos hl, List.nodup_nil]
        · simp only [used, if_neg hl, List.nodup_singleton]
      · rintro S hS _ hS' rfl
        exact (hflight S hS').1 ((hused S).mp hS)
      · rintro S hS _ hS' rfl
        obtain ⟨stop, h⟩ := (hleft S).mp hS
        rcases List.mem_append.mp hS' with hS' | hS'
        · exact (hi.left c S stop h).2 ((hused S).mp hS')
        · exact (hflight S hS').2 stop h
    · rw [List.mem_append, List.mem_append, hcarved, hleft, hused, mem_flightSegments]
      constructor
      · intro hS
        obtain ⟨stop, hext, -⟩ := hi.extent c S hS
        cases hext with
        | current h => exact .inr (.inl h)
        | left h => exact .inl ⟨_, h⟩
        | @inFlight t size h => exact .inr (.inr ⟨size, (hi.flight t c size _ h).1 ▸ h⟩)
      · rintro (⟨stop, h⟩ | h | ⟨size, h⟩)
        · exact (hi.left c S stop h).1
        · exact hi.current_carved h
        · exact (hi.carving _ c size S h).1
  have hlength : used.length = if (s.world.ctxs c).allocLimit = 0 then 0 else 1 := by
    by_cases hl : (s.world.ctxs c).allocLimit = 0
    · simp only [used, if_pos hl, List.length_nil]
    · simp only [used, if_neg hl, List.length_singleton]
  calc L.carvedCount c = carved.length := by
        rw [Ledger.carvedCount, List.countP_eq_length_filter, List.length_map]
    _ = left.length + (used.length + (flightSegments owner s c).length) := by
        rw [hperm.length_eq, List.length_append, List.length_append]
    _ = enteredCount s L c + inFlight owner s c := by
        rw [hlength, length_flightSegments, List.length_map, ← Nat.add_assoc, enteredCount,
          Ledger.leftCount, List.countP_eq_length_filter]

end

/-! ## Runs -/

structure RetireInv (owner : C → T) (r : Threads T C × Ledger C) : Prop where
  inv : Inv owner r.1 r.2
  stomps : StompInv r.1

namespace RetireInv

variable {owner : C → T} {r : Threads T C × Ledger C}

theorem retire (hr : RetireInv owner r) (c : C) :
    RetireInv owner ((r.1.retire c).1, r.2.append (r.1.retire c).2) :=
  ⟨hr.inv.retire c, ⟨hr.stomps.heap, hr.stomps.stomps, hr.stomps.stomping, hr.stomps.unique⟩⟩

/-- The invariant is kept, and left segments stay as they are. -/
theorem step (hr : RetireInv owner r) (a : RetireAct T C) :
    let r' := (retireMachine owner).next r a
    RetireInv owner r' ∧ ∀ c S stop, (c, S, stop) ∈ r.2.left →
      (c, S, stop) ∈ r'.2.left ∧ r'.2.blocks S = r.2.blocks S := by
  have hstay : RetireInv owner (r.1, r.2.append .empty) ∧ ∀ c S stop, (c, S, stop) ∈ r.2.left →
      (c, S, stop) ∈ (r.2.append .empty).left ∧ (r.2.append .empty).blocks S = r.2.blocks S := by
    rw [Ledger.append_empty]
    exact ⟨hr, fun _ _ _ h => ⟨h, rfl⟩⟩
  rw [retireMachine_next]
  cases a with
  | act a =>
    have ho : ActOutcome owner r.1 a (r.1.step owner a) := act_outcome hr.inv.heap a
    have hi' := hr.inv.step a
    have hw : StompInv (r.1.step owner a).1 := hr.stomps.step ho
    refine ⟨⟨hi', hw⟩, fun c S stop h => ?_⟩
    exact ⟨List.mem_append_left _ h, ho.left_closed hr.inv hi' h⟩
  | retire t c =>
    cases ht : r.1.thread t with
    | inAlloc c' size stage =>
      simp only [Threads.retireStep, ht]
      exact hstay
    | managed last =>
      simp only [Threads.retireStep, ht]
      split
      · refine ⟨hr.retire c, fun c' S stop h => ⟨List.mem_append_left _ h, ?_⟩⟩
        rw [Ledger.blocks_append]
        exact List.append_nil _
      · exact hstay

theorem run (hr : RetireInv owner r) (acts : List (RetireAct T C)) :
    let r' := (retireMachine owner).run r acts
    RetireInv owner r' ∧ ∀ c S stop, (c, S, stop) ∈ r.2.left →
      (c, S, stop) ∈ r'.2.left ∧ r'.2.blocks S = r.2.blocks S := by
  induction acts generalizing r with
  | nil => exact ⟨hr, fun _ _ _ h => ⟨h, rfl⟩⟩
  | cons a acts ih =>
    obtain ⟨hnext, hkeep⟩ := hr.step a
    obtain ⟨hlast, hkeep'⟩ := ih hnext
    refine ⟨hlast, fun c S stop h => ?_⟩
    obtain ⟨hleft, hblocks⟩ := hkeep c S stop h
    obtain ⟨hleft', hblocks'⟩ := hkeep' c S stop hleft
    exact ⟨hleft', hblocks'.trans hblocks⟩

end RetireInv

omit [DecidableEq T] [DecidableEq C] in
theorem Fresh.retireInv {h : Heap} (hf : Fresh h) (owner : C → T) :
    RetireInv owner (.start h, .empty) :=
  ⟨hf.inv owner, hf.stompInv⟩

/-- In every order of actions, with contexts taken back at any moment, the blocks handed out from a
segment tile it up to its extent and no two blocks overlap. Once its context has left a segment, by
being taken back or for another segment, nothing is handed out from it any more. -/
theorem retired_apart (owner : C → T) {h : Heap} (hb : Booted h) (acts : List (RetireAct T C)) :
    let r := (retireMachine owner).run (.start h, .empty) acts
    (∀ c S, (c, S) ∈ r.2.carved → ∃ stop, (∀ stop', Extent r.1 r.2 c S stop' ↔ stop' = stop) ∧
      Tiles (S.toNat + beginGap.toNat) (r.2.blocks S) stop ∧
      stop ≤ S.toNat + growthSize.toNat) ∧
    (r.2.handed.map Handout.block).Pairwise Apart ∧
    ∀ more, let r' := (retireMachine owner).run (.start h, .empty) (acts ++ more)
      ∀ c S stop, (c, S, stop) ∈ r.2.left →
        (c, S, stop) ∈ r'.2.left ∧ r'.2.blocks S = r.2.blocks S := by
  intro r
  have hr : RetireInv owner r := ((hb.fresh.retireInv owner).run acts).1
  refine ⟨fun c S hS => ?_, hr.inv.handed_apart, fun more => ?_⟩
  · obtain ⟨stop, hext, htile, hle⟩ := hr.inv.extent c S hS
    exact ⟨stop, fun stop' => ⟨fun h' => hr.inv.extent_unique h' hext, fun h' => h' ▸ hext⟩,
      htile, hle⟩
  · rw [Mealy.run_append]
    exact (hr.run more).2

/-- A context is taken back twice, and gets a new segment in between. -/
def retiredTwice : List (RetireAct Bool Bool) :=
  [.act (.alloc true (some true) 1000 0), .act (.resume true), .retire true true,
    .act (.alloc true (some true) 24 0), .act (.alloc false (some false) 8 0), .retire true true]

theorem retired_apart_twice :
    let r := (retireMachine id).run (.start (.bootedAt 0x7f0000000000), .empty) retiredTwice
    (r.2.handed.map Handout.block).Pairwise Apart ∧ r.2.handed.length = 3 :=
  ⟨(retired_apart id booted_high retiredTwice).2.1, by decide⟩

/-- `IsThreadUsingAllocationContextHeap` tells which contexts have a segment, and every other one
that was ever carved is lost: it was left, and that it does not come back is `retired_apart`. Only
the first segment is neither while its thread is inside `StompWriteBarrier`. -/
theorem retired_lost (owner : C → T) {h : Heap} (hb : Booted h) (acts : List (RetireAct T C)) :
    let r := (retireMachine owner).run (.start h, .empty) acts
    let inUse : Finset C → Finset C := fun X =>
      X.filter fun c => isThreadUsingAllocationContextHeap (r.1.world.ctxs c) = true
    (∀ c, isThreadUsingAllocationContextHeap (r.1.world.ctxs c) = true ↔
      ∃ S, (c, S) ∈ r.2.carved ∧ r.1.world.Current c S) ∧
    ∀ X : Finset C, (∀ x ∈ r.2.carved, x.1 ∈ X) →
      ((∀ t, (r.1.thread t).place ≠ .stomping) →
        r.1.world.heap.segments.length = (inUse X).card + r.2.left.length) ∧
      ∀ t, (r.1.thread t).place = .stomping →
        r.1.world.heap.segments.length = (inUse X).card + r.2.left.length + 1 := by
  intro r inUse
  have hr : RetireInv owner r := ((hb.fresh.retireInv owner).run acts).1
  refine ⟨fun c => hr.inv.using_iff, fun X hX => ?_⟩
  have hleft : ∑ c ∈ X, r.2.leftCount c = r.2.left.length :=
    sum_countP_fst fun x hx => hX _ (hr.inv.left x.1 x.2.1 x.2.2 hx).1
  have hused : ∑ c ∈ X, (if (r.1.world.ctxs c).allocLimit = 0 then 0 else 1) = (inUse X).card := by
    rw [Finset.card_filter]
    refine Finset.sum_congr rfl fun c _ => ?_
    by_cases hl : (r.1.world.ctxs c).allocLimit = 0 <;>
      simp [isThreadUsingAllocationContextHeap, hl]
  have hcount : r.1.world.heap.segments.length =
      (inUse X).card + r.2.left.length + ∑ c ∈ X, inFlight owner r.1 c := by
    calc r.1.world.heap.segments.length
        = ∑ c ∈ X, (enteredCount r.1 r.2 c + inFlight owner r.1 c) := by
          rw [← hr.inv.sum_carvedCount hX]
          exact Finset.sum_congr rfl fun c _ => hr.inv.carvedCount_eq c
      _ = r.2.left.length + (inUse X).card + ∑ c ∈ X, inFlight owner r.1 c := by
          have hentered : ∑ c ∈ X, enteredCount r.1 r.2 c = r.2.left.length + (inUse X).card := by
            rw [← hleft, ← hused]
            exact Finset.sum_add_distrib
          rw [Finset.sum_add_distrib, hentered]
      _ = (inUse X).card + r.2.left.length + ∑ c ∈ X, inFlight owner r.1 c := by
          rw [Nat.add_comm r.2.left.length]
  refine ⟨fun hnone => ?_, fun t ht => ?_⟩
  · rw [hcount, Finset.sum_eq_zero fun c _ => inFlight_eq_zero hnone c, Nat.add_zero]
  · rw [hcount, sum_inFlight hr.inv hr.stomps hX ht]

theorem retired_lost_twice :
    let r := (retireMachine id).run (.start (.bootedAt 0x7f0000000000), .empty) retiredTwice
    r.1.world.heap.segments.length =
      (Finset.univ.filter fun c =>
        isThreadUsingAllocationContextHeap (r.1.world.ctxs c) = true).card + r.2.left.length ∧
      r.2.left.length = 2 :=
  ⟨((retired_lost id booted_high retiredTwice).2 Finset.univ fun _ _ => Finset.mem_univ _).1
    (by decide), by decide⟩

end

end MiniGC
