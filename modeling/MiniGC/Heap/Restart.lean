import MiniGC.Heap.Calls

/-!
# MiniGC.Heap.Restart

The host's calls over the life of a process: `GC_Initialize`, `Initialize` and `Alloc`.

* `hostMachine`   runs of these calls, in any order, on any contexts.
* `SetupKept`     what `Alloc` leaves of the set-up, and whom it calls.
* `Heap.withArena`  the globals after an `Initialize` that got its three mappings, and
  `initialize_all_or_nothing` for runs without `GC_Initialize`: it holds all three or none.
-/

namespace MiniGC

section

variable {C : Type} [DecidableEq C]

/-! ## Runs of the host's calls -/

inductive HostCall (C : Type) where
  | gcInitialize (clrToGC gcHeap gcHandleManager : W) (newManager newHeap : Option W)
  | heapInitialize (handleManager : W) (os : Os)
  | alloc (call : AllocCall C)

inductive HostAnswer where
  | code (result : HResult)
  | pointer (result : W)
  deriving DecidableEq, Repr

def hostMachine (C : Type) [DecidableEq C] : Mealy (World C) (HostCall C) HostAnswer where
  step w
    | .gcInitialize clrToGC gcHeap gcHandleManager newManager newHeap =>
      let r := gcInitialize w.heap clrToGC gcHeap gcHandleManager newManager newHeap
      ({ w with heap := r.1 }, .code r.2.1)
    | .heapInitialize handleManager os =>
      let r := heapInitialize w.heap handleManager os
      ({ w with heap := r.1 }, .code r.2)
    | .alloc call =>
      let r := alloc w call.acontext call.size call.flags
      (r.1, .pointer r.2)

/-! ## What an allocation leaves of the set-up -/

/-- The pages and the EE stay what they are; the EE is called, but never to set the barrier up. -/
structure SetupKept (h h' : Heap) : Prop where
  heapArena : h'.heapArena = h.heapArena
  cardTable : h'.gcCardTable = h.gcCardTable
  cardBundleTable : h'.gcCardBundleTable = h.gcCardBundleTable
  held : h'.held = h.held
  gcToCLR : h'.gcToCLR = h.gcToCLR
  upcalls : ∃ more, h'.upcalls = h.upcalls ++ more ∧ ∀ u ∈ more, u.clr = h.gcToCLR ∧
    ∀ args, u.stompArgs = some args → args.operation = .stompResize

theorem SetupKept.refl (h : Heap) : SetupKept h h :=
  ⟨rfl, rfl, rfl, rfl, rfl, [], (List.append_nil _).symm, fun _ hu => by cases hu⟩

theorem SetupKept.trans {h h' h'' : Heap} (hk : SetupKept h h') (hk' : SetupKept h' h'') :
    SetupKept h h'' := by
  obtain ⟨more, hmore, hall⟩ := hk.upcalls
  obtain ⟨more', hmore', hall'⟩ := hk'.upcalls
  refine ⟨hk'.heapArena.trans hk.heapArena, hk'.cardTable.trans hk.cardTable,
    hk'.cardBundleTable.trans hk.cardBundleTable, hk'.held.trans hk.held,
    hk'.gcToCLR.trans hk.gcToCLR, more ++ more', ?_, fun u hu => ?_⟩
  · rw [hmore', hmore, List.append_assoc]
  · rcases List.mem_append.mp hu with hu | hu
    · exact hall u hu
    · rw [← hk.gcToCLR]
      exact hall' u hu

theorem SetupKept.upcall (h : Heap) (call : EeCall)
    (hcall : ∀ args, Upcall.stompArgs ⟨h.gcToCLR, call⟩ = some args →
      args.operation = .stompResize) : SetupKept h (h.upcall call) := by
  refine ⟨rfl, rfl, rfl, rfl, rfl, [⟨h.gcToCLR, call⟩], rfl, fun u hu => ?_⟩
  rw [List.mem_singleton.mp hu]
  exact ⟨rfl, hcall⟩

theorem SetupKept.collect (h : Heap) : SetupKept h h.collect := by
  have hbegin : SetupKept h h.beginCollection :=
    { SetupKept.upcall h (.suspendEE .suspendForGc) (fun _ hs => by cases hs) with }
  have hscan : SetupKept h.beginCollection h.beginCollection.scanRoots :=
    .upcall _ (.gcScanRoots 0 0) fun _ hs => by cases hs
  have hrestart : SetupKept h.beginCollection.scanRoots h.beginCollection.scanRoots.restart :=
    .upcall _ (.restartEE true) fun _ hs => by cases hs
  exact { (hbegin.trans hscan).trans hrestart with }

theorem SetupKept.grown (h : Heap) : SetupKept h h.grown := by
  unfold Heap.grown publishSegment
  split
  · let args := { h.carved with gcHighestAddress := h.arenaNext + growthSize }.barrierArgs
      .stompResize
    have hstomp : ∀ args', Upcall.stompArgs ⟨h.gcToCLR, .stompWriteBarrier args⟩ = some args' →
        args'.operation = .stompResize := by
      intro args' hs
      rw [← Option.some.inj hs]
      rfl
    exact { SetupKept.upcall h (.stompWriteBarrier args) hstomp with }
  · exact { SetupKept.refl h with }

omit [DecidableEq C] in
theorem SetupKept.atBoundsCheck (w : World C) (c : C) :
    SetupKept w.heap (w.atBoundsCheck c) := by
  rcases w.atBoundsCheck_cases c with h | h <;> rw [h]
  · exact .refl _
  · exact .collect _

theorem AllocOutcome.setupKept {w : World C} {call : AllocCall C} {r : World C × W}
    (ho : AllocOutcome w call r) : SetupKept w.heap r.1.heap := by
  cases ho with
  | refused => exact .refl _
  | served => exact .refl _
  | full c => exact .atBoundsCheck w c
  | carved c => exact (SetupKept.atBoundsCheck w c).trans (.grown _)

/-! ## An `Initialize` holds all it needs or nothing -/

/-- The operating system has a mapping for each of the three requests. -/
def Os.MapsAll (os : Os) (arena cards bundles : W) : Prop :=
  (os.map heapArenaSize).map Pages.addr = some arena ∧
    (os.map (heapArenaSize / cardSize * 4)).map Pages.addr = some cards ∧
    (os.map (heapArenaSize / cardBundleSize * 4)).map Pages.addr = some bundles

/-- The mappings of one arena, one card table and one bundle table. -/
def setupPages (arena cards bundles : W) : List (W × W) :=
  [(bundles, heapArenaSize / cardBundleSize * 4), (cards, heapArenaSize / cardSize * 4),
    (arena, heapArenaSize)]

/-- The globals as the first success leaves them. -/
def Heap.withArena (clr arena cards bundles : W) : Heap where
  segments := []
  gcLowestAddress := arena
  gcHighestAddress := arena
  gcCardTable := cards
  gcCardBundleTable := bundles
  heapArena := arena
  arenaNext := arena
  arenaCommitted := heapArenaSize
  cardTableCount := heapArenaSize / cardSize
  cardBundleCount := heapArenaSize / cardBundleSize
  gcInProgress := false
  gcToCLR := clr
  held := setupPages arena cards bundles
  upcalls := [⟨clr, .stompWriteBarrier
    ⟨.initializeBarrier, false, false, cards, bundles, arena, arena⟩⟩]

/-- Nothing is held, and the EE has not been called. -/
structure Cold (clr : W) (h : Heap) : Prop extends Unbooted h where
  gcToCLR : h.gcToCLR = clr
  cardTable : h.gcCardTable = 0
  cardBundleTable : h.gcCardBundleTable = 0
  held : h.held = []

theorem Cold.processStart (clr : W) : Cold clr { Heap.processStart with gcToCLR := clr } :=
  ⟨⟨rfl, rfl, rfl, rfl⟩, rfl, rfl, rfl, rfl⟩

/-- Without an arena, the three mappings decide. -/
theorem Cold.heapInitialize_cases {clr : W} {h : Heap} (hc : Cold clr h) (hclr : clr ≠ 0)
    {handleManager : W} (hm : handleManager ≠ 0) {os : Os}
    (hos : ∀ address, os.unmap address = true) :
    (∃ arena cards bundles, os.MapsAll arena cards bundles ∧
      heapInitialize h handleManager os = (.withArena clr arena cards bundles, .sOk)) ∨
    ((∀ arena cards bundles, ¬ os.MapsAll arena cards bundles) ∧
      (heapInitialize h handleManager os).2 = .eOutOfMemory ∧
      Cold clr (heapInitialize h handleManager os).1) := by
  have hset : ¬ (h.gcToCLR = 0 ∨ handleManager = 0) := by
    rw [hc.gcToCLR]
    exact not_or.mpr ⟨hclr, hm⟩
  rcases harena : os.map heapArenaSize with _ | arena
  · right
    simp only [heapInitialize, hset, hc.heapArena, allocatePages, harena, if_true, if_false,
      ne_eq, not_true_eq_false]
    refine ⟨?_, trivial, ⟨hc.segments, rfl, hc.gcInProgress, hc.upcalls⟩, hc.gcToCLR, hc.cardTable,
      hc.cardBundleTable, hc.held⟩
    rintro arena cards bundles ⟨hmap, -⟩
    rw [harena] at hmap
    cases hmap
  rcases hcards : os.map (heapArenaSize / cardSize * 4) with _ | cards
  · right
    simp only [heapInitialize, hset, hc.heapArena, allocatePages, harena, hcards,
      arena.ne_null, if_true, if_false, ne_eq, not_true_eq_false]
    refine ⟨?_, trivial, ⟨hc.segments, rfl, hc.gcInProgress, hc.upcalls⟩, hc.gcToCLR, rfl,
      hc.cardBundleTable, ?_⟩
    · rintro arena cards bundles ⟨-, hmap, -⟩
      rw [hcards] at hmap
      cases hmap
    · rw [freePages_cons arena.ne_null (hos _), hc.held]
  rcases hbundles : os.map (heapArenaSize / cardBundleSize * 4) with _ | bundles
  · right
    simp only [heapInitialize, hset, hc.heapArena, allocatePages, harena, hcards, hbundles,
      arena.ne_null, cards.ne_null, if_true, if_false, ne_eq, not_true_eq_false]
    refine ⟨?_, trivial, ⟨hc.segments, rfl, hc.gcInProgress, hc.upcalls⟩, hc.gcToCLR, rfl, rfl, ?_⟩
    · rintro arena cards bundles ⟨-, -, hmap⟩
      rw [hbundles] at hmap
      cases hmap
    · rw [freePages_cons cards.ne_null (hos _), freePages_cons arena.ne_null (hos _), hc.held]
  · left
    refine ⟨arena.addr, cards.addr, bundles.addr, ⟨?_, ?_, ?_⟩, ?_⟩
    · rw [harena]; rfl
    · rw [hcards]; rfl
    · rw [hbundles]; rfl
    · simp only [heapInitialize, hset, hc.heapArena, allocatePages, harena, hcards, hbundles,
        arena.ne_null, cards.ne_null, bundles.ne_null, if_false, ne_eq, not_true_eq_false]
      simp only [Heap.upcall, Heap.barrierArgs, hc.segments, hc.gcInProgress, hc.gcToCLR, hc.held,
        hc.upcalls, Heap.withArena, setupPages, List.nil_append]

/-- Without an arena `Alloc` returns null to an unused context, and does nothing. -/
theorem alloc_without_arena {w : World C} (ha : w.heap.heapArena = 0)
    (hctx : ∀ c, (w.ctxs c).allocPtr = 0 ∧ (w.ctxs c).allocLimit = 0) (call : AllocCall C) :
    alloc w call.acontext call.size call.flags = (w, 0) := by
  obtain ⟨acontext, size, flags⟩ := call
  cases acontext with
  | none => rfl
  | some c =>
    have hfits : (w.ctxs c).fits size = false := by simp [GcAllocContext.fits, (hctx c).1]
    have hcarve : carveSegment w.heap = (w.heap, none) := by
      rw [carveSegment, reserveSegment, if_pos (.inl ha)]
    by_cases hsize : sizeRefused size = true
    · simp only [alloc, hsize, if_true]
    · simp only [alloc, hsize, hfits, (hctx c).2, allocFromNewSegment, hcarve, if_false, ne_eq,
        not_true_eq_false, Bool.false_eq_true]

/-- The upcall is a `StompWriteBarrier` with the operation `Initialize`. -/
def Upcall.initializes (u : Upcall) : Bool :=
  u.stompArgs.map WriteBarrierParameters.operation = some .initializeBarrier

theorem SetupKept.initializes {h h' : Heap} (hk : SetupKept h h') :
    h'.upcalls.filter Upcall.initializes = h.upcalls.filter Upcall.initializes := by
  obtain ⟨more, hmore, hall⟩ := hk.upcalls
  have hnone : more.filter Upcall.initializes = [] := by
    rw [List.filter_eq_nil_iff]
    intro u hu hinit
    obtain ⟨args, hargs, hop⟩ := Option.map_eq_some_iff.mp (of_decide_eq_true hinit)
    rw [(hall u hu).2 args hargs] at hop
    cases hop
  rw [hmore, List.filter_append, hnone, List.append_nil]

/-- Exactly one arena, one card table and one bundle table are held, under their pointers. -/
structure HoldsAll (h : Heap) : Prop where
  held : h.held = setupPages h.heapArena h.gcCardTable h.gcCardBundleTable
  arena_ne : h.heapArena ≠ 0
  cards_ne : h.gcCardTable ≠ 0
  bundles_ne : h.gcCardBundleTable ≠ 0

structure HoldsNone (h : Heap) : Prop where
  held : h.held = []
  arena : h.heapArena = 0
  cards : h.gcCardTable = 0
  bundles : h.gcCardBundleTable = 0

theorem Cold.holdsNone {clr : W} {h : Heap} (hc : Cold clr h) : HoldsNone h :=
  ⟨hc.held, hc.heapArena, hc.cardTable, hc.cardBundleTable⟩

theorem Os.MapsAll.holdsAll {os : Os} {arena cards bundles : W}
    (hmaps : os.MapsAll arena cards bundles) (clr : W) :
    HoldsAll (.withArena clr arena cards bundles) := by
  have hne : ∀ {size addr : W}, (os.map size).map Pages.addr = some addr → addr ≠ 0 := by
    intro size addr hmap
    obtain ⟨pages, -, rfl⟩ := Option.map_eq_some_iff.mp hmap
    exact pages.ne_null
  exact ⟨rfl, hne hmaps.1, hne hmaps.2.1, hne hmaps.2.2⟩

/-- The set-up has been done, and is there to stay. -/
structure Warm (clr : W) (w : World C) : Prop where
  calls : CallInv w
  pages : HoldsAll w.heap
  gcToCLR : w.heap.gcToCLR = clr
  told : (w.heap.upcalls.filter Upcall.initializes).map Upcall.clr = [clr]

omit [DecidableEq C] in
theorem Cold.warm {clr : W} {w : World C} (hc : Cold clr w.heap)
    (hunused : ∀ c, (w.ctxs c).allocPtr = 0 ∧ (w.ctxs c).allocLimit = 0) {handleManager : W}
    {os : Os} {arena cards bundles : W} (hmaps : os.MapsAll arena cards bundles)
    (he : heapInitialize w.heap handleManager os = (.withArena clr arena cards bundles, .sOk)) :
    Warm clr { w with heap := (heapInitialize w.heap handleManager os).1 } := by
  have hfresh : Fresh (.withArena clr arena cards bundles) := by
    rcases heapInitialize_unbooted hc.toUnbooted handleManager os with ⟨-, hf⟩ | ⟨hne, -⟩
    · rwa [he] at hf
    · rw [he] at hne; exact absurd rfl hne
  rw [he]
  exact ⟨⟨hfresh.heapInv, fun c => .inl (hunused c), rfl⟩, hmaps.holdsAll clr, rfl, rfl⟩

theorem Warm.alloc_kept {clr : W} {w : World C} (hw : Warm clr w) (call : AllocCall C) :
    Warm clr (alloc w call.acontext call.size call.flags).1 := by
  have ho := alloc_outcome hw.calls.heap call
  have hk := ho.setupKept
  refine ⟨hw.calls.outcome ho, ⟨?_, ?_, ?_, ?_⟩, hk.gcToCLR.trans hw.gcToCLR, ?_⟩
  · rw [hk.held, hk.heapArena, hk.cardTable, hk.cardBundleTable]
    exact hw.pages.held
  · rw [hk.heapArena]; exact hw.pages.arena_ne
  · rw [hk.cardTable]; exact hw.pages.cards_ne
  · rw [hk.cardBundleTable]; exact hw.pages.bundles_ne
  · rw [hk.initializes]
    exact hw.told

omit [DecidableEq C] in
theorem Warm.heapInitialize_eq {clr : W} {w : World C} (hw : Warm clr w) (hclr : clr ≠ 0)
    {handleManager : W} (hm : handleManager ≠ 0) (os : Os) :
    heapInitialize w.heap handleManager os = (w.heap, .sOk) := by
  have hset : ¬ (w.heap.gcToCLR = 0 ∨ handleManager = 0) := by
    rw [hw.gcToCLR]
    exact not_or.mpr ⟨hclr, hm⟩
  rw [heapInitialize, if_neg hset, if_pos hw.pages.arena_ne]

/-- The process as the host finds it after one `GC_Initialize`. -/
def World.bound (C : Type) (clr : W) : World C :=
  .start { Heap.processStart with gcToCLR := clr }

/-- Some `Initialize` of the run has returned `S_OK`. -/
def Succeeded (clr : W) (ops : List (HostCall C)) : Prop :=
  ∃ handleManager os, (HostCall.heapInitialize handleManager os, HostAnswer.code .sOk) ∈
    (hostMachine C).trace (.bound C clr) ops

theorem succeeded_snoc {clr : W} {ops : List (HostCall C)} {op : HostCall C} :
    Succeeded clr (ops ++ [op]) ↔ Succeeded clr ops ∨
      ∃ handleManager os, op = .heapInitialize handleManager os ∧
        (hostMachine C).answer ((hostMachine C).run (.bound C clr) ops) op = .code .sOk := by
  simp only [Succeeded, Mealy.trace_snoc, List.mem_append, List.mem_singleton, Prod.mk.injEq,
    exists_or]
  refine or_congr_right (exists_congr fun handleManager => exists_congr fun os => ?_)
  constructor <;> rintro ⟨h1, h2⟩ <;> exact ⟨h1.symm, h2.symm⟩

/-- No `GC_Initialize`, a heap object with its handle manager, and frees that succeed. -/
def HostCall.Admitted : HostCall C → Prop
  | .gcInitialize .. => False
  | .heapInitialize handleManager os => handleManager ≠ 0 ∧ ∀ address, os.unmap address = true
  | .alloc _ => True

/-- What the state is a run has reached: nothing done yet, or all of it. -/
inductive SetupInv (clr : W) (ops : List (HostCall C)) (w : World C) : Prop where
  | cold (failed : ¬ Succeeded clr ops) (heap : Cold clr w.heap)
      (unused : ∀ c, (w.ctxs c).allocPtr = 0 ∧ (w.ctxs c).allocLimit = 0)
  | warm (succeeded : Succeeded clr ops) (warm : Warm clr w)

theorem SetupInv.step {clr : W} (hclr : clr ≠ 0) {ops : List (HostCall C)}
    (hi : SetupInv clr ops ((hostMachine C).run (.bound C clr) ops)) {op : HostCall C}
    (hop : op.Admitted) :
    SetupInv clr (ops ++ [op]) ((hostMachine C).run (.bound C clr) (ops ++ [op])) := by
  have hsnoc : Succeeded clr (ops ++ [op]) ↔ _ := succeeded_snoc
  rw [Mealy.run_append]
  generalize hw : (hostMachine C).run (.bound C clr) ops = w at hi hsnoc
  cases op with
  | gcInitialize => exact hop.elim
  | heapInitialize handleManager os =>
    obtain ⟨hm, hos⟩ := hop
    cases hi with
    | cold failed heap unused =>
      rcases heap.heapInitialize_cases hclr hm hos with ⟨arena, cards, bundles, hmaps, he⟩ |
        ⟨-, hcode, hcold⟩
      · have hcode : (heapInitialize w.heap handleManager os).2 = .sOk := by rw [he]
        exact .warm (hsnoc.mpr (.inr ⟨_, _, rfl, congrArg HostAnswer.code hcode⟩))
          (heap.warm unused hmaps he)
      · refine .cold (fun hs => ?_) hcold unused
        rcases hsnoc.mp hs with hs | ⟨_, _, _, hs⟩
        · exact failed hs
        · rw [show (hostMachine C).answer w (.heapInitialize handleManager os) =
            .code .eOutOfMemory from congrArg HostAnswer.code hcode] at hs
          cases hs
    | warm succeeded warm =>
      refine .warm (hsnoc.mpr (.inl succeeded)) ?_
      have hsame : (hostMachine C).run w [.heapInitialize handleManager os] = w := by
        show ({ w with heap := (heapInitialize w.heap handleManager os).1 } : World C) = w
        rw [warm.heapInitialize_eq hclr hm os]
      exact hsame.symm ▸ warm
  | alloc call =>
    cases hi with
    | cold failed heap unused =>
      have hsame : (hostMachine C).run w [.alloc call] = w :=
        congrArg Prod.fst (alloc_without_arena heap.heapArena unused call)
      rw [hsame]
      refine .cold (fun hs => ?_) heap unused
      rcases hsnoc.mp hs with hs | ⟨_, _, hs, _⟩
      · exact failed hs
      · cases hs
    | warm succeeded warm => exact .warm (hsnoc.mpr (.inl succeeded)) (warm.alloc_kept call)

theorem setupInv_run {clr : W} (hclr : clr ≠ 0) {ops : List (HostCall C)}
    (hops : ∀ op ∈ ops, op.Admitted) :
    SetupInv clr ops ((hostMachine C).run (.bound C clr) ops) := by
  induction ops using List.reverseRecOn with
  | nil =>
    refine .cold ?_ (.processStart clr) fun c => ⟨rfl, rfl⟩
    rintro ⟨_, _, hmem⟩
    cases hmem
  | append_singleton ops op ih =>
    have hbefore := ih fun op' hmem => hops op' (List.mem_append_left _ hmem)
    exact hbefore.step hclr (hops op (by simp))

/-- Of two attempts with nothing held, both fail or both leave the same globals. -/
theorem Cold.retry {clr : W} {h h' : Heap} (hc : Cold clr h) (hc' : Cold clr h') (hclr : clr ≠ 0)
    {handleManager : W} (hm : handleManager ≠ 0) {os : Os}
    (hos : ∀ address, os.unmap address = true) :
    let r := heapInitialize h handleManager os
    let r' := heapInitialize h' handleManager os
    r.2 = r'.2 ∧ (r.2 = .sOk → r.1 = r'.1) ∧ (r.2 ≠ .sOk → HoldsNone r.1 ∧ HoldsNone r'.1) := by
  intro r r'
  rcases hc.heapInitialize_cases hclr hm hos with ⟨_, _, _, hmaps, he⟩ | ⟨hno, hcode, hcold⟩
  · rcases hc'.heapInitialize_cases hclr hm hos with ⟨_, _, _, hmaps', he'⟩ | ⟨hno, -⟩
    · obtain rfl := Option.some.inj (hmaps.1.symm.trans hmaps'.1)
      obtain rfl := Option.some.inj (hmaps.2.1.symm.trans hmaps'.2.1)
      obtain rfl := Option.some.inj (hmaps.2.2.symm.trans hmaps'.2.2)
      have hcode : r.2 = .sOk := congrArg Prod.snd he
      rw [show r' = r from he'.trans he.symm]
      exact ⟨rfl, fun _ => rfl, fun hne => absurd hcode hne⟩
    · exact absurd hmaps (hno _ _ _)
  · rcases hc'.heapInitialize_cases hclr hm hos with ⟨_, _, _, hmaps', -⟩ | ⟨-, hcode', hcold'⟩
    · exact absurd hmaps' (hno _ _ _)
    · rw [show r.2 = _ from hcode, show r'.2 = _ from hcode']
      exact ⟨rfl, HResult.noConfusion, fun _ => ⟨hcold.holdsNone, hcold'.holdsNone⟩⟩

/-- After every `Initialize` all three mappings are held and `S_OK` was returned, or nothing is held
and an error was. While all calls have failed, the next one does what a first call would. Once one
has succeeded, later ones return `S_OK` and change nothing. The EE is told to set its barrier up
once if some call succeeded, and not at all otherwise. -/
theorem initialize_all_or_nothing {clr : W} (hclr : clr ≠ 0) {ops : List (HostCall C)}
    (hops : ∀ op ∈ ops, op.Admitted) {handleManager : W} {os : Os}
    (hop : (HostCall.heapInitialize handleManager os : HostCall C).Admitted) :
    let start : Heap := { Heap.processStart with gcToCLR := clr }
    let w := (hostMachine C).run (.bound C clr) ops
    let first := heapInitialize start handleManager os
    let r := heapInitialize w.heap handleManager os
    (r.2 = .sOk ∧ HoldsAll r.1 ∨ r.2 ≠ .sOk ∧ HoldsNone r.1) ∧
    (¬ Succeeded clr ops → r.2 = first.2 ∧ (r.2 = .sOk → r.1 = first.1) ∧
      (r.2 ≠ .sOk → HoldsNone r.1 ∧ HoldsNone first.1)) ∧
    (Succeeded clr ops → r = (w.heap, .sOk)) ∧
    (Succeeded clr (ops ++ [.heapInitialize handleManager os]) →
      (r.1.upcalls.filter Upcall.initializes).map Upcall.clr = [clr]) ∧
    (¬ Succeeded clr (ops ++ [.heapInitialize handleManager os]) →
      r.1.upcalls.filter Upcall.initializes = []) := by
  intro start w first r
  have hi : SetupInv clr ops w := setupInv_run hclr hops
  have hafter : SetupInv clr (ops ++ [.heapInitialize handleManager os])
      { w with heap := r.1 } := by
    have hstep := hi.step hclr hop
    rwa [Mealy.run_append] at hstep
  refine ⟨?_, fun hfailed => ?_, fun hsucceeded => ?_, fun hsucceeded => ?_, fun hfailed => ?_⟩
  · cases hi with
    | cold failed heap unused =>
      rcases heap.heapInitialize_cases hclr hop.1 hop.2 with ⟨_, _, _, hmaps, he⟩ |
        ⟨-, hcode, hcold⟩
      · left
        rw [show r = _ from he]
        exact ⟨rfl, hmaps.holdsAll clr⟩
      · right
        rw [show r.2 = _ from hcode]
        exact ⟨HResult.noConfusion, hcold.holdsNone⟩
    | warm succeeded warm =>
      left
      rw [show r = _ from warm.heapInitialize_eq hclr hop.1 os]
      exact ⟨rfl, warm.pages⟩
  · cases hi with
    | warm succeeded => exact absurd succeeded hfailed
    | cold failed heap unused => exact heap.retry (.processStart clr) hclr hop.1 hop.2
  · cases hi with
    | cold failed => exact absurd hsucceeded failed
    | warm succeeded warm => exact warm.heapInitialize_eq hclr hop.1 os
  · cases hafter with
    | cold failed => exact absurd hsucceeded failed
    | warm succeeded warm => exact warm.told
  · cases hafter with
    | cold failed heap => rw [show r.1.upcalls = [] from heap.upcalls]; rfl
    | warm succeeded => exact absurd succeeded hfailed

/-- An operating system that has no mapping to give. -/
def Os.outOfMemory : Os := ⟨fun _ => none, fun _ => true⟩

/-- A first call without memory, then an allocation, then a call that succeeds. -/
theorem initialize_retried :
    let ops : List (HostCall Bool) :=
      [.heapInitialize 0x2000 .outOfMemory, .alloc ⟨some true, 24, 0⟩]
    let w := (hostMachine Bool).run (.bound Bool 0x1000) ops
    heapInitialize w.heap 0x2000 (.arenaAt 0x7f0000000000) =
      (.bootedAt 0x7f0000000000, .sOk) := by
  intro ops w
  have hops : ∀ op ∈ ops, op.Admitted := by simp [ops, HostCall.Admitted, Os.outOfMemory]
  have hfailed : ¬ Succeeded 0x1000 ops := by
    rintro ⟨_, _, hmem⟩
    simp [ops, Mealy.trace, Mealy.answer, hostMachine, heapInitialize, World.bound, World.start,
      Heap.processStart, allocatePages, Os.outOfMemory] at hmem
  have hclr : (0x1000 : W) ≠ 0 := by decide
  have hop : (HostCall.heapInitialize 0x2000 (.arenaAt 0x7f0000000000) : HostCall Bool).Admitted :=
    ⟨by decide, fun _ => rfl⟩
  have hfirst := (initialize_all_or_nothing hclr hops hop).2.1 hfailed
  have hok : (heapInitialize w.heap 0x2000 (.arenaAt 0x7f0000000000)).2 = .sOk := by
    rw [hfirst.1]
    decide
  exact Prod.ext (hfirst.2.1 hok) hok

/-- Over a run whose only call fails, the EE is not told to set anything up. -/
theorem initialize_never_told :
    let ops : List (HostCall Bool) := [.heapInitialize 0x2000 .outOfMemory]
    (∀ op ∈ ops, op.Admitted) ∧
      (((hostMachine Bool).run (.bound Bool 0x1000) ops).heap.upcalls.filter
        Upcall.initializes).length ≠ 1 := by
  intro ops
  exact ⟨by simp [ops, HostCall.Admitted, Os.outOfMemory], by decide⟩

end

end MiniGC
