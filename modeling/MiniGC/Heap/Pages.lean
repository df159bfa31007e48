import MiniGC.Heap.Restart

/-!
# MiniGC.Heap.Pages

What the collector holds of the operating system's memory, whoever calls it and whatever the
operating system answers; in particular where unmapping fails, which `MiniGCFreePages` reports and
`Initialize` does not look at.

* `Heap.named`   the mappings that the three pointers name.
* `Os.leaked`    the mappings that a failing `Initialize` gets and cannot give back.
* `pages_accounted`   in every run these are the mappings held, and no others.
-/

namespace MiniGC

section

variable {C : Type} [DecidableEq C]

/-- The mappings that are reached through the globals. -/
def Heap.named (h : Heap) : List (W × W) :=
  (setupPages h.heapArena h.gcCardTable h.gcCardBundleTable).filter fun x => x.1 ≠ 0

/-- The mappings that `Initialize` asks for and gets, the last one first. -/
def Os.obtained (os : Os) : List (W × W) :=
  match os.map heapArenaSize with
  | none => []
  | some arena =>
    match os.map (heapArenaSize / cardSize * 4) with
    | none => [(arena.addr, heapArenaSize)]
    | some cards =>
      let two := [(cards.addr, heapArenaSize / cardSize * 4), (arena.addr, heapArenaSize)]
      match os.map (heapArenaSize / cardBundleSize * 4) with
      | none => two
      | some bundles => (bundles.addr, heapArenaSize / cardBundleSize * 4) :: two

/-- Those of them that cannot be given back. -/
def Os.leaked (os : Os) : List (W × W) := os.obtained.filter fun x => !os.unmap x.1

/-- What a call of the host loses: an `Initialize` that reports `E_OUTOFMEMORY` has given back, of
the mappings it got, those that it could. -/
def HostCall.leaked : HostCall C → HostAnswer → List (W × W)
  | .heapInitialize _ os, .code .eOutOfMemory => os.leaked
  | _, _ => []

/-- What a run has lost, the last one first. -/
def leakedPages (trace : List (HostCall C × HostAnswer)) : List (W × W) :=
  trace.reverse.flatMap fun x => x.1.leaked x.2

omit [DecidableEq C] in
theorem leakedPages_snoc (trace : List (HostCall C × HostAnswer)) (call : HostCall C)
    (answer : HostAnswer) :
    leakedPages (trace ++ [(call, answer)]) = call.leaked answer ++ leakedPages trace := by
  rw [leakedPages, List.reverse_append, List.reverse_singleton, List.singleton_append,
    List.flatMap_cons, leakedPages]

theorem freePages_held (os : Os) {address : W} (hne : address ≠ 0) (held : List (W × W))
    (size : W) : (freePages os held address size).1 =
      if os.unmap address then held.erase (address, size) else held := by
  cases hos : os.unmap address with
  | true =>
    rw [freePages, if_pos ⟨hne, hos⟩]
    rfl
  | false =>
    rw [freePages, if_neg fun h => Bool.false_ne_true (hos.symm.trans h.2)]
    rfl

/-- The mapping made last is given back. -/
theorem freePages_last (os : Os) {address : W} (hne : address ≠ 0) (held : List (W × W))
    (size : W) : (freePages os ((address, size) :: held) address size).1 =
      [(address, size)].filter (fun x => !os.unmap x.1) ++ held := by
  rw [freePages_held os hne]
  cases hos : os.unmap address <;> simp [hos]

/-- The last two mappings, of different sizes, are given back. -/
theorem freePages_last_two (os : Os) {address address' size size' : W} (hne : address ≠ 0)
    (hne' : address' ≠ 0) (hsize : size' ≠ size) (held : List (W × W)) :
    (freePages os (freePages os ((address', size') :: (address, size) :: held) address' size').1
        address size).1 =
      [(address', size'), (address, size)].filter (fun x => !os.unmap x.1) ++ held := by
  have hbehind : ((address', size') :: (address, size) :: held).erase (address, size) =
      (address', size') :: held := by
    rw [List.erase_cons_tail (by simp [hsize]), List.erase_cons_head]
  rw [freePages_held os hne, freePages_held os hne']
  cases hos : os.unmap address <;> cases hos' : os.unmap address' <;> simp [hos, hos', hbehind]

/-! ## What a call keeps -/

/-- What the collector knows of its mappings. -/
def Heap.pages (h : Heap) : List (W × W) × W × W × W :=
  (h.held, h.heapArena, h.gcCardTable, h.gcCardBundleTable)

theorem carveSegment_pages (h : Heap) : (carveSegment h).1.pages = h.pages := by
  unfold carveSegment
  split
  · rfl
  · rename_i h' newPages hreserve
    have hregister : (registerSegment h' newPages).1.pages = h'.pages := by
      unfold registerSegment
      split <;> simp only [Heap.pages]
    have hreserve' : h'.pages = h.pages := by
      unfold reserveSegment at hreserve
      split at hreserve
      · cases hreserve
      · cases hreserve
        simp only [Heap.pages]
    split <;> rename_i heq <;> rw [heq] at hregister <;> exact hregister.trans hreserve'

theorem Heap.upcall_pages (h : Heap) (call : EeCall) : (h.upcall call).pages = h.pages := rfl

theorem Heap.setHighest_pages (h : Heap) (highest : W) :
    { h with gcHighestAddress := highest }.pages = h.pages := rfl

theorem Heap.setGcInProgress_pages (h : Heap) (b : Bool) :
    { h with gcInProgress := b }.pages = h.pages := rfl

theorem Heap.collect_pages (h : Heap) : h.collect.pages = h.pages := by
  rw [Heap.collect, Heap.endCollection, Heap.setGcInProgress_pages, Heap.restart,
    Heap.upcall_pages, Heap.scanRoots, Heap.upcall_pages, Heap.beginCollection,
    Heap.upcall_pages, Heap.setGcInProgress_pages]

theorem publishSegment_pages (h : Heap) (newPages : W) :
    (publishSegment h newPages).pages = h.pages := by
  unfold publishSegment
  split
  · dsimp only
    rw [Heap.upcall_pages, Heap.setHighest_pages]
  · rfl

theorem allocFromNewSegment_pages (w : World C) (c : C) (size : W) :
    (allocFromNewSegment w c size).1.heap.pages = w.heap.pages := by
  have hcarve := carveSegment_pages w.heap
  unfold allocFromNewSegment
  rcases hc : carveSegment w.heap with ⟨heap, _ | newPages⟩ <;> rw [hc] at hcarve
  · exact hcarve
  · exact (publishSegment_pages heap newPages).trans hcarve

/-- `Alloc` asks the operating system for nothing, in whatever state it is called. -/
theorem alloc_pages (w : World C) (acontext : Option C) (size : W) (flags : BitVec 32) :
    (alloc w acontext size flags).1.heap.pages = w.heap.pages := by
  cases acontext with
  | none => rfl
  | some c =>
    simp only [alloc]
    split
    · rfl
    split
    · rfl
    split
    · exact (allocFromNewSegment_pages _ c size).trans w.heap.collect_pages
    · exact allocFromNewSegment_pages w c size

/-- With no mapping known, an `Initialize` keeps all three that it got, or those that it could not
give back; or it does not come that far. -/
theorem heapInitialize_pages {h : Heap} (harena : h.heapArena = 0) (hcards : h.gcCardTable = 0)
    (hbundles : h.gcCardBundleTable = 0) (handleManager : W) (os : Os) :
    ((heapInitialize h handleManager os).2 = .sOk ∧ ∃ arena cards bundles, arena ≠ 0 ∧
        cards ≠ 0 ∧ bundles ≠ 0 ∧ (heapInitialize h handleManager os).1.pages =
          (setupPages arena cards bundles ++ h.held, arena, cards, bundles)) ∨
      ((heapInitialize h handleManager os).2 = .eOutOfMemory ∧
        (heapInitialize h handleManager os).1.pages = (os.leaked ++ h.held, 0, 0, 0)) ∨
      heapInitialize h handleManager os = (h, .eFail) := by
  by_cases hset : h.gcToCLR = 0 ∨ handleManager = 0
  · right; right
    rw [heapInitialize, if_pos hset]
  rcases hmap : os.map heapArenaSize with _ | arena
  · right; left
    simp only [heapInitialize, hset, harena, allocatePages, hmap, if_true, if_false, ne_eq,
      not_true_eq_false, Heap.pages, hcards, hbundles, Os.leaked, Os.obtained]
    exact ⟨trivial, rfl⟩
  rcases hmap' : os.map (heapArenaSize / cardSize * 4) with _ | cards
  · right; left
    simp only [heapInitialize, hset, harena, allocatePages, hmap, hmap', if_true, if_false, ne_eq,
      not_true_eq_false, arena.ne_null, Heap.pages, hbundles, Os.leaked, Os.obtained]
    exact ⟨trivial, by rw [freePages_last os arena.ne_null]⟩
  rcases hmap'' : os.map (heapArenaSize / cardBundleSize * 4) with _ | bundles
  · right; left
    have hsizes : heapArenaSize / cardSize * 4 ≠ heapArenaSize := by decide
    simp only [heapInitialize, hset, harena, allocatePages, hmap, hmap', hmap'', if_true, if_false,
      ne_eq, not_true_eq_false, arena.ne_null, cards.ne_null, Heap.pages, Os.leaked, Os.obtained]
    exact ⟨trivial, by rw [freePages_last_two os arena.ne_null cards.ne_null hsizes]⟩
  · left
    simp only [heapInitialize, hset, harena, allocatePages, hmap, hmap', hmap'', if_false, ne_eq,
      not_true_eq_false, arena.ne_null, cards.ne_null, bundles.ne_null]
    exact ⟨trivial, _, _, _, arena.ne_null, cards.ne_null, bundles.ne_null, rfl⟩

structure PagesInv (h : Heap) (leaked : List (W × W)) : Prop where
  held : h.held = h.named ++ leaked
  pointers : h.heapArena = 0 ∧ h.gcCardTable = 0 ∧ h.gcCardBundleTable = 0 ∨
    h.heapArena ≠ 0 ∧ h.gcCardTable ≠ 0 ∧ h.gcCardBundleTable ≠ 0

namespace PagesInv

variable {h : Heap} {leaked : List (W × W)}

theorem of_none (harena : h.heapArena = 0) (hcards : h.gcCardTable = 0)
    (hbundles : h.gcCardBundleTable = 0) : PagesInv h leaked ↔ h.held = leaked := by
  have hnamed : h.named = [] := by
    rw [Heap.named, harena, hcards, hbundles]
    rfl
  refine ⟨fun hi => ?_, fun hheld => ⟨?_, .inl ⟨harena, hcards, hbundles⟩⟩⟩
  · rw [hi.held, hnamed, List.nil_append]
  · rw [hheld, hnamed, List.nil_append]

theorem of_all (harena : h.heapArena ≠ 0) (hcards : h.gcCardTable ≠ 0)
    (hbundles : h.gcCardBundleTable ≠ 0)
    (hheld : h.held = setupPages h.heapArena h.gcCardTable h.gcCardBundleTable ++ leaked) :
    PagesInv h leaked := by
  refine ⟨?_, .inr ⟨harena, hcards, hbundles⟩⟩
  have hnamed : h.named = setupPages h.heapArena h.gcCardTable h.gcCardBundleTable := by
    refine List.filter_eq_self.mpr fun x hx => decide_eq_true ?_
    simp only [setupPages, List.mem_cons, List.not_mem_nil, or_false] at hx
    rcases hx with rfl | rfl | rfl
    · exact hbundles
    · exact hcards
    · exact harena
  rw [hheld, hnamed]

theorem congr (hi : PagesInv h leaked) {h' : Heap} (hpages : h'.pages = h.pages) :
    PagesInv h' leaked := by
  simp only [Heap.pages, Prod.mk.injEq] at hpages
  obtain ⟨hheld, harena, hcards, hbundles⟩ := hpages
  refine ⟨?_, ?_⟩
  · rw [Heap.named, hheld, harena, hcards, hbundles]
    exact hi.held
  · rw [harena, hcards, hbundles]
    exact hi.pointers

omit [DecidableEq C] in
theorem heapInitialize (hi : PagesInv h leaked) (handleManager : W) (os : Os) :
    PagesInv (MiniGC.heapInitialize h handleManager os).1
      ((HostCall.heapInitialize handleManager os : HostCall C).leaked
        (.code (MiniGC.heapInitialize h handleManager os).2) ++ leaked) := by
  rcases hi.pointers with ⟨harena, hcards, hbundles⟩ | ⟨harena, -, -⟩
  · have hheld : h.held = leaked := (of_none harena hcards hbundles).mp hi
    rcases heapInitialize_pages harena hcards hbundles handleManager os with
      ⟨hcode, arena, cards, bundles, h1, h2, h3, hpages⟩ | ⟨hcode, hpages⟩ | hsame
    · rw [hcode]
      simp only [Heap.pages, Prod.mk.injEq] at hpages
      obtain ⟨hheld', rfl, rfl, rfl⟩ := hpages
      exact of_all h1 h2 h3 (hheld ▸ hheld')
    · rw [hcode]
      simp only [Heap.pages, Prod.mk.injEq] at hpages
      obtain ⟨hheld', h1, h2, h3⟩ := hpages
      exact (of_none h1 h2 h3).mpr (hheld ▸ hheld')
    · rw [hsame]
      exact hi
  · have hcode : (MiniGC.heapInitialize h handleManager os).2 ≠ .eOutOfMemory := by
      rw [MiniGC.heapInitialize, if_pos harena]
      split <;> exact HResult.noConfusion
    rw [heapInitialize_of_arena harena]
    generalize (MiniGC.heapInitialize h handleManager os).2 = code at hcode
    cases code with
    | eOutOfMemory => exact absurd rfl hcode
    | _ => exact hi

theorem step {w : World C} (hi : PagesInv w.heap leaked) (call : HostCall C) :
    PagesInv ((hostMachine C).next w call).heap
      (call.leaked ((hostMachine C).answer w call) ++ leaked) := by
  cases call with
  | gcInitialize clrToGC gcHeap gcHandleManager newManager newHeap =>
    obtain ⟨clr, hclr⟩ := gcInitialize_eq w.heap clrToGC gcHeap gcHandleManager newManager newHeap
    exact hi.congr ((congrArg Heap.pages hclr).trans rfl)
  | heapInitialize handleManager os => exact hi.heapInitialize handleManager os
  | alloc call => exact hi.congr (alloc_pages w _ _ _)

theorem run {calls : List (HostCall C)} :
    PagesInv ((hostMachine C).run (.start .processStart) calls).heap
      (leakedPages ((hostMachine C).trace (.start .processStart) calls)) := by
  induction calls using List.reverseRecOn with
  | nil => exact (of_none rfl rfl rfl).mpr rfl
  | append_singleton calls call ih =>
    rw [Mealy.run_append, Mealy.trace_snoc, leakedPages_snoc]
    exact ih.step call

end PagesInv

/-- Whatever the host calls and the operating system answers, the mappings held are those that the
pointers name, and those that a failing `Initialize` could not give back. The three pointers are set
together, each to a mapping of its size. Where unmapping succeeds nothing is lost. -/
theorem pages_accounted (calls : List (HostCall C)) :
    let h := ((hostMachine C).run (.start .processStart) calls).heap
    let lost := leakedPages ((hostMachine C).trace (.start .processStart) calls)
    h.held = h.named ++ lost ∧
      (h.heapArena = 0 ∧ h.gcCardTable = 0 ∧ h.gcCardBundleTable = 0 ∨
        h.heapArena ≠ 0 ∧ h.gcCardTable ≠ 0 ∧ h.gcCardBundleTable ≠ 0) ∧
      ((∀ handleManager os, .heapInitialize handleManager os ∈ calls →
        ∀ x ∈ os.obtained, os.unmap x.1 = true) → lost = []) := by
  intro h lost
  have hi : PagesInv h lost := .run
  refine ⟨hi.held, hi.pointers, fun hfree => ?_⟩
  refine List.flatMap_eq_nil_iff.mpr fun x hx => ?_
  obtain ⟨p, hp, -⟩ := (hostMachine C).mem_trace (List.mem_reverse.mp hx)
  have hmem : x.1 ∈ calls := hp.subset (by simp)
  obtain ⟨call, answer⟩ := x
  cases call with
  | gcInitialize => rfl
  | alloc => rfl
  | heapInitialize handleManager os =>
    have hos := hfree handleManager os hmem
    have hnone : os.leaked = [] :=
      List.filter_eq_nil_iff.mpr fun y hy => by simp [hos y hy]
    unfold HostCall.leaked
    split
    · rename_i heq _
      cases heq
      exact hnone
    · rfl

end

end MiniGC
