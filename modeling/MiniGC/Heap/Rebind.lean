import MiniGC.Heap.Restart

/-!
# MiniGC.Heap.Rebind

Several EEs over one process-wide heap.

* `bindingMachine`  the host's calls, next to the globals as they were when the present EE was
  bound.
* `Published`       since then that EE has been told the tables and the bounds that hold now.
* `Stale`           the arena is older than the binding, and its first segment is older too or is
  still to come.
* `informed_iff`    an `Initialize` that returns `S_OK` leaves the barrier published, in every run,
  exactly as long as none is made in a stale state, and an `Alloc` that returns a block does exactly
  as long as none is made for an EE that was bound after the first segment was carved.
-/

namespace MiniGC

section

variable {C : Type} [DecidableEq C]

/-- The call is a `GC_Initialize`; it binds an EE if it returns `S_OK`. -/
def HostCall.binds : HostCall C → Bool
  | .gcInitialize .. => true
  | _ => false

/-- The second component is the heap as the last binding left it. -/
def bindingMachine (C : Type) [DecidableEq C] : Mealy (World C × Heap) (HostCall C) HostAnswer where
  step r call :=
    let r' := (hostMachine C).step r.1 call
    ((r'.1, if call.binds ∧ r'.2 = .code .sOk then r'.1.heap else r.2), r'.2)

/-- Every call made into an EE since the last binding. -/
def sinceBinding (r : World C × Heap) : List Upcall :=
  r.1.heap.upcalls.drop r.2.upcalls.length

/-- The bound EE has been told, since it was bound, what the globals hold. -/
def Published (r : World C × Heap) : Prop :=
  ∃ u ∈ sinceBinding r, u.clr = r.1.heap.gcToCLR ∧ ∃ args, u.stompArgs = some args ∧
    args.cardTable = r.1.heap.gcCardTable ∧ args.cardBundleTable = r.1.heap.gcCardBundleTable ∧
    args.lowestAddress = r.1.heap.gcLowestAddress ∧
    args.highestAddress = r.1.heap.gcHighestAddress

/-- If the call is an `Initialize` and returns `S_OK`, the barrier is published then. -/
def Informed (r : World C × Heap) (call : HostCall C) : Prop :=
  ∀ handleManager os, call = .heapInitialize handleManager os →
    (bindingMachine C).answer r call = .code .sOk → Published ((bindingMachine C).next r call)

/-- There was an arena when the EE was bound, and nothing has been published since. -/
def Stale (r : World C × Heap) : Prop :=
  r.2.heapArena ≠ 0 ∧ (r.2.segments ≠ [] ∨ r.1.heap.segments = [])

/-- The call is an `Initialize` of a heap object with its handle manager, in a stale state. -/
def InitializesStale (r : World C × Heap) (call : HostCall C) : Prop :=
  ∃ handleManager os, call = .heapInitialize handleManager os ∧ handleManager ≠ 0 ∧ Stale r

/-- If the call is an `Alloc` and returns a block, the barrier is published then. -/
def AllocInformed (r : World C × Heap) (call : HostCall C) : Prop :=
  ∀ request, call = .alloc request → (bindingMachine C).answer r call ≠ .pointer 0 →
    Published ((bindingMachine C).next r call)

/-- The call is an `Alloc` that there is room for, in its context or the arena, for an EE that was
bound when a segment was there already. -/
def AllocatesStale (r : World C × Heap) (call : HostCall C) : Prop :=
  ∃ request c, call = .alloc request ∧ request.acontext = some c ∧
    sizeRefused request.size = false ∧
    ((r.1.ctxs c).fits request.size = true ∨ r.1.heap.segments.length < arenaSegments) ∧
    r.2.segments ≠ []

/-! ## How often the barrier has been stomped -/

/-- Once by `Initialize`, and once for the first segment. -/
def StompCount (h : Heap) : Prop :=
  h.stomps.length = if h.heapArena = 0 then 0 else 1 + min h.segments.length 1

theorem Unbooted.stompCount {h : Heap} (hu : Unbooted h) : StompCount h := by
  rw [StompCount, if_pos hu.heapArena, Heap.stomps, hu.upcalls]
  rfl

theorem Fresh.stompCount {h : Heap} (hf : Fresh h) : StompCount h := by
  obtain ⟨clr, hup⟩ := hf.upcalls
  rw [StompCount, if_neg hf.arena_ne, hf.segments, Heap.stomps, hup]
  rfl

theorem Heap.grown_stomps_length {h : Heap} (hi : HeapInv h) :
    h.grown.stomps.length = h.stomps.length + if h.segments = [] then 1 else 0 := by
  unfold Heap.grown publishSegment
  by_cases hfirst : h.carved.isFirstSegment = true
  · rw [if_pos hfirst, if_pos (hi.isFirstSegment_iff.mp hfirst), Heap.stomps_upcall,
      List.length_append]
    rfl
  · rw [if_neg hfirst, if_neg fun h0 => hfirst (hi.isFirstSegment_iff.mpr h0)]
    rfl

theorem AllocOutcome.stompCount {w : World C} (hi : HeapInv w.heap) {call : AllocCall C}
    {r : World C × W} (ho : AllocOutcome w call r) (hs : StompCount w.heap) :
    StompCount r.1.heap := by
  have ha := ho.heapArena
  rw [StompCount, if_neg hi.arena_ne] at hs
  rw [StompCount, ha, if_neg hi.arena_ne]
  cases ho with
  | refused => exact hs
  | served => exact hs
  | full c => rw [w.atBoundsCheck_stomps c, w.atBoundsCheck_segments c, hs]
  | carved c hmiss hcount =>
    rw [World.setCtx_heap, Heap.grown_stomps_length (hi.atBoundsCheck c), Heap.grown_segments,
      w.atBoundsCheck_stomps c, w.atBoundsCheck_segments c, hs, List.length_append]
    cases w.heap.segments with
    | nil => rfl
    | cons S rest => simp

/-! ## What every call keeps -/

structure BindInv (r : World C × Heap) : Prop where
  older : r.2.upcalls <+: r.1.heap.upcalls
  toBound : ∀ u ∈ sinceBinding r, u.clr = r.1.heap.gcToCLR
  segments : r.2.segments <+: r.1.heap.segments
  arena : r.2.heapArena ≠ 0 → r.1.heap.heapArena ≠ 0
  boundArena : r.2.segments ≠ [] → r.2.heapArena ≠ 0
  count : StompCount r.1.heap
  boundCount : StompCount r.2
  bound_ne : r.1.heap.heapArena ≠ 0 → r.1.heap.gcToCLR ≠ 0
  booted : (Unbooted r.1.heap ∧ ∀ c, (r.1.ctxs c).allocPtr = 0 ∧ (r.1.ctxs c).allocLimit = 0) ∨
    CallInv r.1

section

omit [DecidableEq C]

/-- Before there is an arena, the bound EE found none and no segment. -/
theorem BindInv.bound_unbooted {r : World C × Heap} (hi : BindInv r) (hu : Unbooted r.1.heap) :
    r.2.heapArena = 0 ∧ r.2.segments = [] := by
  constructor
  · by_contra hne
    exact hi.arena hne hu.heapArena
  · exact List.prefix_nil.mp (hu.segments ▸ hi.segments)

theorem BindInv.upcalls_eq {r : World C × Heap} (hi : BindInv r) :
    r.1.heap.upcalls = r.2.upcalls ++ sinceBinding r := by
  obtain ⟨more, hmore⟩ := hi.older
  rw [sinceBinding, ← hmore, List.drop_left]

/-- What has been published since the binding holds now, and it has been published unless the
state is stale. -/
theorem BindInv.published_iff {r : World C × Heap} (hi : BindInv r) (hh : HeapInv r.1.heap) :
    Published r ↔ ¬ Stale r := by
  have hstomps : r.1.heap.stomps =
      r.2.stomps ++ (sinceBinding r).filterMap Upcall.stompArgs := by
    rw [Heap.stomps, hi.upcalls_eq, List.filterMap_append, Heap.stomps]
  have hstale : (sinceBinding r).filterMap Upcall.stompArgs = [] ↔ Stale r := by
    have hcount := hi.count
    have hbound := hi.boundCount
    have hseg := hi.segments.length_le
    rw [StompCount, if_neg hh.arena_ne, hstomps, List.length_append] at hcount
    rw [StompCount] at hbound
    rw [← List.length_eq_zero_iff, Stale, ne_eq r.2.segments, ← List.length_eq_zero_iff,
      ← List.length_eq_zero_iff]
    by_cases hb : r.2.heapArena = 0
    · rw [if_pos hb] at hbound
      exact iff_of_false (by omega) (fun h => h.1 hb)
    · rw [if_neg hb] at hbound
      rw [and_iff_right hb]
      omega
  rw [← hstale]
  constructor
  · rintro ⟨u, hu, -, args, hargs, -⟩ hnil
    have hmem : args ∈ (sinceBinding r).filterMap Upcall.stompArgs :=
      List.mem_filterMap.mpr ⟨u, hu, hargs⟩
    rw [hnil] at hmem
    cases hmem
  · intro hne
    obtain ⟨args, hlast, hlow, hhigh⟩ := hh.barrier.bounds
    rw [hstomps, List.getLast?_append_of_ne_nil _ hne] at hlast
    have hmem := List.mem_of_getLast? hlast
    obtain ⟨u, hu, hargs⟩ := List.mem_filterMap.mp hmem
    have htables := hh.barrier.tables args (hstomps ▸ List.mem_append_right _ hmem)
    exact ⟨u, hu, hi.toBound u hu, args, hargs, htables.1, htables.2, hlow, hhigh⟩

end

/-! ## One call -/

/-- `GC_Initialize` binds an EE, or reports an error and changes nothing. -/
theorem gcInitialize_cases (h : Heap) (clrToGC gcHeap gcHandleManager : W)
    (newManager newHeap : Option W) :
    let r := gcInitialize h clrToGC gcHeap gcHandleManager newManager newHeap
    (r.2.1 ≠ .sOk ∧ r.1 = h) ∨
      (r.2.1 = .sOk ∧ clrToGC ≠ 0 ∧ r.1 = { h with gcToCLR := clrToGC }) := by
  intro r
  by_cases hnull : gcHeap = 0 ∨ gcHandleManager = 0 ∨ clrToGC = 0
  · left
    rw [show r = (h, .eInvalidArg, 0) from if_pos hnull]
    exact ⟨HResult.noConfusion, rfl⟩
  · have hr : r = _ := if_neg hnull
    have hclr : clrToGC ≠ 0 := fun h0 => hnull (.inr (.inr h0))
    cases newManager with
    | none => exact .inl (by rw [hr]; exact ⟨HResult.noConfusion, rfl⟩)
    | some handleManager =>
      cases newHeap with
      | none => exact .inl (by rw [hr]; exact ⟨HResult.noConfusion, rfl⟩)
      | some heap => exact .inr (by rw [hr]; exact ⟨rfl, hclr, rfl⟩)

/-- `Initialize` calls only the EE that is bound, and binds none. -/
theorem heapInitialize_upcalls (h : Heap) (handleManager : W) (os : Os) :
    let h' := (heapInitialize h handleManager os).1
    h'.gcToCLR = h.gcToCLR ∧
      ∃ more, h'.upcalls = h.upcalls ++ more ∧ ∀ u ∈ more, u.clr = h.gcToCLR := by
  have hsame : ∃ more, h.upcalls = h.upcalls ++ more ∧ ∀ u ∈ more, u.clr = h.gcToCLR :=
    ⟨[], (List.append_nil _).symm, fun u hu => by cases hu⟩
  simp only [heapInitialize]
  split
  · exact ⟨rfl, hsame⟩
  split
  · exact ⟨rfl, hsame⟩
  split
  · exact ⟨rfl, hsame⟩
  split
  · exact ⟨rfl, hsame⟩
  split
  · exact ⟨rfl, hsame⟩
  · refine ⟨rfl, _, rfl, fun u hu => ?_⟩
    rw [List.mem_singleton.mp hu]

/-- The arena is there only once an EE has been bound. -/
theorem heapInitialize_ne {h : Heap} {handleManager : W} {os : Os}
    (hok : (heapInitialize h handleManager os).2 = .sOk) : h.gcToCLR ≠ 0 := by
  intro h0
  rw [heapInitialize, if_pos (.inl h0)] at hok
  cases hok

/-- Over an arena that is there, `Initialize` only looks at its handle manager. -/
theorem heapInitialize_ok_iff {h : Heap} (hclr : h.gcToCLR ≠ 0) (harena : h.heapArena ≠ 0)
    {handleManager : W} {os : Os} :
    (heapInitialize h handleManager os).2 = .sOk ↔ handleManager ≠ 0 := by
  by_cases hm : handleManager = 0
  · rw [heapInitialize, if_pos (.inr hm)]
    exact iff_of_false HResult.noConfusion (fun h => h hm)
  · rw [heapInitialize, if_neg (not_or.mpr ⟨hclr, hm⟩), if_pos harena]
    exact iff_of_true rfl hm

omit [DecidableEq C] in
/-- A call that binds no EE adds to the calls made since the binding. -/
theorem BindInv.extend {r : World C × Heap} (hi : BindInv r) {w : World C}
    (hclr : w.heap.gcToCLR = r.1.heap.gcToCLR)
    (hup : ∃ more, w.heap.upcalls = r.1.heap.upcalls ++ more ∧
      ∀ u ∈ more, u.clr = r.1.heap.gcToCLR) :
    r.2.upcalls <+: w.heap.upcalls ∧ ∀ u ∈ sinceBinding (w, r.2), u.clr = w.heap.gcToCLR := by
  obtain ⟨more, hmore, hall⟩ := hup
  have heq : w.heap.upcalls = r.2.upcalls ++ (sinceBinding r ++ more) := by
    rw [hmore, hi.upcalls_eq, List.append_assoc]
  refine ⟨heq ▸ List.prefix_append _ _, fun u hu => ?_⟩
  rw [sinceBinding, heq, List.drop_left] at hu
  rw [hclr]
  rcases List.mem_append.mp hu with hu | hu
  · exact hi.toBound u hu
  · exact hall u hu

theorem BindInv.gcInitialize {r : World C × Heap} (hi : BindInv r)
    (clrToGC gcHeap gcHandleManager : W) (newManager newHeap : Option W) :
    BindInv ((bindingMachine C).next r
      (.gcInitialize clrToGC gcHeap gcHandleManager newManager newHeap)) := by
  rcases gcInitialize_cases r.1.heap clrToGC gcHeap gcHandleManager newManager newHeap with
    ⟨hcode, he⟩ | ⟨hcode, hclr, he⟩
  · have hnext : (bindingMachine C).next r
        (.gcInitialize clrToGC gcHeap gcHandleManager newManager newHeap) = r := by
      simp only [Mealy.next, bindingMachine, hostMachine, he, HostAnswer.code.injEq, hcode,
        and_false, if_false]
    rw [hnext]
    exact hi
  · have hnext : (bindingMachine C).next r
        (.gcInitialize clrToGC gcHeap gcHandleManager newManager newHeap) =
        ({ r.1 with heap := { r.1.heap with gcToCLR := clrToGC } },
          { r.1.heap with gcToCLR := clrToGC }) := by
      simp only [Mealy.next, bindingMachine, hostMachine, he, hcode, HostCall.binds, and_self,
        if_true]
    rw [hnext]
    refine ⟨List.prefix_refl _, fun u hu => ?_, List.prefix_refl _, id, fun hne => ?_, hi.count,
      hi.count, fun _ => hclr, ?_⟩
    · rw [sinceBinding, List.drop_length] at hu
      cases hu
    · rcases hi.booted with ⟨hu, -⟩ | hc
      · exact absurd hu.segments hne
      · exact hc.heap.arena_ne
    · rcases hi.booted with ⟨hu, hunused⟩ | hc
      · exact .inl ⟨{ hu with }, hunused⟩
      · exact .inr ⟨{ hc.heap with barrier := { hc.heap.barrier with } }, hc.ctx, hc.idle⟩

theorem BindInv.heapInitialize {r : World C × Heap} (hi : BindInv r) (handleManager : W) (os : Os) :
    BindInv ((bindingMachine C).next r (.heapInitialize handleManager os)) := by
  show BindInv ({ r.1 with heap := (MiniGC.heapInitialize r.1.heap handleManager os).1 }, r.2)
  have hup := heapInitialize_upcalls r.1.heap handleManager os
  obtain ⟨holder, hto⟩ := hi.extend (w := { r.1 with
    heap := (MiniGC.heapInitialize r.1.heap handleManager os).1 }) hup.1 hup.2
  rcases hi.booted with ⟨hu, hunused⟩ | hc
  · obtain ⟨hb, hnil⟩ := hi.bound_unbooted hu
    rcases heapInitialize_unbooted hu handleManager os with ⟨hok, hf⟩ | ⟨-, hu'⟩
    · refine ⟨holder, hto, ?_, fun hne => absurd hb hne, hi.boundArena, hf.stompCount,
        hi.boundCount, fun _ => ?_, .inr ⟨hf.heapInv, fun c => .inl (hunused c), hf.gcInProgress⟩⟩
      · rw [hnil]
        exact List.nil_prefix
      · show (MiniGC.heapInitialize r.1.heap handleManager os).1.gcToCLR ≠ 0
        rw [hup.1]
        exact heapInitialize_ne hok
    · refine ⟨holder, hto, ?_, fun hne => absurd hb hne, hi.boundArena, hu'.stompCount,
        hi.boundCount, fun hne => absurd hu'.heapArena hne, .inl ⟨hu', hunused⟩⟩
      rw [hnil]
      exact List.nil_prefix
  · rw [heapInitialize_of_arena hc.heap.arena_ne]
    exact hi

theorem BindInv.alloc {r : World C × Heap} (hi : BindInv r) (call : AllocCall C) :
    BindInv ((bindingMachine C).next r (.alloc call)) := by
  show BindInv ((MiniGC.alloc r.1 call.acontext call.size call.flags).1, r.2)
  rcases hi.booted with ⟨hu, hunused⟩ | hc
  · rw [alloc_without_arena hu.heapArena hunused call]
    exact hi
  · have ho := alloc_outcome hc.heap call
    have hk := ho.setupKept
    obtain ⟨more, hmore, hall⟩ := hk.upcalls
    obtain ⟨holder, hto⟩ := hi.extend hk.gcToCLR ⟨more, hmore, fun u hu => (hall u hu).1⟩
    refine ⟨holder, hto, hi.segments.trans ho.segments_prefix, fun hne => ?_, hi.boundArena,
      ho.stompCount hc.heap hi.count, hi.boundCount, fun _ => ?_, .inr (hc.outcome ho)⟩
    · rw [hk.heapArena]
      exact hi.arena hne
    · rw [hk.gcToCLR]
      exact hi.bound_ne hc.heap.arena_ne

theorem BindInv.step (r : World C × Heap) (call : HostCall C) (hi : BindInv r) :
    BindInv ((bindingMachine C).next r call) := by
  cases call with
  | gcInitialize clrToGC gcHeap gcHandleManager newManager newHeap =>
    exact hi.gcInitialize clrToGC gcHeap gcHandleManager newManager newHeap
  | heapInitialize handleManager os => exact hi.heapInitialize handleManager os
  | alloc call => exact hi.alloc call

omit [DecidableEq C] in
theorem bindInv_start : BindInv (World.start .processStart, (.processStart : Heap)) (C := C) where
  older := List.prefix_refl _
  toBound := fun u hu => by cases hu
  segments := List.prefix_refl _
  arena := id
  boundArena := fun hne => absurd rfl hne
  count := rfl
  boundCount := rfl
  bound_ne := fun hne => absurd rfl hne
  booted := .inl ⟨⟨rfl, rfl, rfl, rfl⟩, fun _ => ⟨rfl, rfl⟩⟩

theorem BindInv.tells_iff {r : World C × Heap} (hi : BindInv r) (call : HostCall C) :
    Informed r call ↔ ¬ InitializesStale r call := by
  have hnot : (∀ handleManager os, call ≠ .heapInitialize handleManager os) →
      (Informed r call ↔ ¬ InitializesStale r call) := by
    intro hne
    refine iff_of_true (fun _ _ hcall => absurd hcall (hne _ _)) ?_
    rintro ⟨_, _, hcall, -⟩
    exact hne _ _ hcall
  cases call with
  | gcInitialize => exact hnot fun _ _ hcall => by cases hcall
  | alloc => exact hnot fun _ _ hcall => by cases hcall
  | heapInitialize handleManager os =>
    have hi' := hi.heapInitialize handleManager os
    have hstale : InitializesStale r (.heapInitialize handleManager os) ↔
        handleManager ≠ 0 ∧ Stale r := by
      constructor
      · rintro ⟨_, _, hcall, h⟩
        cases hcall
        exact h
      · exact fun h => ⟨_, _, rfl, h⟩
    rw [hstale]
    rcases hi.booted with ⟨hu, hunused⟩ | hc
    · have hb := (hi.bound_unbooted hu).1
      refine iff_of_true (fun _ _ hcall hok => ?_) (fun h => h.2.1 hb)
      cases hcall
      rcases heapInitialize_unbooted hu handleManager os with ⟨-, hf⟩ | ⟨hne, -⟩
      · exact (hi'.published_iff hf.heapInv).mpr fun h => h.1 hb
      · exact absurd (HostAnswer.code.inj hok) hne
    · have hnext : (bindingMachine C).next r (.heapInitialize handleManager os) = r := by
        show ({ r.1 with heap := (MiniGC.heapInitialize r.1.heap handleManager os).1 }, r.2) = r
        rw [heapInitialize_of_arena hc.heap.arena_ne]
      have hok : (bindingMachine C).answer r (.heapInitialize handleManager os) = .code .sOk ↔
          handleManager ≠ 0 :=
        (HostAnswer.code.injEq _ _).to_iff.trans
          (heapInitialize_ok_iff (hi.bound_ne hc.heap.arena_ne) hc.heap.arena_ne)
      rw [not_and, ← hi.published_iff hc.heap, ← hok]
      constructor
      · intro h hcode
        exact hnext ▸ h _ _ rfl hcode
      · intro h _ _ hcall hcode
        cases hcall
        rw [hnext]
        exact h hcode

/-! ## Blocks for an EE -/

/-- A call of `Alloc` returns a block exactly if the request is admissible, and its context or the
arena has room for it. There is a segment then. -/
theorem AllocOutcome.block_iff {w : World C} (hi : CallInv w) {call : AllocCall C}
    {r : World C × W} (ho : AllocOutcome w call r) :
    (r.2 ≠ 0 ↔ ∃ c, call.acontext = some c ∧ sizeRefused call.size = false ∧
      ((w.ctxs c).fits call.size = true ∨ w.heap.segments.length < arenaSegments)) ∧
    (r.2 ≠ 0 → r.1.heap.segments ≠ []) := by
  cases ho with
  | refused h =>
    refine ⟨iff_of_false (fun hne => hne rfl) ?_, fun hne => absurd rfl hne⟩
    rintro ⟨c, hc, hsize, -⟩
    exact AllocCall.not_refused hc hsize h
  | served c hc hsize hfits =>
    refine ⟨iff_of_true (GcAllocContext.fits_iff.mp hfits).1 ⟨c, hc, hsize, .inl hfits⟩,
      fun _ => ?_⟩
    obtain ⟨S, hS, -⟩ := hi.served_in hfits
    exact List.ne_nil_of_mem hS
  | full c hmiss hcount =>
    refine ⟨iff_of_false (fun hne => hne rfl) ?_, fun hne => absurd rfl hne⟩
    rintro ⟨c', hc, -, hfits | hlt⟩
    · rw [hmiss.acontext, Option.some.injEq] at hc
      rw [← hc, hmiss.fits] at hfits
      cases hfits
    · omega
  | carved c hmiss hcount =>
    refine ⟨iff_of_true (hi.arenaNext_gap hcount).2
      ⟨c, hmiss.acontext, hmiss.size, .inr hcount⟩, fun _ => ?_⟩
    rw [World.setCtx_heap, Heap.grown_segments]
    exact List.append_ne_nil_of_right_ne_nil _ (List.cons_ne_nil _ _)

theorem BindInv.allocates_iff {r : World C × Heap} (hi : BindInv r) (call : HostCall C) :
    AllocInformed r call ↔ ¬ AllocatesStale r call := by
  have hnot : (∀ request, call ≠ .alloc request) →
      (AllocInformed r call ↔ ¬ AllocatesStale r call) := by
    intro hne
    refine iff_of_true (fun _ hcall => absurd hcall (hne _)) ?_
    rintro ⟨_, _, hcall, -⟩
    exact hne _ hcall
  cases call with
  | gcInitialize => exact hnot fun _ hcall => by cases hcall
  | heapInitialize => exact hnot fun _ hcall => by cases hcall
  | alloc request =>
    rcases hi.booted with ⟨hu, hunused⟩ | hc
    · have hnull : (bindingMachine C).answer r (.alloc request) = .pointer 0 := by
        show HostAnswer.pointer (MiniGC.alloc r.1 _ _ _).2 = _
        rw [alloc_without_arena hu.heapArena hunused request]
      refine iff_of_true (fun _ _ hne => absurd hnull hne) ?_
      rintro ⟨_, _, -, -, -, -, hbound⟩
      exact hbound (hi.bound_unbooted hu).2
    · have ho := alloc_outcome hc.heap request
      obtain ⟨hblock, hsegment⟩ := ho.block_iff hc
      have hpublished := (hi.alloc request).published_iff (hc.outcome ho).heap
      have hstale : AllocatesStale r (.alloc request) ↔
          (MiniGC.alloc r.1 request.acontext request.size request.flags).2 ≠ 0 ∧
            r.2.segments ≠ [] := by
        rw [hblock]
        constructor
        · rintro ⟨_, c, hcall, hctx, hsize, hroom, hbound⟩
          cases hcall
          exact ⟨⟨c, hctx, hsize, hroom⟩, hbound⟩
        · rintro ⟨⟨c, hctx, hsize, hroom⟩, hbound⟩
          exact ⟨_, c, rfl, hctx, hsize, hroom, hbound⟩
      rw [hstale, not_and]
      constructor
      · intro h hne hbound
        have hanswer : (bindingMachine C).answer r (.alloc request) ≠ .pointer 0 :=
          fun h0 => hne (HostAnswer.pointer.inj h0)
        exact hpublished.mp (h _ rfl hanswer) ⟨hi.boundArena hbound, .inl hbound⟩
      · intro h _ hcall hanswer
        cases hcall
        have hne : (MiniGC.alloc r.1 request.acontext request.size request.flags).2 ≠ 0 :=
          fun h0 => hanswer (congrArg HostAnswer.pointer h0)
        refine hpublished.mpr ?_
        rintro ⟨-, hbound | hnil⟩
        · exact h hne hbound
        · exact hsegment hne hnil

/-- In a run of the host's calls from the start of the process, every `Initialize` that returns
`S_OK` leaves the bound EE told of the present tables and bounds, exactly as long as no `Initialize`
is made while the arena is older than the binding, with no first segment carved since. Every `Alloc`
that returns a block does, exactly as long as none is made with room left for an EE that was bound
when there was a segment already. -/
theorem informed_iff (ops : List (HostCall C)) :
    ((bindingMachine C).EachStep Informed (.start .processStart, .processStart) ops ↔
      (bindingMachine C).EachStep (fun r call => ¬ InitializesStale r call)
        (.start .processStart, .processStart) ops) ∧
    ((bindingMachine C).EachStep AllocInformed (.start .processStart, .processStart) ops ↔
      (bindingMachine C).EachStep (fun r call => ¬ AllocatesStale r call)
        (.start .processStart, .processStart) ops) :=
  ⟨Mealy.eachStep_iff _ (fun _ call hi => hi.tells_iff call)
      (fun r call hi _ => BindInv.step r call hi) bindInv_start,
    Mealy.eachStep_iff _ (fun _ call hi => hi.allocates_iff call)
      (fun r call hi _ => BindInv.step r call hi) bindInv_start⟩

/-- A host that initialises the heap, and a second one that binds its EE behind the calls `between`.
-/
def secondHost (between : List (HostCall Bool)) : List (HostCall Bool) :=
  [.gcInitialize 0x1000 1 1 (some 0x2000) (some 0x3000),
    .heapInitialize 0x2000 (.arenaAt 0x7f0000000000)] ++ between ++
    [.gcInitialize 0x9000 1 1 (some 0x4000) (some 0x5000)]

/-- The second host's `Initialize` returns `S_OK`, and its EE is told nothing. If the first host has
allocated, the second one's `Alloc` returns a block, and its EE is told nothing either. -/
theorem second_host_not_informed :
    ¬ (bindingMachine Bool).EachStep Informed (.start .processStart, .processStart)
        (secondHost [] ++ [.heapInitialize 0x4000 (.arenaAt 0x7f0000000000)]) ∧
      ¬ (bindingMachine Bool).EachStep AllocInformed (.start .processStart, .processStart)
        (secondHost [.alloc ⟨some true, 24, 0⟩] ++ [.alloc ⟨some true, 24, 0⟩]) := by
  constructor
  · intro hall
    obtain ⟨u, hu, -⟩ := hall (secondHost []) _ (List.prefix_refl _) _ _ rfl (by decide)
    have hnil : sinceBinding ((bindingMachine Bool).next
        ((bindingMachine Bool).run (.start .processStart, .processStart) (secondHost []))
        (.heapInitialize 0x4000 (.arenaAt 0x7f0000000000))) = [] := by decide
    rw [hnil] at hu
    cases hu
  · intro hall
    obtain ⟨u, hu, -⟩ := hall (secondHost [.alloc ⟨some true, 24, 0⟩]) _ (List.prefix_refl _) _
      rfl (by decide)
    have hnil : sinceBinding ((bindingMachine Bool).next
        ((bindingMachine Bool).run (.start .processStart, .processStart)
          (secondHost [.alloc ⟨some true, 24, 0⟩])) (.alloc ⟨some true, 24, 0⟩)) = [] := by decide
    rw [hnil] at hu
    cases hu

end

end MiniGC
