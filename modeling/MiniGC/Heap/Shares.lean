import MiniGC.Heap.Accounts
import MiniGC.Heap.Protocol
import MiniGC.Heap.Tiled
import Mathlib.Algebra.BigOperators.Group.Finset.Basic

/-!
# MiniGC.Heap.Shares

Where the bytes of the arena are while several threads allocate at the same time.

* `Share`    what the ledger says of one context: its blocks, its gaps, the tails it left, and the
  segment that is carved for it but not entered yet.
* `Shares`   every share adds up, next to the invariant of the threads.
* `alloc_bytes_shared`   so at every moment `alloc_bytes` of all contexts and the segment in flight
  add up to the carved part of the arena.
-/

namespace MiniGC

section

variable {T C : Type} [DecidableEq T] [DecidableEq C]

/-! ## What the ledger says of a context -/

namespace Ledger

def servedBytes (L : Ledger C) (c : C) : Nat :=
  ((L.handed.filter fun x => x.ctx = c).map fun x => x.size.toNat).sum

/-- What the context left of its segments when it switched to another one. -/
def tailBytes (L : Ledger C) (c : C) : Nat :=
  ((L.left.filter fun x => x.1 = c).map fun x =>
    x.2.1.toNat + growthSize.toNat - x.2.2.toNat).sum

def leftCount (L : Ledger C) (c : C) : Nat := L.left.countP fun x => x.1 = c

def carvedCount (L : Ledger C) (c : C) : Nat := L.carved.countP fun x => x.1 = c

theorem servedBytes_append (L L' : Ledger C) (c : C) :
    (L.append L').servedBytes c = L.servedBytes c + L'.servedBytes c := by
  simp [servedBytes, append]

theorem tailBytes_append (L L' : Ledger C) (c : C) :
    (L.append L').tailBytes c = L.tailBytes c + L'.tailBytes c := by
  simp [tailBytes, append]

theorem leftCount_append (L L' : Ledger C) (c : C) :
    (L.append L').leftCount c = L.leftCount c + L'.leftCount c := List.countP_append

theorem carvedCount_append (L L' : Ledger C) (c : C) :
    (L.append L').carvedCount c = L.carvedCount c + L'.carvedCount c := List.countP_append

theorem servedBytes_single {carved : List (C × W)} {left : List (C × W × W)} (x : Handout C)
    (c : C) : servedBytes ⟨carved, [x], left⟩ c = if x.ctx = c then x.size.toNat else 0 := by
  by_cases h : x.ctx = c <;> simp [servedBytes, h]

theorem carvedCount_single {handed : List (Handout C)} {left : List (C × W × W)} (x : C × W)
    (c : C) : carvedCount ⟨[x], handed, left⟩ c = if x.1 = c then 1 else 0 := by
  by_cases h : x.1 = c <;> simp [carvedCount, h]

end Ledger

/-- The thread is inside `StompWriteBarrier`, with a segment for `c`. -/
def ThreadState.telling (c : C) : ThreadState C → Bool
  | .inAlloc c' _ (.stompWriteBarrier _) => c' = c
  | _ => false

/-- How many segments are carved for `c` and not entered: one, or none. -/
def inFlight (owner : C → T) (s : Threads T C) (c : C) : Nat :=
  if (s.thread (owner c)).telling c then 1 else 0

omit [DecidableEq T] in
theorem inFlight_congr {owner : C → T} {s s' : Threads T C} {c : C}
    (h : (s'.thread (owner c)).telling c = (s.thread (owner c)).telling c) :
    inFlight owner s' c = inFlight owner s c := by
  rw [inFlight, h, inFlight]

/-- A thread that has no segment in flight, before and after. -/
theorem inFlight_of_quiet {owner : C → T} {s s' : Threads T C} {t : T}
    (hother : ∀ t' ≠ t, s'.thread t' = s.thread t') (hold : ∀ c, (s.thread t).telling c = false)
    (hnew : ∀ c, (s'.thread t).telling c = false) (c : C) :
    inFlight owner s' c = inFlight owner s c := by
  refine inFlight_congr ?_
  by_cases ht : owner c = t
  · rw [ht, hold, hnew]
  · rw [hother _ ht]

/-- How many segments `c` has entered. -/
def enteredCount (s : Threads T C) (L : Ledger C) (c : C) : Nat :=
  L.leftCount c + if (s.world.ctxs c).allocLimit = 0 then 0 else 1

theorem Threads.enter_left_unused (s : Threads T C) {t : T} {c : C} {size S : W}
    (h : (s.world.ctxs c).allocLimit = 0) : (s.enter t c size S).2.left = [] := by
  rw [Threads.enter]
  exact if_neg (not_not_intro h)

theorem Threads.enter_left_used (s : Threads T C) {t : T} {c : C} {size S : W}
    (h : (s.world.ctxs c).allocLimit ≠ 0) : (s.enter t c size S).2.left =
      [(c, (s.world.ctxs c).allocLimit - growthSize, (s.world.ctxs c).allocPtr)] := by
  rw [Threads.enter]
  exact if_pos h

structure Share (owner : C → T) (s : Threads T C) (L : Ledger C) (c : C) : Prop where
  bytes : (s.world.ctxs c).allocBytes.toNat = enteredCount s L c * growthSize.toNat
  total : L.servedBytes c + beginGap.toNat * enteredCount s L c + L.tailBytes c +
    (s.world.ctxs c).remaining = enteredCount s L c * growthSize.toNat
  carved : L.carvedCount c = enteredCount s L c + inFlight owner s c

structure Shares (owner : C → T) (s : Threads T C) (L : Ledger C) : Prop where
  inv : Inv owner s L
  share : ∀ c, Share owner s L c
  stomps : StompInv s

namespace Share

variable {owner : C → T} {s s' : Threads T C} {L L' : Ledger C} {c : C}

section

omit [DecidableEq T]

/-- A step that does not move the context, and is not about it in the ledger. -/
theorem congr (hs : Share owner s L c) (hctx : s'.world.ctxs c = s.world.ctxs c)
    (hserved : L'.servedBytes c = L.servedBytes c) (htail : L'.tailBytes c = L.tailBytes c)
    (hleft : L'.leftCount c = L.leftCount c)
    (hcarved : L'.carvedCount c + inFlight owner s c = L.carvedCount c + inFlight owner s' c) :
    Share owner s' L' c := by
  have hentered : enteredCount s' L' c = enteredCount s L c := by
    rw [enteredCount, enteredCount, hleft, hctx]
  have hcount := hs.carved
  refine ⟨?_, ?_, ?_⟩
  · rw [hctx, hentered, hs.bytes]
  · rw [hserved, htail, hentered, hctx, hs.total]
  · rw [hentered]
    omega

/-- The block comes out of what is left of the context's segment. -/
theorem handOut (hs : Share owner s L c) {c' : C} {n : W}
    (hn : n ≤ (s.world.ctxs c').allocLimit - (s.world.ctxs c').allocPtr) :
    Share owner (s.handOut c' n).1 (L.append (s.handOut c' n).2) c := by
  have hserved := L.servedBytes_append (s.handOut c' n).2 c
  rw [Threads.handOut, Ledger.servedBytes_single] at hserved
  have htail := (L.tailBytes_append (s.handOut c' n).2 c).trans (Nat.add_zero _)
  have hleft := (L.leftCount_append (s.handOut c' n).2 c).trans (Nat.add_zero _)
  have hcarved := (L.carvedCount_append (s.handOut c' n).2 c).trans (Nat.add_zero _)
  by_cases hcc : c' = c
  · subst hcc
    rw [if_pos rfl] at hserved
    have hentered : enteredCount (s.handOut c' n).1 (L.append (s.handOut c' n).2) c' =
        enteredCount s L c' := by
      rw [enteredCount, enteredCount, hleft, Threads.handOut_ctx_self]
    have hremaining : ((s.handOut c' n).1.world.ctxs c').remaining =
        (s.world.ctxs c').remaining - n.toNat := by
      rw [Threads.handOut_ctx_self]
      show ((s.world.ctxs c').allocLimit - ((s.world.ctxs c').allocPtr + n)).toNat = _
      rw [← BitVec.sub_sub, toNat_sub_of_le hn]
      rfl
    have hle : n.toNat ≤ (s.world.ctxs c').remaining := hn
    have htotal := hs.total
    refine ⟨?_, ?_, ?_⟩
    · rw [hentered, Threads.handOut_ctx_self]
      exact hs.bytes
    · rw [hentered, htail, hremaining]
      dsimp only at hserved
      rw [Threads.handOut, hserved]
      omega
    · rw [hentered, hcarved]
      exact hs.carved
  · rw [if_neg hcc] at hserved
    refine hs.congr (Threads.handOut_ctx_of_ne s n (Ne.symm hcc)) ?_ htail hleft ?_
    · exact hserved
    · rw [hcarved]
      rfl

end

/-- A segment is carved for a context, whose thread goes on to announce it. -/
theorem beginSegment (hs : Share owner s L c) {t : T} {c' : C} {size S : W} {h : Heap}
    (hown : owner c' = t) (hquiet : ∀ c, (s.thread t).telling c = false) :
    Share owner ((s.setHeap h).setThread t (.inAlloc c' size (.stompWriteBarrier S)))
      (L.append ⟨[(c', S)], [], []⟩) c := by
  refine hs.congr rfl ((L.servedBytes_append _ c).trans (Nat.add_zero _))
    ((L.tailBytes_append _ c).trans (Nat.add_zero _))
    ((L.leftCount_append _ c).trans (Nat.add_zero _)) ?_
  rw [Ledger.carvedCount_append, Ledger.carvedCount_single]
  by_cases ht : owner c = t
  · rw [inFlight, inFlight, ht, hquiet, Threads.setThread_thread]
    by_cases hcc : c' = c <;> simp [ThreadState.telling, hcc]
  · have hcc : c' ≠ c := fun he => ht (he ▸ hown)
    rw [if_neg hcc, Nat.add_zero]
    refine congrArg _ (inFlight_congr ?_).symm
    rw [Threads.setThread_of_ne _ _ ht]
    rfl

/-- What the ledger says of the tail that an entering context leaves: as much as remained. -/
theorem enter_tailBytes (hi : Inv owner s L) (t : T) (size S : W) :
    (s.enter t c size S).2.tailBytes c = (s.world.ctxs c).remaining := by
  rcases hi.ctx c with ⟨hptr, hlimit⟩ | ⟨S₀, hmem, hin⟩
  · simp [Ledger.tailBytes, s.enter_left_unused hlimit, GcAllocContext.remaining, hptr, hlimit]
  · have hcurrent : (s.world.ctxs c).allocLimit - growthSize = S₀ :=
      World.Current.limit_sub hin.limit
    rw [Ledger.tailBytes, s.enter_left_used hin.ptr_ne.2, hin.remaining_eq, hcurrent,
      List.filter_singleton, decide_eq_true rfl]
    exact List.sum_singleton

theorem enter_leftCount (s : Threads T C) (t : T) (c : C) (size S : W) :
    (s.enter t c size S).2.leftCount c = if (s.world.ctxs c).allocLimit = 0 then 0 else 1 := by
  split
  · rename_i h
    rw [Ledger.leftCount, s.enter_left_unused h]
    rfl
  · rename_i h
    rw [Ledger.leftCount, s.enter_left_used h]
    simp

/-- The context enters the segment in flight, and leaves its own if it had one. -/
theorem enter_self (hs : Share owner s L c) (hi : Inv owner s L) {t : T} {size S : W}
    (ht : s.thread t = .inAlloc c size (.stompWriteBarrier S)) :
    Share owner (s.enter t c size S).1 (L.append (s.enter t c size S).2) c := by
  obtain ⟨hown, hsize⟩ := hi.flight t c size _ ht
  obtain ⟨hmem, -, -, -⟩ := hi.carving t c size S ht
  have huser := (hi.seg_bounds hmem).2.2
  have hin := enterSegment_in (s.world.ctxs c) hsize huser
  have hptr := enterSegment_ptr (s.world.ctxs c) hsize huser
  have hfit := (sizeRefused_eq_false hsize).2
  have hflight : inFlight owner s c = 1 := by simp [inFlight, hown, ht, ThreadState.telling]
  have hlanded : inFlight owner (s.enter t c size S).1 c = 0 := by
    simp [inFlight, hown, ThreadState.telling]
  have hentered : enteredCount (s.enter t c size S).1 (L.append (s.enter t c size S).2) c =
      enteredCount s L c + 1 := by
    rw [enteredCount, Threads.enter_ctx_self, if_neg hin.ptr_ne.2, Ledger.leftCount_append,
      enter_leftCount, enteredCount]
  -- the count of carved segments bounds what is added to `alloc_bytes`
  have hcount : enteredCount s L c + 1 ≤ arenaSegments := by
    have hlen : L.carved.length ≤ arenaSegments := by
      rw [← List.length_map (f := Prod.snd), hi.carved]
      exact hi.heap.count_le
    have hle : L.carvedCount c ≤ L.carved.length := List.countP_le_length
    rw [hs.carved, hflight] at hle
    exact hle.trans hlen
  rw [arenaSegments_eq] at hcount
  have hbytes := hs.bytes
  have htotal := hs.total
  refine ⟨?_, ?_, ?_⟩
  · rw [hentered, Threads.enter_ctx_self]
    show ((s.world.ctxs c).allocBytes + growthSize).toNat = _
    rw [growthSize_toNat] at hbytes
    rw [toNat_add_of_lt (by rw [hbytes, growthSize_toNat]; omega), hbytes, growthSize_toNat]
    omega
  · have hserved : (s.enter t c size S).2.servedBytes c = size.toNat := by
      rw [Threads.enter, Ledger.servedBytes_single, if_pos rfl]
    rw [hentered, Ledger.servedBytes_append, hserved, Ledger.tailBytes_append,
      enter_tailBytes hi, Threads.enter_ctx_self, hin.remaining_eq, hptr]
    rw [beginGap_toNat] at htotal hfit ⊢
    rw [growthSize_toNat] at htotal hfit ⊢
    omega
  · have hcarved := hs.carved
    rw [hentered, hlanded, Ledger.carvedCount_append]
    show L.carvedCount c + 0 = _
    omega

theorem enter_other (hs : Share owner s L c) {t : T} {c' : C} {size S : W}
    (ht : s.thread t = .inAlloc c' size (.stompWriteBarrier S)) (hcc : c' ≠ c) :
    Share owner (s.enter t c' size S).1 (L.append (s.enter t c' size S).2) c := by
  have hserved : (s.enter t c' size S).2.servedBytes c = 0 := by
    rw [Threads.enter, Ledger.servedBytes_single, if_neg hcc]
  -- what is left is left by the other context
  have hothers : (s.enter t c' size S).2.left.filter (fun x => x.1 = c) = [] := by
    by_cases h : (s.world.ctxs c').allocLimit = 0
    · rw [s.enter_left_unused h, List.filter_nil]
    · rw [s.enter_left_used h, List.filter_singleton, decide_eq_false hcc]
      rfl
  have htail : (s.enter t c' size S).2.tailBytes c = 0 := by
    rw [Ledger.tailBytes, hothers]
    rfl
  have hleft : (s.enter t c' size S).2.leftCount c = 0 := by
    rw [Ledger.leftCount, List.countP_eq_length_filter, hothers]
    rfl
  refine hs.congr (Threads.enter_ctx_of_ne s t size S (Ne.symm hcc)) ?_ ?_ ?_ ?_
  · rw [Ledger.servedBytes_append, hserved, Nat.add_zero]
  · rw [Ledger.tailBytes_append, htail, Nat.add_zero]
  · rw [Ledger.leftCount_append, hleft, Nat.add_zero]
  · rw [Ledger.carvedCount_append]
    show L.carvedCount c + 0 + _ = _
    refine congrArg _ (inFlight_congr ?_).symm
    by_cases htt : owner c = t
    · rw [htt, Threads.enter_thread, ht]
      exact (decide_eq_false hcc).symm
    · exact congrArg _ (Threads.setThread_of_ne _ _ htt)

theorem enter (hs : Share owner s L c) (hi : Inv owner s L) {t : T} {c' : C} {size S : W}
    (ht : s.thread t = .inAlloc c' size (.stompWriteBarrier S)) :
    Share owner (s.enter t c' size S).1 (L.append (s.enter t c' size S).2) c := by
  by_cases hcc : c' = c
  · subst hcc
    exact hs.enter_self hi ht
  · exact hs.enter_other ht hcc

/-- The thread moves between places that have no segment in flight. -/
theorem setThread (hs : Share owner s L c) {t : T} {st : ThreadState C}
    (hold : ∀ c, (s.thread t).telling c = false) (hnew : ∀ c, st.telling c = false) :
    Share owner (s.setThread t st) L c := by
  refine hs.congr rfl rfl rfl rfl (congrArg _ ?_)
  refine (inFlight_of_quiet (fun t' ht' => Threads.setThread_of_ne s st ht') hold ?_ c).symm
  rw [Threads.setThread_thread]
  exact hnew

omit [DecidableEq T] in
theorem setHeap (hs : Share owner s L c) (h : Heap) : Share owner (s.setHeap h) L c :=
  hs.congr rfl rfl rfl rfl rfl

end Share

omit [DecidableEq T] in
theorem AtBoundsCheck.quiet {owner : C → T} {s : Threads T C} {a : Act T C} {t : T} {c : C}
    {size : W} {h : Heap} (hat : AtBoundsCheck owner s a t c size h) (c' : C) :
    (s.thread t).telling c' = false := by
  cases hat with
  | unused ht => rw [ht]; rfl
  | collected ht => rw [ht]; rfl

section

omit [DecidableEq T] [DecidableEq C]

theorem AtBoundsCheck.owner_eq {owner : C → T} {s : Threads T C} {L : Ledger C} {a : Act T C}
    {t : T} {c : C} {size : W} {h : Heap} (hat : AtBoundsCheck owner s a t c size h)
    (hi : Inv owner s L) : owner c = t ∧ sizeRefused size = false := by
  cases hat with
  | unused _ hown hsize => exact ⟨hown, hsize⟩
  | collected ht => exact hi.flight _ _ _ _ ht

theorem AtBoundsCheck.not_stomping {owner : C → T} {s : Threads T C} {a : Act T C} {t : T} {c : C}
    {size : W} {h : Heap} (hat : AtBoundsCheck owner s a t c size h) (c' : C) (size' S : W) :
    s.thread t ≠ .inAlloc c' size' (.stompWriteBarrier S) := by
  intro hs
  cases hat with
  | unused ht => rw [ht] at hs; cases hs
  | collected ht => rw [ht] at hs; cases hs

end

omit [DecidableEq C] in
/-- The segment is carved, and its thread is about to tell the barrier or to enter it. -/
theorem AtBoundsCheck.begun {owner : C → T} {s : Threads T C} {L : Ledger C} {a : Act T C} {t : T}
    {c : C} {size : W} {h : Heap} (hat : AtBoundsCheck owner s a t c size h) (hi : Inv owner s L)
    (count : s.world.heap.segments.length < arenaSegments) :
    Inv owner ((s.setHeap h.grown).setThread t (.inAlloc c size (.stompWriteBarrier h.arenaNext)))
      (L.append ⟨[(c, h.arenaNext)], [], []⟩) := by
  obtain ⟨hown, hsize⟩ := hat.owner_eq hi
  exact (hi.setHeap (hat.heapInv hi.heap) hat.segments).beginSegment hown hsize hat.not_stomping
    (hat.segments ▸ count)

/-- What an action does to the share of any context. -/
theorem ActOutcome.share {owner : C → T} {s : Threads T C} {L : Ledger C} {a : Act T C}
    {r : Threads T C × Ledger C} (ho : ActOutcome owner s a r) (hi : Inv owner s L)
    (hs : ∀ c, Share owner s L c) (c : C) : Share owner r.1 (L.append r.2) c := by
  have hquiet : ∀ {t last}, s.thread t = .managed last → ∀ c, (s.thread t).telling c = false := by
    intro t last ht c
    rw [ht]
    rfl
  cases ho with
  | ignored => simpa using hs c
  | refused ht =>
    rw [Ledger.append_empty]
    exact (hs c).setThread (hquiet ht) fun _ => rfl
  | served ht hown hsize hfits =>
    exact ((hs c).handOut (GcAllocContext.fits_iff.mp hfits).2.2).setThread (hquiet ht)
      fun _ => rfl
  | began ht =>
    rw [Ledger.append_empty]
    exact ((hs c).setHeap _).setThread (hquiet ht) fun _ => rfl
  | scanned ht =>
    rw [Ledger.append_empty]
    refine ((hs c).setHeap _).setThread (fun _ => ?_) fun _ => rfl
    rw [Threads.setHeap_thread, ht]
    rfl
  | restarted ht =>
    rw [Ledger.append_empty]
    refine ((hs c).setHeap _).setThread (fun _ => ?_) fun _ => rfl
    rw [Threads.setHeap_thread, ht]
    rfl
  | full hat =>
    rw [Ledger.append_empty]
    exact ((hs c).setHeap _).setThread hat.quiet fun _ => rfl
  | first hat => exact (hs c).beginSegment (hat.owner_eq hi).1 hat.quiet
  | @carved a t c₀ size h s' hat hne count hs' =>
    have hbegin : Share owner s' (L.append ⟨[(c₀, h.arenaNext)], [], []⟩) c := by
      rw [hs']
      exact (hs c).beginSegment (hat.owner_eq hi).1 hat.quiet
    have ht : s'.thread t = .inAlloc c₀ size (.stompWriteBarrier h.arenaNext) := by
      rw [hs', Threads.setThread_thread]
    rw [← Ledger.append_assoc]
    exact hbegin.enter (hs' ▸ hat.begun hi count) ht
  | entered ht => exact (hs c).enter hi ht
  | bumped ht hown hn => exact (hs c).handOut hn

/-- Counted for one context each, the entries of a list come out again. -/
theorem sum_countP_fst {β : Type} {l : List (C × β)} {X : Finset C} (hX : ∀ x ∈ l, x.1 ∈ X) :
    ∑ c ∈ X, l.countP (fun x => x.1 = c) = l.length := by
  have hcount : ∀ c, l.countP (fun x => x.1 = c) = (l.map Prod.fst : Multiset C).count c := by
    intro c
    rw [Multiset.coe_count, List.count_eq_countP, List.countP_map]
    rfl
  have hmem : ∀ c ∈ (l.map Prod.fst : Multiset C), c ∈ X := by
    intro c hc
    obtain ⟨x, hx, rfl⟩ := List.mem_map.mp (Multiset.mem_coe.mp hc)
    exact hX x hx
  rw [Finset.sum_congr rfl fun c _ => hcount c, Multiset.sum_count_eq_card hmem,
    Multiset.coe_card, List.length_map]

section

omit [DecidableEq T]

/-- Every segment is counted for one context. -/
theorem Inv.sum_carvedCount {owner : C → T} {s : Threads T C} {L : Ledger C} (hi : Inv owner s L)
    {X : Finset C} (hX : ∀ x ∈ L.carved, x.1 ∈ X) :
    ∑ c ∈ X, L.carvedCount c = s.world.heap.segments.length := by
  rw [← hi.carved, List.length_map]
  exact sum_countP_fst hX

theorem inFlight_eq_zero {owner : C → T} {s : Threads T C}
    (hnone : ∀ t, (s.thread t).place ≠ .stomping) (c : C) :
    inFlight owner s c = 0 := by
  refine if_neg fun htelling => ?_
  cases hst : s.thread (owner c) with
  | managed =>
    rw [hst] at htelling
    cases htelling
  | inAlloc c' size stage =>
    cases stage with
    | stompWriteBarrier S =>
      exact hnone _ (ThreadState.place_eq_stomping.mpr ⟨c', size, S, hst⟩)
    | _ =>
      rw [hst] at htelling
      cases htelling

/-- The thread inside `StompWriteBarrier` has the one segment that is in flight. -/
theorem sum_inFlight {owner : C → T} {s : Threads T C} {L : Ledger C} (hi : Inv owner s L)
    (hw : StompInv s) {X : Finset C} (hX : ∀ x ∈ L.carved, x.1 ∈ X) {t : T}
    (ht : (s.thread t).place = .stomping) : ∑ c ∈ X, inFlight owner s c = 1 := by
  obtain ⟨c, size, S, hst⟩ := ThreadState.place_eq_stomping.mp ht
  have hown := (hi.flight t c size _ hst).1
  have hmem := (hi.carving t c size S hst).1
  rw [Finset.sum_eq_single_of_mem c (hX _ hmem) fun c' _ hne => ?_]
  · simp [inFlight, hown, hst, ThreadState.telling]
  · refine if_neg fun htelling => ?_
    have hplace : (s.thread (owner c')).place = .stomping := by
      cases hst' : s.thread (owner c') with
      | managed =>
        rw [hst'] at htelling
        cases htelling
      | inAlloc c'' size' stage =>
        cases stage with
        | stompWriteBarrier S' => rfl
        | _ =>
          rw [hst'] at htelling
          cases htelling
    rw [hw.unique _ _ hplace ht, hst] at htelling
    exact hne (of_decide_eq_true htelling).symm

theorem Fresh.shares {h : Heap} (hf : Fresh h) (owner : C → T) :
    Shares owner (.start h) .empty where
  inv := hf.inv owner
  share c := by
    have hentered : enteredCount (.start h : Threads T C) .empty c = 0 := rfl
    refine ⟨?_, ?_, rfl⟩
    · rw [hentered, Nat.zero_mul]
      rfl
    · rw [hentered]
      simp [Ledger.servedBytes, Ledger.tailBytes, Ledger.empty, Threads.start, World.start,
        GcAllocContext.init, GcAllocContext.remaining]
  stomps := hf.stompInv

end

namespace Shares

variable {owner : C → T} {s : Threads T C} {L : Ledger C}

theorem step (hs : Shares owner s L) (a : Act T C) :
    Shares owner (s.step owner a).1 (L.append (s.step owner a).2) :=
  have ho := act_outcome hs.inv.heap a
  ⟨hs.inv.step a, fun c => ho.share hs.inv hs.share c, hs.stomps.step ho⟩

section

omit [DecidableEq T]

theorem enteredCount_le (hs : Shares owner s L) (c : C) :
    enteredCount s L c ≤ arenaSegments := by
  have hle : L.carvedCount c ≤ L.carved.length := List.countP_le_length
  rw [(hs.share c).carved, ← List.length_map (f := Prod.snd), hs.inv.carved] at hle
  exact (Nat.le_add_right _ _).trans (hle.trans hs.inv.heap.count_le)

theorem sum_allocBytes (hs : Shares owner s L) (X : Finset C) :
    ∑ c ∈ X, (s.world.ctxs c).allocBytes.toInt =
      (∑ c ∈ X, enteredCount s L c : Nat) * growthSize.toInt := by
  have hint : ∀ c, (s.world.ctxs c).allocBytes.toInt = (enteredCount s L c : Int) *
      growthSize.toInt := fun c =>
    (toInt_of_segments (hs.share c).bytes (hs.enteredCount_le c)).trans (Nat.cast_mul _ _)
  rw [Finset.sum_congr rfl fun c _ => hint c, Nat.cast_sum, Finset.sum_mul]

end

end Shares

theorem shares_run (owner : C → T) {h : Heap} (hf : Fresh h) (acts : List (Act T C)) :
    Shares owner ((ledgerMachine owner).run (.start h, .empty) acts).1
      ((ledgerMachine owner).run (.start h, .empty) acts).2 :=
  (ledgerMachine owner).run_inv (P := fun r => Shares owner r.1 r.2)
    (fun _ a hs => hs.step a) (s := (.start h, .empty)) (hf.shares owner) acts

/-- In every order the threads can run in, `alloc_bytes` of all contexts sum up to the carved part
of the arena, less the first segment while its thread is still inside `StompWriteBarrier`. Each
context's `alloc_bytes` are the blocks it was given, by `Alloc` or by itself, a gap for every
segment it entered, the tails it left, and what remains of its segment; they stay below `2^63`. -/
theorem alloc_bytes_shared (owner : C → T) {h : Heap} (hb : Booted h) (acts : List (Act T C)) :
    let r := (ledgerMachine owner).run (.start h, .empty) acts
    let heap := r.1.world.heap
    (∀ X : Finset C, (∀ x ∈ r.2.carved, x.1 ∈ X) →
      ((∀ t, (r.1.thread t).place ≠ .stomping) →
        ∑ c ∈ X, (r.1.world.ctxs c).allocBytes.toInt = (heap.arenaNext - heap.heapArena).toInt) ∧
      ∀ t, (r.1.thread t).place = .stomping →
        ∑ c ∈ X, (r.1.world.ctxs c).allocBytes.toInt + growthSize.toInt =
          (heap.arenaNext - heap.heapArena).toInt) ∧
    ∀ c, (r.1.world.ctxs c).allocBytes.toInt = r.2.servedBytes c +
        beginGap.toNat * enteredCount r.1 r.2 c + r.2.tailBytes c + (r.1.world.ctxs c).remaining ∧
      r.2.carvedCount c = enteredCount r.1 r.2 c + inFlight owner r.1 c ∧
      (r.1.world.ctxs c).allocBytes.toNat < 2 ^ 63 := by
  intro r heap
  have hs : Shares owner r.1 r.2 := shares_run owner hb.fresh acts
  have hcarved : (heap.arenaNext - heap.heapArena).toInt =
      (heap.segments.length : Int) * growthSize.toInt :=
    (toInt_of_segments hs.inv.heap.carved_toNat hs.inv.heap.count_le).trans (Nat.cast_mul _ _)
  refine ⟨fun X hX => ?_, fun c => ?_⟩
  · have hcount : ∑ c ∈ X, enteredCount r.1 r.2 c + ∑ c ∈ X, inFlight owner r.1 c =
        heap.segments.length := by
      rw [← Finset.sum_add_distrib, ← hs.inv.sum_carvedCount hX]
      exact (Finset.sum_congr rfl fun c _ => (hs.share c).carved).symm
    refine ⟨fun hnone => ?_, fun t ht => ?_⟩
    · rw [Finset.sum_eq_zero fun c _ => inFlight_eq_zero hnone c, Nat.add_zero] at hcount
      rw [hs.sum_allocBytes, hcount, hcarved]
    · rw [sum_inFlight hs.inv hs.stomps hX ht] at hcount
      rw [hs.sum_allocBytes, hcarved, ← hcount]
      push_cast
      exact (add_one_mul _ _).symm
  · have hshare := hs.share c
    have hle := hs.enteredCount_le c
    refine ⟨?_, hshare.carved, ?_⟩
    · rw [toInt_of_segments hshare.bytes hle, ← hshare.total]
      push_cast
      rfl
    · rw [hshare.bytes]
      exact segmentBytes_lt hle

/-- One thread is inside `StompWriteBarrier` while the other one has entered a segment. -/
theorem alloc_bytes_in_flight :
    let r := (ledgerMachine id).run (.start (.bootedAt 0x7f0000000000), .empty) (twoThreads.take 2)
    ∑ c ∈ {true, false}, (r.1.world.ctxs c).allocBytes.toInt + 1048576 = 2 * 1048576 := by
  intro r
  have hrun := (alloc_bytes_shared id booted_high (twoThreads.take 2)).1 {true, false}
    (fun x _ => by cases x.1 <;> decide)
  exact (hrun.2 true (by decide)).trans (by decide)

end

end MiniGC
