import MiniGC.Heap.Demand
import Mathlib.Algebra.BigOperators.Ring.Finset

/-!
# MiniGC.Heap.Accounts

Where the bytes of the arena are.

* `Account`     what the calls of a context did for it: the blocks it was given, the segments it
  acquired, the tails it left behind. A call that fails enters nothing.
* `Balanced`    the account adds up to `alloc_bytes`.
* `Accounted`   every account is balanced, and together they hold every carved segment.
* `alloc_bytes_conserved`   so `alloc_bytes` of all contexts sum up to the carved part of the arena.
-/

namespace MiniGC

/-! ## The accounts -/

structure Account where
  /-- The sizes of the blocks the context was given, oldest first. -/
  served : List W
  /-- How many segments it has acquired. -/
  acquired : Nat
  /-- What was left of a segment when it switched to another one, next to the request that did not
  fit there. -/
  tails : List (W × W)
  deriving DecidableEq

namespace Account

def empty : Account := ⟨[], 0, []⟩

def servedBytes (a : Account) : Nat := (a.served.map BitVec.toNat).sum

def gapBytes (a : Account) : Nat := beginGap.toNat * a.acquired

def tailBytes (a : Account) : Nat := (a.tails.map fun t => t.1.toNat).sum

/-- A block served from the context's segment. -/
def serve (a : Account) (size : W) : Account := { a with served := a.served ++ [size] }

/-- A block at the start of a new segment, for a context that was at `ctx`. -/
def acquire (a : Account) (ctx : GcAllocContext) (size : W) : Account where
  served := a.served ++ [size]
  acquired := a.acquired + 1
  tails :=
    if ctx.allocLimit = 0 then a.tails
    else a.tails ++ [(ctx.allocLimit - ctx.allocPtr, size)]

/-- A call of a context at `ctx`; `carved` says whether the segment table has grown. -/
def record (a : Account) (ctx : GcAllocContext) (carved : Bool) (size result : W) : Account :=
  if result = 0 then a
  else if carved then a.acquire ctx size
  else a.serve size

@[simp] theorem serve_servedBytes (a : Account) (size : W) :
    (a.serve size).servedBytes = a.servedBytes + size.toNat := by
  simp [serve, servedBytes]

@[simp] theorem serve_gapBytes (a : Account) (size : W) : (a.serve size).gapBytes = a.gapBytes :=
  rfl

@[simp] theorem serve_tailBytes (a : Account) (size : W) :
    (a.serve size).tailBytes = a.tailBytes := rfl

@[simp] theorem serve_acquired (a : Account) (size : W) : (a.serve size).acquired = a.acquired :=
  rfl

@[simp] theorem acquire_servedBytes (a : Account) (ctx : GcAllocContext) (size : W) :
    (a.acquire ctx size).servedBytes = a.servedBytes + size.toNat := by
  simp [acquire, servedBytes]

@[simp] theorem acquire_gapBytes (a : Account) (ctx : GcAllocContext) (size : W) :
    (a.acquire ctx size).gapBytes = a.gapBytes + beginGap.toNat := rfl

@[simp] theorem acquire_acquired (a : Account) (ctx : GcAllocContext) (size : W) :
    (a.acquire ctx size).acquired = a.acquired + 1 := rfl

/-- A context that is not in use leaves no tail. -/
theorem acquire_tailBytes (a : Account) {ctx : GcAllocContext}
    (hunused : ctx.allocLimit = 0 → ctx.allocPtr = 0) (size : W) :
    (a.acquire ctx size).tailBytes = a.tailBytes + (ctx.allocLimit - ctx.allocPtr).toNat := by
  unfold acquire tailBytes
  split
  · rename_i hlimit
    simp [hlimit, hunused hlimit]
  · simp

theorem mem_acquire_tails {a : Account} {ctx : GcAllocContext} {size : W} {t : W × W}
    (ht : t ∈ (a.acquire ctx size).tails) :
    t ∈ a.tails ∨ t = (ctx.allocLimit - ctx.allocPtr, size) := by
  simp only [acquire] at ht
  split at ht
  · exact .inl ht
  · simpa using ht

end Account

section

variable {C : Type} [DecidableEq C]

def recordAccount (accounts : C → Account) (w w' : World C) (call : AllocCall C) (result : W) :
    C → Account :=
  match call.acontext with
  | none => accounts
  | some c =>
    let carved := decide (w.heap.segmentsCount < w'.heap.segmentsCount)
    Function.update accounts c ((accounts c).record (w.ctxs c) carved call.size result)

/-- Whole calls of `Alloc`, next to the accounts of the contexts. -/
def accountMachine (C : Type) [DecidableEq C] :
    Mealy (World C × (C → Account)) (AllocCall C) W where
  step r call :=
    let r' := alloc r.1 call.acontext call.size call.flags
    ((r'.1, recordAccount r.2 r.1 r'.1 call r'.2), r'.2)

/-! ## One account -/

/-- What is left of the context's segment. -/
def GcAllocContext.remaining (ctx : GcAllocContext) : Nat := (ctx.allocLimit - ctx.allocPtr).toNat

structure Balanced (ctx : GcAllocContext) (a : Account) : Prop where
  bytes : ctx.allocBytes.toNat = a.acquired * growthSize.toNat
  total : a.servedBytes + a.gapBytes + a.tailBytes + ctx.remaining =
    a.acquired * growthSize.toNat
  tails : ∀ t ∈ a.tails, t.1 < t.2

theorem balanced_init : Balanced .init .empty where
  bytes := rfl
  total := rfl
  tails t ht := by cases ht

theorem GcAllocContext.In.remaining_eq {ctx : GcAllocContext} {S : W} (hin : ctx.In S) :
    ctx.remaining = S.toNat + growthSize.toNat - ctx.allocPtr.toNat := by
  have hle := hin.le_limit
  rw [GcAllocContext.remaining, toNat_sub_of_le (by rw [hin.limit]; exact hle), hin.limit]

/-- A block served from the segment comes out of what is left of it. -/
theorem Balanced.serve {ctx : GcAllocContext} {a : Account} (hb : Balanced ctx a) {S size : W}
    (hin : ctx.In S) (huser : S.toNat + growthSize.toNat ≤ 2 ^ 63)
    (hle : size ≤ ctx.allocLimit - ctx.allocPtr) :
    Balanced { ctx with allocPtr := ctx.allocPtr + size } (a.serve size) := by
  refine ⟨hb.bytes, ?_, hb.tails⟩
  have htotal := hb.total
  have hbump := hin.bump_toNat huser hle
  have hroom := hin.room hle
  rw [hin.remaining_eq] at htotal
  rw [(hin.bump huser hle).remaining_eq, hbump]
  simp only [Account.serve_servedBytes, Account.serve_gapBytes, Account.serve_tailBytes,
    Account.serve_acquired]
  omega

/-- The tail of the old segment is entered, and the new one starts with its gap and the block. -/
theorem Balanced.acquire {ctx : GcAllocContext} {a : Account} (hb : Balanced ctx a) {S size : W}
    (hroom : (a.acquired + 1) * growthSize.toNat < 2 ^ 64) (hsize : sizeRefused size = false)
    (huser : S.toNat + growthSize.toNat ≤ 2 ^ 63)
    (hunused : ctx.allocLimit = 0 → ctx.allocPtr = 0)
    (hmiss : ctx.allocLimit - ctx.allocPtr < size) :
    Balanced (enterSegment ctx S size) (a.acquire ctx size) := by
  have hbytes := hb.bytes
  have htotal := hb.total
  have hfit := (sizeRefused_eq_false hsize).2
  have hptr := enterSegment_ptr ctx hsize huser
  have hremaining := (enterSegment_in ctx hsize huser).remaining_eq
  refine ⟨?_, ?_, fun t ht => ?_⟩
  · show (ctx.allocBytes + growthSize).toNat = (a.acquired + 1) * growthSize.toNat
    rw [toNat_add_of_lt (by rw [hbytes, ← Nat.succ_mul]; exact hroom), hbytes, Nat.succ_mul]
  · simp only [Account.acquire_servedBytes, Account.acquire_gapBytes, Account.acquire_acquired,
      a.acquire_tailBytes hunused, hremaining, hptr, Nat.succ_mul]
    rw [GcAllocContext.remaining] at htotal
    omega
  · rcases Account.mem_acquire_tails ht with ht | rfl
    · exact hb.tails t ht
    · exact hmiss

/-! ## All accounts -/

structure Accounted (X : Finset C) (r : World C × (C → Account)) : Prop where
  calls : CallInv r.1
  balanced : ∀ c, Balanced (r.1.ctxs c) (r.2 c)
  segments : ∑ c ∈ X, (r.2 c).acquired = r.1.heap.segments.length

omit [DecidableEq C] in
theorem Accounted.acquired_le {X : Finset C} {r : World C × (C → Account)} (hr : Accounted X r)
    {c : C} (hc : c ∈ X) : (r.2 c).acquired ≤ r.1.heap.segments.length := by
  rw [← hr.segments]
  exact Finset.single_le_sum (f := fun c => (r.2 c).acquired) (fun _ _ => Nat.zero_le _) hc

/-- A step that moves one context and its account. -/
theorem Accounted.update {X : Finset C} {r : World C × (C → Account)} (hr : Accounted X r) {c : C}
    (hX : c ∈ X) {w : World C} (hw : CallInv w) {ctx : GcAllocContext} {a : Account}
    (hctxs : w.ctxs = Function.update r.1.ctxs c ctx) (hb : Balanced ctx a)
    (hlen : w.heap.segments.length + (r.2 c).acquired =
      r.1.heap.segments.length + a.acquired) :
    Accounted X (w, Function.update r.2 c a) := by
  refine ⟨hw, fun c' => ?_, ?_⟩
  · dsimp only
    rw [hctxs]
    by_cases hcc : c' = c
    · subst hcc
      simpa using hb
    · simpa [hcc] using hr.balanced c'
  · have hoff : ∀ c', c' ≠ c →
        (Function.update r.2 c a c').acquired = (r.2 c').acquired := by
      intro c' hne
      rw [Function.update_of_ne hne]
    have hsum := sum_add_of_eq_off hX hoff
    have hsegments := hr.segments
    rw [Function.update_self] at hsum
    dsimp only
    omega

/-- A call that fails enters nothing. -/
theorem recordAccount_null (accounts : C → Account) (w w' : World C) (call : AllocCall C) :
    recordAccount accounts w w' call 0 = accounts := by
  unfold recordAccount
  split
  · rfl
  · simp [Account.record]

theorem recordAccount_serve {accounts : C → Account} {w w' : World C} {call : AllocCall C} {c : C}
    (hc : call.acontext = some c) {result : W} (hne : result ≠ 0) (hheap : w'.heap = w.heap) :
    recordAccount accounts w w' call result =
      Function.update accounts c ((accounts c).serve call.size) := by
  simp only [recordAccount, hc]
  rw [Account.record, if_neg hne, if_neg (by simp [hheap])]

theorem recordAccount_acquire {accounts : C → Account} {w w' : World C} {call : AllocCall C} {c : C}
    (hc : call.acontext = some c) {result : W} (hne : result ≠ 0)
    (hlen : w'.heap.segments.length = w.heap.segments.length + 1) :
    recordAccount accounts w w' call result =
      Function.update accounts c ((accounts c).acquire (w.ctxs c) call.size) := by
  simp only [recordAccount, hc]
  rw [Account.record, if_neg hne, if_pos (by simp [Heap.segmentsCount, hlen])]

theorem Accounted.step {X : Finset C} {r : World C × (C → Account)} (hr : Accounted X r)
    {call : AllocCall C} (hX : ∀ c, call.acontext = some c → c ∈ X) {r' : World C × W}
    (ho : AllocOutcome r.1 call r') :
    Accounted X (r'.1, recordAccount r.2 r.1 r'.1 call r'.2) := by
  have hinv := hr.calls.outcome ho
  cases ho with
  | refused =>
    rw [recordAccount_null]
    exact hr
  | full c =>
    rw [recordAccount_null]
    refine ⟨hinv, hr.balanced, hr.segments.trans ?_⟩
    exact (congrArg List.length (r.1.atBoundsCheck_segments c)).symm
  | served c hc _ hfits =>
    obtain ⟨S, hS, hin, huser, hle⟩ := hr.calls.served_in hfits
    rw [recordAccount_serve hc hin.ptr_ne.1 (World.setCtx_heap _ _ _)]
    exact hr.update (hX c hc) hinv rfl ((hr.balanced c).serve hin huser hle) rfl
  | carved c hmiss hcount =>
    have hsegs := r.1.grown_segments c
    have hlen : (r.1.atBoundsCheck c).grown.segments.length = r.1.heap.segments.length + 1 := by
      simp [hsegs]
    have huser := (hinv.heap.segment_user (S := r.1.heap.arenaNext) (by simp [hsegs])).2
    have hcX := hX c hmiss.acontext
    have hown := hr.acquired_le hcX
    rw [recordAccount_acquire hmiss.acontext (hr.calls.arenaNext_gap hcount).2 hlen]
    refine hr.update hcX hinv rfl ?_ ?_
    · refine (hr.balanced c).acquire ?_ hmiss.size huser (fun h0 => ?_) ?_
      · rw [arenaSegments_eq] at hcount
        rw [growthSize_toNat]
        omega
      · rcases hr.calls.ctx c with ⟨hp, -⟩ | ⟨S, -, hin⟩
        · exact hp
        · exact absurd h0 hin.ptr_ne.2
      · exact (hr.calls.fits_eq_false hmiss.size).mp hmiss.fits
    · simp only [World.setCtx_heap, hlen, Account.acquire]
      omega

theorem accounted_run {h : Heap} (hf : Fresh h) {X : Finset C} {calls : List (AllocCall C)}
    (hX : callers calls ⊆ X) :
    Accounted X ((accountMachine C).run (.start h, fun _ => .empty) calls) := by
  induction calls using List.reverseRecOn with
  | nil =>
    refine ⟨hf.callInv, fun _ => balanced_init, ?_⟩
    simp [World.start, hf.segments, Account.empty]
  | append_singleton calls call ih =>
    have hr := ih fun c hc => by
      obtain ⟨call', hmem, hc'⟩ := mem_callers.mp hc
      exact hX (mem_callers.mpr ⟨call', List.mem_append_left _ hmem, hc'⟩)
    rw [Mealy.run_append]
    refine hr.step (fun c hc => hX (mem_callers.mpr ⟨call, ?_, hc⟩))
      (alloc_outcome hr.calls.heap call)
    exact List.mem_append_right _ (List.mem_singleton_self _)

/-! ## Conservation -/

/-- The carved part of the arena, as a difference of pointers. -/
theorem HeapInv.carved_toNat {h : Heap} (hi : HeapInv h) :
    (h.arenaNext - h.heapArena).toNat = h.segmentsCount * growthSize.toNat := by
  have hnext := hi.arenaNext
  rw [toNat_sub_of_le (by omega), hnext]
  exact Nat.add_sub_cancel_left _ _

/-- The segments of the arena are not many bytes for a signed word. -/
theorem segmentBytes_lt {n : Nat} (hn : n ≤ arenaSegments) : n * growthSize.toNat < 2 ^ 63 := by
  rw [arenaSegments_eq] at hn
  rw [growthSize_toNat]
  omega

theorem toInt_of_segments {x : W} {n : Nat} (hx : x.toNat = n * growthSize.toNat)
    (hn : n ≤ arenaSegments) : x.toInt = ((n * growthSize.toNat : Nat) : Int) := by
  have hlt := segmentBytes_lt hn
  rw [BitVec.toInt_eq_toNat_of_lt (by omega), hx]

/-- After any calls of any contexts, `alloc_bytes` of all contexts sum up to the carved part of the
arena, and `alloc_bytes` of each context to the blocks it was given, a gap for every segment it
acquired, the tails it left, each shorter than the request that did not fit there, and what is left
of its segment. All of this stays below `2^63`. -/
theorem alloc_bytes_conserved {h : Heap} (hb : Booted h) (calls : List (AllocCall C)) :
    let r := (accountMachine C).run (.start h, fun _ => .empty) calls
    (∀ X : Finset C, callers calls ⊆ X →
      ∑ c ∈ X, (r.1.ctxs c).allocBytes.toInt =
        (r.1.heap.arenaNext - r.1.heap.heapArena).toInt ∧
      (r.1.heap.arenaNext - r.1.heap.heapArena).toInt =
        r.1.heap.segmentsCount * growthSize.toInt ∧
      ∑ c ∈ X, (r.2 c).acquired = r.1.heap.segmentsCount ∧
      ∑ c ∈ X, (r.1.ctxs c).allocBytes.toNat < 2 ^ 63) ∧
    ∀ c, (r.1.ctxs c).allocBytes.toInt =
        (r.2 c).servedBytes + (r.2 c).gapBytes + (r.2 c).tailBytes + (r.1.ctxs c).remaining ∧
      (∀ t ∈ (r.2 c).tails, t.1 < t.2) ∧
      (r.2 c).servedBytes + (r.2 c).gapBytes + (r.2 c).tailBytes + (r.1.ctxs c).remaining <
        2 ^ 63 := by
  intro r
  have hall : ∀ X : Finset C, callers calls ⊆ X → Accounted X r := fun X hX =>
    accounted_run hb.fresh hX
  refine ⟨fun X hX => ?_, fun c => ?_⟩
  · have hr := hall X hX
    have hcount := hr.calls.heap.count_le
    have hsum : ∑ c ∈ X, (r.1.ctxs c).allocBytes.toNat =
        r.1.heap.segments.length * growthSize.toNat := by
      rw [Finset.sum_congr rfl fun c _ => (hr.balanced c).bytes, ← Finset.sum_mul, hr.segments]
    have hsumInt : ∑ c ∈ X, (r.1.ctxs c).allocBytes.toInt =
        ((∑ c ∈ X, (r.1.ctxs c).allocBytes.toNat : Nat) : Int) := by
      rw [Nat.cast_sum]
      refine Finset.sum_congr rfl fun c hc => ?_
      rw [(hr.balanced c).bytes]
      exact toInt_of_segments (hr.balanced c).bytes ((hr.acquired_le hc).trans hcount)
    have hcarved := toInt_of_segments hr.calls.heap.carved_toNat hcount
    refine ⟨?_, ?_, hr.segments, ?_⟩
    · rw [hsumInt, hsum, hcarved]
      rfl
    · rw [hcarved]
      exact Nat.cast_mul _ _
    · rw [hsum]
      exact segmentBytes_lt hcount
  · have hr := hall (insert c (callers calls)) (Finset.subset_insert _ _)
    have hle := (hr.acquired_le (Finset.mem_insert_self c _)).trans hr.calls.heap.count_le
    have hbal := hr.balanced c
    refine ⟨?_, hbal.tails, ?_⟩
    · rw [toInt_of_segments hbal.bytes hle, ← hbal.total]
      push_cast
      rfl
    · rw [hbal.total]
      exact segmentBytes_lt hle

/-- Two contexts, one of which leaves a tail of 1000 bytes behind. -/
theorem alloc_bytes_two_contexts :
    let r := (accountMachine Bool).run (.start (.bootedAt 0x7f0000000000), fun _ => .empty)
      [⟨some true, 1047552, 0⟩, ⟨some false, 24, 0⟩, ⟨some true, 1001, 0⟩]
    ∑ c ∈ {true, false}, (r.1.ctxs c).allocBytes.toInt = 3 * 1048576 ∧
      (r.2 true).tails = [(1000, 1001)] := by
  have hrun := alloc_bytes_conserved booted_high
    [⟨some true, 1047552, 0⟩, ⟨some false, 24, 0⟩, ⟨some true, 1001, 0⟩]
  have hsum := hrun.1 {true, false} (by decide)
  exact ⟨hsum.1.trans (by decide), by decide⟩

end

end MiniGC
