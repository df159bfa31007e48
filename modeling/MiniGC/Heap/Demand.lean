import MiniGC.Heap.Calls
import Mathlib.Algebra.Order.BigOperators.Group.Finset

/-!
# MiniGC.Heap.Demand

Which context allocates first does not matter.

* `Fill`        how far a context has got: how many segments it has acquired, and the offset of
  `alloc_ptr` in the last of them. `Fill.serve` is one request; no address occurs in it.
* `demand`      the `Fill` after a sequence of requests; `placements` is where it puts them.
* `Placed`      what a run did for a context: the segments it acquired, the pointers it got.
* `Laid`        in a run without failures every context's record is what its own requests demand,
  and the segment table holds as many segments as all contexts together demand.
* `alloc_order_irrelevant`   so two interleavings of the same requests fail or succeed together,
  end at the same `g_arena_next`, and serve every request at the same place of the same-numbered
  segment.
-/

namespace MiniGC

/-! ## What a context demands -/

structure Fill where
  acquired : Nat
  offset : Nat
  deriving DecidableEq, Repr

/-- A request that does not fit behind `offset` goes to the start of another segment. -/
def Fill.serve (f : Fill) (size : W) : Fill :=
  if f.acquired ≠ 0 ∧ f.offset + size.toNat ≤ growthSize.toNat then
    ⟨f.acquired, f.offset + size.toNat⟩
  else ⟨f.acquired + 1, beginGap.toNat + size.toNat⟩

def demand (sizes : List W) : Fill := sizes.foldl Fill.serve ⟨0, 0⟩

/-- Where a context at `f` gets `sizes`: the number of the segment, from 0, and the offset in it. -/
def placementsFrom (f : Fill) : List W → List (Nat × Nat)
  | [] => []
  | size :: sizes =>
    ((f.serve size).acquired - 1, (f.serve size).offset - size.toNat) ::
      placementsFrom (f.serve size) sizes

def placements (sizes : List W) : List (Nat × Nat) := placementsFrom ⟨0, 0⟩ sizes

@[simp] theorem demand_nil : demand [] = ⟨0, 0⟩ := rfl

@[simp] theorem demand_snoc (sizes : List W) (size : W) :
    demand (sizes ++ [size]) = (demand sizes).serve size := by
  simp [demand]

theorem placementsFrom_snoc (f : Fill) (sizes : List W) (size : W) :
    placementsFrom f (sizes ++ [size]) = placementsFrom f sizes ++
      [(((sizes.foldl Fill.serve f).serve size).acquired - 1,
        ((sizes.foldl Fill.serve f).serve size).offset - size.toNat)] := by
  induction sizes generalizing f with
  | nil => rfl
  | cons s sizes ih => simp [placementsFrom, ih]

theorem placements_snoc (sizes : List W) (size : W) :
    placements (sizes ++ [size]) = placements sizes ++
      [((demand (sizes ++ [size])).acquired - 1,
        (demand (sizes ++ [size])).offset - size.toNat)] := by
  rw [demand_snoc]
  exact placementsFrom_snoc ⟨0, 0⟩ sizes size

theorem forall₂_getElem? {α β : Type} {R : α → β → Prop} {l : List α} {l' : List β}
    (h : List.Forall₂ R l l') {j : Nat} {b : β} (hj : l'[j]? = some b) :
    ∃ a, l[j]? = some a ∧ R a b := by
  induction h generalizing j with
  | nil => simp at hj
  | cons hab _ ih =>
    cases j with
    | zero =>
      cases hj
      exact ⟨_, rfl, hab⟩
    | succ j => exact ih hj

/-- Whether a request needs another segment. -/
def Fill.Needs (f : Fill) (size : W) : Prop :=
  f.acquired = 0 ∨ growthSize.toNat < f.offset + size.toNat

theorem Fill.serve_needs {f : Fill} {size : W} (h : f.Needs size) :
    f.serve size = ⟨f.acquired + 1, beginGap.toNat + size.toNat⟩ := by
  rw [Fill.serve, if_neg]
  rintro ⟨h0, hle⟩
  rcases h with h | h
  · exact h0 h
  · exact absurd hle (Nat.not_le.mpr h)

theorem Fill.serve_fits {f : Fill} {size : W} (h : ¬ f.Needs size) :
    f.serve size = ⟨f.acquired, f.offset + size.toNat⟩ := by
  simp only [Fill.Needs, not_or, Nat.not_lt] at h
  rw [Fill.serve, if_pos h]

theorem Fill.acquired_le_serve (f : Fill) (size : W) : f.acquired ≤ (f.serve size).acquired := by
  by_cases h : f.Needs size
  · rw [Fill.serve_needs h]
    exact Nat.le_succ _
  · rw [Fill.serve_fits h]

theorem Fill.acquired_le_foldl (f : Fill) (sizes : List W) :
    f.acquired ≤ (sizes.foldl Fill.serve f).acquired := by
  induction sizes generalizing f with
  | nil => exact Nat.le_refl _
  | cons size sizes ih => exact (f.acquired_le_serve size).trans (ih _)

/-- What a request gets lies between the gap and the end of its segment. -/
theorem placementsFrom_inside {f : Fill} (hf : f.acquired ≠ 0 → beginGap.toNat ≤ f.offset)
    {sizes : List W} (hsizes : ∀ size ∈ sizes, sizeRefused size = false) :
    List.Forall₂ (fun (place : Nat × Nat) size => beginGap.toNat ≤ place.2 ∧
      place.2 + size.toNat ≤ growthSize.toNat) (placementsFrom f sizes) sizes := by
  induction sizes generalizing f with
  | nil => exact .nil
  | cons size sizes ih =>
    have hfit := (sizeRefused_eq_false (hsizes size List.mem_cons_self)).2
    have hgap : beginGap.toNat + size.toNat ≤ (f.serve size).offset ∧
        (f.serve size).offset ≤ growthSize.toNat := by
      by_cases h : f.Needs size
      · rw [Fill.serve_needs h]
        exact ⟨Nat.le_refl _, Nat.add_comm size.toNat _ ▸ hfit⟩
      · rw [Fill.serve_fits h]
        simp only [Fill.Needs, not_or, Nat.not_lt] at h
        exact ⟨Nat.add_le_add_right (hf h.1) _, h.2⟩
    refine .cons ⟨Nat.le_sub_of_add_le hgap.1, ?_⟩ (ih (fun _ => ?_) fun s hs => ?_)
    · rw [Nat.sub_add_cancel (Nat.le_of_add_left_le hgap.1)]
      exact hgap.2
    · exact Nat.le_of_add_right_le hgap.1
    · exact hsizes s (List.mem_cons_of_mem _ hs)

/-- More requests never demand fewer segments. -/
theorem demand_mono {sizes sizes' : List W} (h : sizes <+: sizes') :
    (demand sizes).acquired ≤ (demand sizes').acquired := by
  obtain ⟨rest, rfl⟩ := h
  rw [demand, demand, List.foldl_append]
  exact Fill.acquired_le_foldl _ rest

section

variable {C : Type} [DecidableEq C]

/-! ## Requests of all contexts -/

/-- The sizes that `c` asks for, oldest first. -/
def requests (c : C) (calls : List (AllocCall C)) : List W :=
  (calls.filter fun call => call.acontext = some c).map AllocCall.size

/-- One run of calls in which every context makes its own requests, in their order. -/
structure Interleaves (reqs : C → List W) (calls : List (AllocCall C)) : Prop where
  named : ∀ call ∈ calls, call.acontext ≠ none
  own : ∀ c, requests c calls = reqs c

theorem requests_snoc_self {c : C} {call : AllocCall C} (hc : call.acontext = some c)
    (calls : List (AllocCall C)) :
    requests c (calls ++ [call]) = requests c calls ++ [call.size] := by
  simp [requests, hc]

theorem requests_snoc_of_ne {c c' : C} {call : AllocCall C} (hc : call.acontext = some c)
    (hne : c' ≠ c) (calls : List (AllocCall C)) :
    requests c' (calls ++ [call]) = requests c' calls := by
  have hnot : ¬ c = c' := fun h => hne h.symm
  simp [requests, hc, hnot]

theorem requests_mono {calls calls' : List (AllocCall C)} (h : calls <+: calls') (c : C) :
    requests c calls <+: requests c calls' := by
  obtain ⟨rest, rfl⟩ := h
  simp [requests]

/-- How many segments the contexts in `X` demand. -/
def totalDemand (X : Finset C) (calls : List (AllocCall C)) : Nat :=
  ∑ c ∈ X, (demand (requests c calls)).acquired

theorem totalDemand_mono (X : Finset C) {calls calls' : List (AllocCall C)} (h : calls <+: calls') :
    totalDemand X calls ≤ totalDemand X calls' :=
  Finset.sum_le_sum fun c _ => demand_mono (requests_mono h c)

/-- Two sums whose terms differ only at `c`. -/
theorem sum_add_of_eq_off {X : Finset C} {c : C} (hX : c ∈ X) {f g : C → Nat}
    (h : ∀ c', c' ≠ c → f c' = g c') : ∑ c' ∈ X, f c' + g c = ∑ c' ∈ X, g c' + f c := by
  have hrest : ∑ c' ∈ X.erase c, f c' = ∑ c' ∈ X.erase c, g c' :=
    Finset.sum_congr rfl fun c' hc' => h c' (Finset.ne_of_mem_erase hc')
  rw [← Finset.add_sum_erase X f hX, ← Finset.add_sum_erase X g hX, hrest]
  omega

theorem totalDemand_snoc {X : Finset C} {c : C} (hX : c ∈ X) {call : AllocCall C}
    (hc : call.acontext = some c) (calls : List (AllocCall C)) :
    totalDemand X (calls ++ [call]) + (demand (requests c calls)).acquired =
      totalDemand X calls + ((demand (requests c calls)).serve call.size).acquired := by
  have hself : demand (requests c (calls ++ [call])) =
      (demand (requests c calls)).serve call.size := by
    rw [requests_snoc_self hc, demand_snoc]
  rw [← hself]
  refine sum_add_of_eq_off (f := fun c' => (demand (requests c' (calls ++ [call]))).acquired)
    (g := fun c' => (demand (requests c' calls)).acquired) hX fun c' hne => ?_
  rw [requests_snoc_of_ne hc hne]

/-! ## What a run does for each context -/

/-- The segments a context has acquired, and the results of its calls, oldest first. -/
structure Placed where
  acquired : List W
  blocks : List W
  deriving DecidableEq

/-- A call of the context took the segment table from `before` to `after`. -/
def Placed.record (P : Placed) (before after : List W) (result : W) : Placed :=
  ⟨P.acquired ++ after.drop before.length, P.blocks ++ [result]⟩

def recordPlace (placed : C → Placed) (w w' : World C) (call : AllocCall C) (result : W) :
    C → Placed :=
  match call.acontext with
  | none => placed
  | some c => Function.update placed c
      ((placed c).record w.heap.segments w'.heap.segments result)

/-- Whole calls of `Alloc`, next to what they did for each context. -/
def placementMachine (C : Type) [DecidableEq C] :
    Mealy (World C × (C → Placed)) (AllocCall C) W where
  step r call :=
    let r' := alloc r.1 call.acontext call.size call.flags
    ((r'.1, recordPlace r.2 r.1 r'.1 call r'.2), r'.2)

/-- No call of the run returns null. -/
def NoFailure (h : Heap) (calls : List (AllocCall C)) : Prop :=
  (placementMachine C).EachStep
    (fun r call => (alloc r.1 call.acontext call.size call.flags).2 ≠ 0)
    (.start h, fun _ => ⟨[], []⟩) calls

/-- The block lies at the given offset in the segment of the given number. -/
def Placed.At (P : Placed) (block : W) (place : Nat × Nat) : Prop :=
  ∃ S, P.acquired[place.1]? = some S ∧ block.toNat = S.toNat + place.2

/-- A context after the requests `sizes`, none of which failed. -/
structure LaidCtx (ctx : GcAllocContext) (P : Placed) (sizes : List W) : Prop where
  acquired : P.acquired.length = (demand sizes).acquired
  unused : (demand sizes).acquired = 0 → ctx.allocPtr = 0 ∧ ctx.allocLimit = 0
  current : ∀ S, P.acquired.getLast? = some S →
    ctx.In S ∧ ctx.allocPtr.toNat = S.toNat + (demand sizes).offset
  blocks : List.Forall₂ P.At P.blocks (placements sizes)

structure Laid (X : Finset C) (r : World C × (C → Placed)) (calls : List (AllocCall C)) : Prop where
  inv : CallInv r.1
  segments : r.1.heap.segments.length = totalDemand X calls
  registered : ∀ c, ∀ S ∈ (r.2 c).acquired, S ∈ r.1.heap.segments
  placed : ∀ c, LaidCtx (r.1.ctxs c) (r.2 c) (requests c calls)

theorem LaidCtx.getLast {ctx : GcAllocContext} {P : Placed} {sizes : List W}
    (hl : LaidCtx ctx P sizes) (h : (demand sizes).acquired ≠ 0) :
    ∃ S, P.acquired.getLast? = some S ∧ P.acquired[(demand sizes).acquired - 1]? = some S := by
  have hne : P.acquired ≠ [] := by
    intro h0
    rw [← hl.acquired, h0] at h
    exact h rfl
  refine ⟨P.acquired.getLast hne, List.getLast?_eq_getLast_of_ne_nil hne, ?_⟩
  rw [← hl.acquired, ← List.getLast?_eq_getElem?]
  exact List.getLast?_eq_getLast_of_ne_nil hne

/-- The fast path is open exactly when the demand of the context does not grow. -/
theorem Laid.needs_iff {X : Finset C} {r : World C × (C → Placed)} {calls : List (AllocCall C)}
    (hl : Laid X r calls) {c : C} {size : W} (hsize : sizeRefused size = false) :
    (demand (requests c calls)).Needs size ↔ (r.1.ctxs c).fits size = false := by
  rw [hl.inv.fits_eq_false hsize]
  have hpos := (sizeRefused_eq_false hsize).1
  by_cases h0 : (demand (requests c calls)).acquired = 0
  · obtain ⟨hp, hlim⟩ := (hl.placed c).unused h0
    refine iff_of_true (.inl h0) ?_
    rw [hp, hlim, BitVec.lt_def, show ((0 : W) - 0).toNat = 0 from rfl]
    exact hpos
  · obtain ⟨S, hS, -⟩ := (hl.placed c).getLast h0
    obtain ⟨hin, hat⟩ := (hl.placed c).current S hS
    have hle := hin.le_limit
    rw [BitVec.lt_def, toNat_sub_of_le (by rw [hin.limit]; exact hle), hin.limit, hat,
      Fill.Needs, or_iff_right h0]
    rw [hat] at hle
    omega

theorem Placed.At.append {P : Placed} {block : W} {place : Nat × Nat} (h : P.At block place)
    (segments blocks : List W) : Placed.At ⟨P.acquired ++ segments, blocks⟩ block place := by
  obtain ⟨S, hS, hat⟩ := h
  exact ⟨S, List.getElem?_append_left (List.getElem?_eq_some_iff.mp hS).1 ▸ hS, hat⟩

/-- A block served by the fast path. -/
theorem LaidCtx.bump {ctx : GcAllocContext} {P : Placed} {sizes : List W} {size : W}
    (hl : LaidCtx ctx P sizes) (hneeds : ¬ (demand sizes).Needs size)
    (huser : ∀ S ∈ P.acquired, S.toNat + growthSize.toNat ≤ 2 ^ 63)
    (hle : size ≤ ctx.allocLimit - ctx.allocPtr) :
    LaidCtx { ctx with allocPtr := ctx.allocPtr + size }
      ⟨P.acquired, P.blocks ++ [ctx.allocPtr]⟩ (sizes ++ [size]) := by
  have hne : (demand sizes).acquired ≠ 0 := fun h0 => hneeds (.inl h0)
  have hserve := Fill.serve_fits hneeds
  obtain ⟨S, hlast, hget⟩ := hl.getLast hne
  obtain ⟨hin, hat⟩ := hl.current S hlast
  have hS := huser S (List.mem_of_getElem? hget)
  refine ⟨?_, fun h0 => ?_, fun S' hlast' => ?_, ?_⟩
  · rw [demand_snoc, hserve]
    exact hl.acquired
  · rw [demand_snoc, hserve] at h0
    exact absurd h0 hne
  · obtain rfl : S = S' := Option.some.inj (hlast.symm.trans hlast')
    refine ⟨hin.bump hS hle, ?_⟩
    rw [hin.bump_toNat hS hle, hat, demand_snoc, hserve, Nat.add_assoc]
  · rw [placements_snoc, demand_snoc, hserve]
    refine List.rel_append hl.blocks (.cons ⟨S, hget, ?_⟩ .nil)
    rw [hat, Nat.add_sub_cancel]

/-- A block at the start of a new segment. -/
theorem LaidCtx.enter {ctx : GcAllocContext} {P : Placed} {sizes : List W} {size S : W}
    (hl : LaidCtx ctx P sizes) (hneeds : (demand sizes).Needs size)
    (hsize : sizeRefused size = false) (huser : S.toNat + growthSize.toNat ≤ 2 ^ 63) :
    LaidCtx (enterSegment ctx S size) ⟨P.acquired ++ [S], P.blocks ++ [S + beginGap]⟩
      (sizes ++ [size]) := by
  have hserve := Fill.serve_needs hneeds
  refine ⟨?_, fun h0 => ?_, fun S' hlast => ?_, ?_⟩
  · rw [demand_snoc, hserve, List.length_append, hl.acquired]
    rfl
  · rw [demand_snoc, hserve] at h0
    cases h0
  · obtain rfl : S = S' := by simpa using hlast
    refine ⟨enterSegment_in _ hsize huser, ?_⟩
    rw [enterSegment_ptr _ hsize huser, demand_snoc, hserve, Nat.add_assoc]
  · rw [placements_snoc, demand_snoc, hserve]
    refine List.rel_append (hl.blocks.imp fun _ _ h => h.append _ _) (.cons ⟨S, ?_, ?_⟩ .nil)
    · simp [hl.acquired]
    · rw [beginGap_add huser]
      simp only [Nat.add_sub_cancel]

/-! ## Runs -/

/-- A step of context `c` that leaves the other contexts alone. -/
theorem Laid.update {X : Finset C} {r : World C × (C → Placed)} {calls : List (AllocCall C)}
    (hl : Laid X r calls) {call : AllocCall C} {c : C} (hc : call.acontext = some c)
    {w : World C} {P : Placed} (hinv : CallInv w)
    (hlen : w.heap.segments.length = totalDemand X (calls ++ [call]))
    (hsub : r.1.heap.segments ⊆ w.heap.segments) (hreg : ∀ S ∈ P.acquired, S ∈ w.heap.segments)
    (hother : ∀ c', c' ≠ c → w.ctxs c' = r.1.ctxs c')
    (hctx : LaidCtx (w.ctxs c) P (requests c calls ++ [call.size])) :
    Laid X (w, Function.update r.2 c P) (calls ++ [call]) := by
  refine ⟨hinv, hlen, fun c' S hS => ?_, fun c' => ?_⟩
  · by_cases hcc : c' = c
    · subst hcc
      simp only [Function.update_self] at hS
      exact hreg S hS
    · simp only [Function.update_of_ne hcc] at hS
      exact hsub (hl.registered c' S hS)
  · by_cases hcc : c' = c
    · subst hcc
      rw [requests_snoc_self hc]
      simpa using hctx
    · rw [requests_snoc_of_ne hc hcc]
      simpa [hcc, hother] using hl.placed c'

/-- A call that does not fail gives its context what the context demands. -/
theorem Laid.step {X : Finset C} {r : World C × (C → Placed)} {calls : List (AllocCall C)}
    (hl : Laid X r calls) {call : AllocCall C} {c : C} (hX : c ∈ X)
    (hc : call.acontext = some c) {r' : World C × W} (ho : AllocOutcome r.1 call r')
    (hsize : sizeRefused call.size = false) (hne : r'.2 ≠ 0) :
    Laid X (r'.1, recordPlace r.2 r.1 r'.1 call r'.2) (calls ++ [call]) := by
  have htotal := totalDemand_snoc hX hc calls
  have hinv := hl.inv.outcome ho
  simp only [recordPlace, hc]
  cases ho with
  | refused h => exact absurd rfl hne
  | full c hmiss hcount => exact absurd rfl hne
  | served c' hc' _ hfits =>
    obtain rfl : c = c' := Option.some.inj (hc.symm.trans hc')
    have hneeds : ¬ (demand (requests c calls)).Needs call.size := by
      rw [hl.needs_iff hsize, hfits]
      exact Bool.noConfusion
    rw [Fill.serve_fits hneeds] at htotal
    have huser : ∀ S ∈ (r.2 c).acquired, S.toNat + growthSize.toNat ≤ 2 ^ 63 := fun S hS =>
      (hl.inv.heap.segment_user (hl.registered c S hS)).2
    refine hl.update hc hinv ?_ (List.Subset.refl _) (fun S hS => ?_) (fun c' hcc => ?_) ?_
    · exact hl.segments.trans (Nat.add_right_cancel htotal).symm
    · exact hl.registered c S (by simpa [Placed.record] using hS)
    · exact Function.update_of_ne hcc _ _
    · simpa [Placed.record] using
        (hl.placed c).bump hneeds huser (GcAllocContext.fits_iff.mp hfits).2.2
  | carved c' hmiss hcount =>
    obtain rfl : c = c' := Option.some.inj (hc.symm.trans hmiss.acontext)
    have hneeds := (hl.needs_iff hsize).mpr hmiss.fits
    rw [Fill.serve_needs hneeds] at htotal
    have hsegs := r.1.grown_segments c
    have hnew : r.1.heap.arenaNext ∈ (r.1.atBoundsCheck c).grown.segments := by simp [hsegs]
    have huser := (hinv.heap.segment_user hnew).2
    refine hl.update hc hinv ?_ ?_ (fun S hS => ?_) (fun c' hcc => ?_) ?_
    · simp only [World.setCtx, hsegs, List.length_append, List.length_singleton, hl.segments]
      dsimp only at htotal
      omega
    · simp [World.setCtx, hsegs]
    · simp only [Placed.record, World.setCtx, hsegs, List.drop_left, List.mem_append] at hS ⊢
      exact hS.imp_left (hl.registered c S)
    · exact Function.update_of_ne hcc _ _
    · simpa [Placed.record, World.setCtx, hsegs] using (hl.placed c).enter hneeds hsize huser

/-- In a run without failures every context has what its requests demand. -/
theorem laid_run {h : Heap} (hf : Fresh h) {X : Finset C} {calls : List (AllocCall C)}
    (hcalls : ∀ call ∈ calls, ∃ c ∈ X, call.acontext = some c ∧ sizeRefused call.size = false)
    (hok : NoFailure h calls) :
    Laid X ((placementMachine C).run (.start h, fun _ => ⟨[], []⟩) calls) calls := by
  induction calls using List.reverseRecOn with
  | nil =>
    refine ⟨hf.callInv, ?_, fun c S hS => ?_,
      fun c => ⟨rfl, fun _ => ⟨rfl, rfl⟩, fun S hS => ?_, .nil⟩⟩
    · simp [World.start, hf.segments, totalDemand, requests]
    · cases hS
    · cases hS
  | append_singleton calls call ih =>
    obtain ⟨hok, hlast⟩ := Mealy.eachStep_snoc _ |>.mp hok
    obtain ⟨c, hX, hc, hsize⟩ := hcalls call (by simp)
    have hl := ih (fun call' hmem => hcalls call' (List.mem_append_left _ hmem)) hok
    rw [Mealy.run_append]
    exact hl.step hX hc (alloc_outcome hl.inv.heap call) hsize hlast

/-- While all that was asked for so far and now fits the arena, the call does not fail. -/
theorem Laid.not_full {X : Finset C} {r : World C × (C → Placed)} {calls : List (AllocCall C)}
    (hl : Laid X r calls) {call : AllocCall C} {c : C} (hX : c ∈ X)
    (hc : call.acontext = some c) {r' : World C × W} (ho : AllocOutcome r.1 call r')
    (hsize : sizeRefused call.size = false)
    (hle : totalDemand X (calls ++ [call]) ≤ arenaSegments) : r'.2 ≠ 0 := by
  intro h0
  rcases (hl.inv.null_iff ho).mp h0 with hrefused | ⟨c', hmiss, hfull⟩
  · exact AllocCall.not_refused hc hsize hrefused
  · obtain rfl : c = c' := Option.some.inj (hc.symm.trans hmiss.acontext)
    have htotal := totalDemand_snoc hX hc calls
    rw [Fill.serve_needs ((hl.needs_iff hsize).mpr hmiss.fits)] at htotal
    dsimp only at htotal
    rw [hl.segments] at hfull
    omega

/-- If the arena holds the whole demand, no call of the run fails. -/
theorem noFailure_of_demand {h : Heap} (hf : Fresh h) {X : Finset C} {calls : List (AllocCall C)}
    (hcalls : ∀ call ∈ calls, ∃ c ∈ X, call.acontext = some c ∧ sizeRefused call.size = false)
    (hle : totalDemand X calls ≤ arenaSegments) : NoFailure h calls := by
  induction calls using List.reverseRecOn with
  | nil => exact Mealy.eachStep_nil _ _ _
  | append_singleton calls call ih =>
    have hbefore : ∀ call ∈ calls,
        ∃ c ∈ X, call.acontext = some c ∧ sizeRefused call.size = false :=
      fun call' hmem => hcalls call' (List.mem_append_left _ hmem)
    have hok := ih hbefore ((totalDemand_mono X (List.prefix_append _ _)).trans hle)
    obtain ⟨c, hX, hc, hsize⟩ := hcalls call (by simp)
    have hl := laid_run hf hbefore hok
    refine Mealy.eachStep_snoc _ |>.mpr ⟨hok, ?_⟩
    exact hl.not_full hX hc (alloc_outcome hl.inv.heap call) hsize hle

/-! ## Two interleavings -/

/-- The contexts that a run names. -/
def callers (calls : List (AllocCall C)) : Finset C := (calls.filterMap AllocCall.acontext).toFinset

theorem mem_callers {calls : List (AllocCall C)} {c : C} :
    c ∈ callers calls ↔ ∃ call ∈ calls, call.acontext = some c := by
  simp [callers]

/-- A call of an interleaving is one of the requests of its context. -/
theorem Interleaves.admitted {reqs : C → List W} {calls : List (AllocCall C)}
    (hi : Interleaves reqs calls)
    (hsize : ∀ c, ∀ size ∈ reqs c, sizeRefused size = false) :
    ∀ call ∈ calls, ∃ c ∈ callers calls,
      call.acontext = some c ∧ sizeRefused call.size = false := by
  intro call hcall
  obtain ⟨c, hc⟩ := Option.ne_none_iff_exists'.mp (hi.named call hcall)
  refine ⟨c, mem_callers.mpr ⟨call, hcall, hc⟩, hc, hsize c _ ?_⟩
  rw [← hi.own c]
  exact List.mem_map_of_mem (List.mem_filter.mpr ⟨hcall, by simpa using hc⟩)

theorem Interleaves.callers_eq {reqs : C → List W} {calls calls' : List (AllocCall C)}
    (hi : Interleaves reqs calls) (hi' : Interleaves reqs calls') :
    callers calls = callers calls' := by
  have hmem : ∀ {calls : List (AllocCall C)}, Interleaves reqs calls →
      ∀ c, c ∈ callers calls ↔ reqs c ≠ [] := by
    intro calls hi c
    rw [mem_callers, ← hi.own c]
    simp [requests, List.filter_eq_nil_iff]
  ext c
  rw [hmem hi, hmem hi']

theorem Interleaves.totalDemand_eq {reqs : C → List W} {calls calls' : List (AllocCall C)}
    (hi : Interleaves reqs calls) (hi' : Interleaves reqs calls') (X : Finset C) :
    totalDemand X calls = totalDemand X calls' := by
  simp [totalDemand, hi.own, hi'.own]

theorem arena_run {h : Heap} (hf : Fresh h) (calls : List (AllocCall C)) :
    let r := (placementMachine C).run (.start h, fun _ => ⟨[], []⟩) calls
    CallInv r.1 ∧ r.1.heap.heapArena = h.heapArena := by
  refine (placementMachine C).run_inv
    (P := fun r => CallInv r.1 ∧ r.1.heap.heapArena = h.heapArena) (fun r call hi => ?_)
    ⟨hf.callInv, rfl⟩ calls
  have ho := alloc_outcome hi.1.heap call
  exact ⟨hi.1.outcome ho, ho.heapArena.trans hi.2⟩

/-- Two interleavings of the same requests fail or succeed together. If they succeed, they use the
same number of segments, end at the same `g_arena_next`, and serve the `j`-th request of each
context at the same offset in the same-numbered segment of that context. -/
theorem alloc_order_irrelevant {h : Heap} (hb : Booted h) {reqs : C → List W}
    (hsize : ∀ c, ∀ size ∈ reqs c, sizeRefused size = false) {calls calls' : List (AllocCall C)}
    (hi : Interleaves reqs calls) (hi' : Interleaves reqs calls') (hok : NoFailure h calls) :
    let r := (placementMachine C).run (.start h, fun _ => ⟨[], []⟩) calls
    let r' := (placementMachine C).run (.start h, fun _ => ⟨[], []⟩) calls'
    NoFailure h calls' ∧ r'.1.heap.segmentsCount = r.1.heap.segmentsCount ∧
      r'.1.heap.arenaNext = r.1.heap.arenaNext ∧
      ∀ c, (r'.2 c).acquired.length = (r.2 c).acquired.length ∧
        ∀ (j : Nat) (size : W), (reqs c)[j]? = some size → ∃ b b' place,
          (r.2 c).blocks[j]? = some b ∧ (r'.2 c).blocks[j]? = some b' ∧
          (r.2 c).At b place ∧ (r'.2 c).At b' place ∧ place.2 + size.toNat ≤ growthSize.toNat := by
  intro r r'
  have hl := laid_run hb.fresh (hi.admitted hsize) hok
  have hadmitted := hi'.admitted hsize
  rw [← hi.callers_eq hi'] at hadmitted
  have hok' : NoFailure h calls' := by
    refine noFailure_of_demand hb.fresh hadmitted ?_
    rw [← hi.totalDemand_eq hi', ← hl.segments]
    exact hl.inv.heap.count_le
  have hl' := laid_run hb.fresh hadmitted hok'
  have hcount : r'.1.heap.segments.length = r.1.heap.segments.length := by
    rw [hl.segments, hl'.segments, hi.totalDemand_eq hi']
  refine ⟨hok', hcount, ?_, fun c => ?_⟩
  · apply BitVec.eq_of_toNat_eq
    rw [hl.inv.heap.arenaNext, hl'.inv.heap.arenaNext, (arena_run hb.fresh calls).2,
      (arena_run hb.fresh calls').2, hcount]
  · have hp := hl.placed c
    have hp' := hl'.placed c
    rw [hi.own c] at hp
    rw [hi'.own c] at hp'
    refine ⟨hp'.acquired.trans hp.acquired.symm, fun j size hj => ?_⟩
    obtain ⟨place, hplace, -, hinside⟩ :=
      forall₂_getElem? (placementsFrom_inside (f := ⟨0, 0⟩) (fun h => absurd rfl h) (hsize c)) hj
    obtain ⟨b, hb, hat⟩ := forall₂_getElem? hp.blocks hplace
    obtain ⟨b', hb', hat'⟩ := forall₂_getElem? hp'.blocks hplace
    exact ⟨b, b', place, hb, hb', hat, hat', hinside⟩

/-- Two contexts that take their first segments in either order. -/
def twoRequests : Bool → List W
  | true => [1000, 1048000]
  | false => [24]

theorem alloc_order_two_contexts :
    let calls : List (AllocCall Bool) :=
      [⟨some true, 1000, 0⟩, ⟨some false, 24, 0⟩, ⟨some true, 1048000, 0⟩]
    let calls' : List (AllocCall Bool) :=
      [⟨some false, 24, 0⟩, ⟨some true, 1000, 0⟩, ⟨some true, 1048000, 0⟩]
    let start : World Bool × (Bool → Placed) :=
      (.start (.bootedAt 0x7f0000000000), fun _ => ⟨[], []⟩)
    NoFailure (.bootedAt 0x7f0000000000) calls' ∧
      ((placementMachine Bool).run start calls').1.heap.segmentsCount = 3 ∧
      ((placementMachine Bool).run start calls').1.heap.arenaNext =
        ((placementMachine Bool).run start calls).1.heap.arenaNext := by
  intro calls calls' start
  have hi : Interleaves twoRequests calls := ⟨by decide, by decide⟩
  have hi' : Interleaves twoRequests calls' := ⟨by decide, by decide⟩
  have hsize : ∀ c, ∀ size ∈ twoRequests c, sizeRefused size = false := by
    intro c
    cases c <;> simp only [twoRequests, List.forall_mem_cons] <;> simp [sizeRefused] <;> decide
  have hdemand : totalDemand (callers calls) calls = 3 := by
    rw [show callers calls = {true, false} by decide, totalDemand, Finset.sum_pair (by decide),
      hi.own, hi.own]
    decide
  have hle : 3 ≤ arenaSegments := by rw [arenaSegments_eq]; decide
  clear_value calls calls'
  have hok := noFailure_of_demand booted_high.fresh (hi.admitted hsize) (hdemand.trans_le hle)
  have hsame := alloc_order_irrelevant booted_high hsize hi hi' hok
  have hl := laid_run booted_high.fresh (hi.admitted hsize) hok
  exact ⟨hsame.1, hsame.2.1.trans (hl.segments.trans hdemand), hsame.2.2.1⟩

end

end MiniGC
