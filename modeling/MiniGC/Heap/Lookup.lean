import MiniGC.Heap.Barrier

/-!
# MiniGC.Heap.Lookup

`IsHeapPointer`, which searches the segment table, next to the range `[g_heap_arena, g_arena_next)`.

* `isHeapPointer`   the search, over the segments in the order of their registration.
* `HeapInv.segments_tile`   the registered segments tile the range.
* `isHeapPointer_run`   so the search is a range test in every reachable state, true of every byte
  that `Alloc` has handed out and false of what is not carved yet.
-/

namespace MiniGC

open Tiling

/-! ## The search -/

/-- The loop of `IsHeapPointer`, over the segments that are left. -/
def searchSegments (address : W) : List W → Bool
  | [] => false
  | segment :: rest =>
    if segment ≤ address ∧ address < segment + growthSize then true
    else searchSegments address rest

def isHeapPointer (h : Heap) (object : W) (_smallHeapOnly : Bool) : Bool :=
  if h.segmentsCount = 0 then false else searchSegments object h.segments

theorem searchSegments_eq_true {address : W} {segments : List W} :
    searchSegments address segments = true ↔
      ∃ S ∈ segments, S ≤ address ∧ address < S + growthSize := by
  induction segments with
  | nil => simp [searchSegments]
  | cons S rest ih =>
    rw [List.exists_mem_cons_iff, ← ih, searchSegments]
    split <;> simp [*]

/-- The first test saves a search of the empty table. -/
theorem isHeapPointer_eq (h : Heap) (object : W) (smallHeapOnly : Bool) :
    isHeapPointer h object smallHeapOnly = searchSegments object h.segments := by
  unfold isHeapPointer
  split
  · rename_i h0
    rw [List.length_eq_zero_iff.mp h0, searchSegments]
  · rfl

/-! ## The range -/

theorem HeapInv.segments_tile {h : Heap} (hi : HeapInv h) :
    Tiles h.heapArena.toNat (h.segments.map fun S => (S.toNat, growthSize.toNat))
      h.arenaNext.toNat := by
  have hstarts : ∀ (i : Nat) p, (h.segments.map BitVec.toNat)[i]? = some p →
      p = h.heapArena.toNat + i • growthSize.toNat := by
    intro i p hp
    obtain ⟨S, hS, rfl⟩ := by simpa using hp
    exact hi.segment_at i S hS
  have htiles := tiles_of_getElem? hstarts
  rw [List.map_map, List.length_map] at htiles
  rw [hi.arenaNext]
  exact htiles

theorem HeapInv.mem_segment_iff {h : Heap} (hi : HeapInv h) {S p : W} (hS : S ∈ h.segments) :
    S ≤ p ∧ p < S + growthSize ↔
      S.toNat ≤ p.toNat ∧ p.toNat < S.toNat + growthSize.toNat := by
  have huser := (hi.segment_user hS).2
  have hend : (S + growthSize).toNat = S.toNat + growthSize.toNat := toNat_add_of_lt (by omega)
  rw [BitVec.le_def, BitVec.lt_def, hend]

theorem HeapInv.isHeapPointer_iff {h : Heap} (hi : HeapInv h) (p : W) (smallHeapOnly : Bool) :
    isHeapPointer h p smallHeapOnly = true ↔ h.heapArena ≤ p ∧ p < h.arenaNext := by
  rw [isHeapPointer_eq, searchSegments_eq_true, BitVec.le_def, BitVec.lt_def,
    hi.segments_tile.mem_iff]
  constructor
  · rintro ⟨S, hS, hin⟩
    exact ⟨_, List.mem_map_of_mem hS, (hi.mem_segment_iff hS).mp hin⟩
  · rintro ⟨x, hx, hin⟩
    obtain ⟨S, hS, rfl⟩ := List.mem_map.mp hx
    exact ⟨S, hS, (hi.mem_segment_iff hS).mpr hin⟩

/-! ## The blocks -/

section

variable {C : Type} [DecidableEq C]

/-- The block lies in one of the segments. -/
def InSegment (segments : List W) (b : W × W) : Prop :=
  ∃ S ∈ segments, S.toNat ≤ b.1.toNat ∧ b.1.toNat + b.2.toNat ≤ S.toNat + growthSize.toNat

theorem InSegment.mono {segments segments' : List W} (hsub : segments ⊆ segments') {b : W × W}
    (hb : InSegment segments b) : InSegment segments' b := by
  obtain ⟨S, hS, hin⟩ := hb
  exact ⟨S, hsub hS, hin⟩

theorem CallInv.block_in {w : World C} (hi : CallInv w) {call : AllocCall C} {r : World C × W}
    (ho : AllocOutcome w call r) (hne : r.2 ≠ 0) :
    InSegment r.1.heap.segments (r.2, call.size) := by
  cases ho with
  | refused => exact absurd rfl hne
  | full => exact absurd rfl hne
  | served c _ _ hfits =>
    obtain ⟨S, hS, hin, -, hle⟩ := hi.served_in hfits
    exact ⟨S, hS, Nat.le_of_add_right_le hin.gap_le, hin.room hle⟩
  | carved c hmiss hcount =>
    have hfit := (sizeRefused_eq_false hmiss.size).2
    have hgap := (hi.arenaNext_gap hcount).1
    refine ⟨w.heap.arenaNext, ?_, ?_, ?_⟩
    · rw [World.setCtx_heap, w.grown_segments c]
      simp
    · dsimp only
      omega
    · dsimp only
      omega

theorem blocks_inSegment_run {h : Heap} (hf : Fresh h) (calls : List (AllocCall C)) :
    let r := (blockMachine C).run (.start h, []) calls
    CallInv r.1 ∧ ∀ b ∈ r.2, InSegment r.1.heap.segments b := by
  refine (blockMachine C).run_inv
    (P := fun r => CallInv r.1 ∧ ∀ b ∈ r.2, InSegment r.1.heap.segments b)
    (fun r call hi => ?_) ⟨hf.callInv, fun b hb => by cases hb⟩ calls
  obtain ⟨hcalls, hblocks⟩ := hi
  have ho := alloc_outcome hcalls.heap call
  refine ⟨hcalls.outcome ho, fun b hb => ?_⟩
  have hold : b ∈ r.2 → InSegment _ b := fun hb => (hblocks b hb).mono ho.segments_prefix.subset
  simp only [Mealy.next, blockMachine, Mealy.observed, recordBlock] at hb
  split at hb
  · exact hold hb
  · rename_i hne
    rcases List.mem_append.mp hb with hb | hb
    · exact hold hb
    · rw [List.mem_singleton.mp hb]
      exact hcalls.block_in ho hne

/-- In every state that `Alloc` calls lead to, the search of the segment table is the range test
`g_heap_arena ≤ p < g_arena_next`. It is false while there is no segment, true of every byte of
every block handed out, and false of the part of the arena that is not carved yet. -/
theorem isHeapPointer_run {h : Heap} (hb : Booted h) (calls : List (AllocCall C))
    (smallHeapOnly : Bool) :
    let r := (blockMachine C).run (.start h, []) calls
    (∀ p, isHeapPointer r.1.heap p smallHeapOnly = true ↔
      r.1.heap.heapArena ≤ p ∧ p < r.1.heap.arenaNext) ∧
    (r.1.heap.segmentsCount = 0 → ∀ p, isHeapPointer r.1.heap p smallHeapOnly = false) ∧
    (∀ b ∈ r.2, ∀ k, k < b.2.toNat →
      isHeapPointer r.1.heap (b.1 + BitVec.ofNat 64 k) smallHeapOnly = true) ∧
    (∀ p, r.1.heap.arenaNext ≤ p → p < r.1.heap.heapArena + heapArenaSize →
      isHeapPointer r.1.heap p smallHeapOnly = false) := by
  intro r
  obtain ⟨hi, hblocks⟩ := blocks_inSegment_run hb.fresh calls
  refine ⟨fun p => hi.heap.isHeapPointer_iff p _, fun h0 p => if_pos h0, fun b hmem k hk => ?_,
    fun p hp _ => ?_⟩
  · obtain ⟨S, hS, hge, hle⟩ := hblocks b hmem
    have huser := (hi.heap.segment_user hS).2
    have hoff : (BitVec.ofNat 64 k).toNat = k :=
      (BitVec.toNat_ofNat _ _).trans (Nat.mod_eq_of_lt (by omega))
    have hbyte : (b.1 + BitVec.ofNat 64 k).toNat = b.1.toNat + k := by
      rw [toNat_add_of_lt (by omega), hoff]
    rw [isHeapPointer_eq, searchSegments_eq_true]
    refine ⟨S, hS, (hi.heap.mem_segment_iff hS).mpr ?_⟩
    omega
  · rw [← Bool.not_eq_true, hi.heap.isHeapPointer_iff, not_and, BitVec.not_lt]
    exact fun _ => hp

theorem isHeapPointer_two_segments :
    let r := (blockMachine Bool).run (.start (.bootedAt 0x7f0000000000), [])
      [⟨some true, 1048552, 0⟩, ⟨some true, 24, 0⟩]
    isHeapPointer r.1.heap 0x7f0000100000 true = true ∧
      isHeapPointer r.1.heap 0x7f0000200000 true = false := by
  have hrun := isHeapPointer_run booted_high
    [⟨some true, 1048552, 0⟩, ⟨some true, 24, 0⟩] true
  exact ⟨(hrun.1 _).mpr (by decide), hrun.2.2.2 _ (by decide) (by decide)⟩

end

end MiniGC
