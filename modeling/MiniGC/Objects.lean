import MiniGC.Heap.Lookup
import MiniGC.Heap.Retire
import MiniGC.Mark.Bits

/-!
# MiniGC.Objects

The objects that the EE makes of the blocks it was given. An object is known by the address of the
word that holds its type; its header lies in front of that word, and its size counts the header, so
an object ends where the header of the next one starts.

* `ObjectBlock`         the block has room for a header and a type.
* `Objects.ofBlocks`   blocks that do not overlap give objects whose marks do not interfere.
* `allocated_objects`  so marking the objects of any run of the threads is marking a set, which
  touches nothing else of any object; and all of each object lies in the heap.
-/

namespace MiniGC

open Tiling

/-- The padding of `ObjHeader` is there where `_WIN64` is defined. -/
def sizeofObjHeader (win64 : Bool) : W := if win64 then 8 else 4

def getHeader (win64 : Bool) (obj : W) : W := obj - sizeofObjHeader win64

/-- A block of the user half of the address space, with room for a header and a type. -/
structure ObjectBlock (b : W × W) : Prop where
  header : 8 ≤ b.1.toNat
  size : 16 ≤ b.2.toNat
  user : b.1.toNat + b.2.toNat ≤ 2 ^ 63

theorem sizeofObjHeader_le (win64 : Bool) : (sizeofObjHeader win64).toNat ≤ 8 := by
  cases win64 <;> decide

/-- A byte of an object, counted from the header. -/
theorem ObjectBlock.byte_toNat {b : W × W} (hb : ObjectBlock b) (win64 : Bool) {k : Nat}
    (hk : k < b.2.toNat) : (getHeader win64 b.1 + BitVec.ofNat 64 k).toNat =
      b.1.toNat - (sizeofObjHeader win64).toNat + k := by
  have hhdr := sizeofObjHeader_le win64
  obtain ⟨h1, h2, h3⟩ := hb
  unfold getHeader
  generalize sizeofObjHeader win64 = hdr at hhdr ⊢
  bv_omega

theorem ObjectBlock.outside_word {b : W × W} (hb : ObjectBlock b) {a : W}
    (ha : ¬ (b.1 ≤ a ∧ a < b.1 + 8)) : 8 ≤ (a - b.1).toNat := by
  obtain ⟨h1, h2, h3⟩ := hb
  bv_omega

/-- Every byte of an object but those of its own type word is outside of the type words of all
objects that its block does not overlap. -/
theorem ObjectBlock.byte_outside {b b' : W × W} (hb : ObjectBlock b) (hb' : ObjectBlock b')
    (h : Apart (b.1.toNat, b.2.toNat) (b'.1.toNat, b'.2.toNat)) (win64 : Bool) {k : Nat}
    (hk : k < b.2.toNat) : 8 ≤ (getHeader win64 b.1 + BitVec.ofNat 64 k - b'.1).toNat := by
  have hhdr := sizeofObjHeader_le win64
  have hbyte := hb.byte_toNat win64 hk
  obtain ⟨h1, h2, h3⟩ := hb
  obtain ⟨h1', h2', h3'⟩ := hb'
  generalize getHeader win64 b.1 + BitVec.ofNat 64 k = a at hbyte ⊢
  simp only [Apart] at h
  rcases h with h | h <;> bv_omega

theorem pairwise_getElem {blocks : List (W × W)}
    (hapart : (blocks.map fun b => (b.1.toNat, b.2.toNat)).Pairwise Apart)
    {i j : Fin blocks.length} (hne : i ≠ j) :
    Apart (blocks[i].1.toNat, blocks[i].2.toNat) (blocks[j].1.toNat, blocks[j].2.toNat) := by
  rw [List.pairwise_map, List.pairwise_iff_getElem] at hapart
  rcases lt_or_gt_of_ne (Fin.val_ne_of_ne hne) with h | h
  · exact hapart i j i.isLt j.isLt h
  · exact (hapart j i j.isLt i.isLt h).symm

/-- The objects in blocks that do not overlap. -/
def Objects.ofBlocks (blocks : List (W × W)) (hblock : ∀ b ∈ blocks, ObjectBlock b)
    (hapart : (blocks.map fun b => (b.1.toNat, b.2.toNat)).Pairwise Apart) :
    Objects (Fin blocks.length) where
  addr i := blocks[i].1
  apart i j hne := by
    obtain ⟨h1, h2, h3⟩ := hblock blocks[i] (List.getElem_mem _)
    obtain ⟨h1', h2', h3'⟩ := hblock blocks[j] (List.getElem_mem _)
    rcases pairwise_getElem hapart hne with h | h <;> bv_omega

section

variable {T C : Type}

/-- The blocks of a ledger that hold objects. -/
def Ledger.objects (L : Ledger C) : List (W × W) :=
  (L.handed.map fun x => (x.ptr, x.size)).filter fun b => 16 ≤ b.2.toNat

namespace Inv

variable {owner : C → T} {s : Threads T C} {L : Ledger C}

/-- An object lies in one segment, behind its gap. -/
theorem object_segment (hi : Inv owner s L) {b : W × W} (hb : b ∈ L.objects) :
    ∃ S ∈ s.world.heap.segments, S.toNat + beginGap.toNat ≤ b.1.toNat ∧
      b.1.toNat + b.2.toNat ≤ S.toNat + growthSize.toNat := by
  obtain ⟨hmem, hsize⟩ := List.mem_filter.mp hb
  obtain ⟨x, hx, rfl⟩ := List.mem_map.mp hmem
  rcases hi.handed x hx with hS | ⟨-, -, h0⟩
  · obtain ⟨stop, -, htile, hle⟩ := hi.extent _ _ hS
    have hblock : x.block ∈ L.blocks x.seg :=
      List.mem_map_of_mem (List.mem_filter.mpr ⟨hx, decide_eq_true rfl⟩)
    obtain ⟨hstart, hend⟩ := htile.within _ hblock
    exact ⟨x.seg, hi.mem_segments hS, hstart, hend.trans hle⟩
  · have hsize' : 16 ≤ x.size.toNat := of_decide_eq_true hsize
    rw [h0] at hsize'
    exact absurd hsize' (by decide)

theorem object_block (hi : Inv owner s L) {b : W × W} (hb : b ∈ L.objects) : ObjectBlock b := by
  obtain ⟨S, hS, hstart, hend⟩ := hi.object_segment hb
  have huser := (hi.heap.segment_user hS).2
  rw [beginGap_toNat] at hstart
  exact ⟨by omega, of_decide_eq_true (List.mem_filter.mp hb).2, by omega⟩

theorem objects_apart (hi : Inv owner s L) :
    (L.objects.map fun b => (b.1.toNat, b.2.toNat)).Pairwise Apart := by
  have hall := hi.handed_apart
  have hmap : L.handed.map Handout.block =
      (L.handed.map fun x => (x.ptr, x.size)).map fun b => (b.1.toNat, b.2.toNat) := by
    rw [List.map_map]
    rfl
  rw [hmap] at hall
  exact hall.sublist (List.filter_sublist.map _)

/-- `IsHeapPointer` knows every byte of every object, its header included. -/
theorem object_in_heap (hi : Inv owner s L) {b : W × W} (hb : b ∈ L.objects) (win64 : Bool)
    {k : Nat} (hk : k < b.2.toNat) (smallHeapOnly : Bool) :
    isHeapPointer s.world.heap (getHeader win64 b.1 + BitVec.ofNat 64 k) smallHeapOnly = true := by
  obtain ⟨S, hS, hstart, hend⟩ := hi.object_segment hb
  have hbyte := (hi.object_block hb).byte_toNat win64 hk
  have hhdr := sizeofObjHeader_le win64
  rw [beginGap_toNat] at hstart
  rw [isHeapPointer_eq, searchSegments_eq_true]
  exact ⟨S, hS, (hi.heap.mem_segment_iff hS).mpr (by omega)⟩

end Inv

variable [DecidableEq T] [DecidableEq C]

/-- In every order of actions of the threads, with contexts taken back at any moment, the objects in
the blocks handed out lie in the heap with their headers, and however they are marked, unmarked and
tested, the answers are those of a set of objects. Of no object does any byte change outside of its
type word, and there its type does not. -/
theorem allocated_objects (win64 : Bool) (owner : C → T) {h : Heap} (hb : Booted h)
    (acts : List (RetireAct T C)) (mem : Memory) :
    let r := (retireMachine owner).run (.start h, .empty) acts
    let objects := r.2.objects
    ∃ O : Objects (Fin objects.length), (∀ i, O.addr i = objects[i].1) ∧
      (∀ i, ∀ k < objects[i].2.toNat, isHeapPointer r.1.world.heap
        (getHeader win64 (O.addr i) + BitVec.ofNat 64 k) false = true) ∧
      ∀ calls, let mem' := (markMachine O).run mem calls
        (markMachine O).trace mem calls =
            (setMachine _).trace (fun i => isMarked mem (O.addr i)) calls ∧
          ∀ i, getMethodTable mem' (O.addr i) = getMethodTable mem (O.addr i) ∧
            ∀ k < objects[i].2.toNat,
              let a := getHeader win64 (O.addr i) + BitVec.ofNat 64 k
              ¬ (O.addr i ≤ a ∧ a < O.addr i + 8) → mem' a = mem a := by
  intro r objects
  have hi : Inv owner r.1 r.2 := ((hb.fresh.retireInv owner).run acts).1.inv
  have hblock : ∀ b ∈ objects, ObjectBlock b := fun b hb => hi.object_block hb
  let O := Objects.ofBlocks objects hblock hi.objects_apart
  refine ⟨O, fun _ => rfl, fun i k hk => hi.object_in_heap (List.getElem_mem _) win64 hk false,
    fun calls => ?_⟩
  obtain ⟨htable, houtside⟩ := markMachine_kept O mem calls
  refine ⟨(markMachine_refines O mem calls).1, fun i => ⟨htable i, ?_⟩⟩
  intro k hk a ha
  refine houtside a fun j => ?_
  by_cases hij : i = j
  · subst hij
    exact (hblock _ (List.getElem_mem _)).outside_word ha
  · exact (hblock _ (List.getElem_mem _)).byte_outside (hblock _ (List.getElem_mem _))
      (pairwise_getElem hi.objects_apart hij) win64 hk

/-- The header of the object that a context was given after it was taken back. -/
theorem allocated_objects_retired :
    let r := (retireMachine id).run (.start (.bootedAt 0x7f0000000000), .empty) retiredTwice
    r.2.objects = [(0x7f0000000018, 1000), (0x7f0000100018, 24)] ∧
      isHeapPointer r.1.world.heap (getHeader true 0x7f0000100018) false = true := by
  obtain ⟨O, haddr, hheap, -⟩ :=
    allocated_objects true id booted_high retiredTwice fun _ => 0
  have hlast := hheap ⟨1, by decide⟩ 0 (by decide)
  rw [haddr, BitVec.add_zero] at hlast
  exact ⟨by decide, hlast⟩

end

end MiniGC
