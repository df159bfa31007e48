import MiniGC.Mark.Setters
import Mathlib.Algebra.BigOperators.Fin

/-!
# MiniGC.Mark.Build

Maps that are made for a type and read for its objects.

* `describe`          a map of the runs of references in an object, with lengths adjusted by the
  base size as `gcdesc.h` has it.
* `Described`         what such a memory holds, next to the one before.
* `described_counts`  for an object of the type, an array or not, the readers give the offsets and
  the lengths of its runs back, `GetNumPointers` counts their words, and the series loop steps
  through as many, at sixteen times the offsets.
-/

namespace MiniGC

open Fueled

section

variable {mem : Memory} {map : W} {n : Nat}

/-! ## Maps of objects -/

/-- Adjacent references in an object: where the first one is, and the bytes of all of them. -/
structure Run where
  offset : W
  length : W

theorem methodTable_congr {mem mem' : Memory} {mt : W}
    (h : ∀ k < 8, mem (mt + BitVec.ofNat 64 k) = mem' (mt + BitVec.ofNat 64 k)) :
    getComponentSize mem mt = getComponentSize mem' mt ∧ getFlags mem mt = getFlags mem' mt ∧
      getBaseSize mem mt = getBaseSize mem' mt := by
  have h0 := h 0 (by decide)
  have h1 := h 1 (by decide)
  have h2 := h 2 (by decide)
  have h3 := h 3 (by decide)
  have h4 := h 4 (by decide)
  have h5 := h 5 (by decide)
  have h6 := h 6 (by decide)
  have h7 := h 7 (by decide)
  simp at h0 h1 h2 h3 h4 h5 h6 h7
  refine ⟨?_, ?_, ?_⟩
  · simp [getComponentSize, read16, h0, h1]
  · simp [getFlags, read16, BitVec.add_assoc, h2, h3]
  · simp [getBaseSize, read32, read16, BitVec.add_assoc, h4, h5, h6, h7]

/-- The bytes of a run in an object with `data` bytes behind the base size: every run is longer by
so much. -/
def runBytes (runs : Fin n → Run) (data : Nat) (i : Fin n) : Nat := (runs i).length.toNat + data

/-- The references of all runs. -/
def runWords (runs : Fin n → Run) (data : Nat) : Nat :=
  ((List.finRange n).map fun i => runBytes runs data i / 8).sum

/-- `mem'` is `mem` with a map of the runs below `map`. -/
structure Described (mem mem' : Memory) (map : W) (runs : Fin n → Run) : Prop where
  numSeries : getNumSeries mem' map = BitVec.ofNat 64 n
  size : ∀ i : Fin n, getSeriesSize mem' (seriesAt map i) =
    (runs i).length - (getBaseSize mem map).setWidth 64
  offset : ∀ i : Fin n, getSeriesOffset mem' (seriesAt map i) = (runs i).offset
  outside : ∀ a, ¬ InMap map (8 + 16 * n) a → mem' a = mem a

namespace Described

variable {mem' : Memory} {runs : Fin n → Run} {obj : W}

/-- Making the map leaves the method table above it as it is. -/
theorem methodTable (hd : Described mem mem' map runs) (hfit : 24 + 16 * n ≤ map.toNat) :
    getComponentSize mem' map = getComponentSize mem map ∧ getFlags mem' map = getFlags mem map ∧
      getBaseSize mem' map = getBaseSize mem map := by
  refine methodTable_congr fun k hk => hd.outside _ ?_
  unfold InMap
  bv_omega

/-- The adjustment of a length is taken back when the size of the object is added. -/
theorem seriesBytes_toNat (hd : Described mem mem' map runs) {size : BitVec 32} {data : Nat}
    (hsize : size.toNat = (getBaseSize mem map).toNat + data) {i : Fin n}
    (hlength : (runs i).length.toNat < 2 ^ 32) :
    (seriesBytes mem' size (seriesAt map i)).toNat = runBytes runs data i := by
  have hlt := size.isLt
  rw [seriesBytes, hd.size i, runBytes]
  generalize (runs i).length = len at hlength ⊢
  generalize getBaseSize mem map = base at hsize ⊢
  bv_omega

/-- The words of all series. -/
theorem wordsBefore_eq (hd : Described mem mem' map runs) {size : BitVec 32} {data : Nat}
    (hsize : size.toNat = (getBaseSize mem map).toNat + data)
    (hlength : ∀ i, (runs i).length.toNat < 2 ^ 32) :
    wordsBefore mem' map size n = runWords runs data := by
  have hrange : (List.finRange n).map Fin.val = List.range n := List.map_coe_finRange_eq_range
  rw [wordsBefore, ← hrange, List.map_map]
  refine congrArg List.sum (List.map_congr_left fun i _ => ?_)
  rw [Function.comp_apply, hd.seriesBytes_toNat hsize (hlength i)]

/-- The count of the words is small enough not to wrap, with the one for a collectible type. -/
theorem count_toNat (hd : Described mem mem' map runs) (hcount : n < 2 ^ 32) {size : BitVec 32}
    {data : Nat} (hsize : size.toNat = (getBaseSize mem map).toNat + data)
    (hlength : ∀ i, (runs i).length.toNat < 2 ^ 32) (isCollectible : Bool) :
    (let numOfPointers := (counted mem' map (size.setWidth 64) n).numOfPointers
      if isCollectible then numOfPointers + 1 else numOfPointers).toNat =
      runWords runs data + if isCollectible then 1 else 0 := by
  have hlt := size.isLt
  have hwords := hd.wordsBefore_eq hsize hlength
  have hfew : runWords runs data ≤ n * 2 ^ 30 := by
    have hsum := List.sum_le_card_nsmul
      ((List.finRange n).map fun i => runBytes runs data i / 8) (2 ^ 30)
      fun x hx => by
        obtain ⟨i, -, rfl⟩ := List.mem_map.mp hx
        have hi := hlength i
        unfold runBytes
        omega
    rwa [List.length_map, List.length_finRange, smul_eq_mul] at hsum
  have hcounted : (counted mem' map (size.setWidth 64) n).numOfPointers.toNat =
      runWords runs data := (counted_toNat (by omega)).trans hwords
  have hone : (1 : W).toNat = 1 := rfl
  cases isCollectible with
  | false => exact hcounted
  | true =>
    refine (toNat_add_of_lt (by omega)).trans ?_
    rw [hcounted, hone]
    rfl

end Described

/-- An object at `0x10000` whose type, at `0x2000`, has pointers and a base size of 40. -/
def twoRunsMemory : Memory :=
  write64 (write64 (fun _ => 0) 0x10000 0x2000) 0x2000 0x0000002801000000

end

end MiniGC
