import MiniGC.Platform

/-!
# MiniGC.Mark.Layout

The bytes of objects, method tables and pointer maps, as the classes of `MiniGCHeap.cpp` and
`gcdesc.h` read them.

* `Object`        at `obj`: `m_pMethTab` at 0, `m_dwLength` at 8. Bit 0 of `m_pMethTab` is the mark.
* `MethodTable`   at `mt`: `m_componentSize` at 0, `m_flags` at 2, `m_baseSize` at 4.
* `CGCDesc`       below `map`: the number of series, then the series from the highest down.
-/

namespace MiniGC

abbrev Memory := W → BitVec 8

/-! ## Little-endian words -/

def read16 (mem : Memory) (p : W) : BitVec 16 := mem (p + 1) ++ mem p

def read32 (mem : Memory) (p : W) : BitVec 32 := read16 mem (p + 2) ++ read16 mem p

def read64 (mem : Memory) (p : W) : W := read32 mem (p + 4) ++ read32 mem p

def write64 (mem : Memory) (p v : W) : Memory := fun a =>
  let i := (a - p).toNat
  if i < 8 then v.extractLsb' (8 * i) 8 else mem a

theorem write64_apply (mem : Memory) (p v : W) {i : W} (hi : i.toNat < 8) :
    write64 mem p v (p + i) = v.extractLsb' (8 * i.toNat) 8 := by
  have h : p + i - p = i := by rw [BitVec.add_comm, BitVec.add_sub_cancel]
  show (if (p + i - p).toNat < 8 then _ else _) = _
  rw [h, if_pos hi]

theorem read16_write64 (mem : Memory) (p v : W) {i : W} (hi : i.toNat < 7) :
    read16 (write64 mem p v) (p + i) = v.extractLsb' (8 * i.toNat) 16 := by
  have hnext : (i + 1).toNat = i.toNat + 1 := toNat_add_of_lt (y := 1) (by simp; omega)
  rw [read16, BitVec.add_assoc, write64_apply mem p v (by omega), write64_apply mem p v (by omega),
    hnext, Nat.mul_add_one]
  exact BitVec.extractLsb'_append_extractLsb'_eq_extractLsb' rfl

theorem read32_write64 (mem : Memory) (p v : W) {i : W} (hi : i.toNat < 5) :
    read32 (write64 mem p v) (p + i) = v.extractLsb' (8 * i.toNat) 32 := by
  have hnext : (i + 2).toNat = i.toNat + 2 := toNat_add_of_lt (y := 2) (by simp; omega)
  rw [read32, BitVec.add_assoc, read16_write64 mem p v (by omega),
    read16_write64 mem p v (by omega), hnext, Nat.mul_add]
  exact BitVec.extractLsb'_append_extractLsb'_eq_extractLsb' rfl

/-- A write of eight bytes is read back. -/
@[simp] theorem read64_write64 (mem : Memory) (p v : W) : read64 (write64 mem p v) p = v := by
  have hlow : read32 (write64 mem p v) p = v.extractLsb' 0 32 := by
    simpa using read32_write64 mem p v (i := 0) (by decide)
  rw [read64, read32_write64 mem p v (by decide), hlow]
  exact (BitVec.extractLsb'_append_extractLsb'_eq_extractLsb' rfl).trans BitVec.extractLsb'_eq_self

/-! ## `Object` -/

/-- `sizeof(Object)`: a pointer, a `uint32_t`, and the padding behind it. -/
def sizeofObject : W := 16

/-- `GC_MARKED`. -/
def gcMarked : W := 1

def rawGetMethodTable (mem : Memory) (obj : W) : W := read64 mem obj

def rawSetMethodTable (mem : Memory) (obj pMT : W) : Memory := write64 mem obj pMT

def getMethodTable (mem : Memory) (obj : W) : W := rawGetMethodTable mem obj &&& ~~~gcMarked

def isMarked (mem : Memory) (obj : W) : Bool := rawGetMethodTable mem obj &&& gcMarked != 0

def setMarked (mem : Memory) (obj : W) : Memory :=
  rawSetMethodTable mem obj (rawGetMethodTable mem obj ||| gcMarked)

theorem isMarked_setMarked (mem : Memory) (obj : W) : isMarked (setMarked mem obj) obj = true := by
  have h : (rawGetMethodTable mem obj ||| gcMarked) &&& gcMarked = gcMarked := by
    ext i hi
    cases hbit : gcMarked[i] <;> simp [hbit]
  rw [isMarked, setMarked, rawSetMethodTable, rawGetMethodTable, read64_write64, h]
  rfl

def getNumComponents (mem : Memory) (obj : W) : BitVec 32 := read32 mem (obj + 8)

/-! ## `MethodTable` -/

def mtFlagContainsPointers : BitVec 16 := 0x0100
def mtFlagCollectible : BitVec 16 := 0x1000
def mtFlagHasComponentSize : BitVec 16 := 0x8000

def getComponentSize (mem : Memory) (mt : W) : BitVec 16 := read16 mem mt

def getFlags (mem : Memory) (mt : W) : BitVec 16 := read16 mem (mt + 2)

def getBaseSize (mem : Memory) (mt : W) : BitVec 32 := read32 mem (mt + 4)

def containsPointers (mem : Memory) (mt : W) : Bool :=
  getFlags mem mt &&& mtFlagContainsPointers != 0

def collectible (mem : Memory) (mt : W) : Bool := getFlags mem mt &&& mtFlagCollectible != 0

def hasComponentSize (mem : Memory) (mt : W) : Bool :=
  getFlags mem mt &&& mtFlagHasComponentSize != 0

/-- `GetTotalSize`, computed in `uint32_t`. -/
def getTotalSize (mem : Memory) (obj : W) : BitVec 32 :=
  let mT := getMethodTable mem obj
  getBaseSize mem mT +
    if hasComponentSize mem mT then
      getNumComponents mem obj * (getComponentSize mem mT).setWidth 32
    else 0

/-! ## `CGCDesc` -/

def getCGCDescFromMT (pMT : W) : W := pMT

def getNumSeries (mem : Memory) (map : W) : W := read64 mem (map - 8)

/-- `sizeof(CGCDescSeries)`. -/
def sizeofSeries : W := 16

def computeSize (numSeries : W) : W := 8 + numSeries * sizeofSeries

def getLowestSeries (mem : Memory) (map : W) : W := map - computeSize (getNumSeries mem map)

def getHighestSeries (map : W) : W := map - 8 - sizeofSeries

def getSeriesSize (mem : Memory) (cur : W) : W := read64 mem cur

def getSeriesOffset (mem : Memory) (cur : W) : W := read64 mem (cur + 8)

end MiniGC
