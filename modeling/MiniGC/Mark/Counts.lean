import MiniGC.Mark.Slots

/-!
# MiniGC.Mark.Counts

`CGCDesc::GetNumPointers`, which counts the slots of an object without visiting them.

* `getNumPointers`   a walk over the same series, dividing where marking steps.
* `SeriesInOrder`    the series go up through the object, and do not overlap.
* `slots_counted_iff`   the series loop then ends in every build, its assertion holds for every
  series, and it steps through as many slots as are counted exactly if the last series ends inside
  the address space.
-/

namespace MiniGC

open Fueled

/-! ## The code -/

/-- The locals of the loop of `GetNumPointers`. -/
structure PointerCount where
  numOfPointers : W
  cur : W
  deriving DecidableEq

/-- The body of the loop, for `sizeof(JSlot)` 8. -/
def countSeries (mem : Memory) (objectSize : W) (s : PointerCount) : PointerCount where
  numOfPointers := s.numOfPointers + (getSeriesSize mem s.cur + objectSize) / 8
  cur := s.cur - sizeofSeries

/-- The loop over `val_serie[0 .. cnt)`, downwards. `HALF_SIZE_T` has 16 bits: nothing in the
repository defines `HOST_64BIT`. -/
def countRepeating (mem : Memory) (cur : W) (cnt : Int) : W :=
  (List.range (-cnt).toNat).foldl
    (fun numOfPointers i =>
      numOfPointers + (read16 mem (cur - 4 * BitVec.ofNat 64 i)).setWidth 64) 0

def getNumPointers (mem : Memory) (pMT objectSize numComponents : W) (fuel : Nat) : Option W := do
  let numOfPointers ←
    if containsPointers mem pMT then
      let map := getCGCDescFromMT pMT
      let cur := getHighestSeries map
      let cnt := getNumSeries mem map
      if 0 ≤ cnt.toInt then
        let last := getLowestSeries mem map
        (doWhile (fun s => decide (last ≤ s.cur)) (fun _ s => some (countSeries mem objectSize s))
          fuel ⟨0, cur⟩).map PointerCount.numOfPointers
      else some (countRepeating mem cur cnt.toInt * numComponents)
    else some 0
  some (if collectible mem pMT then numOfPointers + 1 else numOfPointers)

/-! ## The series of an object -/

/-- The series have slots, and go up from offset to offset without an overlap. -/
structure SeriesInOrder (mem : Memory) (map : W) (size : BitVec 32) : Prop where
  whole : WholeSlots mem map size
  pos : ∀ i < seriesCount mem map, 0 < (seriesBytes mem size (seriesAt map i)).toNat
  apart : ∀ i, i + 1 < seriesCount mem map →
    (getSeriesOffset mem (seriesAt map i)).toNat + (seriesBytes mem size (seriesAt map i)).toNat ≤
      (getSeriesOffset mem (seriesAt map (i + 1))).toNat
  offset : ∀ i < seriesCount mem map, (getSeriesOffset mem (seriesAt map i)).toNat < 2 ^ 32

/-- The slots of the first `i` series. -/
def wordsBefore (mem : Memory) (map : W) (size : BitVec 32) (i : Nat) : Nat :=
  ((List.range i).map fun j => (seriesBytes mem size (seriesAt map j)).toNat / 8).sum

section

variable {mem : Memory} {obj map : W} {size : BitVec 32}

theorem wordsBefore_succ (i : Nat) :
    wordsBefore mem map size (i + 1) =
      wordsBefore mem map size i + (seriesBytes mem size (seriesAt map i)).toNat / 8 := by
  simp [wordsBefore, List.range_succ]

theorem walked_succ_length (i : Nat) :
    (walked mem obj map size (i + 1)).slots.length =
      (walked mem obj map size i).slots.length + seriesSteps mem obj size (seriesAt map i) := by
  rw [walked_succ, afterSeries, List.length_append, visitedSlots, length_slotsFrom, walked_cur]

namespace SeriesInOrder

/-- The series before one fit below its offset. -/
theorem wordsBefore_le (ho : SeriesInOrder mem map size) {i : Nat} (hi : i < seriesCount mem map) :
    8 * wordsBefore mem map size i ≤ (getSeriesOffset mem (seriesAt map i)).toNat := by
  induction i with
  | zero => exact Nat.zero_le _
  | succ i ih =>
    have hbefore := ih (Nat.lt_of_succ_lt hi)
    have hapart := ho.apart i hi
    rw [wordsBefore_succ]
    omega

/-- So few slots that counting them does not wrap. -/
theorem wordsBefore_lt (ho : SeriesInOrder mem map size) {i : Nat} (hi : i ≤ seriesCount mem map) :
    wordsBefore mem map size i < 2 ^ 62 := by
  cases i with
  | zero => exact Nat.two_pow_pos 62
  | succ i =>
    have hbefore := ho.wordsBefore_le hi
    have hoffset := ho.offset i hi
    have hbytes := (seriesBytes mem size (seriesAt map i)).isLt
    rw [wordsBefore_succ]
    omega

theorem seriesStart_toNat (ho : SeriesInOrder mem map size) (hobj : obj.toNat < 2 ^ 63) {i : Nat}
    (hi : i < seriesCount mem map) :
    (seriesStart mem obj (seriesAt map i)).toNat =
      obj.toNat + 16 * (getSeriesOffset mem (seriesAt map i)).toNat := by
  have hoffset := ho.offset i hi
  have hmul : (sizeofObject * getSeriesOffset mem (seriesAt map i)).toNat =
      16 * (getSeriesOffset mem (seriesAt map i)).toNat :=
    (BitVec.toNat_mul _ _).trans (Nat.mod_eq_of_lt (by show 16 * _ < _; omega))
  rw [seriesStart, toNat_add_of_lt (by omega), hmul]

/-- Every series but the last ends below the start of the next one. -/
theorem fits (ho : SeriesInOrder mem map size) (hobj : obj.toNat < 2 ^ 63) {i : Nat}
    (hi : i + 1 < seriesCount mem map) :
    seriesFits mem obj size (seriesAt map i) ∧
      (seriesStart mem obj (seriesAt map i)).toNat +
        (seriesBytes mem size (seriesAt map i)).toNat ≤
          (seriesStart mem obj (seriesAt map (i + 1))).toNat := by
  have hstart := ho.seriesStart_toNat hobj (Nat.lt_of_succ_lt hi)
  have hnext := ho.seriesStart_toNat hobj hi
  have hapart := ho.apart i hi
  have hoffset := ho.offset (i + 1) hi
  refine ⟨?_, by omega⟩
  show _ + _ < _
  omega

/-- The cursor left over from the previous series is never above the next one. -/
theorem assertHolds (ho : SeriesInOrder mem map size) (hobj : obj.toNat < 2 ^ 63) {i : Nat}
    (hi : i < seriesCount mem map) : AssertHolds mem obj map size i := by
  cases i with
  | zero => exact assertHolds_zero mem obj map size
  | succ i =>
    obtain ⟨hfits, hle⟩ := ho.fits hobj hi
    exact (assertHolds_succ ho.whole (Nat.lt_of_succ_lt hi) hfits).mpr hle

/-- The loop gets through in every build. -/
theorem seriesLoop_walked (ho : SeriesInOrder mem map size) (h : NonRepeating mem map)
    (ndebug : Bool) (hobj : obj.toNat < 2 ^ 63) :
    Returns (fun fuel => seriesLoop ndebug mem obj map size fuel)
      (walked mem obj map size (seriesCount mem map)) :=
  seriesLoop_returns ndebug h ho.whole fun _ _ hi => ho.assertHolds hobj hi

theorem walked_asserted (ho : SeriesInOrder mem map size) (hobj : obj.toNat < 2 ^ 63) {i : Nat}
    (hi : i ≤ seriesCount mem map) :
    (walked mem obj map size i).asserted = List.replicate i true := by
  induction i with
  | zero => rfl
  | succ i ih =>
    have hassert : (walked mem obj map size i).parm ≤ seriesStart mem obj (seriesAt map i) :=
      ho.assertHolds hobj hi
    rw [walked_succ, List.replicate_succ']
    simp only [afterSeries, walked_cur, ih (Nat.le_of_succ_le hi), hassert, decide_true]

/-- As many slots as the series before the last one cover, and those of the last one. -/
theorem walked_length (ho : SeriesInOrder mem map size) (hobj : obj.toNat < 2 ^ 63) {i : Nat}
    (hi : i < seriesCount mem map) :
    (walked mem obj map size (i + 1)).slots.length =
      wordsBefore mem map size i + seriesSteps mem obj size (seriesAt map i) := by
  rw [walked_succ_length]
  congr 1
  induction i with
  | zero => rfl
  | succ i ih =>
    rw [walked_succ_length, ih (Nat.lt_of_succ_lt hi), wordsBefore_succ, seriesSteps,
      if_pos (ho.fits hobj hi).1]

end SeriesInOrder

/-! ## The count -/

/-- The locals of `GetNumPointers` behind the first `i` series. -/
def counted (mem : Memory) (map objectSize : W) (i : Nat) : PointerCount :=
  (countSeries mem objectSize)^[i] ⟨0, getHighestSeries map⟩

theorem counted_succ (objectSize : W) (i : Nat) :
    counted mem map objectSize (i + 1) =
      countSeries mem objectSize (counted mem map objectSize i) :=
  Function.iterate_succ_apply' _ _ _

theorem counted_cur (objectSize : W) (i : Nat) :
    (counted mem map objectSize i).cur = seriesAt map i := by
  induction i with
  | zero => simp [counted, seriesAt]
  | succ i ih =>
    rw [counted_succ, countSeries, ih, seriesAt, seriesAt, BitVec.sub_sub, Nat.mul_succ,
      BitVec.ofNat_add]
    rfl

/-- The count is exact where it fits into a word. -/
theorem counted_toNat {i : Nat}
    (hlt : wordsBefore mem map size i < 2 ^ 64) :
    (counted mem map (size.setWidth 64) i).numOfPointers.toNat = wordsBefore mem map size i := by
  induction i with
  | zero => rfl
  | succ i ih =>
    rw [wordsBefore_succ] at hlt ⊢
    have hbefore := ih (by omega)
    have hwords : ((seriesBytes mem size (seriesAt map i)) / 8).toNat =
        (seriesBytes mem size (seriesAt map i)).toNat / 8 := BitVec.toNat_udiv
    have hnext : (counted mem map (size.setWidth 64) (i + 1)).numOfPointers =
        (counted mem map (size.setWidth 64) i).numOfPointers +
          seriesBytes mem size (seriesAt map i) / 8 := by
      rw [counted_succ, countSeries, counted_cur, seriesBytes]
    rw [hnext, toNat_add_of_lt (by rw [hbefore, hwords]; omega), hbefore, hwords]

theorem getNumPointers_returns (h : NonRepeating mem map) (hptr : containsPointers mem map = true)
    (objectSize numComponents : W) :
    Returns (fun fuel => getNumPointers mem map objectSize numComponents fuel)
      (let numOfPointers := (counted mem map objectSize (seriesCount mem map)).numOfPointers
        if collectible mem map then numOfPointers + 1 else numOfPointers) := by
  have hloop : Returns
      (fun fuel => doWhile (fun s => decide (getLowestSeries mem map ≤ s.cur))
        (fun _ s => some (countSeries mem objectSize s)) fuel ⟨0, getHighestSeries map⟩)
      (counted mem map objectSize (seriesCount mem map)) := by
    refine doWhile_returns (counted mem map objectSize) h.pos
      (fun i hi => ⟨0, fun fuel _ => ?_⟩) fun i hi => ?_
    · rw [counted_succ]
    · rw [counted_cur]
      exact decide_eq_decide.mpr (h.lowest_le_iff hi)
  have hrun := hloop.map fun s =>
    if collectible mem map then s.numOfPointers + 1 else s.numOfPointers
  have hcode : ∀ fuel, getNumPointers mem map objectSize numComponents fuel =
      (doWhile (fun s => decide (getLowestSeries mem map ≤ s.cur))
        (fun _ s => some (countSeries mem objectSize s)) fuel ⟨0, getHighestSeries map⟩).map
          fun s => if collectible mem map then s.numOfPointers + 1 else s.numOfPointers := by
    intro fuel
    rw [getNumPointers, if_pos hptr]
    dsimp only
    rw [if_pos (show 0 ≤ (getNumSeries mem (getCGCDescFromMT map)).toInt from h.nonneg),
      Option.map_eq_bind, Option.map_eq_bind]
    exact Option.bind_assoc _ _ _
  simp only [hcode]
  exact hrun

/-! ## The two traversals -/

/-- The walk ends, and not in an assertion, and steps through as many slots as are counted; a
collectible type counts one more. -/
def SlotsCounted (ndebug : Bool) (mem : Memory) (obj map : W) (size : BitVec 32)
    (numComponents : W) : Prop :=
  ∃ w count, Returns (fun fuel => seriesLoop ndebug mem obj map size fuel) w ∧ w.aborted = false ∧
    Returns (fun fuel => getNumPointers mem map (size.setWidth 64) numComponents fuel) count ∧
    count.toNat = w.slots.length + if collectible mem map then 1 else 0

theorem SeriesInOrder.count_toNat (ho : SeriesInOrder mem map size) :
    (let numOfPointers := (counted mem map (size.setWidth 64) (seriesCount mem map)).numOfPointers
      if collectible mem map then numOfPointers + 1 else numOfPointers).toNat =
      wordsBefore mem map size (seriesCount mem map) + if collectible mem map then 1 else 0 := by
  have hlt := ho.wordsBefore_lt (Nat.le_refl _)
  have hcount := counted_toNat (Nat.lt_trans hlt (by decide))
  have hone : (1 : W).toNat = 1 := rfl
  dsimp only
  split
  · rw [toNat_add_of_lt (by omega), hcount, hone]
  · rw [hcount, Nat.add_zero]

/-- For an object whose series go up and do not overlap, the series loop ends in every build. It
visits each series once, its assertion never fails, and it steps through as many slots as
`GetNumPointers` counts exactly if the stop address of the lowest series does not wrap. -/
theorem slots_counted_iff (ndebug : Bool) (h : NonRepeating mem map)
    (hptr : containsPointers mem map = true) (ho : SeriesInOrder mem map size)
    (hobj : obj.toNat < 2 ^ 63) (numComponents : W) :
    (∃ w, Returns (fun fuel => seriesLoop ndebug mem obj map size fuel) w ∧ w.aborted = false ∧
      w.slots = ((List.range (seriesCount mem map)).flatMap fun i =>
        visitedSlots mem obj size (seriesAt map i)) ∧
      w.asserted = List.replicate (seriesCount mem map) true) ∧
    (SlotsCounted ndebug mem obj map size numComponents ↔
      seriesFits mem obj size (seriesAt map (seriesCount mem map - 1))) := by
  have hwalk := ho.seriesLoop_walked h ndebug hobj
  have hcount := getNumPointers_returns h hptr (size.setWidth 64) numComponents
  refine ⟨⟨_, hwalk, walked_aborted _, walked_slots _, ho.walked_asserted hobj (Nat.le_refl _)⟩, ?_⟩
  have hagree : SlotsCounted ndebug mem obj map size numComponents ↔
      wordsBefore mem map size (seriesCount mem map) =
        (walked mem obj map size (seriesCount mem map)).slots.length := by
    rw [← Nat.add_left_inj (n := if collectible mem map then 1 else 0), ← ho.count_toNat]
    constructor
    · rintro ⟨w, count, hw, -, hc, heq⟩
      rwa [hw.unique hwalk, hc.unique hcount] at heq
    · exact fun heq => ⟨_, _, hwalk, walked_aborted _, hcount, heq⟩
  obtain ⟨last, hlast⟩ := Nat.exists_eq_add_of_le' h.pos
  have hlt : last < seriesCount mem map := by omega
  have hpos := ho.pos last hlt
  have hwhole := Nat.mul_div_cancel' (ho.whole last hlt)
  rw [hagree, hlast, ho.walked_length hobj hlt, wordsBefore_succ, Nat.add_sub_cancel, seriesSteps]
  split
  · exact iff_of_true rfl (by assumption)
  · exact iff_of_false (by omega) (by assumption)

/-! ## A map at the bottom of the address space -/

/-- A map whose lowest series is at address 0: no cursor is below it, and only an assertion ends the
loop. -/
theorem seriesLoop_exit {ndebug : Bool} (hcnt : 0 ≤ (getNumSeries mem map).toInt)
    (hlow : getLowestSeries mem map = 0) {fuel : Nat} {w : SlotWalk}
    (h : seriesLoop ndebug mem obj map size fuel = some w) : w.aborted = true := by
  rw [seriesLoop, if_pos hcnt, hlow] at h
  have hcur : decide (0 ≤ w.cur) = true := decide_eq_true (BitVec.le_def.mpr (Nat.zero_le _))
  have htest := doWhile_exit h
  rw [hcur, Bool.and_true] at htest
  simpa using htest

/-- Without assertions nothing ends it. -/
theorem seriesLoop_endless (hcnt : 0 ≤ (getNumSeries mem map).toInt)
    (hlow : getLowestSeries mem map = 0) (obj : W) (size : BitVec 32) (fuel : Nat) :
    seriesLoop true mem obj map size fuel = none := by
  rw [seriesLoop, if_pos hcnt, hlow]
  refine doWhile_endless (P := fun w => w.aborted = false) (fun w hw => ?_)
    (fun fuel w w' hw hbody => (seriesBody_ndebug hbody).trans hw) fuel rfl
  have hcur : decide (0 ≤ w.cur) = true := decide_eq_true (BitVec.le_def.mpr (Nat.zero_le _))
  rw [hw, hcur]
  rfl

end

/-- A method table at `mt` with pointers and a base size of 40, over a map of two series: one slot
at offset 8, and two at offset 24. -/
def twoSeriesMemory (mt : W) : Memory :=
  let mem := write64 (fun _ => 0) mt 0x0000002801000000
  let mem := write64 mem (mt - 8) 2
  let mem := write64 mem (mt - 16) 8
  let mem := write64 mem (mt - 24) (8 - 40)
  let mem := write64 mem (mt - 32) 24
  write64 mem (mt - 40) (16 - 40)

theorem twoSeries_inOrder : SeriesInOrder (twoSeriesMemory 0x2000) 0x2000 40 where
  whole := by decide
  pos := by decide
  apart i hi := by
    have hcount : seriesCount (twoSeriesMemory 0x2000) 0x2000 = 2 := by decide
    obtain rfl : i = 0 := by omega
    decide
  offset := by decide

theorem slots_counted_two_series :
    SlotsCounted true (twoSeriesMemory 0x2000) 0x10000 0x2000 40 0 ∧
      SlotsCounted false (twoSeriesMemory 0x2000) 0x10000 0x2000 40 0 := by
  have hdesc : NonRepeating (twoSeriesMemory 0x2000) 0x2000 := ⟨by decide, by decide⟩
  exact ⟨(slots_counted_iff true hdesc (by decide) twoSeries_inOrder (by decide) 0).2.mpr
      (by decide),
    (slots_counted_iff false hdesc (by decide) twoSeries_inOrder (by decide) 0).2.mpr
      (by decide)⟩

/-- A method table at `mt` with pointers and a base size of 24, over a map of one series. -/
def oneSeriesMemory (mt seriessize startoffset : W) : Memory :=
  let mem := write64 (fun _ => 0) mt 0x0000001801000000
  let mem := write64 mem (mt - 8) 1
  let mem := write64 mem (mt - 16) startoffset
  write64 mem (mt - 24) seriessize

/-- A series that would end behind the address space has no slot for the walk, and `2^61 - 1` for
the count. Over a map whose series is at address 0 the walk does not end but in a failed assertion,
where assertions are left in. -/
theorem slots_counted_fails :
    let huge := oneSeriesMemory 0x2000 (0 - 32) 8
    let low := oneSeriesMemory 24 (8 - 24) 8
    (containsPointers huge 0x2000 = true ∧ NonRepeating huge 0x2000 ∧
      SeriesInOrder huge 0x2000 24 ∧ ∀ ndebug, ¬ SlotsCounted ndebug huge 0x10000 0x2000 24 0) ∧
    (containsPointers low 24 = true ∧ getNumSeries low 24 = 1 ∧ SeriesInOrder low 24 24 ∧
      (∀ fuel, seriesLoop true low 0x10000 24 24 fuel = none) ∧
      ∀ fuel w, seriesLoop false low 0x10000 24 24 fuel = some w → w.aborted = true) := by
  intro huge low
  have hhuge : SeriesInOrder huge 0x2000 24 := by
    have hcount : seriesCount huge 0x2000 = 1 := by decide
    exact ⟨by decide, by decide, fun i hi => by omega, by decide⟩
  have hlow : SeriesInOrder low 24 24 := by
    have hcount : seriesCount low 24 = 1 := by decide
    exact ⟨by decide, by decide, fun i hi => by omega, by decide⟩
  have hdesc : NonRepeating huge 0x2000 := ⟨by decide, by decide⟩
  have hptr : containsPointers huge 0x2000 = true := by decide
  refine ⟨⟨hptr, hdesc, hhuge, fun ndebug => ?_⟩, by decide, by decide, hlow, ?_, ?_⟩
  · have hobj : (0x10000 : W).toNat < 2 ^ 63 := by decide
    have hwalk := hhuge.seriesLoop_walked hdesc ndebug hobj
    have hcount := getNumPointers_returns hdesc hptr 24 0
    rintro ⟨w, count, hw, -, hc, heq⟩
    rw [hw.unique hwalk, hc.unique hcount] at heq
    exact absurd heq (by decide)
  · exact seriesLoop_endless (by decide) (by decide) _ _
  · exact fun fuel w h => seriesLoop_exit (by decide) (by decide) h

end MiniGC
