import MiniGC.Mark.Layout
import MiniGC.Lib.Fueled
import Mathlib.Algebra.Order.BigOperators.Group.List
import Mathlib.Algebra.Order.Group.Nat

/-!
# MiniGC.Mark.Slots

`MarkObjectTransitively`: the mark, the questions about the type, and the walk over the slots that
the pointer map describes.

* `seriesLoop`   the two nested loops. A run that is out of fuel has no result, and one whose
  assertion fails ends the process in a build without `NDEBUG`.
* `walked`       what the walk has done after each series, as far as the assertions let it.
* `slots_exact_iff`   the walk visits the slots that the pointer map describes, each once, exactly
  when these are one series that starts at the object, and the assertions hold or are left out.
-/

namespace MiniGC

open Fueled

/-! ## The code -/

/-- The local variables of the series loop, the places `parm` has stepped through, the outcomes of
its assertion, and whether one has ended the process. -/
structure SlotWalk where
  parm : W
  cur : W
  slots : List W
  asserted : List Bool
  aborted : Bool
  deriving DecidableEq

/-- `(obj) + cur->GetSeriesOffset()`, where `obj` is an `Object*`. -/
def seriesStart (mem : Memory) (obj cur : W) : W :=
  obj + sizeofObject * getSeriesOffset mem cur

/-- `parm++`, for a pointer to a pointer. -/
def slotStep (w : SlotWalk) : SlotWalk :=
  { w with parm := w.parm + 8, slots := w.slots ++ [w.parm] }

/-- The body of the series loop. An assertion that fails ends the process, unless the build defines
`NDEBUG`. -/
def seriesBody (ndebug : Bool) (mem : Memory) (obj : W) (size : BitVec 32) (fuel : Nat)
    (w : SlotWalk) : Option SlotWalk := do
  let startUseful := false
  let start := obj
  let holds := decide (w.parm ≤ seriesStart mem obj w.cur)
  let asserted := w.asserted ++ [holds]
  if !ndebug && !holds then
    some { w with asserted, aborted := true }
  else
    let parm := seriesStart mem obj w.cur
    let ppstop := parm + getSeriesSize mem w.cur + size.setWidth 64
    let w ←
      if !startUseful || decide (start < ppstop) then
        let parm := if startUseful && decide (parm < start) then start else parm
        whileDo (fun w => decide (w.parm < ppstop)) slotStep fuel { w with parm, asserted }
      else some { w with parm, asserted }
    some { w with cur := w.cur - sizeofSeries }

/-- The loop over the series of the pointer map, for an object of the given size. -/
def seriesLoop (ndebug : Bool) (mem : Memory) (obj map : W) (size : BitVec 32) (fuel : Nat) :
    Option SlotWalk :=
  let cur := getHighestSeries map
  let cnt := getNumSeries mem map
  let w : SlotWalk := ⟨0, cur, [], [], false⟩
  if 0 ≤ cnt.toInt then
    let last := getLowestSeries mem map
    doWhile (fun w => !w.aborted && decide (last ≤ w.cur)) (seriesBody ndebug mem obj size) fuel w
  -- the repeating case is a comment
  else some w

/-- The questions that marking asks about a type. -/
inductive TypeQuestion where
  | collectible
  | containsPointers
  | gcDesc
  deriving DecidableEq, Repr

/-- What one call does: the memory it leaves, the method tables it asks about, the objects whose
loader allocator it asks for, and the walk over the slots. The call does not return from a walk that
is aborted. -/
structure MarkRun where
  mem : Memory
  asked : List (TypeQuestion × W)
  loaderAllocatorOf : List W
  walk : Option SlotWalk

def markObjectTransitively (ndebug : Bool) (mem : Memory) (obj : W) (fuel : Nat) :
    Option MarkRun :=
  if isMarked mem obj then some ⟨mem, [], [], none⟩
  else
    let mem := setMarked mem obj
    let pMT := rawGetMethodTable mem obj
    let loaderAllocatorOf := if collectible mem pMT then [obj] else []
    if containsPointers mem pMT then
      let size := getTotalSize mem obj
      let map := getCGCDescFromMT pMT
      (seriesLoop ndebug mem obj map size fuel).map fun walk =>
        ⟨mem, [(.collectible, pMT), (.containsPointers, pMT), (.gcDesc, pMT)], loaderAllocatorOf,
          some walk⟩
    else some ⟨mem, [(.collectible, pMT), (.containsPointers, pMT)], loaderAllocatorOf, none⟩

/-- The object is marked when a call returns, and a second call does nothing. -/
theorem markObjectTransitively_again {ndebug : Bool} {mem : Memory} {obj : W} {fuel : Nat}
    {r : MarkRun} (h : markObjectTransitively ndebug mem obj fuel = some r) (fuel' : Nat) :
    markObjectTransitively ndebug r.mem obj fuel' = some ⟨r.mem, [], [], none⟩ := by
  have hmarked : isMarked r.mem obj = true := by
    unfold markObjectTransitively at h
    split at h
    · cases h
      assumption
    · dsimp only at h
      split at h
      · obtain ⟨walk, -, rfl⟩ := Option.map_eq_some_iff.mp h
        exact isMarked_setMarked mem obj
      · cases h
        exact isMarked_setMarked mem obj
  exact if_pos hmarked

section

variable {mem : Memory} {obj map : W} {size : BitVec 32}

/-! ## One series -/

/-- The bytes a series covers: its adjusted length and the total size. -/
def seriesBytes (mem : Memory) (size : BitVec 32) (cur : W) : W :=
  getSeriesSize mem cur + size.setWidth 64

/-- `ppstop` of a series is no smaller than its start. -/
def seriesFits (mem : Memory) (obj : W) (size : BitVec 32) (cur : W) : Prop :=
  (seriesStart mem obj cur).toNat + (seriesBytes mem size cur).toNat < 2 ^ 64

instance (mem : Memory) (obj : W) (size : BitVec 32) (cur : W) :
    Decidable (seriesFits mem obj size cur) :=
  inferInstanceAs (Decidable (_ < _))

/-- The number of slots the walk steps through for a series. -/
def seriesSteps (mem : Memory) (obj : W) (size : BitVec 32) (cur : W) : Nat :=
  if seriesFits mem obj size cur then (seriesBytes mem size cur).toNat / 8 else 0

/-- `count` slots from `start` up. -/
def slotsFrom (start : W) (count : Nat) : List W :=
  (List.range count).map fun k => start + BitVec.ofNat 64 (8 * k)

/-- The slots the walk steps through for a series. -/
def visitedSlots (mem : Memory) (obj : W) (size : BitVec 32) (cur : W) : List W :=
  slotsFrom (seriesStart mem obj cur) (seriesSteps mem obj size cur)

/-- The locals behind the series at `cur`, where its assertion has not ended the process. -/
def afterSeries (mem : Memory) (obj : W) (size : BitVec 32) (w : SlotWalk) : SlotWalk :=
  let start := seriesStart mem obj w.cur
  { parm := start + BitVec.ofNat 64 (8 * seriesSteps mem obj size w.cur)
    cur := w.cur - sizeofSeries
    slots := w.slots ++ visitedSlots mem obj size w.cur
    asserted := w.asserted ++ [decide (w.parm ≤ start)]
    aborted := w.aborted }

/-- The locals where the assertion has ended the process. -/
def abortSeries (w : SlotWalk) : SlotWalk :=
  { w with asserted := w.asserted ++ [false], aborted := true }

theorem slotStep_iterate (w : SlotWalk) (k : Nat) :
    slotStep^[k] w =
      { w with
        parm := w.parm + BitVec.ofNat 64 (8 * k)
        slots := w.slots ++ slotsFrom w.parm k } := by
  induction k with
  | zero => simp [slotsFrom]
  | succ k ih =>
    rw [Function.iterate_succ_apply', ih]
    simp [slotStep, slotsFrom, List.range_succ, Nat.mul_succ, BitVec.ofNat_add, BitVec.add_assoc]

/-- A cursor that goes up by 8 from the start is below `ppstop` in the first turns only. -/
theorem slot_lt_stop {cur : W} (h : 8 ∣ (seriesBytes mem size cur).toNat) {i : Nat}
    (hi : i ≤ seriesSteps mem obj size cur) :
    seriesStart mem obj cur + BitVec.ofNat 64 (8 * i) <
        seriesStart mem obj cur + seriesBytes mem size cur ↔
      i < seriesSteps mem obj size cur := by
  obtain ⟨count, hcount⟩ := h
  have hlt := (seriesBytes mem size cur).isLt
  rw [BitVec.lt_def]
  unfold seriesSteps at hi ⊢
  by_cases hfits : seriesFits mem obj size cur
  · rw [if_pos hfits] at hi ⊢
    have hstop : (seriesStart mem obj cur).toNat + (seriesBytes mem size cur).toNat < 2 ^ 64 :=
      hfits
    have hoff : (BitVec.ofNat 64 (8 * i)).toNat = 8 * i :=
      (BitVec.toNat_ofNat _ _).trans (Nat.mod_eq_of_lt (by omega))
    rw [toNat_add_of_lt (by omega), toNat_add_of_lt hstop, hoff]
    omega
  · -- `ppstop` has wrapped, and stands below the start
    rw [if_neg hfits] at hi ⊢
    have hstop : ¬ (seriesStart mem obj cur).toNat + (seriesBytes mem size cur).toNat < 2 ^ 64 :=
      hfits
    have hstart := (seriesStart mem obj cur).isLt
    obtain rfl : i = 0 := Nat.le_zero.mp hi
    rw [Nat.mul_zero, BitVec.add_zero, BitVec.toNat_add]
    omega

/-- The locals where the inner loop starts. -/
def enterSeries (mem : Memory) (obj : W) (w : SlotWalk) : SlotWalk :=
  { w with
    parm := seriesStart mem obj w.cur
    asserted := w.asserted ++ [decide (w.parm ≤ seriesStart mem obj w.cur)] }

/-- `parm < ppstop`. -/
def beforeStop (mem : Memory) (obj : W) (size : BitVec 32) (cur : W) (w : SlotWalk) : Bool :=
  decide (w.parm < seriesStart mem obj cur + seriesBytes mem size cur)

/-- Where the assertion does not end the process, the body is the inner loop from the start of the
series: `start_useful` is 0. -/
theorem seriesBody_eq {ndebug : Bool} {w : SlotWalk}
    (hassert : ndebug = false → w.parm ≤ seriesStart mem obj w.cur) (fuel : Nat) :
    seriesBody ndebug mem obj size fuel w =
      (whileDo (beforeStop mem obj size w.cur) slotStep fuel (enterSeries mem obj w)).map
        fun v => { v with cur := v.cur - sizeofSeries } := by
  have htest : beforeStop mem obj size w.cur = fun v => decide (v.parm <
      seriesStart mem obj w.cur + getSeriesSize mem w.cur + size.setWidth 64) := by
    funext v
    rw [beforeStop, seriesBytes, BitVec.add_assoc]
  have hlive : ¬ (!ndebug && !decide (w.parm ≤ seriesStart mem obj w.cur)) = true := by
    cases ndebug with
    | false => simp [hassert rfl]
    | true => simp
  rw [htest, Option.map_eq_bind]
  exact if_neg hlive

theorem seriesBody_aborts {w : SlotWalk} (hassert : ¬ w.parm ≤ seriesStart mem obj w.cur)
    (fuel : Nat) : seriesBody false mem obj size fuel w = some (abortSeries w) := by
  have hfails : decide (w.parm ≤ seriesStart mem obj w.cur) = false := decide_eq_false hassert
  rw [seriesBody, hfails]
  rfl

theorem seriesBody_returns {ndebug : Bool} {w : SlotWalk}
    (h : 8 ∣ (seriesBytes mem size w.cur).toNat)
    (hassert : ndebug = false → w.parm ≤ seriesStart mem obj w.cur) :
    Returns (fun fuel => seriesBody ndebug mem obj size fuel w) (afterSeries mem obj size w) := by
  have hloop : Returns
      (fun fuel => whileDo (beforeStop mem obj size w.cur) slotStep fuel (enterSeries mem obj w))
      (slotStep^[seriesSteps mem obj size w.cur] (enterSeries mem obj w)) :=
    whileDo_returns fun i hi => by
      rw [slotStep_iterate]
      exact decide_eq_decide.mpr (slot_lt_stop h hi)
  rw [slotStep_iterate] at hloop
  simp only [seriesBody_eq hassert]
  exact hloop.map fun v => { v with cur := v.cur - sizeofSeries }

/-- Where assertions are left out, none ends the process. -/
theorem seriesBody_ndebug {fuel : Nat} {w w' : SlotWalk}
    (h : seriesBody true mem obj size fuel w = some w') : w'.aborted = w.aborted := by
  rw [seriesBody_eq fun h => Bool.noConfusion h] at h
  obtain ⟨v, hv, rfl⟩ := Option.map_eq_some_iff.mp h
  obtain ⟨n, rfl⟩ := whileDo_turns hv
  rw [slotStep_iterate]
  rfl

/-! ## All series -/

def seriesCount (mem : Memory) (map : W) : Nat := (getNumSeries mem map).toNat

/-- The series of a map, from the highest down. -/
def seriesAt (map : W) (i : Nat) : W := getHighestSeries map - BitVec.ofNat 64 (16 * i)

/-- The locals of the series loop before it has looked at a series. -/
def walkStart (map : W) : SlotWalk := ⟨0, getHighestSeries map, [], [], false⟩

/-- The locals of the series loop behind its first `i` series, where it gets there. -/
def walked (mem : Memory) (obj map : W) (size : BitVec 32) (i : Nat) : SlotWalk :=
  (afterSeries mem obj size)^[i] (walkStart map)

/-- The map is not of the repeating kind, it has a series, and an entry would fit below it. -/
structure NonRepeating (mem : Memory) (map : W) : Prop where
  pos : 0 < seriesCount mem map
  below : 24 + 16 * seriesCount mem map ≤ map.toNat

/-- Every series covers whole slots. -/
def WholeSlots (mem : Memory) (map : W) (size : BitVec 32) : Prop :=
  ∀ i < seriesCount mem map, 8 ∣ (seriesBytes mem size (seriesAt map i)).toNat

instance (mem : Memory) (map : W) (size : BitVec 32) : Decidable (WholeSlots mem map size) :=
  inferInstanceAs (Decidable (∀ i < seriesCount mem map, _))

@[simp] theorem walked_succ (i : Nat) :
    walked mem obj map size (i + 1) = afterSeries mem obj size (walked mem obj map size i) :=
  Function.iterate_succ_apply' _ _ _

@[simp] theorem walked_cur (i : Nat) : (walked mem obj map size i).cur = seriesAt map i := by
  induction i with
  | zero => simp [walked, walkStart, seriesAt]
  | succ i ih =>
    rw [walked_succ, afterSeries, ih, seriesAt, seriesAt, BitVec.sub_sub, Nat.mul_succ,
      BitVec.ofNat_add]
    rfl

@[simp] theorem walked_aborted (i : Nat) : (walked mem obj map size i).aborted = false := by
  induction i with
  | zero => rfl
  | succ i ih => rw [walked_succ, afterSeries, ih]

theorem walked_slots (i : Nat) :
    (walked mem obj map size i).slots =
      (List.range i).flatMap fun j => visitedSlots mem obj size (seriesAt map j) := by
  induction i with
  | zero => rfl
  | succ i ih =>
    rw [walked_succ, List.range_succ, List.flatMap_append, ← ih, List.flatMap_singleton]
    simp only [afterSeries, walked_cur]

theorem NonRepeating.computeSize_toNat (h : NonRepeating mem map) :
    (computeSize (getNumSeries mem map)).toNat = 8 + 16 * seriesCount mem map := by
  have hbelow := h.below
  have hmap := map.isLt
  have hmul : (getNumSeries mem map * sizeofSeries).toNat = seriesCount mem map * 16 :=
    (BitVec.toNat_mul _ _).trans (Nat.mod_eq_of_lt (by show seriesCount mem map * 16 < _; omega))
  have h8 : (8 : W).toNat = 8 := rfl
  rw [computeSize, toNat_add_of_lt (by omega), hmul, h8]
  omega

theorem NonRepeating.seriesAt_toNat (h : NonRepeating mem map) {i : Nat}
    (hi : i ≤ seriesCount mem map) : (seriesAt map i).toNat = map.toNat - 24 - 16 * i := by
  have hbelow := h.below
  have hmap := map.isLt
  have hhigh : (getHighestSeries map).toNat = map.toNat - 24 := by
    have hadd : getHighestSeries map = map - 24 := BitVec.sub_sub map 8 16
    rw [hadd]
    exact toNat_sub_of_le (by show 24 ≤ map.toNat; omega)
  have hoff : (BitVec.ofNat 64 (16 * i)).toNat = 16 * i :=
    (BitVec.toNat_ofNat _ _).trans (Nat.mod_eq_of_lt (by omega))
  rw [seriesAt, toNat_sub_of_le (by omega), hhigh, hoff]

/-- The loop goes on exactly while there is a series left. -/
theorem NonRepeating.lowest_le_iff (h : NonRepeating mem map) {i : Nat}
    (hi : i ≤ seriesCount mem map) :
    getLowestSeries mem map ≤ seriesAt map i ↔ i < seriesCount mem map := by
  have hbelow := h.below
  have hsize := h.computeSize_toNat
  rw [BitVec.le_def, h.seriesAt_toNat hi, getLowestSeries, toNat_sub_of_le (by omega), hsize]
  omega

theorem NonRepeating.nonneg (h : NonRepeating mem map) : 0 ≤ (getNumSeries mem map).toInt := by
  have hbelow := h.below
  have hmap := map.isLt
  rw [BitVec.toInt_eq_toNat_of_lt (by show 2 * seriesCount mem map < _; omega)]
  exact Int.natCast_nonneg _

/-- The assertion holds where the walk comes to the series `i`. -/
def AssertHolds (mem : Memory) (obj map : W) (size : BitVec 32) (i : Nat) : Prop :=
  (walked mem obj map size i).parm ≤ seriesStart mem obj (seriesAt map i)

instance (mem : Memory) (obj map : W) (size : BitVec 32) (i : Nat) :
    Decidable (AssertHolds mem obj map size i) :=
  inferInstanceAs (Decidable (_ ≤ _))

theorem seriesLoop_eq (h : NonRepeating mem map) (ndebug : Bool) (obj : W) (fuel : Nat) :
    seriesLoop ndebug mem obj map size fuel =
      doWhile (fun w => !w.aborted && decide (getLowestSeries mem map ≤ w.cur))
        (seriesBody ndebug mem obj size) fuel (walkStart map) :=
  if_pos h.nonneg

/-- One turn of the loop, as far as the assertion lets it. -/
theorem seriesBody_walked {ndebug : Bool} (hwords : WholeSlots mem map size) {i : Nat}
    (hi : i < seriesCount mem map) (hassert : ndebug = false → AssertHolds mem obj map size i) :
    Returns (fun fuel => seriesBody ndebug mem obj size fuel (walked mem obj map size i))
      (walked mem obj map size (i + 1)) := by
  rw [walked_succ]
  exact seriesBody_returns (by rw [walked_cur]; exact hwords i hi)
    (by rw [walked_cur]; exact hassert)

theorem NonRepeating.test_walked (h : NonRepeating mem map) (obj : W) (size : BitVec 32) {i : Nat}
    (hi : i ≤ seriesCount mem map) :
    (!(walked mem obj map size i).aborted &&
      decide (getLowestSeries mem map ≤ (walked mem obj map size i).cur)) =
        decide (i < seriesCount mem map) := by
  rw [walked_aborted, walked_cur]
  exact decide_eq_decide.mpr (h.lowest_le_iff hi)

/-- The loop looks at every series, in a build with assertions if these hold. -/
theorem seriesLoop_returns (ndebug : Bool) (h : NonRepeating mem map)
    (hwords : WholeSlots mem map size)
    (hassert : ndebug = false → ∀ i < seriesCount mem map, AssertHolds mem obj map size i) :
    Returns (fun fuel => seriesLoop ndebug mem obj map size fuel)
      (walked mem obj map size (seriesCount mem map)) := by
  simp only [seriesLoop_eq h]
  exact doWhile_returns (walked mem obj map size) h.pos
    (fun i hi => seriesBody_walked hwords hi fun hb => hassert hb i hi)
    fun i hi => h.test_walked obj size hi

/-- In a build with assertions the loop ends at the first one that does not hold. -/
theorem seriesLoop_aborts (h : NonRepeating mem map) (hwords : WholeSlots mem map size) {k : Nat}
    (hk : k < seriesCount mem map) (hbefore : ∀ i < k, AssertHolds mem obj map size i)
    (hfails : ¬ AssertHolds mem obj map size k) :
    Returns (fun fuel => seriesLoop false mem obj map size fuel)
      (abortSeries (walked mem obj map size k)) := by
  simp only [seriesLoop_eq h]
  have hlast : Returns (fun fuel => seriesBody false mem obj size fuel (walked mem obj map size k))
      (abortSeries (walked mem obj map size k)) :=
    ⟨0, fun fuel _ => seriesBody_aborts (by rw [walked_cur]; exact hfails) fuel⟩
  refine doWhile_turns (walked mem obj map size)
    (fun i hi => seriesBody_walked hwords (Nat.lt_trans hi hk) fun _ => hbefore i hi)
    (fun i hi => ?_) (doWhile_last hlast rfl)
  rw [h.test_walked obj size (by omega)]
  exact decide_eq_true (by omega)

/-- A series that fits leaves the cursor at its end. -/
theorem walked_succ_parm (hwords : WholeSlots mem map size) {i : Nat}
    (hi : i < seriesCount mem map) (hfits : seriesFits mem obj size (seriesAt map i)) :
    (walked mem obj map size (i + 1)).parm.toNat =
      (seriesStart mem obj (seriesAt map i)).toNat +
        (seriesBytes mem size (seriesAt map i)).toNat := by
  have hsteps : 8 * seriesSteps mem obj size (seriesAt map i) =
      (seriesBytes mem size (seriesAt map i)).toNat := by
    rw [seriesSteps, if_pos hfits]
    exact Nat.mul_div_cancel' (hwords i hi)
  rw [walked_succ]
  simp only [afterSeries, walked_cur, hsteps, BitVec.ofNat_toNat, BitVec.setWidth_eq]
  exact toNat_add_of_lt hfits

theorem assertHolds_zero (mem : Memory) (obj map : W) (size : BitVec 32) :
    AssertHolds mem obj map size 0 :=
  BitVec.le_def.mpr (Nat.zero_le _)

theorem assertHolds_succ (hwords : WholeSlots mem map size) {i : Nat}
    (hi : i < seriesCount mem map) (hfits : seriesFits mem obj size (seriesAt map i)) :
    AssertHolds mem obj map size (i + 1) ↔
      (seriesStart mem obj (seriesAt map i)).toNat +
          (seriesBytes mem size (seriesAt map i)).toNat ≤
        (seriesStart mem obj (seriesAt map (i + 1))).toNat := by
  rw [AssertHolds, BitVec.le_def, walked_succ_parm hwords hi hfits]

/-- The assertions say that no series starts below the end of the one before. -/
theorem assertHolds_iff (hwords : WholeSlots mem map size)
    (hfits : ∀ i < seriesCount mem map, seriesFits mem obj size (seriesAt map i)) :
    (∀ i < seriesCount mem map, AssertHolds mem obj map size i) ↔
      ∀ i, i + 1 < seriesCount mem map →
        (seriesStart mem obj (seriesAt map i)).toNat +
            (seriesBytes mem size (seriesAt map i)).toNat ≤
          (seriesStart mem obj (seriesAt map (i + 1))).toNat := by
  constructor
  · intro hassert i hi
    have hlt := Nat.lt_of_succ_lt hi
    exact (assertHolds_succ hwords hlt (hfits i hlt)).mp (hassert (i + 1) hi)
  · intro horder i hi
    cases i with
    | zero => exact assertHolds_zero mem obj map size
    | succ i =>
      have hlt := Nat.lt_of_succ_lt hi
      exact (assertHolds_succ hwords hlt (hfits i hlt)).mpr (horder i hi)

/-- The loop gets through exactly if assertions are left out or hold. -/
theorem seriesLoop_through_iff (ndebug : Bool) (h : NonRepeating mem map)
    (hwords : WholeSlots mem map size) {w : SlotWalk} :
    Returns (fun fuel => seriesLoop ndebug mem obj map size fuel) w ∧ w.aborted = false ↔
      w = walked mem obj map size (seriesCount mem map) ∧
        (ndebug = false → ∀ i < seriesCount mem map, AssertHolds mem obj map size i) := by
  constructor
  · rintro ⟨hw, hlive⟩
    have hassert : ndebug = false → ∀ i < seriesCount mem map, AssertHolds mem obj map size i := by
      rintro rfl
      by_contra hno
      push Not at hno
      obtain ⟨hk, hfails⟩ := Nat.find_spec hno
      have hrun := seriesLoop_aborts h hwords hk (fun i hi => ?_) hfails
      · rw [hw.unique hrun] at hlive
        cases hlive
      · by_contra hi'
        exact Nat.find_min hno hi ⟨Nat.lt_trans hi hk, hi'⟩
    exact ⟨hw.unique (seriesLoop_returns ndebug h hwords hassert), hassert⟩
  · rintro ⟨rfl, hassert⟩
    exact ⟨seriesLoop_returns ndebug h hwords hassert, walked_aborted _⟩

/-! ## The slots the map describes -/

/-- The slots of a series, as `gcdesc.h` has them: `startoffset` counts bytes from the object. -/
def seriesSlots (mem : Memory) (obj : W) (size : BitVec 32) (cur : W) : List W :=
  slotsFrom (obj + getSeriesOffset mem cur) ((seriesBytes mem size cur).toNat / 8)

def referenceSlots (mem : Memory) (obj map : W) (size : BitVec 32) : List W :=
  (List.range (seriesCount mem map)).flatMap fun i => seriesSlots mem obj size (seriesAt map i)

/-- The described slots lie inside the address space. -/
def SlotsInside (mem : Memory) (obj map : W) (size : BitVec 32) : Prop :=
  ∀ i < seriesCount mem map, obj.toNat + (getSeriesOffset mem (seriesAt map i)).toNat +
    (seriesBytes mem size (seriesAt map i)).toNat ≤ 2 ^ 64

instance (mem : Memory) (obj map : W) (size : BitVec 32) :
    Decidable (SlotsInside mem obj map size) :=
  inferInstanceAs (Decidable (∀ i < seriesCount mem map, _))

@[simp] theorem length_slotsFrom (start : W) (count : Nat) :
    (slotsFrom start count).length = count := by
  simp [slotsFrom]

theorem slotsFrom_eq_iff {s t : W} {a b : Nat} :
    slotsFrom s a = slotsFrom t b ↔ a = b ∧ (0 < b → s = t) := by
  constructor
  · intro h
    obtain rfl : a = b := by simpa using congrArg List.length h
    refine ⟨rfl, fun hpos => ?_⟩
    have hfirst := congrArg (·[0]?) h
    simpa [slotsFrom, hpos] using hfirst
  · rintro ⟨rfl, h⟩
    rcases Nat.eq_zero_or_pos a with rfl | hpos
    · rfl
    · rw [h hpos]

/-- Joined pieces, none of which is too long, are equal only piece by piece. -/
theorem flatMap_eq_iff {ι α : Type*} {f g : ι → List α} {l : List ι}
    (h : ∀ i ∈ l, (f i).length ≤ (g i).length) :
    l.flatMap f = l.flatMap g ↔ ∀ i ∈ l, f i = g i := by
  induction l with
  | nil => simp
  | cons i l ih =>
    have hl : ∀ j ∈ l, (f j).length ≤ (g j).length := fun j hj => h j (List.mem_cons_of_mem i hj)
    have hrest : (l.flatMap f).length ≤ (l.flatMap g).length := by
      rw [List.length_flatMap, List.length_flatMap]
      exact List.sum_le_sum hl
    have hi : (f i).length ≤ (g i).length := h i List.mem_cons_self
    rw [List.flatMap_cons, List.flatMap_cons, List.forall_mem_cons, ← ih hl]
    constructor
    · intro he
      have hlen := congrArg List.length he
      rw [List.length_append, List.length_append] at hlen
      exact List.append_inj he (by omega)
    · rintro ⟨hi, hl⟩
      rw [hi, hl]

/-- Only the offset 0 is the same in bytes and in objects. -/
theorem typed_offset_eq {off : W} (h : obj + sizeofObject * off = obj + off) : off = 0 := by
  have hoff : sizeofObject * off = off := (BitVec.add_right_inj obj).mp h
  have hmod : 16 * off.toNat % 2 ^ 64 = off.toNat % 2 ^ 64 := by
    rw [Nat.mod_eq_of_lt off.isLt]
    exact (BitVec.toNat_mul sizeofObject off).symm.trans (congrArg BitVec.toNat hoff)
  have hdvd : 2 ^ 64 ∣ 15 * off.toNat := by
    have hsub := Nat.dvd_of_mod_eq_zero (Nat.sub_mod_eq_zero_of_mod_eq hmod)
    rwa [← Nat.sub_one_mul] at hsub
  have hcop : Nat.Coprime (2 ^ 64) 15 := rfl
  exact BitVec.eq_of_toNat_eq (Nat.eq_zero_of_dvd_of_lt (hcop.dvd_of_dvd_mul_left hdvd) off.isLt)

theorem seriesStart_of_zero {cur : W} (h : getSeriesOffset mem cur = 0) :
    seriesStart mem obj cur = obj := by
  simp [seriesStart, h]

theorem seriesSteps_le (mem : Memory) (obj : W) (size : BitVec 32) (cur : W) :
    seriesSteps mem obj size cur ≤ (seriesBytes mem size cur).toNat / 8 := by
  unfold seriesSteps
  split
  · exact Nat.le_refl _
  · exact Nat.zero_le _

theorem series_exact_iff {cur : W} (hwords : 8 ∣ (seriesBytes mem size cur).toNat) :
    visitedSlots mem obj size cur = seriesSlots mem obj size cur ↔
      (0 < (seriesBytes mem size cur).toNat → getSeriesOffset mem cur = 0 ∧
        obj.toNat + (seriesBytes mem size cur).toNat < 2 ^ 64) := by
  obtain ⟨count, hcount⟩ := hwords
  have hdiv : (seriesBytes mem size cur).toNat / 8 = count := by omega
  rw [visitedSlots, seriesSlots, slotsFrom_eq_iff, hdiv]
  constructor
  · rintro ⟨hsteps, hstart⟩ hpos
    have hoff := typed_offset_eq (hstart (by omega))
    refine ⟨hoff, ?_⟩
    by_contra hno
    have hfits : ¬ seriesFits mem obj size cur := by
      rwa [seriesFits, seriesStart_of_zero hoff]
    rw [seriesSteps, if_neg hfits] at hsteps
    omega
  · intro h
    rcases Nat.eq_zero_or_pos count with rfl | hpos
    · have hsteps := seriesSteps_le mem obj size cur
      exact ⟨by omega, fun h0 => absurd h0 (Nat.lt_irrefl 0)⟩
    · obtain ⟨hoff, hfit⟩ := h (by omega)
      have hfits : seriesFits mem obj size cur := by
        rwa [seriesFits, seriesStart_of_zero hoff]
      refine ⟨?_, fun _ => ?_⟩
      · rw [seriesSteps, if_pos hfits, hdiv]
      · rw [seriesStart_of_zero hoff, hoff]
        exact (BitVec.add_zero obj).symm

theorem slotsFrom_nodup (start : W) {count : Nat} (h : count ≤ 2 ^ 61) :
    (slotsFrom start count).Nodup := by
  refine List.Nodup.map_on (fun a ha b hb he => ?_) List.nodup_range
  have ha := List.mem_range.mp ha
  have hb := List.mem_range.mp hb
  have hoff := congrArg BitVec.toNat ((BitVec.add_right_inj start).mp he)
  rw [BitVec.toNat_ofNat, BitVec.toNat_ofNat, Nat.mod_eq_of_lt (by omega),
    Nat.mod_eq_of_lt (by omega)] at hoff
  omega

theorem mem_slotsFrom_self {start : W} {count : Nat} (h : 0 < count) :
    start ∈ slotsFrom start count :=
  List.mem_map.mpr ⟨0, List.mem_range.mpr h, BitVec.add_zero start⟩

/-- A series has a slot exactly if it covers bytes. -/
theorem seriesSlots_eq_nil_iff {cur : W} (hwords : 8 ∣ (seriesBytes mem size cur).toNat) :
    seriesSlots mem obj size cur = [] ↔ ¬ 0 < (seriesBytes mem size cur).toNat := by
  rw [← List.length_eq_zero_iff, seriesSlots, length_slotsFrom]
  omega

/-- Series that start at the object share its first slot, so that only one of them can have slots.
-/
theorem referenceSlots_nodup_iff (hwords : WholeSlots mem map size)
    (hzero : ∀ i < seriesCount mem map, 0 < (seriesBytes mem size (seriesAt map i)).toNat →
      getSeriesOffset mem (seriesAt map i) = 0) :
    (referenceSlots mem obj map size).Nodup ↔
      ∀ i < seriesCount mem map, ∀ j < seriesCount mem map,
        0 < (seriesBytes mem size (seriesAt map i)).toNat →
          0 < (seriesBytes mem size (seriesAt map j)).toNat → i = j := by
  have hfirst : ∀ i < seriesCount mem map, 0 < (seriesBytes mem size (seriesAt map i)).toNat →
      obj ∈ seriesSlots mem obj size (seriesAt map i) := by
    intro i hi hpos
    have hwhole := Nat.mul_div_cancel' (hwords i hi)
    have hobj : obj + getSeriesOffset mem (seriesAt map i) = obj := by
      rw [hzero i hi hpos]
      exact BitVec.add_zero obj
    rw [seriesSlots, hobj]
    exact mem_slotsFrom_self (by omega)
  rw [referenceSlots, List.nodup_flatMap]
  constructor
  · rintro ⟨-, hdisjoint⟩ i hi j hj hposi hposj
    by_contra hne
    wlog hlt : i < j generalizing i j
    · exact this j hj i hi hposj hposi (Ne.symm hne) (by omega)
    have hij := List.pairwise_iff_getElem.mp hdisjoint i j (by simpa) (by simpa) hlt
    rw [List.getElem_range, List.getElem_range] at hij
    exact hij (hfirst i hi hposi) (hfirst j hj hposj)
  · refine fun hone => ⟨fun i _ => slotsFrom_nodup _ ?_, ?_⟩
    · have hlt := (seriesBytes mem size (seriesAt map i)).isLt
      omega
    · refine List.nodup_range.pairwise_of_forall_ne fun i hi j hj hne => ?_
      have hi := List.mem_range.mp hi
      have hj := List.mem_range.mp hj
      show List.Disjoint (seriesSlots mem obj size (seriesAt map i))
        (seriesSlots mem obj size (seriesAt map j))
      by_cases hposi : 0 < (seriesBytes mem size (seriesAt map i)).toNat
      · have hposj : ¬ 0 < (seriesBytes mem size (seriesAt map j)).toNat :=
          fun hposj => hne (hone i hi j hj hposi hposj)
        rw [(seriesSlots_eq_nil_iff (hwords j hj)).mpr hposj]
        exact List.disjoint_nil_right _
      · rw [(seriesSlots_eq_nil_iff (hwords i hi)).mpr hposi]
        exact List.disjoint_nil_left _

theorem walked_slots_iff (hwords : WholeSlots mem map size) :
    (walked mem obj map size (seriesCount mem map)).slots = referenceSlots mem obj map size ↔
      ∀ i < seriesCount mem map, 0 < (seriesBytes mem size (seriesAt map i)).toNat →
        getSeriesOffset mem (seriesAt map i) = 0 ∧
          obj.toNat + (seriesBytes mem size (seriesAt map i)).toNat < 2 ^ 64 := by
  have hpieces := flatMap_eq_iff (l := List.range (seriesCount mem map))
    (f := fun j => visitedSlots mem obj size (seriesAt map j))
    (g := fun j => seriesSlots mem obj size (seriesAt map j))
    fun j _ => by
      simpa [visitedSlots, seriesSlots] using seriesSteps_le mem obj size (seriesAt map j)
  rw [← walked_slots] at hpieces
  refine hpieces.trans (forall_congr' fun i => ?_)
  rw [List.mem_range]
  exact forall_congr' fun hi => series_exact_iff (hwords i hi)

theorem seriesFits_of_zero {cur : W} (h : 0 < (seriesBytes mem size cur).toNat →
    getSeriesOffset mem cur = 0 ∧ obj.toNat + (seriesBytes mem size cur).toNat < 2 ^ 64) :
    seriesFits mem obj size cur := by
  rcases Nat.eq_zero_or_pos (seriesBytes mem size cur).toNat with hnone | hpos
  · rw [seriesFits, hnone]
    exact (seriesStart mem obj cur).isLt
  · obtain ⟨hoff, hfit⟩ := h hpos
    rwa [seriesFits, seriesStart_of_zero hoff]

/-- The walk steps through the described slots in their order, through each once, and no assertion
ends it. -/
def SlotsExact (ndebug : Bool) (mem : Memory) (obj map : W) (size : BitVec 32) : Prop :=
  ∃ w, Returns (fun fuel => seriesLoop ndebug mem obj map size fuel) w ∧ w.aborted = false ∧
    w.slots = referenceSlots mem obj map size ∧ w.slots.Nodup

/-- The walk visits the slots that the pointer map describes, each once, exactly when one series at
most has slots, it starts at offset 0 and does not end at the very top of the address space, and, in
a build with assertions, no series starts below the end of the one before. -/
theorem slots_exact_iff (ndebug : Bool) (h : NonRepeating mem map)
    (hwords : WholeSlots mem map size) :
    SlotsExact ndebug mem obj map size ↔
      (∀ i < seriesCount mem map, 0 < (seriesBytes mem size (seriesAt map i)).toNat →
        getSeriesOffset mem (seriesAt map i) = 0 ∧
          obj.toNat + (seriesBytes mem size (seriesAt map i)).toNat < 2 ^ 64) ∧
      (∀ i < seriesCount mem map, ∀ j < seriesCount mem map,
        0 < (seriesBytes mem size (seriesAt map i)).toNat →
          0 < (seriesBytes mem size (seriesAt map j)).toNat → i = j) ∧
      (ndebug = false → ∀ i, i + 1 < seriesCount mem map →
        (seriesStart mem obj (seriesAt map i)).toNat +
            (seriesBytes mem size (seriesAt map i)).toNat ≤
          (seriesStart mem obj (seriesAt map (i + 1))).toNat) := by
  constructor
  · rintro ⟨w, hw, hlive, hslots, hnodup⟩
    obtain ⟨rfl, hassert⟩ := (seriesLoop_through_iff ndebug h hwords).mp ⟨hw, hlive⟩
    have hzero := (walked_slots_iff hwords).mp hslots
    rw [hslots, referenceSlots_nodup_iff hwords fun i hi hpos => (hzero i hi hpos).1] at hnodup
    have hfits : ∀ i < seriesCount mem map, seriesFits mem obj size (seriesAt map i) :=
      fun i hi => seriesFits_of_zero (hzero i hi)
    exact ⟨hzero, hnodup, fun hb => (assertHolds_iff hwords hfits).mp (hassert hb)⟩
  · rintro ⟨hzero, hone, horder⟩
    have hfits : ∀ i < seriesCount mem map, seriesFits mem obj size (seriesAt map i) :=
      fun i hi => seriesFits_of_zero (hzero i hi)
    have hslots := (walked_slots_iff hwords).mpr hzero
    obtain ⟨hw, hlive⟩ := (seriesLoop_through_iff ndebug h hwords).mpr
      ⟨rfl, fun hb => (assertHolds_iff hwords hfits).mpr (horder hb)⟩
    refine ⟨_, hw, hlive, hslots, ?_⟩
    rw [hslots]
    exact (referenceSlots_nodup_iff hwords fun i hi hpos => (hzero i hi hpos).1).mpr hone

end

/-- An object of 24 bytes at `0x10000`, and a method table at `0x2000` over a map of one series: one
slot, at the given offset. -/
def oneFieldMemory (offset : W) : Memory :=
  let mem := write64 (fun _ => 0) 0x10000 0x2000
  -- `m_baseSize` is 24, `m_flags` has the pointer flag only, and `m_componentSize` is 0
  let mem := write64 mem 0x2000 0x0000001801000000
  let mem := write64 mem 0x1ff8 1
  let mem := write64 mem 0x1ff0 offset
  write64 mem 0x1fe8 (8 - 24)

/-- The same object over a map of two series: two slots at offset 0, and none at offset 2. -/
def twoSlotsMemory : Memory :=
  let mem := write64 (fun _ => 0) 0x10000 0x2000
  let mem := write64 mem 0x2000 0x0000001801000000
  let mem := write64 mem 0x1ff8 2
  let mem := write64 mem 0x1ff0 0
  let mem := write64 mem 0x1fe8 (16 - 24)
  let mem := write64 mem 0x1fe0 2
  write64 mem 0x1fd8 (0 - 24)

theorem slots_exact_at_zero :
    SlotsExact true twoSlotsMemory 0x10000 0x2000 24 ∧
      SlotsExact false twoSlotsMemory 0x10000 0x2000 24 := by
  have hcount : seriesCount twoSlotsMemory 0x2000 = 2 := by decide
  have hdesc : NonRepeating twoSlotsMemory 0x2000 := ⟨by decide, by decide⟩
  have hwords : WholeSlots twoSlotsMemory 0x2000 24 := by decide
  refine ⟨(slots_exact_iff true hdesc hwords).mpr ⟨by decide, by decide, nofun⟩,
    (slots_exact_iff false hdesc hwords).mpr ⟨by decide, by decide, fun _ i hi => ?_⟩⟩
  obtain rfl : i = 0 := by omega
  decide

/-- A field at offset 8: the walk goes to offset 128 instead. -/
theorem field_not_visited :
    let mem := oneFieldMemory 8
    let map := getMethodTable mem 0x10000
    let size := getTotalSize mem 0x10000
    containsPointers mem map = true ∧ NonRepeating mem map ∧ WholeSlots mem map size ∧
      SlotsInside mem 0x10000 map size ∧
      ∀ ndebug, (∃ w, Returns (fun fuel => seriesLoop ndebug mem 0x10000 map size fuel) w ∧
        w.aborted = false ∧ w.slots = [0x10000 + 16 * 8]) ∧
        ¬ SlotsExact ndebug mem 0x10000 map size := by
  have hmap : getMethodTable (oneFieldMemory 8) 0x10000 = 0x2000 := by decide
  have hsize : getTotalSize (oneFieldMemory 8) 0x10000 = 24 := by decide
  have hdesc : NonRepeating (oneFieldMemory 8) 0x2000 := ⟨by decide, by decide⟩
  have hwords : WholeSlots (oneFieldMemory 8) 0x2000 24 := by decide
  have hinside : SlotsInside (oneFieldMemory 8) 0x10000 0x2000 24 := by decide
  have hassert : ∀ i < seriesCount (oneFieldMemory 8) 0x2000,
      AssertHolds (oneFieldMemory 8) 0x10000 0x2000 24 i := by decide
  simp only [hmap, hsize]
  refine ⟨by decide, hdesc, hwords, hinside, fun ndebug => ?_⟩
  have hrun := seriesLoop_returns ndebug hdesc hwords fun _ => hassert
  refine ⟨⟨_, hrun, by decide, by decide⟩, ?_⟩
  rintro ⟨w, hw, -, hslots, -⟩
  rw [hw.unique hrun] at hslots
  exact absurd hslots (by decide)

end MiniGC
