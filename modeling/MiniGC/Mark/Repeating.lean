import MiniGC.Mark.Build

/-!
# MiniGC.Mark.Repeating

Maps of the repeating kind, which describe arrays of structures.

* `itemFields`          the items of such a map, as fields of the memory.
* `describeRepeating`   a map made by `InitValueClassSeries` and the setters.
* `repeating_counts`    it reads back as it was made, and `GetNumPointers` counts the pointers of
  its items for each component.
-/

namespace MiniGC

section

variable {mem : Memory} {map : W} {n : Nat}

/-! ## Maps of arrays of structures -/

theorem read16_congr {mem mem' : Memory} {p : W}
    (h : ∀ k < 2, mem (p + BitVec.ofNat 64 k) = mem' (p + BitVec.ofNat 64 k)) :
    read16 mem p = read16 mem' p := by
  have h0 := h 0 (by decide)
  have h1 := h 1 (by decide)
  simp at h0 h1
  simp [read16, h0, h1]

@[simp] theorem read16_write16 (mem : Memory) (p : W) (v : BitVec 16) :
    read16 (write16 mem p v) p = v := by
  have h0 : write16 mem p v p = v.extractLsb' 0 8 := by simp [write16]
  have h1 : write16 mem p v (p + 1) = v.extractLsb' 8 8 := by simp [write16]
  rw [read16, h0, h1]
  exact (BitVec.extractLsb'_append_extractLsb'_eq_extractLsb' rfl).trans BitVec.extractLsb'_eq_self

/-- Two bytes at distance `e` do not reach a byte at another distance. -/
theorem write16_below {d e : Nat} {v : BitVec 16} (hd : d < 2 ^ 64) (he : e < 2 ^ 64) (hlow : 2 ≤ e)
    (hfar : e < d ∨ d + 2 ≤ e) : write16 mem (below map e) v (below map d) = mem (below map d) := by
  refine write16_of_ge ?_
  rw [below_sub_below hd he]
  split
  · omega
  · omega

theorem valSerie_eq_below (map : W) (i : Nat) :
    valSerie (getHighestSeries map) (-i) = below map (24 + 4 * i) := by
  have hneg : BitVec.ofInt 64 (4 * (-(i : Int))) = -BitVec.ofNat 64 (4 * i) := by
    rw [mul_neg, BitVec.ofInt_neg]
    exact congrArg _ (BitVec.ofInt_natCast 64 (4 * i))
  rw [valSerie, hneg]
  unfold getHighestSeries below sizeofSeries
  bv_omega

theorem valSerie_add_two (map : W) (i : Nat) :
    valSerie (getHighestSeries map) (-i) + 2 = below map (22 + 4 * i) := by
  have hadd : below map (24 + 4 * i) + BitVec.ofNat 64 2 = below map (24 + 4 * i - 2) :=
    below_add (by omega)
  have hdist : 24 + 4 * i - 2 = 22 + 4 * i := by omega
  rw [valSerie_eq_below]
  exact hadd.trans (congrArg _ hdist)

/-- `-i`, for the index of an item. -/
def itemIndex (i : Nat) : BitVec 32 := -BitVec.ofNat 32 i

theorem itemIndex_toInt {i : Nat} (hi : i ≤ 2 ^ 31) : (itemIndex i).toInt = -(i : Int) := by
  unfold itemIndex
  rcases Nat.lt_or_eq_of_le hi with hlt | rfl
  · rw [BitVec.toInt_neg, BitVec.toInt_eq_toNat_of_lt (by rw [BitVec.toNat_ofNat]; omega),
      BitVec.toNat_ofNat, Nat.mod_eq_of_lt (by omega), Int.bmod_eq_of_le (by omega) (by omega)]
  · rfl

theorem setSeriesValItem_eq (mem : Memory) (map : W) (item : ValSerieItem) {i : Nat}
    (hi : i ≤ 2 ^ 31) :
    setSeriesValItem mem (getHighestSeries map) item (itemIndex i) =
      write16 (write16 mem (below map (24 + 4 * i)) item.nptrs) (below map (22 + 4 * i))
        item.skip := by
  rw [← valSerie_add_two, ← valSerie_eq_below, setSeriesValItem, itemIndex_toInt hi]

theorem getSeriesValItem_eq (mem : Memory) (map : W) (i : Nat) :
    getSeriesValItem mem (getHighestSeries map) (-i) =
      ⟨read16 mem (below map (24 + 4 * i)), read16 mem (below map (22 + 4 * i))⟩ := by
  rw [← valSerie_add_two, ← valSerie_eq_below]
  rfl

/-- An item of a map leaves a byte at another distance as it is. -/
theorem setSeriesValItem_below {i d : Nat} (hi : i ≤ 2 ^ 31) (hd : d < 2 ^ 64)
    (hfar : 24 + 4 * i < d ∨ d + 4 ≤ 24 + 4 * i) (item : ValSerieItem) :
    setSeriesValItem mem (getHighestSeries map) item (itemIndex i) (below map d) =
      mem (below map d) := by
  rw [setSeriesValItem_eq mem map item hi, write16_below hd (by omega) (by omega) (by omega),
    write16_below hd (by omega) (by omega) (by omega)]

/-- The items of a map, from the highest down, as far as an `int` counts them. -/
def itemFields (map : W) (hindex : n ≤ 2 ^ 31) : Fields Memory (Fin n) ValSerieItem where
  get mem i := getSeriesValItem mem (getHighestSeries map) (-(i : Nat))
  put mem i item := setSeriesValItem mem (getHighestSeries map) item (itemIndex i)
  get_put mem i item := by
    have hi := i.isLt
    have hkept : read16 (write16 (write16 mem (below map (24 + 4 * i)) item.nptrs)
        (below map (22 + 4 * i)) item.skip) (below map (24 + 4 * i)) = item.nptrs := by
      refine Eq.trans (read16_congr fun k hk => ?_) (read16_write16 mem _ _)
      rw [below_add (by omega)]
      exact write16_below (by omega) (by omega) (by omega) (by omega)
    rw [setSeriesValItem_eq mem map item (by omega), getSeriesValItem_eq, hkept, read16_write16]
  get_put_of_ne mem i j item hne := by
    have hi := i.isLt
    have hj := j.isLt
    have hval := Fin.val_ne_of_ne hne
    have hkept : ∀ d, d = 24 + 4 * j.val ∨ d = 22 + 4 * j.val →
        read16 (setSeriesValItem mem (getHighestSeries map) item (itemIndex i)) (below map d) =
          read16 mem (below map d) := by
      intro d hd
      refine read16_congr fun k hk => ?_
      rw [below_add (by omega)]
      exact setSeriesValItem_below (by omega) (by omega) (by omega) item
    rw [getSeriesValItem_eq, getSeriesValItem_eq, hkept _ (.inl rfl), hkept _ (.inr rfl)]

/-- The memory with a map of the repeating kind below `map`. -/
def describeRepeating (mem : Memory) (map offset : W) (items : Fin n → ValSerieItem) : Memory :=
  (List.finRange n).foldl
    (fun mem i => setSeriesValItem mem (getHighestSeries map) (items i) (itemIndex i))
    (setSeriesOffset (initValueClassSeries mem map (BitVec.ofNat 64 n)) (getHighestSeries map)
      offset)

theorem write16_outside {size d : Nat} {v : BitVec 16} {a : W} (hlow : 2 ≤ d) (hle : d ≤ size)
    (hsize : size < 2 ^ 64) (ha : ¬ InMap map size a) : write16 mem (below map d) v a = mem a := by
  refine write16_of_ge ?_
  unfold InMap at ha
  unfold below
  bv_omega

theorem getHighestSeries_add_eight (map : W) : getHighestSeries map + 8 = below map 16 := by
  unfold getHighestSeries below sizeofSeries
  bv_omega

/-- `mem'` is `mem` with a map of the repeating kind below `map`. -/
structure DescribedRepeating (mem mem' : Memory) (map offset : W) (items : Fin n → ValSerieItem) :
    Prop where
  numSeries : getNumSeries mem' map = -BitVec.ofNat 64 n
  offset : getSeriesOffset mem' (getHighestSeries map) = offset
  items : ∀ i : Fin n, getSeriesValItem mem' (getHighestSeries map) (-(i : Nat)) = items i
  outside : ∀ a, ¬ InMap map (20 + 4 * n) a → mem' a = mem a

theorem describeRepeating_described (hpos : 0 < n) (hindex : n ≤ 2 ^ 31) (mem : Memory)
    (map offset : W) (items : Fin n → ValSerieItem) :
    DescribedRepeating mem (describeRepeating mem map offset items) map offset items := by
  let F : Fields Memory (Fin n) ValSerieItem := itemFields map hindex
  let first := setSeriesOffset (initValueClassSeries mem map (BitVec.ofNat 64 n))
    (getHighestSeries map) offset
  have hrun : describeRepeating mem map offset items =
      F.run first ((List.finRange n).map fun i => (i, fun _ => items i)) := by
    rw [Fields.run, List.foldl_map]
    rfl
  have hword : ∀ d, 8 ≤ d → d ≤ 16 → ∀ mem i item,
      read64 (F.put mem i item) (below map d) = read64 mem (below map d) := by
    intro d hlow hle mem i item
    have hi := i.isLt
    refine read64_congr fun k hk => ?_
    rw [below_add (by omega)]
    exact setSeriesValItem_below (by omega) (by omega) (by omega) item
  have hfirst : first = write64 (write64 mem (below map 8) (-BitVec.ofNat 64 n)) (below map 16)
      offset := by
    rw [← getHighestSeries_add_eight]
    rfl
  rw [hrun]
  refine ⟨?_, ?_, fun i => ?_, fun a ha => ?_⟩
  · show read64 _ (below map 8) = _
    rw [F.run_kept (fun mem => read64 mem (below map 8)) (hword 8 (by omega) (by omega)), hfirst]
    refine Eq.trans (read64_congr fun k hk => ?_) (read64_write64 mem _ _)
    rw [below_add (by omega)]
    exact write64_below (by omega) (by omega) (by omega) (by omega)
  · rw [getSeriesOffset, getHighestSeries_add_eight,
      F.run_kept (fun mem => read64 mem (below map 16)) (hword 16 (by omega) (by omega)), hfirst]
    exact read64_write64 _ _ _
  · show F.get _ i = _
    rw [F.get_run, Fields.editAll_set, if_pos (List.mem_finRange i)]
  · have hsize : 20 + 4 * n < 2 ^ 64 := by omega
    have hitem : ∀ mem i item, F.put mem i item a = mem a := by
      intro mem i item
      have hi := i.isLt
      show setSeriesValItem mem (getHighestSeries map) item (itemIndex i) a = mem a
      rw [setSeriesValItem_eq mem map item (by omega),
        write16_outside (by omega) (by omega) hsize ha,
        write16_outside (by omega) (by omega) hsize ha]
    rw [F.run_kept (fun mem => mem a) hitem, hfirst,
      write64_outside (by omega) (by omega) hsize ha,
      write64_outside (by omega) (by omega) hsize ha]

theorem toInt_neg_ofNat (hfit : 20 + 4 * n < 2 ^ 64) :
    (-BitVec.ofNat 64 n).toInt = -(n : Int) := by
  rw [BitVec.toInt_neg, BitVec.toInt_eq_toNat_of_lt (by rw [BitVec.toNat_ofNat]; omega),
    BitVec.toNat_ofNat, Nat.mod_eq_of_lt (by omega), Int.bmod_eq_of_le (by omega) (by omega)]

/-- A sum of words, as a word. -/
theorem foldl_add_eq {α : Type*} (f : α → W) (l : List α) (x : W) :
    l.foldl (fun s a => s + f a) x = x + BitVec.ofNat 64 (l.map fun a => (f a).toNat).sum := by
  induction l generalizing x with
  | nil => exact (BitVec.add_zero x).symm
  | cons a l ih =>
    rw [List.foldl_cons, ih, List.map_cons, List.sum_cons, BitVec.ofNat_add, BitVec.ofNat_toNat,
      BitVec.setWidth_eq, BitVec.add_assoc]

namespace DescribedRepeating

variable {mem' : Memory} {offset : W} {items : Fin n → ValSerieItem}

/-- The loop over the items adds up the pointers of each. -/
theorem countRepeating_eq (hd : DescribedRepeating mem mem' map offset items) :
    countRepeating mem' (getHighestSeries map) (-(n : Int)) =
      BitVec.ofNat 64 ((List.finRange n).map fun i => (items i).nptrs.toNat).sum := by
  have hrange : (List.finRange n).map Fin.val = List.range n := List.map_coe_finRange_eq_range
  have hitem : ∀ i : Fin n, (read16 mem' (getHighestSeries map -
      4 * BitVec.ofNat 64 i)).setWidth 64 = (items i).nptrs.setWidth 64 := by
    intro i
    have hplace : getHighestSeries map - 4 * BitVec.ofNat 64 i = below map (24 + 4 * i) := by
      unfold getHighestSeries below sizeofSeries
      bv_omega
    have hread := hd.items i
    rw [getSeriesValItem_eq] at hread
    rw [hplace, ← hread]
  rw [countRepeating, neg_neg, Int.toNat_natCast, ← hrange, List.foldl_map]
  simp only [hitem]
  rw [foldl_add_eq]
  refine (BitVec.zero_add _).trans
    (congrArg _ (congrArg List.sum (List.map_congr_left fun i _ => ?_)))
  have hi := (items i).nptrs.isLt
  rw [BitVec.toNat_setWidth, Nat.mod_eq_of_lt (by omega)]

theorem getSize_toNat (hd : DescribedRepeating mem mem' map offset items) (hpos : 0 < n)
    (hfit : 20 + 4 * n < 2 ^ 64) : (getSize mem' map).toNat = 20 + 4 * n := by
  have hneg : (-BitVec.ofNat 64 n).toInt < 0 := by
    rw [toInt_neg_ofNat hfit]
    omega
  rw [getSize, hd.numSeries, if_pos hneg, neg_neg]
  unfold computeSizeRepeating sizeofSeries
  bv_omega

/-- The map is what lies from `GetStartOfGCData` up. -/
theorem inMap_iff (hd : DescribedRepeating mem mem' map offset items) (hpos : 0 < n)
    (hfit : 20 + 4 * n ≤ map.toNat) (a : W) :
    InMap map (20 + 4 * n) a ↔ getStartOfGCData mem' map ≤ a ∧ a < map := by
  have hmap := map.isLt
  have hsize := hd.getSize_toNat hpos (by omega)
  have hstart : (getStartOfGCData mem' map).toNat = map.toNat - (20 + 4 * n) := by
    rw [getStartOfGCData, toNat_sub_of_le (by omega), hsize]
  rw [BitVec.le_def, BitVec.lt_def, hstart]
  unfold InMap
  bv_omega

theorem methodTable (hd : DescribedRepeating mem mem' map offset items)
    (hfit : 20 + 4 * n ≤ map.toNat) (htable : map.toNat + 8 ≤ 2 ^ 64) :
    getFlags mem' map = getFlags mem map := by
  refine (methodTable_congr fun k hk => hd.outside _ ?_).2.1
  unfold InMap
  bv_omega

end DescribedRepeating

/-- A map of the repeating kind, with as many items as the `int` that names one allows, reads back
as it was made, with nothing changed outside of it, and `GetNumPointers` counts the pointers of all
items for every component of the array. -/
theorem repeating_counts {items : Fin n → ValSerieItem} (hpos : 0 < n) (hindex : n ≤ 2 ^ 31)
    (hfit : 20 + 4 * n ≤ map.toNat) (htable : map.toNat + 8 ≤ 2 ^ 64)
    (hptr : containsPointers mem map = true) {numComponents : W}
    (hlt : ((List.finRange n).map fun i => (items i).nptrs.toNat).sum * numComponents.toNat + 1 <
      2 ^ 64) (offset objectSize : W) (fuel : Nat) :
    let mem' := describeRepeating mem map offset items
    isValueClassSeries mem' map = true ∧ getSeriesOffset mem' (getHighestSeries map) = offset ∧
      (∀ i : Fin n, getSeriesValItem mem' (getHighestSeries map) (-(i : Nat)) = items i) ∧
      (∀ a, ¬ (getStartOfGCData mem' map ≤ a ∧ a < map) → mem' a = mem a) ∧
      ∃ count, getNumPointers mem' map objectSize numComponents fuel = some count ∧
        count.toNat = ((List.finRange n).map fun i => (items i).nptrs.toNat).sum *
          numComponents.toNat + if collectible mem map then 1 else 0 := by
  intro mem'
  have hmap := map.isLt
  have hd : DescribedRepeating mem mem' map offset items :=
    describeRepeating_described hpos hindex mem map offset items
  have hflags := hd.methodTable hfit htable
  have hcnt : (getNumSeries mem' map).toInt = -(n : Int) := by
    rw [hd.numSeries, toInt_neg_ofNat (by omega)]
  refine ⟨?_, hd.offset, hd.items,
    fun a ha => hd.outside a (mt (hd.inMap_iff hpos hfit a).mp ha), ?_⟩
  · rw [isValueClassSeries, hcnt]
    exact decide_eq_true (by omega)
  · have hptr' : containsPointers mem' map = true := by rwa [containsPointers, hflags]
    have hcollectible : collectible mem' map = collectible mem map := by
      rw [collectible, collectible, hflags]
    have hneg : ¬ 0 ≤ (getNumSeries mem' map).toInt := by omega
    have hcode : getNumPointers mem' map objectSize numComponents fuel =
        some (if collectible mem map then
          BitVec.ofNat 64 ((List.finRange n).map fun i => (items i).nptrs.toNat).sum *
            numComponents + 1
          else BitVec.ofNat 64 ((List.finRange n).map fun i => (items i).nptrs.toNat).sum *
            numComponents) := by
      rw [getNumPointers, if_pos hptr', hcollectible]
      dsimp only [getCGCDescFromMT]
      rw [if_neg hneg, hcnt, hd.countRepeating_eq]
      rfl
    refine ⟨_, hcode, ?_⟩
    generalize ((List.finRange n).map fun i => (items i).nptrs.toNat).sum = pointers at hlt ⊢
    have hmul : (BitVec.ofNat 64 pointers * numComponents).toNat =
        pointers * numComponents.toNat := by
      rw [BitVec.toNat_mul, BitVec.toNat_ofNat, Nat.mod_mul_mod, Nat.mod_eq_of_lt (by omega)]
    have hone : (1 : W).toNat = 1 := rfl
    split
    · rw [toNat_add_of_lt (by omega), hmul, hone]
    · rw [hmul, Nat.add_zero]

/-- A structure with two references and one, behind two words that are none. -/
def twoItems : Fin 2 → ValSerieItem := ![⟨2, 8⟩, ⟨1, 8⟩]

theorem repeating_counts_two_items :
    let mem' := describeRepeating twoRunsMemory 0x2000 16 twoItems
    isValueClassSeries mem' 0x2000 = true ∧ getSeriesOffset mem' (getHighestSeries 0x2000) = 16 ∧
      (∀ i : Fin 2, getSeriesValItem mem' (getHighestSeries 0x2000) (-(i : Nat)) = twoItems i) ∧
      (∀ a, ¬ (getStartOfGCData mem' 0x2000 ≤ a ∧ a < 0x2000) → mem' a = twoRunsMemory a) ∧
      ∃ count, getNumPointers mem' 0x2000 0 5 0 = some count ∧ count.toNat = 15 :=
  repeating_counts (by decide) (by decide) (by decide) (by decide) (by decide) (by decide) 16 0 0

end

end MiniGC
