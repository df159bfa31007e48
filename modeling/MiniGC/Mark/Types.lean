import MiniGC.Mark.Slots

/-!
# MiniGC.Mark.Types

Which method table marking asks about. The mark is set in the word that the type is then read from,
and the raw accessor hands the mark out with the type.

* `typeQuestions`   the questions of one call, also where its walk does not end.
* `typeQuestions_eq`   they read one byte above the type, where the pointer flag is bit 0 of the
  base size.
* `mark_asks_tagged`   no call asks about the type of the object.
-/

namespace MiniGC

/-- The questions that marking asks about a type before it walks. -/
def typeQuestions (mem : Memory) (obj : W) : List (TypeQuestion × W) :=
  if isMarked mem obj then []
  else
    let mem := setMarked mem obj
    let pMT := rawGetMethodTable mem obj
    if containsPointers mem pMT then
      [(.collectible, pMT), (.containsPointers, pMT), (.gcDesc, pMT)]
    else [(.collectible, pMT), (.containsPointers, pMT)]

section

variable {mem : Memory} {obj : W}

theorem markObjectTransitively_asked {ndebug : Bool} {fuel : Nat} {r : MarkRun}
    (h : markObjectTransitively ndebug mem obj fuel = some r) :
    r.asked = typeQuestions mem obj := by
  unfold markObjectTransitively at h
  unfold typeQuestions
  split at h
  · cases h
    simp [*]
  · rename_i hmark
    rw [if_neg hmark]
    dsimp only at h ⊢
    split at h
    · rename_i hptr
      obtain ⟨walk, -, rfl⟩ := Option.map_eq_some_iff.mp h
      rw [if_pos hptr]
    · rename_i hptr
      cases h
      rw [if_neg hptr]

/-! ## The mark in the type -/

theorem getMethodTable_getLsbD_zero (mem : Memory) (obj : W) :
    (getMethodTable mem obj).getLsbD 0 = false := by
  rw [getMethodTable, BitVec.getLsbD_and]
  exact Bool.and_false _

/-- Bit 0 is clear in a type, so that the mark is added to it. -/
theorem getMethodTable_tagged (mem : Memory) (obj : W) :
    getMethodTable mem obj ||| gcMarked = getMethodTable mem obj + 1 := by
  have hbit : gcMarked = BitVec.twoPow 64 0 := rfl
  refine (BitVec.add_eq_or_of_and_eq_zero _ gcMarked ?_).symm
  rw [hbit, BitVec.and_twoPow, getMethodTable_getLsbD_zero]
  rfl

/-- The raw accessor returns the type with the mark in it. -/
theorem rawGetMethodTable_type (mem : Memory) (obj : W) :
    rawGetMethodTable (setMarked mem obj) obj = getMethodTable mem obj + 1 := by
  have hread : rawGetMethodTable (setMarked mem obj) obj = rawGetMethodTable mem obj ||| gcMarked :=
    read64_write64 mem obj _
  rw [hread, ← getMethodTable_tagged, getMethodTable]
  ext i hi
  cases hbit : gcMarked[i] <;> simp [hbit]

/-! ## One byte above a method table -/

theorem flag_eq (flags : BitVec 16) {i : Nat} (hi : i < 16) :
    (flags &&& BitVec.twoPow 16 i != 0) = flags.getLsbD i := by
  have hone : (BitVec.twoPow 16 i).getLsbD i = true := by simp [hi]
  have hne : BitVec.twoPow 16 i ≠ 0 := by
    intro h
    rw [h] at hone
    simp at hone
  rw [BitVec.and_twoPow]
  cases flags.getLsbD i
  · rfl
  · exact bne_iff_ne.mpr hne

/-- The upper byte of the flags stands where the base size starts. -/
theorem getFlags_succ (mem : Memory) (mt : W) {i : Nat} (hi : i < 8) :
    (getFlags mem (mt + 1)).getLsbD (8 + i) = (getBaseSize mem mt).getLsbD i := by
  have hbyte : mt + 1 + 2 + 1 = mt + 4 := by simp [BitVec.add_assoc]
  have hflag : (getFlags mem (mt + 1)).getLsbD (8 + i) = (mem (mt + 4)).getLsbD i := by
    rw [getFlags, read16, hbyte, BitVec.getLsbD_append, if_neg (by omega), Nat.add_sub_cancel_left]
  have hbase : (getBaseSize mem mt).getLsbD i = (mem (mt + 4)).getLsbD i := by
    rw [getBaseSize, read32, BitVec.getLsbD_append, if_pos (by omega), read16,
      BitVec.getLsbD_append, if_pos hi]
  rw [hflag, hbase]

theorem containsPointers_succ (mem : Memory) (mt : W) :
    containsPointers mem (mt + 1) = (getBaseSize mem mt).getLsbD 0 :=
  (flag_eq _ (i := 8) (by decide)).trans (getFlags_succ mem mt (i := 0) (by decide))

theorem collectible_succ (mem : Memory) (mt : W) :
    collectible mem (mt + 1) = (getBaseSize mem mt).getLsbD 4 :=
  (flag_eq _ (i := 12) (by decide)).trans (getFlags_succ mem mt (i := 4) (by decide))

/-- Marking asks one byte above the type, and takes bit 0 of the base size for the pointer flag. -/
theorem typeQuestions_eq (h : isMarked mem obj = false) :
    let mt := getMethodTable mem obj
    typeQuestions mem obj =
      if (getBaseSize (setMarked mem obj) mt).getLsbD 0 then
        [(.collectible, mt + 1), (.containsPointers, mt + 1), (.gcDesc, mt + 1)]
      else [(.collectible, mt + 1), (.containsPointers, mt + 1)] := by
  intro mt
  simp only [typeQuestions, h, rawGetMethodTable_type, containsPointers_succ]
  rfl

/-- Where the base size is even, as the sizes of objects are, marking walks over nothing. -/
theorem mark_of_even (h : isMarked mem obj = false)
    (heven : (getBaseSize (setMarked mem obj) (getMethodTable mem obj)).getLsbD 0 = false)
    (ndebug : Bool) (fuel : Nat) :
    ∃ r, markObjectTransitively ndebug mem obj fuel = some r ∧ r.walk = none ∧
      r.loaderAllocatorOf =
        if (getBaseSize (setMarked mem obj) (getMethodTable mem obj)).getLsbD 4 then [obj]
        else [] := by
  simp only [markObjectTransitively, h, rawGetMethodTable_type, containsPointers_succ,
    collectible_succ, heven]
  exact ⟨_, rfl, rfl, rfl⟩

/-! ## No call asks about the type of the object -/

/-- A call asks about the type that the object had before it, and a second call does nothing. -/
structure AsksRealType (mem : Memory) (obj : W) : Prop where
  asked : ∀ q ∈ typeQuestions mem obj, q.2 = getMethodTable mem obj
  again : ∀ ndebug fuel r, markObjectTransitively ndebug mem obj fuel = some r → ∀ fuel',
    markObjectTransitively ndebug r.mem obj fuel' = some ⟨r.mem, [], [], none⟩

theorem typeQuestions_tagged (h : isMarked mem obj = false) :
    ∀ q ∈ typeQuestions mem obj, q.2 = getMethodTable mem obj + 1 := by
  intro q hq
  rw [typeQuestions_eq h] at hq
  split at hq <;> simp at hq <;> rcases hq with rfl | rfl | rfl <;> rfl

theorem typeQuestions_ne_nil (h : isMarked mem obj = false) : typeQuestions mem obj ≠ [] := by
  rw [typeQuestions_eq h]
  split <;> simp

/-- For every object that is not marked, the questions go to the type with the mark in it, which is
not the type of the object. A second call does nothing. -/
theorem mark_asks_tagged (mem : Memory) (obj : W) (h : isMarked mem obj = false) :
    ¬ AsksRealType mem obj ∧
      (∀ q ∈ typeQuestions mem obj,
        q.2 = getMethodTable mem obj ||| gcMarked ∧ q.2 ≠ getMethodTable mem obj) ∧
      ∀ ndebug fuel r, markObjectTransitively ndebug mem obj fuel = some r →
        r.asked = typeQuestions mem obj ∧
          ∀ fuel', markObjectTransitively ndebug r.mem obj fuel' =
            some ⟨r.mem, [], [], none⟩ := by
  have hne : ∀ q ∈ typeQuestions mem obj, q.2 ≠ getMethodTable mem obj := by
    intro q hq
    rw [typeQuestions_tagged h q hq]
    simp
  refine ⟨fun hreal => ?_, fun q hq => ⟨?_, hne q hq⟩, fun ndebug fuel r hr => ?_⟩
  · obtain ⟨q, hq⟩ := List.exists_mem_of_ne_nil _ (typeQuestions_ne_nil h)
    exact hne q hq (hreal.asked q hq)
  · rw [getMethodTable_tagged]
    exact typeQuestions_tagged h q hq
  · exact ⟨markObjectTransitively_asked hr, markObjectTransitively_again hr⟩

end

theorem mark_asks_tagged_of_oneField :
    ¬ AsksRealType (oneFieldMemory 0) 0x10000 ∧
      (∀ q ∈ typeQuestions (oneFieldMemory 0) 0x10000,
        q.2 = getMethodTable (oneFieldMemory 0) 0x10000 ||| gcMarked ∧
          q.2 ≠ getMethodTable (oneFieldMemory 0) 0x10000) ∧
      ∀ ndebug fuel r, markObjectTransitively ndebug (oneFieldMemory 0) 0x10000 fuel = some r →
        r.asked = typeQuestions (oneFieldMemory 0) 0x10000 ∧
          ∀ fuel', markObjectTransitively ndebug r.mem 0x10000 fuel' =
            some ⟨r.mem, [], [], none⟩ :=
  mark_asks_tagged (oneFieldMemory 0) 0x10000 (by decide)

/-- The object has one pointer and is not collectible. Marking sees no pointer, visits nothing, and
asks for a loader allocator. -/
theorem oneField_misread :
    let mem := oneFieldMemory 0
    let mt := getMethodTable mem 0x10000
    isMarked mem 0x10000 = false ∧ containsPointers mem mt = true ∧ collectible mem mt = false ∧
      typeQuestions mem 0x10000 = [(.collectible, mt + 1), (.containsPointers, mt + 1)] ∧
      (∀ ndebug fuel, ∃ r, markObjectTransitively ndebug mem 0x10000 fuel = some r ∧
        r.asked = [(.collectible, mt + 1), (.containsPointers, mt + 1)] ∧
        r.loaderAllocatorOf = [0x10000] ∧ r.walk = none) ∧
      ¬ AsksRealType mem 0x10000 := by
  have hmark : isMarked (oneFieldMemory 0) 0x10000 = false := by decide
  have hasked : typeQuestions (oneFieldMemory 0) 0x10000 =
      [(.collectible, 0x2001), (.containsPointers, 0x2001)] := by decide
  refine ⟨hmark, by decide, by decide, hasked, fun ndebug fuel => ?_, fun hreal => ?_⟩
  · obtain ⟨r, hr, hwalk, hloader⟩ := mark_of_even hmark (by decide) ndebug fuel
    exact ⟨r, hr, (markObjectTransitively_asked hr).trans hasked, hloader, hwalk⟩
  · have hmem := hreal.asked (.collectible, 0x2001) (by rw [hasked]; exact List.mem_cons_self)
    exact absurd hmem (by decide)

end MiniGC
