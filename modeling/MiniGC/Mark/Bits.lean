import MiniGC.Lib.Mealy
import MiniGC.Mark.Setters

/-!
# MiniGC.Mark.Bits

The mark bits of many objects, which live in the words that hold their types.

* `Objects`       objects whose first words do not overlap.
* `markMachine`   the calls that set, clear and test marks, on the memory; `setMachine` is what they
  are for, a set of objects.
* `mark_bits_refine`   in every run the calls answer as on the set, every object keeps its type, and
  nothing but first words of objects is written.
-/

namespace MiniGC

/-- Objects, named by `ι`, with a word of eight bytes each that no other one reaches into. -/
structure Objects (ι : Type) where
  addr : ι → W
  apart : ∀ i j, i ≠ j → 8 ≤ (addr i - addr j).toNat

def clearMarked (mem : Memory) (obj : W) : Memory :=
  rawSetMethodTable mem obj (getMethodTable mem obj)

/-- What `MarkObjectTransitively` leaves; `markObjectTransitively_mem` says so. -/
def markMemory (mem : Memory) (obj : W) : Memory :=
  if isMarked mem obj then mem else setMarked mem obj

theorem markObjectTransitively_mem {ndebug : Bool} {mem : Memory} {obj : W} {fuel : Nat}
    {r : MarkRun} (h : markObjectTransitively ndebug mem obj fuel = some r) :
    r.mem = markMemory mem obj := by
  unfold markObjectTransitively at h
  unfold markMemory
  split at h
  · cases h
    simp [*]
  · rename_i hmark
    rw [if_neg hmark]
    dsimp only at h
    split at h
    · obtain ⟨walk, -, rfl⟩ := Option.map_eq_some_iff.mp h
      rfl
    · cases h
      rfl

/-! ## The calls -/

inductive MarkCall (ι : Type) where
  | setMarked (i : ι)
  | clearMarked (i : ι)
  | markObjectTransitively (i : ι)
  | isMarked (i : ι)

section

variable {ι : Type} [DecidableEq ι]

/-- `MarkObjectTransitively` answers whether it goes on to look at the object. -/
def markMachine (O : Objects ι) : Mealy Memory (MarkCall ι) Bool where
  step mem
    | .setMarked i => (setMarked mem (O.addr i), true)
    | .clearMarked i => (clearMarked mem (O.addr i), true)
    | .markObjectTransitively i => (markMemory mem (O.addr i), !isMarked mem (O.addr i))
    | .isMarked i => (mem, isMarked mem (O.addr i))

/-- The same calls on a set of objects. -/
def setMachine (ι : Type) [DecidableEq ι] : Mealy (ι → Bool) (MarkCall ι) Bool where
  step marks
    | .setMarked i => (Function.update marks i true, true)
    | .clearMarked i => (Function.update marks i false, true)
    | .markObjectTransitively i => (Function.update marks i true, !marks i)
    | .isMarked i => (marks, marks i)

/-! ## First words -/

/-- The first words of the objects. -/
def Objects.headers (O : Objects ι) : Fields Memory ι W where
  get mem i := rawGetMethodTable mem (O.addr i)
  put mem i w := rawSetMethodTable mem (O.addr i) w
  get_put mem i w := read64_write64 mem _ w
  get_put_of_ne mem i j w hne := by
    have hij := O.apart i j hne.symm
    have hji := O.apart j i hne
    refine read64_congr fun k hk => write64_of_ge ?_
    bv_omega

/-- The mark in a first word. -/
def wordMarked (w : W) : Bool := w &&& gcMarked != 0

/-- The type in a first word. -/
def wordTable (w : W) : W := w &&& ~~~gcMarked

theorem wordMarked_or (w : W) : wordMarked (w ||| gcMarked) = true := by
  have h : (w ||| gcMarked) &&& gcMarked = gcMarked := by
    ext i hi
    cases hbit : gcMarked[i] <;> simp [hbit]
  rw [wordMarked, h]
  rfl

theorem wordMarked_table (w : W) : wordMarked (wordTable w) = false := by
  have h : w &&& ~~~gcMarked &&& gcMarked = 0 := by
    rw [BitVec.and_assoc, BitVec.and_comm (~~~gcMarked), BitVec.and_not_self]
    exact BitVec.and_zero
  rw [wordMarked, wordTable, h]
  rfl

theorem wordTable_or (w : W) : wordTable (w ||| gcMarked) = wordTable w := by
  unfold wordTable
  ext i hi
  cases hbit : gcMarked[i] <;> simp [hbit]

theorem wordTable_table (w : W) : wordTable (wordTable w) = wordTable w := by
  rw [wordTable, wordTable, BitVec.and_assoc, BitVec.and_self]

/-! ## What a call does -/

variable {O : Objects ι}

/-- An edit of a first word, seen through what is read from first words. -/
theorem Objects.view_edit {β : Type} (O : Objects ι) (view : W → β) (mem : Memory)
    (e : Fields.Edit ι W) :
    (fun i => view (rawGetMethodTable (O.headers.edit mem e) (O.addr i))) =
      Function.update (fun i => view (rawGetMethodTable mem (O.addr i))) e.1
        (view (e.2 (rawGetMethodTable mem (O.addr e.1)))) := by
  have hget := O.headers.get_edit mem e
  have hcomp := congrArg (fun a => view ∘ a) hget
  rw [Function.comp_update] at hcomp
  exact hcomp

theorem isMarked_setMarked_at (mem : Memory) (i : ι) :
    (fun j => isMarked (setMarked mem (O.addr i)) (O.addr j)) =
      Function.update (fun j => isMarked mem (O.addr j)) i true := by
  have hedit := O.view_edit wordMarked mem (i, fun w => w ||| gcMarked)
  rwa [wordMarked_or] at hedit

theorem isMarked_clearMarked_at (mem : Memory) (i : ι) :
    (fun j => isMarked (clearMarked mem (O.addr i)) (O.addr j)) =
      Function.update (fun j => isMarked mem (O.addr j)) i false := by
  have hedit := O.view_edit wordMarked mem (i, wordTable)
  rwa [wordMarked_table] at hedit

omit [DecidableEq ι] in
/-- A call leaves the memory alone, or edits a first word in a way that keeps the type in it. -/
theorem markMachine_next (mem : Memory) (call : MarkCall ι) :
    (markMachine O).next mem call = mem ∨ ∃ e : Fields.Edit ι W,
      (∀ w, wordTable (e.2 w) = wordTable w) ∧
        (markMachine O).next mem call = O.headers.edit mem e := by
  cases call with
  | setMarked i => exact .inr ⟨(i, fun w => w ||| gcMarked), wordTable_or, rfl⟩
  | clearMarked i => exact .inr ⟨(i, wordTable), wordTable_table, rfl⟩
  | isMarked i => exact .inl rfl
  | markObjectTransitively i =>
    by_cases hmark : isMarked mem (O.addr i) = true
    · exact .inl (if_pos hmark)
    · exact .inr ⟨(i, fun w => w ||| gcMarked), wordTable_or, if_neg hmark⟩

/-- The set of marked objects, which the calls treat as `setMachine` does. -/
def marksPart (O : Objects ι) : (markMachine O).Part (setMachine ι) where
  state mem i := isMarked mem (O.addr i)
  input := some
  output := some
  next mem call := by
    cases call with
    | setMarked i => exact isMarked_setMarked_at mem i
    | clearMarked i => exact isMarked_clearMarked_at mem i
    | isMarked i => rfl
    | markObjectTransitively i =>
      show (fun j => isMarked (markMemory mem (O.addr i)) (O.addr j)) = Function.update _ i true
      unfold markMemory
      split
      · rename_i hmark
        exact (Function.update_eq_self_iff.mpr hmark.symm).symm
      · exact isMarked_setMarked_at mem i
  answer mem call call' h := by
    cases h
    cases call <;> rfl

omit [DecidableEq ι] in
theorem Objects.edit_outside (O : Objects ι) (mem : Memory) (e : Fields.Edit ι W) {a : W}
    (ha : ∀ i, 8 ≤ (a - O.addr i).toNat) : O.headers.edit mem e a = mem a :=
  write64_of_ge (ha e.1)

theorem Objects.edit_table (O : Objects ι) (mem : Memory) {e : Fields.Edit ι W}
    (he : ∀ w, wordTable (e.2 w) = wordTable w) (i : ι) :
    getMethodTable (O.headers.edit mem e) (O.addr i) = getMethodTable mem (O.addr i) := by
  have hedit := O.view_edit wordTable mem e
  rw [he, Function.update_eq_self_iff.mpr rfl] at hedit
  exact congrFun hedit i

/-- The calls answer as on a set of objects, and leave that set. -/
theorem markMachine_refines (O : Objects ι) (mem : Memory) (calls : List (MarkCall ι)) :
    (markMachine O).trace mem calls =
        (setMachine ι).trace (fun i => isMarked mem (O.addr i)) calls ∧
      (fun i => isMarked ((markMachine O).run mem calls) (O.addr i)) =
        (setMachine ι).run (fun i => isMarked mem (O.addr i)) calls := by
  have htrace := (marksPart O).trace mem calls
  have hrun := (marksPart O).run mem calls
  have hinput : calls.filterMap (marksPart O).input = calls := List.filterMap_some
  have hentry : ((markMachine O).trace mem calls).filterMap (marksPart O).entry =
      (markMachine O).trace mem calls := List.filterMap_some
  rw [hinput] at htrace hrun
  rw [hentry] at htrace
  exact ⟨htrace, hrun⟩

/-- No call touches a type, or a byte outside of first words. -/
theorem markMachine_kept (O : Objects ι) (mem : Memory) (calls : List (MarkCall ι)) :
    (∀ i, getMethodTable ((markMachine O).run mem calls) (O.addr i) =
        getMethodTable mem (O.addr i)) ∧
      ∀ a, (∀ i, 8 ≤ (a - O.addr i).toNat) → (markMachine O).run mem calls a = mem a := by
  refine (markMachine O).run_inv
    (P := fun m => (∀ i, getMethodTable m (O.addr i) = getMethodTable mem (O.addr i)) ∧
      ∀ a, (∀ i, 8 ≤ (a - O.addr i).toNat) → m a = mem a)
    (fun m call hm => ?_) ⟨fun _ => rfl, fun _ _ => rfl⟩ calls
  rcases markMachine_next (O := O) m call with hnext | ⟨e, he, hnext⟩
  · rwa [hnext]
  · rw [hnext]
    exact ⟨fun i => (O.edit_table m he i).trans (hm.1 i),
      fun a ha => (O.edit_outside m e ha).trans (hm.2 a ha)⟩

/-- In every run of calls that mark objects, clear marks and test them, on objects whose first words
do not overlap, the calls answer as on a set of objects; in particular an object is looked at once
between two clearings. No object changes its type, and no byte outside of first words is written. -/
theorem mark_bits_refine (O : Objects ι) (mem : Memory) (calls : List (MarkCall ι)) :
    let mem' := (markMachine O).run mem calls
    let marks : ι → Bool := fun i => isMarked mem (O.addr i)
    (markMachine O).trace mem calls = (setMachine ι).trace marks calls ∧
      (fun i => isMarked mem' (O.addr i)) = (setMachine ι).run marks calls ∧
      (∀ i, getMethodTable mem' (O.addr i) = getMethodTable mem (O.addr i)) ∧
      ∀ a, (∀ i, 8 ≤ (a - O.addr i).toNat) → mem' a = mem a := by
  intro mem' marks
  obtain ⟨htrace, hrun⟩ := markMachine_refines O mem calls
  exact ⟨htrace, hrun, markMachine_kept O mem calls⟩

end

end MiniGC
