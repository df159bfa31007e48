import Mathlib.Algebra.Order.Monoid.Canonical.Defs
import Mathlib.Algebra.BigOperators.Group.List.Basic

/-!
# MiniGC.Lib.Tiling

Runs of adjacent blocks. A block `(p, n)` is the half-open range `[p, p + n)` of any canonically
ordered additive monoid; `Tiles a bs b` says that the blocks `bs`, in order, cover `[a, b)` with no
gap and no overlap.

* `Tiles.mem_iff`   a point lies in the range exactly if it lies in one of the blocks.
* `pairwise_apart`  blocks cut from several regions, each region tiled by its own blocks and every
  two regions apart, are pairwise apart.
-/

namespace Tiling

section Tiles

variable {α : Type*} [AddCommMonoid α]

def Tiles (a : α) : List (α × α) → α → Prop
  | [], b => a = b
  | (p, n) :: bs, b => p = a ∧ Tiles (a + n) bs b

@[simp] theorem tiles_nil {a b : α} : Tiles a [] b ↔ a = b := Iff.rfl

theorem tiles_append {a c : α} {bs cs : List (α × α)} :
    Tiles a (bs ++ cs) c ↔ ∃ b, Tiles a bs b ∧ Tiles b cs c := by
  induction bs generalizing a with
  | nil => simp [Tiles]
  | cons x bs ih =>
    simp only [List.cons_append, Tiles, ih]
    constructor
    · rintro ⟨hp, b, h1, h2⟩; exact ⟨b, ⟨hp, h1⟩, h2⟩
    · rintro ⟨b, ⟨hp, h1⟩, h2⟩; exact ⟨hp, b, h1, h2⟩

/-- One more block, right where the run ends. -/
theorem Tiles.snoc {a b : α} {bs : List (α × α)} (h : Tiles a bs b) (n : α) :
    Tiles a (bs ++ [(b, n)]) (b + n) :=
  tiles_append.mpr ⟨b, h, rfl, rfl⟩

/-- Empty blocks at `a` tile the empty range there. -/
theorem tiles_empty {a : α} {bs : List (α × α)} (h : ∀ x ∈ bs, x = (a, 0)) : Tiles a bs a := by
  induction bs with
  | nil => rfl
  | cons x bs ih =>
    obtain rfl : x = (a, 0) := h x (by simp)
    refine ⟨rfl, ?_⟩
    rw [add_zero]
    exact ih fun y hy => h y (by simp [hy])

/-- The end of a run is its start plus the sizes of its blocks. -/
theorem Tiles.end_eq {a b : α} {bs : List (α × α)} (h : Tiles a bs b) :
    b = a + (bs.map Prod.snd).sum := by
  induction bs generalizing a with
  | nil => simpa [Tiles] using h.symm
  | cons x bs ih =>
    rw [ih h.2, List.map_cons, List.sum_cons, add_assoc]

/-- Blocks of one length, each where the one before it ends. -/
theorem tiles_of_getElem? {a n : α} {starts : List α}
    (h : ∀ (i : Nat) p, starts[i]? = some p → p = a + i • n) :
    Tiles a (starts.map fun p => (p, n)) (a + starts.length • n) := by
  induction starts generalizing a with
  | nil => simp
  | cons p starts ih =>
    have hfirst : p = a := by simpa using h 0 p rfl
    have hrest := ih (a := a + n) fun i q hq => by
      rw [h (i + 1) q hq, succ_nsmul', add_assoc]
    refine ⟨hfirst, ?_⟩
    rwa [List.length_cons, succ_nsmul', ← add_assoc]

end Tiles

section Apart

variable {α : Type*} [Add α] [PartialOrder α]

/-- Two blocks that do not overlap. -/
def Apart (x y : α × α) : Prop := x.1 + x.2 ≤ y.1 ∨ y.1 + y.2 ≤ x.1

/-- `x` lies in the range `[r.1, r.2)`. -/
def Within (r x : α × α) : Prop := r.1 ≤ x.1 ∧ x.1 + x.2 ≤ r.2

/-- Blocks inside two ranges, one of which ends before the other starts, are apart. -/
theorem Apart.of_within {r q x y : α × α} (hx : Within r x) (hy : Within q y)
    (h : r.2 ≤ q.1 ∨ q.2 ≤ r.1) : Apart x y := by
  rcases h with h | h
  · exact .inl (hx.2.trans (h.trans hy.1))
  · exact .inr (hy.2.trans (h.trans hx.1))

end Apart

section Order

variable {α : Type*} [AddCommMonoid α] [PartialOrder α] [CanonicallyOrderedAdd α]

theorem Tiles.le {a b : α} {bs : List (α × α)} (h : Tiles a bs b) : a ≤ b :=
  h.end_eq ▸ le_self_add

theorem Tiles.within {a b : α} {bs : List (α × α)} (h : Tiles a bs b) :
    ∀ x ∈ bs, Within (a, b) x := by
  induction bs generalizing a with
  | nil => simp
  | cons y bs ih =>
    obtain ⟨rfl, hrest⟩ := h
    intro x hx
    rcases List.mem_cons.mp hx with rfl | hx
    · exact ⟨le_rfl, hrest.le⟩
    · obtain ⟨h1, h2⟩ := ih hrest x hx
      exact ⟨le_self_add.trans h1, h2⟩

/-- Blocks of one run are apart: each ends at or before the start of every later one. -/
theorem Tiles.pairwise {a b : α} {bs : List (α × α)} (h : Tiles a bs b) : bs.Pairwise Apart := by
  induction bs generalizing a with
  | nil => exact .nil
  | cons y bs ih =>
    obtain ⟨rfl, hrest⟩ := h
    exact .cons (fun x hx => .inl (hrest.within x hx).1) (ih hrest)

end Order

section Points

variable {α : Type*} [AddCommMonoid α] [LinearOrder α] [CanonicallyOrderedAdd α]

/-- A point lies in the tiled range exactly if it lies in one of the blocks. -/
theorem Tiles.mem_iff {a b p : α} {bs : List (α × α)} (h : Tiles a bs b) :
    a ≤ p ∧ p < b ↔ ∃ x ∈ bs, x.1 ≤ p ∧ p < x.1 + x.2 := by
  induction bs generalizing a with
  | nil =>
    obtain rfl : a = b := h
    simp
  | cons x bs ih =>
    obtain ⟨rfl, hrest⟩ := h
    have hle : x.1 + x.2 ≤ b := hrest.le
    rw [List.exists_mem_cons_iff, ← ih hrest]
    constructor
    · rintro ⟨hge, hlt⟩
      rcases lt_or_ge p (x.1 + x.2) with hin | hout
      · exact .inl ⟨hge, hin⟩
      · exact .inr ⟨hout, hlt⟩
    · rintro (⟨hge, hlt⟩ | ⟨hge, hlt⟩)
      · exact ⟨hge, hlt.trans_le hle⟩
      · exact ⟨le_self_add.trans hge, hlt⟩

end Points

/-- A relation that holds within every class and between any two classes holds throughout. -/
theorem pairwise_of_classes {β κ : Type*} [DecidableEq κ] (key : β → κ) {R : β → β → Prop} :
    ∀ {l : List β}, (∀ k, (l.filter fun x => key x = k).Pairwise R) →
      (∀ x ∈ l, ∀ y ∈ l, key x ≠ key y → R x y) → l.Pairwise R := by
  intro l
  induction l with
  | nil => intro _ _; exact .nil
  | cons x l ih =>
    intro hin hout
    refine .cons (fun y hy => ?_) (ih (fun k => ?_) fun a ha b hb => ?_)
    · by_cases hk : key x = key y
      · have hcls := hin (key y)
        rw [List.filter_cons_of_pos (by simpa using hk)] at hcls
        exact (List.pairwise_cons.mp hcls).1 y (List.mem_filter.mpr ⟨hy, by simp⟩)
      · exact hout x (by simp) y (by simp [hy]) hk
    · exact (hin k).sublist ((List.sublist_cons_self x l).filter _)
    · exact hout a (by simp [ha]) b (by simp [hb])

section Regions

variable {α β κ : Type*} [DecidableEq κ] [AddCommMonoid α] [PartialOrder α]
  [CanonicallyOrderedAdd α]

/-- Blocks cut from several regions. If the blocks of each region tile a range, and the ranges of
any two regions are apart, then all blocks are pairwise apart. -/
theorem pairwise_apart (key : β → κ) (block : β → α × α) (range : κ → α × α) {l : List β}
    (htile : ∀ x ∈ l, Tiles (range (key x)).1 ((l.filter fun y => key y = key x).map block)
      (range (key x)).2)
    (hsep : ∀ x ∈ l, ∀ y ∈ l, key x ≠ key y →
      (range (key x)).2 ≤ (range (key y)).1 ∨ (range (key y)).2 ≤ (range (key x)).1) :
    (l.map block).Pairwise Apart := by
  rw [List.pairwise_map]
  refine pairwise_of_classes key (fun k => ?_) fun x hx y hy hne => ?_
  · rcases hk : l.filter (fun y => key y = k) with _ | ⟨x, rest⟩
    · exact .nil
    · have hx : x ∈ l.filter fun y => key y = k := by rw [hk]; simp
      obtain ⟨hmem, hkey⟩ := List.mem_filter.mp hx
      obtain rfl : key x = k := by simpa using hkey
      have := (htile x hmem).pairwise
      rw [List.pairwise_map, hk] at this
      exact this
  · have hwx := (htile x hx).within (block x)
      (List.mem_map_of_mem (List.mem_filter.mpr ⟨hx, by simp⟩))
    have hwy := (htile y hy).within (block y)
      (List.mem_map_of_mem (List.mem_filter.mpr ⟨hy, by simp⟩))
    exact .of_within hwx hwy (hsep x hx y hy hne)

end Regions

end Tiling
