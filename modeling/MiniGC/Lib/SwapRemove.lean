import Mathlib.Data.List.Basic

/-!
# MiniGC.Lib.SwapRemove

Removal from an unordered list: the last element takes the place of the one removed, and the list
gets one shorter. For lists over an arbitrary type.
-/

namespace List

variable {α : Type*} [DecidableEq α]

/-- Put the last element in the place of the first `x`, and drop the last place. -/
def swapRemove (l : List α) (x : α) : List α :=
  match l.idxOf? x, l.getLast? with
  | some i, some last => (l.set i last).dropLast
  | _, _ => l

theorem idxOf?_append_cons {p q : List α} {x : α} (hx : x ∉ p) :
    (p ++ x :: q).idxOf? x = some p.length := by
  induction p with
  | nil => simp [idxOf?_cons]
  | cons y p ih =>
    have hne : y ≠ x := fun he => hx (he ▸ mem_cons_self)
    have hnot : x ∉ p := fun hmem => hx (mem_cons_of_mem y hmem)
    rw [cons_append, idxOf?_cons, ih hnot]
    simp [hne]

/-- Whatever the order becomes, `x` is gone once, and all the rest is there. -/
theorem cons_swapRemove_perm {l : List α} {x : α} (hx : x ∈ l) : (x :: l.swapRemove x).Perm l := by
  obtain ⟨p, q, rfl, hp⟩ := eq_append_cons_of_mem hx
  rw [swapRemove, idxOf?_append_cons hp]
  rcases eq_nil_or_concat q with rfl | ⟨q, last, rfl⟩
  · -- `x` is the last element itself
    have hset : (p ++ [x]).set p.length x = p ++ [x] := by simp
    simp only [getLast?_concat, hset, dropLast_concat]
    exact (perm_append_singleton x p).symm
  · rw [concat_eq_append]
    have hset : (p ++ x :: (q ++ [last])).set p.length last = p ++ last :: q ++ [last] := by simp
    have hlast : (p ++ x :: (q ++ [last])).getLast? = some last := by
      rw [← cons_append, ← append_assoc, getLast?_concat]
    simp only [hlast, hset, dropLast_concat]
    calc x :: (p ++ last :: q)
      _ ~ p ++ x :: last :: q := perm_middle.symm
      _ ~ p ++ x :: (q ++ [last]) :=
        Perm.append_left p (Perm.cons x (perm_append_singleton last q).symm)

end List
