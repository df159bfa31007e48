import Mathlib.Data.List.Infix
import Mathlib.Data.List.Nodup
import Mathlib.Logic.Function.Basic

/-!
# MiniGC.Lib.Sweep

A pass over an array that may rewrite each place it visits, for arbitrary keys and values.

* `sweep test f a keys`   visits the `keys` in turn and replaces the value at each one that passes
  `test`. What `f` puts there may depend on the visits before.
* `Swept`   what is known after it: which keys were visited, in which order, and what is there now.
-/

namespace Sweep

variable {κ α : Type*} [DecidableEq κ]

structure Visit (κ α : Type*) where
  key : κ
  before : α
  after : α

/-- One step: the array and the visits so far, and the next key. -/
def visit (test : κ → α → Bool) (f : List (Visit κ α) → κ → α → α)
    (r : (κ → α) × List (Visit κ α)) (k : κ) : (κ → α) × List (Visit κ α) :=
  if test k (r.1 k) then
    let after := f r.2 k (r.1 k)
    (Function.update r.1 k after, r.2 ++ [⟨k, r.1 k, after⟩])
  else r

def sweep (test : κ → α → Bool) (f : List (Visit κ α) → κ → α → α) (a : κ → α) (keys : List κ) :
    (κ → α) × List (Visit κ α) :=
  keys.foldl (visit test f) (a, [])

structure Swept (test : κ → α → Bool) (f : List (Visit κ α) → κ → α → α) (a : κ → α)
    (keys : List κ) (r : (κ → α) × List (Visit κ α)) : Prop where
  visited : r.2.map Visit.key = keys.filter fun k => test k (a k)
  before : ∀ v ∈ r.2, v.before = a v.key
  after : ∀ v ∈ r.2, r.1 v.key = v.after
  calls : ∀ p v, p ++ [v] <+: r.2 → v.after = f p v.key v.before
  kept : ∀ k, k ∉ r.2.map Visit.key → r.1 k = a k

variable {test : κ → α → Bool} {f : List (Visit κ α) → κ → α → α} {a : κ → α} {keys : List κ}

theorem visit_of_true {r : (κ → α) × List (Visit κ α)} {k : κ} (h : test k (r.1 k) = true) :
    visit test f r k = (Function.update r.1 k (f r.2 k (r.1 k)),
      r.2 ++ [⟨k, r.1 k, f r.2 k (r.1 k)⟩]) := by
  rw [visit, if_pos h]

theorem visit_of_false {r : (κ → α) × List (Visit κ α)} {k : κ} (h : ¬ test k (r.1 k) = true) :
    visit test f r k = r := by
  rw [visit, if_neg h]

theorem Swept.step {r : (κ → α) × List (Visit κ α)} (h : Swept test f a keys r) {k : κ}
    (hk : k ∉ keys) : Swept test f a (keys ++ [k]) (visit test f r k) := by
  have hnot : k ∉ r.2.map Visit.key := by
    rw [h.visited]
    exact fun hmem => hk (List.mem_filter.mp hmem).1
  have hsame : r.1 k = a k := h.kept k hnot
  by_cases htest : test k (a k) = true
  · rw [visit_of_true (hsame ▸ htest), hsame]
    refine ⟨?_, fun v hv => ?_, fun v hv => ?_, fun p v hp => ?_, fun k' hk' => ?_⟩
    · simp [h.visited, htest]
    · rcases List.mem_append.mp hv with hv | hv
      · exact h.before v hv
      · rw [List.mem_singleton.mp hv]
    · rcases List.mem_append.mp hv with hv | hv
      · have hne : v.key ≠ k := fun he => hnot (he ▸ List.mem_map_of_mem hv)
        exact (Function.update_of_ne hne _ _).trans (h.after v hv)
      · rw [List.mem_singleton.mp hv]
        exact Function.update_self _ _ _
    · rcases List.prefix_concat_iff.mp hp with heq | hp
      · obtain ⟨rfl, hv⟩ := List.append_inj' heq rfl
        rw [List.singleton_inj.mp hv]
      · exact h.calls p v hp
    · have hne : k' ≠ k := by
        rintro rfl
        exact hk' (by simp)
      refine (Function.update_of_ne hne _ _).trans (h.kept k' fun hmem => hk' ?_)
      rw [List.map_append]
      exact List.mem_append_left _ hmem
  · rw [visit_of_false (hsame ▸ htest)]
    exact { h with visited := by simp [h.visited, htest] }

/-- A sweep over distinct keys visits those whose value passes the test, in their order. -/
theorem swept (hkeys : keys.Nodup) : Swept test f a keys (sweep test f a keys) := by
  induction keys using List.reverseRecOn with
  | nil => exact ⟨rfl, by simp [sweep], by simp [sweep], by simp [sweep], fun _ _ => rfl⟩
  | append_singleton keys k ih =>
    rw [List.nodup_append_comm, List.singleton_append, List.nodup_cons] at hkeys
    rw [sweep, List.foldl_append]
    exact (ih hkeys.2).step hkeys.1

end Sweep
