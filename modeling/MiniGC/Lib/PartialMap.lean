import Mathlib.Logic.Function.Basic

/-!
# MiniGC.Lib.PartialMap

Two partial maps over the same keys, related where both are defined (`Related`), or one of them held
to a property where the other is not (`OffDomain`), and what an update of one key does to that. The
keys and the two kinds of values are arbitrary.
-/

namespace PartialMap

variable {κ α β : Type*}

/-- Where both maps have a value, `R` holds of the two. -/
def Related (R : α → β → Prop) (f : κ → Option α) (g : κ → Option β) : Prop :=
  ∀ k a b, f k = some a → g k = some b → R a b

variable [DecidableEq κ] {R : α → β → Prop} {f : κ → Option α} {g : κ → Option β}

/-- Writing a value at one key of both maps keeps them related exactly if the new values are. -/
theorem related_update (h : Related R f g) {k : κ} {a : α} {o : Option β} :
    Related R (Function.update f k (some a)) (Function.update g k o) ↔ ∀ b, o = some b → R a b := by
  constructor
  · intro hnext b ho
    exact hnext k a b (by rw [Function.update_self]) (by rw [Function.update_self, ho])
  · intro hnew k' a' b hf hg
    by_cases hk : k' = k
    · subst hk
      rw [Function.update_self] at hf hg
      cases hf
      exact hnew b hg
    · rw [Function.update_of_ne hk] at hf hg
      exact h k' a' b hf hg

/-- The same where only the second map is written. -/
theorem related_update_right (h : Related R f g) {k : κ} {a : α} (hf : f k = some a)
    {o : Option β} : Related R f (Function.update g k o) ↔ ∀ b, o = some b → R a b := by
  have hself : Function.update f k (some a) = f := Function.update_eq_self_iff.mpr hf.symm
  have hboth := related_update h (k := k) (a := a) (o := o)
  rwa [hself] at hboth

/-! ## Where the second map has no value -/

/-- Where only the first map has a value, `P` holds of it. -/
def OffDomain (P : α → Prop) (f : κ → Option α) (g : κ → Option β) : Prop :=
  ∀ k a, f k = some a → g k = none → P a

variable {P : α → Prop}

theorem offDomain_update (h : OffDomain P f g) {k : κ} {a : α} {o : Option β} :
    OffDomain P (Function.update f k (some a)) (Function.update g k o) ↔ (o = none → P a) := by
  constructor
  · intro hnext ho
    exact hnext k a (by rw [Function.update_self]) (by rw [Function.update_self, ho])
  · intro hnew k' a' hf hg
    by_cases hk : k' = k
    · subst hk
      rw [Function.update_self] at hf hg
      cases hf
      exact hnew hg
    · rw [Function.update_of_ne hk] at hf hg
      exact h k' a' hf hg

end PartialMap
