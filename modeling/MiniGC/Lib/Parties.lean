import Mathlib.Data.List.Basic
import Mathlib.Logic.Function.Basic

/-!
# MiniGC.Lib.Parties

Traces that several parties write together, each entry tagged with its party. Parties, letters and
the places of the protocol are arbitrary.

* `follow`     a protocol, given as a partial transition function, run along a word.
* `Conform`    the part of the trace that a party wrote leads it from the start of the protocol to
  its place, for every party.
* `Conform.move`  that is kept when one party writes a word that leads from its place to its next.
-/

namespace Parties

variable {τ α κ : Type*}

/-- Where the word `w` leads from `k`; `none` where the protocol has no such transition. -/
def follow (δ : κ → α → Option κ) (k : κ) (w : List α) : Option κ := w.foldlM δ k

@[simp] theorem follow_nil (δ : κ → α → Option κ) (k : κ) : follow δ k [] = some k := rfl

@[simp] theorem follow_singleton (δ : κ → α → Option κ) (k : κ) (x : α) :
    follow δ k [x] = δ k x := by
  simp [follow]

theorem follow_append (δ : κ → α → Option κ) (k : κ) (w w' : List α) :
    follow δ k (w ++ w') = (follow δ k w).bind fun k' => follow δ k' w' := List.foldlM_append

variable [DecidableEq τ]

/-- What party `t` wrote. -/
def wordOf (trace : List (τ × α)) (t : τ) : List α :=
  (trace.filter fun x => x.1 = t).map Prod.snd

@[simp] theorem wordOf_nil (t : τ) : wordOf ([] : List (τ × α)) t = [] := rfl

theorem wordOf_append_self (trace : List (τ × α)) (t : τ) (w : List α) :
    wordOf (trace ++ w.map (Prod.mk t)) t = wordOf trace t ++ w := by
  have hall : (w.map (Prod.mk t)).filter (fun x => x.1 = t) = w.map (Prod.mk t) :=
    List.filter_eq_self.mpr fun x hx => by
      obtain ⟨a, -, rfl⟩ := List.mem_map.mp hx
      exact decide_eq_true rfl
  rw [wordOf, List.filter_append, hall, List.map_append, List.map_map]
  exact congrArg _ (List.map_id w)

theorem wordOf_append_of_ne (trace : List (τ × α)) {t t' : τ} (h : t' ≠ t) (w : List α) :
    wordOf (trace ++ w.map (Prod.mk t)) t' = wordOf trace t' := by
  have hnone : (w.map (Prod.mk t)).filter (fun x => x.1 = t') = [] :=
    List.filter_eq_nil_iff.mpr fun x hx => by
      obtain ⟨a, -, rfl⟩ := List.mem_map.mp hx
      exact fun he => h (of_decide_eq_true he).symm
  rw [wordOf, List.filter_append, hnone, List.append_nil, wordOf]

def Conform (δ : κ → α → Option κ) (start : κ) (trace : List (τ × α)) (place : τ → κ) : Prop :=
  ∀ t, follow δ start (wordOf trace t) = some (place t)

theorem Conform.nil (δ : κ → α → Option κ) (start : κ) :
    Conform δ start ([] : List (τ × α)) fun _ => start := fun _ => rfl

theorem Conform.move {δ : κ → α → Option κ} {start : κ} {trace : List (τ × α)}
    {place place' : τ → κ} (h : Conform δ start trace place) {t : τ} {w : List α}
    (hw : follow δ (place t) w = some (place' t)) (hother : ∀ t' ≠ t, place' t' = place t') :
    Conform δ start (trace ++ w.map (Prod.mk t)) place' := by
  intro t'
  by_cases ht : t' = t
  · subst ht
    rw [wordOf_append_self, follow_append, h t']
    exact hw
  · rw [wordOf_append_of_ne trace ht, h t', hother t' ht]

end Parties
