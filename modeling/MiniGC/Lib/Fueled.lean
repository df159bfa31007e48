import Mathlib.Logic.Function.Iterate

/-!
# MiniGC.Lib.Fueled

`while` and `do … while` loops run with fuel, for an arbitrary state. A run that is out of fuel has
no result, so that a loop returns only where it really ends.

* `Returns f r`   with enough fuel, `f` ends with `r`.
* `whileDo_returns`, `doWhile_returns`   a loop whose test fails for the first time after `n` turns
  returns the state after `n` turns.
* `doWhile_exit`, `doWhile_endless`   the test has failed where a loop has ended, so that one whose
  test cannot fail does not end.
-/

namespace Fueled

variable {σ α : Type*}

/-- `while (test) body;` -/
def whileDo (test : σ → Bool) (body : σ → σ) : Nat → σ → Option σ
  | 0, _ => none
  | fuel + 1, s => if test s then whileDo test body fuel (body s) else some s

/-- `do body while (test);`, where the body may run loops of its own. -/
def doWhile (test : σ → Bool) (body : Nat → σ → Option σ) : Nat → σ → Option σ
  | 0, _ => none
  | fuel + 1, s => do
    let s' ← body fuel s
    if test s' then doWhile test body fuel s' else some s'

def Returns (f : Nat → Option α) (r : α) : Prop :=
  ∃ fuel₀, ∀ fuel, fuel₀ ≤ fuel → f fuel = some r

theorem Returns.unique {f : Nat → Option α} {r r' : α} (h : Returns f r) (h' : Returns f r') :
    r = r' := by
  obtain ⟨a, ha⟩ := h
  obtain ⟨b, hb⟩ := h'
  have hr := ha (max a b) (Nat.le_max_left a b)
  rw [hb (max a b) (Nat.le_max_right a b)] at hr
  exact (Option.some.inj hr).symm

theorem Returns.map {β : Type*} {f : Nat → Option α} {r : α} (h : Returns f r) (g : α → β) :
    Returns (fun fuel => (f fuel).map g) (g r) := by
  obtain ⟨fuel₀, h⟩ := h
  refine ⟨fuel₀, fun fuel hfuel => ?_⟩
  show (f fuel).map g = some (g r)
  rw [h fuel hfuel, Option.map_some]

theorem whileDo_of_true {test : σ → Bool} {body : σ → σ} {s : σ} (h : test s = true) (fuel : Nat) :
    whileDo test body (fuel + 1) s = whileDo test body fuel (body s) := by
  rw [whileDo, if_pos h]

theorem whileDo_of_false {test : σ → Bool} {body : σ → σ} {s : σ} (h : test s = false)
    (fuel : Nat) : whileDo test body (fuel + 1) s = some s := by
  rw [whileDo, if_neg (by simp [h])]

theorem doWhile_of_some {test : σ → Bool} {body : Nat → σ → Option σ} {s s' : σ} {fuel : Nat}
    (h : body fuel s = some s') :
    doWhile test body (fuel + 1) s = if test s' then doWhile test body fuel s' else some s' := by
  rw [doWhile, h]
  rfl

/-- Where a loop has ended, its test has failed. -/
theorem doWhile_exit {test : σ → Bool} {body : Nat → σ → Option σ} {fuel : Nat} {s r : σ}
    (h : doWhile test body fuel s = some r) : test r = false := by
  induction fuel generalizing s with
  | zero => cases h
  | succ fuel ih =>
    cases hbody : body fuel s with
    | none =>
      rw [doWhile, hbody] at h
      cases h
    | some s' =>
      rw [doWhile_of_some hbody] at h
      split at h
      · exact ih h
      · rename_i hfail
        cases h
        simpa using hfail

/-- An invariant under which the test does not fail keeps the loop from ending. -/
theorem doWhile_endless {test : σ → Bool} {body : Nat → σ → Option σ} {P : σ → Prop}
    (htest : ∀ s, P s → test s = true)
    (hbody : ∀ fuel s s', P s → body fuel s = some s' → P s') (fuel : Nat) {s : σ} (hs : P s) :
    doWhile test body fuel s = none := by
  induction fuel generalizing s with
  | zero => rfl
  | succ fuel ih =>
    cases hturn : body fuel s with
    | none =>
      rw [doWhile, hturn]
      rfl
    | some s' =>
      have hs' := hbody fuel s s' hs hturn
      rw [doWhile_of_some hturn, if_pos (htest s' hs'), ih hs']

/-- A loop that has ended has made some number of turns. -/
theorem whileDo_turns {test : σ → Bool} {body : σ → σ} {fuel : Nat} {s r : σ}
    (h : whileDo test body fuel s = some r) : ∃ n, r = body^[n] s := by
  induction fuel generalizing s with
  | zero => cases h
  | succ fuel ih =>
    rw [whileDo] at h
    split at h
    · obtain ⟨n, rfl⟩ := ih h
      exact ⟨n + 1, (Function.iterate_succ_apply body n s).symm⟩
    · cases h
      exact ⟨0, rfl⟩

theorem whileDo_returns {test : σ → Bool} {body : σ → σ} {n : Nat} {s : σ}
    (htest : ∀ i ≤ n, test (body^[i] s) = decide (i < n)) :
    Returns (fun fuel => whileDo test body fuel s) (body^[n] s) := by
  refine ⟨n + 1, fun fuel hfuel => ?_⟩
  induction n generalizing fuel s with
  | zero =>
    obtain ⟨fuel, rfl⟩ := Nat.exists_eq_add_of_le' hfuel
    exact whileDo_of_false (by simpa using htest 0 (Nat.le_refl 0)) _
  | succ n ih =>
    obtain ⟨fuel, rfl⟩ : ∃ k, fuel = k + 1 := ⟨fuel - 1, by omega⟩
    have hnow : test s = true := by simpa using htest 0 (Nat.zero_le _)
    show whileDo test body (fuel + 1) s = _
    rw [whileDo_of_true hnow]
    refine ih (fun i hi => ?_) fuel (by omega)
    rw [← Function.iterate_succ_apply, htest (i + 1) (by omega)]
    exact decide_eq_decide.mpr Nat.succ_lt_succ_iff

/-- A loop whose test fails behind the first turn. -/
theorem doWhile_last {test : σ → Bool} {body : Nat → σ → Option σ} {s s' : σ}
    (hbody : Returns (fun fuel => body fuel s) s') (htest : test s' = false) :
    Returns (fun fuel => doWhile test body fuel s) s' := by
  obtain ⟨first, hfirst⟩ := hbody
  refine ⟨first + 1, fun fuel hfuel => ?_⟩
  obtain ⟨fuel, rfl⟩ : ∃ k, fuel = k + 1 := ⟨fuel - 1, by omega⟩
  show doWhile test body (fuel + 1) s = _
  rw [doWhile_of_some (hfirst fuel (by omega))]
  exact if_neg (by simp [htest])

/-- The body is given by what it returns, from one state of a sequence to the next. -/
theorem doWhile_turns {test : σ → Bool} {body : Nat → σ → Option σ} (state : Nat → σ) {n : Nat}
    {r : σ} (hbody : ∀ i < n, Returns (fun fuel => body fuel (state i)) (state (i + 1)))
    (htest : ∀ i < n, test (state (i + 1)) = true)
    (hrest : Returns (fun fuel => doWhile test body fuel (state n)) r) :
    Returns (fun fuel => doWhile test body fuel (state 0)) r := by
  induction n with
  | zero => exact hrest
  | succ n ih =>
    refine ih (fun i hi => hbody i (by omega)) (fun i hi => htest i (by omega)) ?_
    obtain ⟨turn, hturn⟩ := hbody n (Nat.lt_succ_self n)
    obtain ⟨rest, hrest⟩ := hrest
    refine ⟨max turn rest + 1, fun fuel hfuel => ?_⟩
    obtain ⟨fuel, rfl⟩ : ∃ k, fuel = k + 1 := ⟨fuel - 1, by omega⟩
    have hfuel : max turn rest ≤ fuel := by omega
    show doWhile test body (fuel + 1) (state n) = _
    rw [doWhile_of_some (hturn fuel (Nat.le_trans (Nat.le_max_left _ _) hfuel)),
      if_pos (htest n (Nat.lt_succ_self n))]
    exact hrest fuel (Nat.le_trans (Nat.le_max_right _ _) hfuel)

theorem doWhile_returns {test : σ → Bool} {body : Nat → σ → Option σ} (state : Nat → σ) {n : Nat}
    (hn : 0 < n) (hbody : ∀ i < n, Returns (fun fuel => body fuel (state i)) (state (i + 1)))
    (htest : ∀ i < n, test (state (i + 1)) = decide (i + 1 < n)) :
    Returns (fun fuel => doWhile test body fuel (state 0)) (state n) := by
  obtain ⟨n, rfl⟩ := Nat.exists_eq_add_of_le' hn
  refine doWhile_turns state (fun i hi => hbody i (by omega)) (fun i hi => ?_)
    (doWhile_last (hbody n (Nat.lt_succ_self n)) ?_)
  · rw [htest i (by omega)]
    exact decide_eq_true (by omega)
  · rw [htest n (by omega)]
    exact decide_eq_false (by omega)

end Fueled
