import MiniGC.Lib.Mealy

/-!
# MiniGC.Lib.Linearized

A machine `M` whose steps are parts of calls: a step that ends a call answers with the call and its
result, any other step with `none`. `N` is the machine that makes each call in one step, and `part`
the state of `N` inside that of `M`.

* `Mealy.Sequential`      at every moment of a run, `M` is where `N` is after the calls that have
  ended, and they ended with the answers of `N`.
* `Mealy.sequential_iff`  that is so exactly if every step of `M` is explained by `N` on its own.
* `Mealy.exists_since`    what holds at the end of a run and not at its start has a first step from
  which on it holds.
-/

namespace Mealy

variable {σ ι τ κ α : Type}

/-- The calls that end in the run of `is` from `s`, each with its answer. -/
def ended (M : Mealy σ ι (Option (κ × α))) (s : σ) (is : List ι) : List (κ × α) :=
  (M.trace s is).filterMap Prod.snd

def endedCalls (M : Mealy σ ι (Option (κ × α))) (s : σ) (is : List ι) : List κ :=
  (M.ended s is).map Prod.fst

def SequentialAt (M : Mealy σ ι (Option (κ × α))) (N : Mealy τ κ α) (part : σ → τ) (s : σ)
    (is : List ι) : Prop :=
  part (M.run s is) = N.run (part s) (M.endedCalls s is) ∧
    M.ended s is = N.trace (part s) (M.endedCalls s is)

def Sequential (M : Mealy σ ι (Option (κ × α))) (N : Mealy τ κ α) (part : σ → τ) (s : σ)
    (is : List ι) : Prop :=
  ∀ p, p <+: is → M.SequentialAt N part s p

/-- What the step does is what `N` does in the call that it ends, or nothing if it ends none. -/
def Explains (M : Mealy σ ι (Option (κ × α))) (N : Mealy τ κ α) (part : σ → τ) (s : σ) (i : ι) :
    Prop :=
  match M.answer s i with
  | none => part (M.next s i) = part s
  | some (k, a) => N.step (part s) k = (part (M.next s i), a)

section

variable {M : Mealy σ ι (Option (κ × α))} {N : Mealy τ κ α} {part : σ → τ} {s : σ}

theorem ended_snoc (is : List ι) (i : ι) :
    M.ended s (is ++ [i]) = M.ended s is ++ (M.answer (M.run s is) i).toList := by
  rw [ended, trace_snoc, List.filterMap_append, ← ended]
  cases M.answer (M.run s is) i <;> simp

/-- After a run with an explanation, the next step has one exactly if the longer run has. -/
theorem sequentialAt_snoc {is : List ι} (h : M.SequentialAt N part s is) (i : ι) :
    M.SequentialAt N part s (is ++ [i]) ↔ M.Explains N part (M.run s is) i := by
  obtain ⟨hstate, htrace⟩ := h
  unfold SequentialAt Explains endedCalls
  rw [ended_snoc, run_append, run_cons, run_nil]
  cases ha : M.answer (M.run s is) i with
  | none =>
    rw [Option.toList_none, List.append_nil, ← endedCalls, ← hstate]
    exact and_iff_left htrace
  | some x =>
    obtain ⟨k, a⟩ := x
    rw [Option.toList_some, List.map_append, List.map_singleton, ← endedCalls, run_append,
      run_cons, run_nil, trace_snoc, ← hstate, ← htrace]
    constructor
    · rintro ⟨hnext, hanswer⟩
      obtain ⟨-, hlast⟩ := List.append_inj' hanswer rfl
      exact Prod.ext hnext.symm (Prod.ext_iff.mp (List.singleton_inj.mp hlast)).2.symm
    · intro hstep
      refine ⟨(congrArg Prod.fst hstep).symm, ?_⟩
      rw [answer, hstep]

theorem sequential_iff {is : List ι} :
    M.Sequential N part s is ↔ M.EachStep (M.Explains N part) s is := by
  constructor
  · intro h p i hp
    exact (sequentialAt_snoc (h p ((List.prefix_append p [i]).trans hp)) i).mp (h _ hp)
  · intro h p
    induction p using List.reverseRecOn with
    | nil => exact fun _ => ⟨rfl, rfl⟩
    | append_singleton p i ih =>
      intro hp
      exact (sequentialAt_snoc (ih ((List.prefix_append p [i]).trans hp)) i).mpr (h p i hp)

end

/-- What holds at the end of a run, and not at its start, has held since some step. -/
theorem exists_since {ο : Type} {M : Mealy σ ι ο} {P : σ → Prop} {s : σ} {is : List ι}
    (hstart : ¬ P s) (hend : P (M.run s is)) :
    ∃ p i q, is = p ++ i :: q ∧ ¬ P (M.run s p) ∧
      ∀ q', q' <+: q → P (M.run s (p ++ i :: q')) := by
  induction is using List.reverseRecOn with
  | nil => exact absurd hend hstart
  | append_singleton is i ih =>
    by_cases hbefore : P (M.run s is)
    · obtain ⟨p, j, q, rfl, hp, hq⟩ := ih hbefore
      refine ⟨p, j, q ++ [i], by simp, hp, fun q' hq' => ?_⟩
      rcases List.prefix_concat_iff.mp hq' with rfl | hq'
      · rw [← List.cons_append, ← List.append_assoc]
        exact hend
      · exact hq q' hq'
    · refine ⟨is, i, [], rfl, hbefore, fun q' hq' => ?_⟩
      rw [List.prefix_nil.mp hq']
      exact hend

end Mealy
