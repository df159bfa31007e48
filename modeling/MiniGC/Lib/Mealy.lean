import Mathlib.Data.List.Infix

/-!
# MiniGC.Lib.Mealy

Deterministic machines that answer every input, over arbitrary state, input and answer types.

* `Mealy.run`         the state after a list of inputs, oldest first.
* `Mealy.trace`       the inputs of a run, each with its answer.
* `Mealy.observed`    the machine next to a history that sees every input and its answer.
* `Mealy.run_inv`     one step keeps `P`, so every run keeps `P`.
* `Mealy.always_iff`  if a step out of `P` keeps `P` exactly when `C` holds of it, then a run
  stays in `P` exactly when `C` holds of all its steps; `Mealy.always_eachStep_iff` adds a property
  of the steps, and `Mealy.eachStep_iff` is for properties of the steps alone.
* `Mealy.Part`        a machine that runs inside another one, on some of its inputs.
-/

/-- What one input does to the state, and what it answers. -/
structure Mealy (σ ι ο : Type) where
  step : σ → ι → σ × ο

namespace Mealy

variable {σ ι ο η : Type} (M : Mealy σ ι ο)

def next (s : σ) (i : ι) : σ := (M.step s i).1

def answer (s : σ) (i : ι) : ο := (M.step s i).2

/-- The state after the inputs `is`, oldest first. -/
def run (s : σ) (is : List ι) : σ := is.foldl M.next s

@[simp] theorem run_nil (s : σ) : M.run s [] = s := rfl

@[simp] theorem run_cons (s : σ) (i : ι) (is : List ι) :
    M.run s (i :: is) = M.run (M.next s i) is := rfl

@[simp] theorem run_append (s : σ) (is js : List ι) :
    M.run s (is ++ js) = M.run (M.run s is) js := List.foldl_append

theorem run_inv {P : σ → Prop} (hstep : ∀ s i, P s → P (M.next s i)) {s : σ} (h : P s) :
    ∀ is, P (M.run s is) := by
  intro is
  induction is generalizing s with
  | nil => exact h
  | cons i is ih => exact ih (hstep s i h)

/-- The inputs `is`, each with the answer it gets in the run from `s`. -/
def trace (s : σ) : List ι → List (ι × ο)
  | [] => []
  | i :: is => (i, M.answer s i) :: trace (M.next s i) is

@[simp] theorem trace_snoc (s : σ) (is : List ι) (i : ι) :
    M.trace s (is ++ [i]) = M.trace s is ++ [(i, M.answer (M.run s is) i)] := by
  induction is generalizing s with
  | nil => rfl
  | cons j is ih => rw [List.cons_append, trace, trace, ih, run_cons, List.cons_append]

/-- Every entry of a trace was answered somewhere along the run. -/
theorem mem_trace {s : σ} {is : List ι} {x : ι × ο} (hx : x ∈ M.trace s is) :
    ∃ p, p ++ [x.1] <+: is ∧ x.2 = M.answer (M.run s p) x.1 := by
  induction is generalizing s with
  | nil => cases hx
  | cons i is ih =>
    rcases List.mem_cons.mp hx with rfl | hx
    · exact ⟨[], List.prefix_cons_inj i |>.mpr List.nil_prefix, rfl⟩
    · obtain ⟨p, hp, ha⟩ := ih hx
      exact ⟨i :: p, List.prefix_cons_inj i |>.mpr hp, ha⟩

/-- `P` holds in every state of the run of `is` from `s`, the first and the last included. -/
def Always (P : σ → Prop) (s : σ) (is : List ι) : Prop := ∀ p, p <+: is → P (M.run s p)

/-- `C` holds of every step of the run of `is` from `s`: of the state before it and its input. -/
def EachStep (C : σ → ι → Prop) (s : σ) (is : List ι) : Prop :=
  ∀ p i, p ++ [i] <+: is → C (M.run s p) i

theorem eachStep_nil (C : σ → ι → Prop) (s : σ) : M.EachStep C s [] := by
  intro p i hp
  simp at hp

theorem eachStep_cons {C : σ → ι → Prop} {s : σ} {i : ι} {is : List ι} :
    M.EachStep C s (i :: is) ↔ C s i ∧ M.EachStep C (M.next s i) is := by
  constructor
  · intro h
    exact ⟨h [] i (List.prefix_cons_inj i |>.mpr List.nil_prefix),
      fun p j hp => h (i :: p) j (List.prefix_cons_inj i |>.mpr hp)⟩
  · rintro ⟨hfirst, hrest⟩ p j hp
    cases p with
    | nil =>
      obtain ⟨rfl, -⟩ := List.cons_prefix_cons.mp hp
      exact hfirst
    | cons k p =>
      obtain ⟨rfl, hp'⟩ := List.cons_prefix_cons.mp hp
      exact hrest p j hp'

/-- The steps of a longer run are those of the run before, and the last one. -/
theorem eachStep_snoc {C : σ → ι → Prop} {s : σ} {is : List ι} {i : ι} :
    M.EachStep C s (is ++ [i]) ↔ M.EachStep C s is ∧ C (M.run s is) i := by
  constructor
  · intro h
    exact ⟨fun p j hp => h p j (hp.trans (List.prefix_append is [i])),
      h is i (List.prefix_refl _)⟩
  · rintro ⟨h, hlast⟩ p j hp
    rcases List.prefix_concat_iff.mp hp with heq | hp
    · obtain ⟨rfl, hj⟩ := List.append_inj' heq rfl
      cases hj
      exact hlast
    · exact h p j hp

/-- If the steps of which `C` holds keep `P`, a run of such steps does. -/
theorem run_inv_of_eachStep {P : σ → Prop} {C : σ → ι → Prop}
    (hstep : ∀ s i, P s → C s i → P (M.next s i)) {s : σ} (h : P s) {is : List ι}
    (hC : M.EachStep C s is) : P (M.run s is) := by
  induction is generalizing s with
  | nil => exact h
  | cons i is ih =>
    obtain ⟨hfirst, hrest⟩ := M.eachStep_cons.mp hC
    exact ih (hstep s i h hfirst) hrest

/-- If `P` makes `Q` and `C` the same of a step, and a step with `C` keeps `P`, then a run that
starts in `P` has `Q` of all its steps exactly if it has `C` of them. -/
theorem eachStep_iff {P : σ → Prop} {Q C : σ → ι → Prop}
    (hstep : ∀ s i, P s → (Q s i ↔ C s i)) (hkeep : ∀ s i, P s → C s i → P (M.next s i)) {s : σ}
    {is : List ι} (h : P s) : M.EachStep Q s is ↔ M.EachStep C s is := by
  induction is generalizing s with
  | nil => exact iff_of_true (M.eachStep_nil Q s) (M.eachStep_nil C s)
  | cons i is ih =>
    rw [eachStep_cons, eachStep_cons, hstep s i h]
    exact and_congr_right fun hC => ih (hkeep s i h hC)

/-- If a step out of `P` stays in `P` and satisfies `Q` exactly when `C` holds of it, then a run
that starts in `P` never leaves it, with `Q` of all its steps, exactly when `C` holds of them. -/
theorem always_eachStep_iff {P : σ → Prop} {Q C : σ → ι → Prop} {s : σ} {is : List ι} (h : P s)
    (hstep : ∀ p i, p ++ [i] <+: is → P (M.run s p) →
      (P (M.next (M.run s p) i) ∧ Q (M.run s p) i ↔ C (M.run s p) i)) :
    M.Always P s is ∧ M.EachStep Q s is ↔ M.EachStep C s is := by
  constructor
  · rintro ⟨hP, hQ⟩ p i hp
    have hpre : p <+: is := (List.prefix_append p [i]).trans hp
    exact (hstep p i hp (hP p hpre)).mp ⟨by simpa using hP _ hp, hQ p i hp⟩
  · intro hC
    have hP : M.Always P s is := by
      intro p
      induction p using List.reverseRecOn with
      | nil => intro _; exact h
      | append_singleton p i ih =>
        intro hp
        have hpre : p <+: is := (List.prefix_append p [i]).trans hp
        simpa using ((hstep p i hp (ih hpre)).mpr (hC p i hp)).1
    refine ⟨hP, fun p i hp => ?_⟩
    have hpre : p <+: is := (List.prefix_append p [i]).trans hp
    exact ((hstep p i hp (hP p hpre)).mpr (hC p i hp)).2

/-- The same without a `Q`. -/
theorem always_iff {P : σ → Prop} {C : σ → ι → Prop} {s : σ} {is : List ι} (h : P s)
    (hstep : ∀ p i, p ++ [i] <+: is → P (M.run s p) →
      (P (M.next (M.run s p) i) ↔ C (M.run s p) i)) :
    M.Always P s is ↔ M.EachStep C s is := by
  have hboth := M.always_eachStep_iff (Q := fun _ _ => True) h fun p i hp hP => by
    rw [and_true]
    exact hstep p i hp hP
  have htrue : M.EachStep (fun _ _ => True) s is := fun _ _ _ => trivial
  rwa [and_iff_left htrue] at hboth

/-- `M` next to a history `H` that is told every input and the answer to it. -/
def observed (H : η → ι → ο → η) : Mealy (σ × η) ι ο where
  step s i := ((M.next s.1 i, H s.2 i (M.answer s.1 i)), M.answer s.1 i)

/-- `N` runs inside `M`: each step of `M` does to the part `state` what `N` does with the input read
off by `input`, and answers it as `N` does; a step with no input for `N` leaves the part alone. -/
structure Part {σ' ι' ο' : Type} (M : Mealy σ ι ο) (N : Mealy σ' ι' ο') where
  state : σ → σ'
  input : ι → Option ι'
  output : ο → Option ο'
  next : ∀ s i, state (M.next s i) = (input i).elim (state s) (N.next (state s))
  answer : ∀ s i j, input i = some j → output (M.answer s i) = some (N.answer (state s) j)

namespace Part

variable {σ' ι' ο' : Type} {M : Mealy σ ι ο} {N : Mealy σ' ι' ο'} (P : M.Part N)

/-- The inputs of `N` in a trace of `M`, with the answers they got there. -/
def entry (x : ι × ο) : Option (ι' × ο') :=
  (P.input x.1).bind fun j => (P.output x.2).map (Prod.mk j)

theorem run (s : σ) (is : List ι) :
    P.state (M.run s is) = N.run (P.state s) (is.filterMap P.input) := by
  induction is generalizing s with
  | nil => rfl
  | cons i is ih =>
    rw [run_cons, ih, P.next, List.filterMap_cons]
    cases P.input i <;> rfl

/-- Whatever else happens in between, `N` answers what it would answer alone. -/
theorem trace (s : σ) (is : List ι) :
    (M.trace s is).filterMap P.entry = N.trace (P.state s) (is.filterMap P.input) := by
  induction is generalizing s with
  | nil => rfl
  | cons i is ih =>
    rw [Mealy.trace, List.filterMap_cons, ih, P.next, List.filterMap_cons]
    cases hi : P.input i with
    | none => simp [entry, hi]
    | some j => simp [entry, hi, P.answer s i j hi, Mealy.trace]

end Part

end Mealy
