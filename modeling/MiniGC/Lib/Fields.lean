import Mathlib.Logic.Function.Basic

/-!
# MiniGC.Lib.Fields

Stores that hold several fields in one representation. Stores, field names and values are
arbitrary.

* `Fields`        reading and writing a field. A write is read back, and leaves the other fields.
* `Fields.run`    a list of edits, each of one field, oldest first.
* `Fields.get_run`   read field by field, a run does to the store what it does to a function.
* `Fields.run_kept`  what no write touches, no run touches.
-/

structure Fields (σ φ ν : Type*) where
  get : σ → φ → ν
  put : σ → φ → ν → σ
  get_put : ∀ s f v, get (put s f v) f = v
  get_put_of_ne : ∀ s f g v, g ≠ f → get (put s f v) g = get s g

namespace Fields

variable {σ φ ν α : Type*} (F : Fields σ φ ν)

/-- What an edit makes of the value of its field. -/
abbrev Edit (φ ν : Type*) := φ × (ν → ν)

def edit (s : σ) (e : Edit φ ν) : σ := F.put s e.1 (e.2 (F.get s e.1))

def run (s : σ) (edits : List (Edit φ ν)) : σ := edits.foldl F.edit s

@[simp] theorem run_nil (s : σ) : F.run s [] = s := rfl

@[simp] theorem run_cons (s : σ) (e : Edit φ ν) (edits : List (Edit φ ν)) :
    F.run s (e :: edits) = F.run (F.edit s e) edits := rfl

variable [DecidableEq φ]

/-- The edits, on a function from fields to values. -/
def editAll (a : φ → ν) (edits : List (Edit φ ν)) : φ → ν :=
  edits.foldl (fun a e => Function.update a e.1 (e.2 (a e.1))) a

@[simp] theorem editAll_nil (a : φ → ν) : editAll a [] = a := rfl

@[simp] theorem editAll_cons (a : φ → ν) (e : Edit φ ν) (edits : List (Edit φ ν)) :
    editAll a (e :: edits) = editAll (Function.update a e.1 (e.2 (a e.1))) edits := rfl

theorem get_edit (s : σ) (e : Edit φ ν) :
    F.get (F.edit s e) = Function.update (F.get s) e.1 (e.2 (F.get s e.1)) := by
  funext g
  by_cases h : g = e.1
  · subst h
    rw [edit, F.get_put, Function.update_self]
  · rw [edit, F.get_put_of_ne _ _ _ _ h, Function.update_of_ne h]

theorem get_run (s : σ) (edits : List (Edit φ ν)) :
    F.get (F.run s edits) = editAll (F.get s) edits := by
  induction edits generalizing s with
  | nil => rfl
  | cons e edits ih => rw [run_cons, ih, get_edit, editAll_cons]

omit [DecidableEq φ] in
/-- An observation that no write changes is the same after any run. -/
theorem run_kept (view : σ → α) (h : ∀ s f v, view (F.put s f v) = view s) (s : σ)
    (edits : List (Edit φ ν)) : view (F.run s edits) = view s := by
  induction edits generalizing s with
  | nil => rfl
  | cons e edits ih => rw [run_cons, ih, edit, h]

/-- Fields that are all set from one function have its values then. -/
theorem editAll_set (a g : φ → ν) (fs : List φ) (f : φ) :
    editAll a (fs.map fun f => (f, fun _ => g f)) f = if f ∈ fs then g f else a f := by
  induction fs generalizing a with
  | nil => rfl
  | cons f' fs ih =>
    rw [List.map_cons, editAll_cons, ih]
    by_cases h : f = f'
    · subst h
      simp
    · simp [h]

/-- Edits of other fields leave a field as it was. -/
theorem editAll_of_forall_ne {a : φ → ν} {edits : List (Edit φ ν)} {f : φ}
    (h : ∀ e ∈ edits, f ≠ e.1) : editAll a edits f = a f := by
  induction edits generalizing a with
  | nil => rfl
  | cons e edits ih =>
    rw [editAll_cons, ih fun e' he' => h e' (List.mem_cons_of_mem _ he'),
      Function.update_of_ne (h e List.mem_cons_self)]

end Fields
