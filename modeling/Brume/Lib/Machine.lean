import Mathlib.Data.List.Basic

/-!
# Deterministic machines

A machine answers each input and moves to its next state. What one step
preserves, a run preserves; two machines whose steps keep a relation and give
equal answers give equal answers along every run.
-/

namespace Lib

abbrev Machine (σ ι ο : Type) := σ → ι → ο × σ

namespace Machine
variable {σ τ ι ο : Type}

/-- The answers to a list of inputs, and the state behind it. -/
def run (m : Machine σ ι ο) : σ → List ι → List ο × σ
  | s, [] => ([], s)
  | s, i :: is =>
    let (o, s') := m s i
    let (os, s'') := run m s' is
    (o :: os, s'')

/-- An invariant that may depend on what is still to come. -/
theorem run_invariant (m : Machine σ ι ο) (P : List ι → σ → Prop)
    (step : ∀ s i is, P (i :: is) s → P is (m s i).2) {s : σ} {is js : List ι} (h : P (is ++ js) s) :
    P js (m.run s is).2 := by
  induction is generalizing s with
  | nil => exact h
  | cons i is ih => exact ih (step s i (is ++ js) h)

/-- Equal answers along every run from related states. -/
theorem run_simulation (m : Machine σ ι ο) (n : Machine τ ι ο) (R : List ι → σ → τ → Prop)
    (step : ∀ s t i is, R (i :: is) s t → (m s i).1 = (n t i).1 ∧ R is (m s i).2 (n t i).2)
    {s : σ} {t : τ} {is : List ι} (h : R is s t) :
    (m.run s is).1 = (n.run t is).1 ∧ R [] (m.run s is).2 (n.run t is).2 := by
  induction is generalizing s t with
  | nil => exact ⟨rfl, h⟩
  | cons i is ih =>
    obtain ⟨ho, hR⟩ := step s t i is h
    obtain ⟨hos, hend⟩ := ih hR
    refine ⟨?_, hend⟩
    simp only [run, ho, hos]

/-- Inputs that the second machine does not get leave it related; the others are answered
the same. Then the answers to the others are the same along every run. -/
theorem run_filter (m : Machine σ ι ο) (keep : ι → Bool) (R : List ι → σ → σ → Prop)
    (kept : ∀ s t i is, keep i = true → R (i :: is) s t → (m s i).1 = (m t i).1 ∧ R is (m s i).2 (m t i).2)
    (dropped : ∀ s t i is, keep i = false → R (i :: is) s t → R is (m s i).2 t)
    {s t : σ} {is : List ι} (h : R is s t) :
    (m.run t (is.filter keep)).1 = ((is.zip (m.run s is).1).filter (keep ·.1)).map Prod.snd ∧
      R [] (m.run s is).2 (m.run t (is.filter keep)).2 := by
  induction is generalizing s t with
  | nil => exact ⟨rfl, h⟩
  | cons i is ih =>
    cases hk : keep i with
    | true =>
      obtain ⟨ho, hR⟩ := kept s t i is hk h
      obtain ⟨hos, hend⟩ := ih hR
      simp only [List.filter_cons, hk, ↓reduceIte, run, List.zip_cons_cons, List.map_cons, ho, hos]
      exact ⟨trivial, hend⟩
    | false =>
      obtain ⟨hos, hend⟩ := ih (dropped s t i is hk h)
      simp only [List.filter_cons, hk, Bool.false_eq_true, ↓reduceIte, run, List.zip_cons_cons, hos]
      exact ⟨trivial, hend⟩

end Machine

end Lib
