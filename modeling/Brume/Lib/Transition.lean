import Mathlib.Data.List.Basic

/-!
# Transition systems with a record of events

A system takes an input that its environment chooses, refuses it (`none`) or
moves to a next state and leaves an event. Its runs are all the ways to choose
inputs. Invariants speak about the events so far and the state.
-/

namespace Lib

abbrev System (σ ι ε : Type) := σ → ι → Option (ε × σ)

namespace System
variable {σ ι ε : Type}

def run (m : System σ ι ε) : σ → List ι → Option (List ε × σ)
  | s, [] => some ([], s)
  | s, i :: is =>
    match m s i with
    | none => none
    | some (e, s') =>
      match run m s' is with
      | none => none
      | some (es, s'') => some (e :: es, s'')

/-- Some choice of inputs leads from `s` to `s'` and leaves the events `es`. -/
inductive Reaches (m : System σ ι ε) (s : σ) : List ε → σ → Prop
  | start : Reaches m s [] s
  | step {es : List ε} {t t' : σ} {i : ι} {e : ε} (h : Reaches m s es t) (hi : m t i = some (e, t')) :
      Reaches m s (es ++ [e]) t'

variable {m : System σ ι ε}

theorem run_nil (s : σ) : m.run s [] = some ([], s) := rfl

theorem run_cons {s t u : σ} {i : ι} {is : List ι} {e : ε} {es : List ε} (h : m s i = some (e, t))
    (hrun : m.run t is = some (es, u)) : m.run s (i :: is) = some (e :: es, u) := by
  simp only [run, h, hrun]

theorem Reaches.trans {s t u : σ} {es es' : List ε} (h : Reaches m s es t) (h' : Reaches m t es' u) :
    Reaches m s (es ++ es') u := by
  induction h' with
  | start => rwa [List.append_nil]
  | step _ hi ih =>
    rw [← List.append_assoc]
    exact ih.step hi

theorem reaches_of_run {s t : σ} {is : List ι} {es : List ε} (h : m.run s is = some (es, t)) :
    Reaches m s es t := by
  induction is generalizing s es with
  | nil =>
    cases h
    exact .start
  | cons i is ih =>
    rw [run] at h
    split at h
    · cases h
    · rename_i e s' hi
      split at h
      · cases h
      · rename_i es' s'' hrun
        cases h
        exact (Reaches.start.step hi).trans (ih hrun)

/-- An invariant that also speaks about the inputs so far. -/
theorem run_invariant (P : List ι → List ε → σ → Prop)
    (step : ∀ is es t i e t', P is es t → m t i = some (e, t') → P (is ++ [i]) (es ++ [e]) t')
    {is is' : List ι} {es es' : List ε} {s t : σ} (h : P is es s) (hrun : m.run s is' = some (es', t)) :
    P (is ++ is') (es ++ es') t := by
  induction is' generalizing is es es' s with
  | nil =>
    cases hrun
    rwa [List.append_nil, List.append_nil]
  | cons i is' ih =>
    rw [run] at hrun
    split at hrun
    · cases hrun
    · rename_i e s' hi
      split at hrun
      · cases hrun
      · rename_i es' s'' hrest
        cases hrun
        have hnext := ih (step is es s i e s' h hi) hrest
        rwa [List.append_assoc, List.append_assoc] at hnext

/-- The step that left an event of a run. -/
theorem run_split_event {s u : σ} {is : List ι} {es es' : List ε} {e : ε}
    (h : m.run s is = some (es ++ e :: es', u)) :
    ∃ is₁ i is₂ t t', is = is₁ ++ i :: is₂ ∧ m.run s is₁ = some (es, t) ∧ m t i = some (e, t') ∧
      m.run t' is₂ = some (es', u) := by
  induction is generalizing s es with
  | nil => simp [run] at h
  | cons i is ih =>
    rw [run] at h
    split at h
    · cases h
    · rename_i e₀ s' hi
      split at h
      · cases h
      · rename_i es₀ s'' hrest
        simp only [Option.some.injEq, Prod.mk.injEq] at h
        obtain ⟨hes, rfl⟩ := h
        cases es with
        | nil =>
          cases hes
          exact ⟨[], i, is, s, s', rfl, rfl, hi, hrest⟩
        | cons e₁ es =>
          cases hes
          obtain ⟨is₁, j, is₂, t, t', rfl, hbefore, hj, hafter⟩ := ih hrest
          exact ⟨i :: is₁, j, is₂, t, t', rfl, run_cons hi hbefore, hj, hafter⟩

/-- The step that an input of a run makes. -/
theorem run_split_input {s u : σ} {is is' : List ι} {i : ι} {es : List ε}
    (h : m.run s (is ++ i :: is') = some (es, u)) :
    ∃ es₁ e es₂ t t', es = es₁ ++ e :: es₂ ∧ m.run s is = some (es₁, t) ∧ m t i = some (e, t') ∧
      m.run t' is' = some (es₂, u) := by
  induction is generalizing s es with
  | nil =>
    rw [List.nil_append, run] at h
    split at h
    · cases h
    · rename_i e s' hi
      split at h
      · cases h
      · rename_i es' s'' hrest
        cases h
        exact ⟨[], e, es', s, s', rfl, rfl, hi, hrest⟩
  | cons j is ih =>
    rw [List.cons_append, run] at h
    split at h
    · cases h
    · rename_i e₀ s' hj
      split at h
      · cases h
      · rename_i es' s'' hrest
        cases h
        obtain ⟨es₁, e, es₂, t, t', rfl, hbefore, hi, hafter⟩ := ih hrest
        exact ⟨e₀ :: es₁, e, es₂, t, t', rfl, run_cons hj hbefore, hi, hafter⟩

/-- What holds at the start and is kept by every step holds in every run. -/
theorem Reaches.invariant {s : σ} (P : List ε → σ → Prop) (init : P [] s)
    (step : ∀ es t i e t', P es t → m t i = some (e, t') → P (es ++ [e]) t') {es : List ε} {t : σ}
    (h : Reaches m s es t) : P es t := by
  induction h with
  | start => exact init
  | step _ hi ih => exact step _ _ _ _ _ ih hi

/-- The state in which an event of a run was left. -/
theorem Reaches.split {s u : σ} {es es' : List ε} {e : ε} (h : Reaches m s (es ++ e :: es') u) :
    ∃ t i t', Reaches m s es t ∧ m t i = some (e, t') ∧ Reaches m t' es' u := by
  generalize hall : es ++ e :: es' = all at h
  induction h generalizing es' with
  | start => simp at hall
  | step hr hi ih =>
    rename_i all' t t' i e'
    rcases List.eq_nil_or_concat es' with rfl | ⟨es'', e'', rfl⟩
    · obtain ⟨rfl, he⟩ := List.append_inj' hall rfl
      cases he
      exact ⟨t, i, t', hr, hi, .start⟩
    · rw [List.concat_eq_append, ← List.cons_append, ← List.append_assoc] at hall
      obtain ⟨hpre, he⟩ := List.append_inj' hall rfl
      cases he
      obtain ⟨v, j, v', hv, hj, hrest⟩ := ih hpre
      rw [List.concat_eq_append]
      exact ⟨v, j, v', hv, hj, hrest.step hi⟩

/-- The same system with another record: what is seen of the state and the input. -/
def observed {α : Type} (m : System σ ι ε) (see : σ → ι → α) : System σ ι α :=
  fun s i => (m s i).map fun r => (see s i, r.2)

theorem observed_some {α : Type} {see : σ → ι → α} {s s' : σ} {i : ι} {a : α} :
    m.observed see s i = some (a, s') ↔ a = see s i ∧ ∃ e, m s i = some (e, s') := by
  unfold observed
  rw [Option.map_eq_some_iff]
  constructor
  · rintro ⟨⟨e, t⟩, hstep, heq⟩
    cases heq
    exact ⟨rfl, e, hstep⟩
  · rintro ⟨rfl, e, hstep⟩
    exact ⟨(e, s'), hstep, rfl⟩

theorem Reaches.of_observed {α : Type} {see : σ → ι → α} {s t : σ} {as : List α}
    (h : Reaches (m.observed see) s as t) : ∃ es, Reaches m s es t := by
  induction h with
  | start => exact ⟨[], .start⟩
  | step _ hi ih =>
    obtain ⟨es, hes⟩ := ih
    obtain ⟨-, e, he⟩ := observed_some.mp hi
    exact ⟨es ++ [e], hes.step he⟩

theorem Reaches.observe {α : Type} (see : σ → ι → α) {s t : σ} {es : List ε} (h : Reaches m s es t) :
    ∃ as, Reaches (m.observed see) s as t := by
  induction h with
  | start => exact ⟨[], .start⟩
  | step _ hi ih =>
    obtain ⟨as, has⟩ := ih
    exact ⟨_, has.step (observed_some.mpr ⟨rfl, _, hi⟩)⟩

/-! ### Restrictions on the environment -/

/-- The same system in an environment that makes the choices `ok` only. -/
def restrict (m : System σ ι ε) (ok : σ → ι → Prop) [∀ s i, Decidable (ok s i)] : System σ ι ε :=
  fun s i => if ok s i then m s i else none

section
variable {ok : σ → ι → Prop} [∀ s i, Decidable (ok s i)]

theorem restrict_some {s s' : σ} {i : ι} {e : ε} :
    m.restrict ok s i = some (e, s') ↔ ok s i ∧ m s i = some (e, s') := by
  unfold restrict
  split
  · rename_i h
    simp only [h, true_and]
  · rename_i h
    simp only [h, false_and, reduceCtorEq]

theorem Reaches.of_restrict {s t : σ} {es : List ε} (h : Reaches (m.restrict ok) s es t) : Reaches m s es t := by
  induction h with
  | start => exact .start
  | step _ hi ih => exact ih.step (restrict_some.mp hi).2

end

end System

end Lib
