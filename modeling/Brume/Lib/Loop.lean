import Mathlib.Data.List.Basic

/-!
# Loops

A loop body either goes round again with its next state or leaves with a
result. A body that lowers a measure makes a total function; a body that never
leaves a set of states goes round for ever.
-/

namespace Lib

abbrev Loop (σ ρ : Type) := σ → σ ⊕ ρ

namespace Loop
variable {σ ρ : Type}

/-- The loop that starts at `s` leaves with `r`. -/
inductive Returns (body : Loop σ ρ) : σ → ρ → Prop
  | leave {s : σ} {r : ρ} (h : body s = .inr r) : Returns body s r
  | again {s t : σ} {r : ρ} (h : body s = .inl t) (ht : Returns body t r) : Returns body s r

def Terminates (body : Loop σ ρ) (s : σ) : Prop := ∃ r, body.Returns s r

variable {body : Loop σ ρ}

theorem returns_inl {s t : σ} {r : ρ} (h : body s = .inl t) : body.Returns s r ↔ body.Returns t r := by
  constructor
  · intro hs
    cases hs with
    | leave hr => rw [h] at hr; cases hr
    | again ht hreturns =>
      rw [h] at ht
      cases ht
      exact hreturns
  · exact .again h

theorem terminates_inl {s t : σ} (h : body s = .inl t) : body.Terminates s ↔ body.Terminates t :=
  exists_congr fun _ => returns_inl h

theorem Returns.unique {s : σ} {r r' : ρ} (h : body.Returns s r) (h' : body.Returns s r') : r = r' := by
  induction h with
  | leave hr =>
    cases h' with
    | leave hr' =>
      rw [hr] at hr'
      exact Sum.inr.inj hr'
    | again ht => rw [hr] at ht; cases ht
  | again ht _ ih => exact ih ((returns_inl ht).mp h')

/-- What every round keeps holds in the round that leaves. -/
theorem Returns.invariant (P : σ → Prop) (step : ∀ s t, P s → body s = .inl t → P t) {s : σ} {r : ρ}
    (h : body.Returns s r) (init : P s) : ∃ t, P t ∧ body t = .inr r := by
  induction h with
  | leave hr => exact ⟨_, init, hr⟩
  | again ht _ ih => exact ih (step _ _ init ht)

/-- A set of states that no round leaves. -/
theorem not_terminates (P : σ → Prop) (step : ∀ s, P s → ∃ t, body s = .inl t ∧ P t) {s : σ} (init : P s) :
    ¬ body.Terminates s := by
  rintro ⟨r, h⟩
  obtain ⟨t, hP, hr⟩ := h.invariant P (fun s t hs hst => by
    obtain ⟨t', ht', hP⟩ := step s hs
    rw [hst] at ht'
    cases ht'
    exact hP) init
  obtain ⟨u, hu, -⟩ := step t hP
  rw [hr] at hu
  cases hu

/-! ### Total loops -/

/-- The loop as a function, by recursion on a bound of its measure. -/
def execFrom (body : Loop σ ρ) (measure : σ → ℕ) (lowers : ∀ s t, body s = .inl t → measure t < measure s) :
    (n : ℕ) → (s : σ) → measure s < n → ρ
  | 0, s, h => absurd h (Nat.not_lt_zero (measure s))
  | n + 1, s, h =>
    match hb : body s with
    | .inl t => execFrom body measure lowers n t (Nat.lt_of_lt_of_le (lowers s t hb) (Nat.lt_succ_iff.mp h))
    | .inr r => r

def exec (body : Loop σ ρ) (measure : σ → ℕ) (lowers : ∀ s t, body s = .inl t → measure t < measure s)
    (s : σ) : ρ :=
  execFrom body measure lowers (measure s + 1) s (Nat.lt_succ_self (measure s))

theorem returns_execFrom (measure : σ → ℕ) (lowers : ∀ s t, body s = .inl t → measure t < measure s)
    (n : ℕ) (s : σ) (h : measure s < n) : body.Returns s (execFrom body measure lowers n s h) := by
  induction n generalizing s with
  | zero => omega
  | succ n ih =>
    rw [execFrom]
    split
    · rename_i t ht
      exact .again ht (ih t _)
    · rename_i r hr
      exact .leave hr

theorem returns_exec (measure : σ → ℕ) (lowers : ∀ s t, body s = .inl t → measure t < measure s) (s : σ) :
    body.Returns s (body.exec measure lowers s) :=
  returns_execFrom measure lowers _ s _

end Loop

end Lib
