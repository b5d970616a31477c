import Mathlib.Data.List.Count
import Brume.Lib.Transition

/-!
# Draining

Some steps of a system are those of a part of it that is to go away. Where each of
them takes work off, no other step brings work, and one of them is possible while
work is left, the part goes away whatever the rest of the system does.
-/

namespace Lib.System
variable {σ ι ε : Type}

/-- From the states of `I` on, the steps of `own` drain the work. -/
structure Drains (m : System σ ι ε) (own : σ → ι → Bool) (work : σ → ℕ) (I : σ → Prop) : Prop where
  kept : ∀ {s i e s'}, I s → m s i = some (e, s') → I s'
  others : ∀ {s i e s'}, I s → m s i = some (e, s') → work s' ≤ work s
  descends : ∀ {s i e s'}, I s → m s i = some (e, s') → own s i = true → work s' < work s
  proceeds : ∀ {s}, I s → work s ≠ 0 → ∃ i e s', own s i = true ∧ m s i = some (e, s')

namespace Drains
variable {m : System σ ι ε} {own : σ → ι → Bool} {work : σ → ℕ} {I : σ → Prop} {s s' : σ} {notes : List Bool}

theorem run (h : Drains m own work I) (hs : I s) (hr : Reaches (m.observed own) s notes s') :
    I s' ∧ notes.count true + work s' ≤ work s := by
  induction hr with
  | start => exact ⟨hs, by simp⟩
  | @step notes t t' i note _ hi ih =>
    obtain ⟨ht, hcount⟩ := ih
    obtain ⟨rfl, e, hstep⟩ := observed_some.mp hi
    have hothers := h.others ht hstep
    have hdescends := h.descends ht hstep
    refine ⟨h.kept ht hstep, ?_⟩
    rw [List.count_append]
    cases hown : own t i with
    | true =>
      have hlt := hdescends hown
      simp only [List.count_singleton_self]
      omega
    | false =>
      have hzero : List.count true [false] = 0 := rfl
      omega

/-- Steps of the part alone bring it to its end. -/
theorem reaches_zero (h : Drains m own work I) (hs : I s) :
    ∃ notes s', Reaches (m.observed own) s notes s' ∧ (∀ note ∈ notes, note = true) ∧ work s' = 0 := by
  induction hw : work s using Nat.strongRecOn generalizing s with
  | ind n ih =>
    by_cases hzero : n = 0
    · exact ⟨[], s, .start, nofun, hw.trans hzero⟩
    · obtain ⟨i, e, t, hown, hstep⟩ := h.proceeds hs (hw ▸ hzero)
      have hlt := h.descends hs hstep hown
      obtain ⟨notes, s', hr, hnotes, hend⟩ := ih (work t) (hw ▸ hlt) (h.kept hs hstep) rfl
      have hfirst : Reaches (m.observed own) s [true] t :=
        Reaches.start.step (observed_some.mpr ⟨hown.symm, e, hstep⟩)
      refine ⟨[true] ++ notes, s', hfirst.trans hr, fun note hnote => ?_, hend⟩
      rcases List.mem_append.mp hnote with hnote | hnote
      · exact List.mem_singleton.mp hnote
      · exact hnotes note hnote

/-- Where no step of the part is possible, it is at its end. -/
theorem zero_of_none (h : Drains m own work I) (hs : I s) (hnone : ∀ i, own s i = true → m s i = none) : work s = 0 := by
  by_contra hne
  obtain ⟨i, e, s', hown, hstep⟩ := h.proceeds hs hne
  rw [hnone i hown] at hstep
  cases hstep

end Drains

end Lib.System
