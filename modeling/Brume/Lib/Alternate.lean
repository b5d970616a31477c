import Mathlib.Data.List.Basic
import Mathlib.Data.List.Perm.Basic

/-!
# Alternating merges

`alternate xs ys` takes from the two lists in turn, `xs` first, and goes on with
the longer one when the other has ended.
-/

namespace Lib
variable {α : Type}

def alternate : List α → List α → List α
  | [], ys => ys
  | x :: xs, [] => x :: xs
  | x :: xs, y :: ys => x :: y :: alternate xs ys

@[simp] theorem alternate_nil (xs : List α) : alternate xs [] = xs := by
  cases xs <;> rfl

theorem alternate_perm (xs ys : List α) : (alternate xs ys).Perm (xs ++ ys) := by
  induction xs, ys using alternate.induct with
  | case1 ys => exact .refl _
  | case2 x xs => simp [alternate]
  | case3 x xs y ys ih =>
    have h : (y :: alternate xs ys).Perm (xs ++ y :: ys) := (ih.cons y).trans List.perm_middle.symm
    exact h.cons x

/-- The elements of each list keep their order. -/
theorem filter_alternate (p : α → Bool) {xs ys : List α} (hx : ∀ x ∈ xs, p x = true)
    (hy : ∀ y ∈ ys, p y = false) :
    (alternate xs ys).filter p = xs ∧ (alternate xs ys).filter (fun a => !p a) = ys := by
  induction xs, ys using alternate.induct with
  | case1 ys =>
    constructor
    · rw [alternate, List.filter_eq_nil_iff]
      intro y hmem
      simp [hy y hmem]
    · rw [alternate, List.filter_eq_self]
      intro y hmem
      simp [hy y hmem]
  | case2 x xs =>
    constructor
    · rw [alternate, List.filter_eq_self]
      exact hx
    · rw [alternate, List.filter_eq_nil_iff]
      intro a hmem
      simp [hx a hmem]
  | case3 x xs y ys ih =>
    obtain ⟨hpos, hneg⟩ := ih (fun a h => hx a (.tail _ h)) (fun a h => hy a (.tail _ h))
    have hpx := hx x (.head _)
    have hpy := hy y (.head _)
    simp [alternate, hpx, hpy, hpos, hneg]

/-- Where an alternating merge can be cut: behind equally many of both lists, behind one more
of the first, or in what is left of one list when the other has ended. -/
theorem alternate_append {xs ys done rest : List α} (h : alternate xs ys = done ++ rest) :
    ∃ xa xb ya yb, xs = xa ++ xb ∧ ys = ya ++ yb ∧ done.Perm (xa ++ ya) ∧
      (xb = [] ∧ rest = yb ∨ yb = [] ∧ rest = xb ∨
        xa.length = ya.length ∨ xa.length = ya.length + 1) := by
  induction xs, ys using alternate.induct generalizing done with
  | case1 ys => exact ⟨[], [], done, rest, rfl, h, .refl _, .inl ⟨rfl, rfl⟩⟩
  | case2 x xs => exact ⟨done, rest, [], [], h, rfl, by simp, .inr (.inl ⟨rfl, rfl⟩)⟩
  | case3 x xs y ys ih =>
    rw [alternate] at h
    match done with
    | [] => exact ⟨[], x :: xs, [], y :: ys, rfl, rfl, .refl _, .inr (.inr (.inl rfl))⟩
    | [a] =>
      obtain ⟨rfl, -⟩ := List.cons.inj h
      exact ⟨[x], xs, [], y :: ys, rfl, rfl, .refl _, .inr (.inr (.inr rfl))⟩
    | a :: b :: done =>
      obtain ⟨rfl, hrest⟩ := List.cons.inj h
      obtain ⟨rfl, hdone⟩ := List.cons.inj hrest
      obtain ⟨xa, xb, ya, yb, rfl, rfl, hperm, hcut⟩ := ih hdone
      refine ⟨x :: xa, xb, y :: ya, yb, rfl, rfl, ?_, ?_⟩
      · exact ((hperm.cons y).trans List.perm_middle.symm).cons x
      · simpa using hcut

end Lib
