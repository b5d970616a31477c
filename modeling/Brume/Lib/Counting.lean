import Mathlib.Algebra.Order.BigOperators.Group.List
import Mathlib.Algebra.Order.Group.Nat
import Mathlib.Algebra.Ring.Nat
import Mathlib.Data.List.Nodup
import Brume.Lib.Dict

/-!
# Counts and weights of finite maps

The entries of a map are counted by numbers that tell them apart, and weighed by
a sum that an update changes at one key.
-/

namespace Lib

/-- Things that have numbers of their own below `n`, with the property `p`. -/
theorem length_le_countP {α : Type} {l : List α} (f : α → ℕ) (hl : l.Nodup)
    (hinj : ∀ a ∈ l, ∀ b ∈ l, f a = f b → a = b) {n : ℕ} {p : ℕ → Bool} (hp : ∀ a ∈ l, f a < n ∧ p (f a) = true) :
    l.length ≤ (List.range n).countP p := by
  have hnodup : (l.map f).Nodup := hl.map_on hinj
  have hsubset : l.map f ⊆ (List.range n).filter p := by
    intro x hx
    obtain ⟨a, ha, rfl⟩ := List.mem_map.mp hx
    obtain ⟨hlt, hpa⟩ := hp a ha
    exact List.mem_filter.mpr ⟨List.mem_range.mpr hlt, hpa⟩
  have hlength := (List.subperm_of_subset hnodup hsubset).length_le
  rwa [List.length_map, ← List.countP_eq_length_filter] at hlength

namespace Dict
variable {K V ι : Type} [DecidableEq K]

theorem mem_entries_iff {d : Dict K V} {k : K} {v : V} : (⟨k, v⟩ : Sigma fun _ => V) ∈ d.entries ↔ d.lookup k = some v :=
  AList.mem_lookup_iff.symm

/-! ### Counts -/

theorem size_update_le {d : Dict K V} {k : K} {v : V} (h : d.lookup k = some v) (o : Option V) :
    size (update d k o) ≤ size d := by
  cases o with
  | none =>
    have hsize := size_erase_of_some h
    change size (d.erase k) ≤ size d
    omega
  | some v' => exact (size_insert_of_some h v').le

/-- The sum of the weights of the entries. -/
def weight (w : K → V → ℕ) (d : Dict K V) : ℕ := (d.entries.map fun e => w e.1 e.2).sum

variable {w w' : K → V → ℕ} {d : Dict K V} {k : K} {v : V}

theorem weight_erase (w : K → V → ℕ) (h : d.lookup k = some v) : weight w (d.erase k) + w k v = weight w d := by
  have hmem : k ∈ d.entries.keys := AList.mem_keys.mp (mem_iff.mpr ⟨v, h⟩)
  obtain ⟨v', before, after, -, hentries, herase⟩ := List.exists_of_kerase hmem
  have hv' : d.lookup k = some v' := by
    rw [← mem_entries_iff, hentries]
    exact List.mem_append_right _ (List.mem_cons_self ..)
  rw [h] at hv'
  cases hv'
  have hsum : (d.erase k).entries = before ++ after := herase
  unfold weight
  rw [hsum, hentries]
  simp only [List.map_append, List.map_cons, List.sum_append, List.sum_cons]
  omega

theorem weight_insert_of_none (w : K → V → ℕ) (h : d.lookup k = none) (v : V) :
    weight w (d.insert k v) = weight w d + w k v := by
  have herase : d.entries.kerase k = d.entries := List.kerase_of_notMem_keys (AList.lookup_eq_none.mp h)
  unfold weight
  rw [AList.entries_insert, herase, List.map_cons, List.sum_cons]
  exact Nat.add_comm _ _

theorem weight_insert_of_some (w : K → V → ℕ) (h : d.lookup k = some v) (v' : V) :
    weight w (d.insert k v') + w k v = weight w d + w k v' := by
  have herase := weight_erase w h
  have hinsert : weight w (d.insert k v') = w k v' + weight w (d.erase k) := by
    unfold weight
    rw [AList.entries_insert, List.map_cons, List.sum_cons]
    rfl
  omega

theorem weight_update_of_some (w : K → V → ℕ) (h : d.lookup k = some v) (o : Option V) :
    weight w (update d k o) + w k v = weight w d + o.elim 0 (w k) := by
  cases o with
  | none => exact weight_erase w h
  | some v' => exact weight_insert_of_some w h v'

theorem weight_le_of_le (h : ∀ k v, d.lookup k = some v → w k v ≤ w' k v) : weight w d ≤ weight w' d := by
  refine List.sum_le_sum fun e he => ?_
  exact h e.1 e.2 (mem_entries_iff.mp he)

theorem le_weight (h : d.lookup k = some v) : w k v ≤ weight w d := by
  have herase := weight_erase w h
  omega

theorem weight_le_size (b : ℕ) (h : ∀ k v, d.lookup k = some v → w k v ≤ b) : weight w d ≤ size d * b := by
  have hsum : (d.entries.map fun _ => b).sum = size d * b := by
    rw [List.map_const', List.sum_replicate, size, AList.keys, List.keys, List.length_map]
    exact Nat.nsmul_eq_mul ..
  rw [← hsum]
  exact weight_le_of_le h

end Dict

end Lib
