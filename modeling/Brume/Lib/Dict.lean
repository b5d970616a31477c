import Mathlib.Data.List.AList

/-!
# Finite maps

`HashMap` as an association list without duplicate keys, with the lookup of
every update in one equation and the sizes that the updates lead to.
-/

namespace Lib

abbrev Dict (K V : Type) := AList fun _ : K => V

namespace Dict
variable {K V : Type}

/-- `HashMap::len`. -/
def size (d : Dict K V) : ℕ := d.keys.length

@[simp] theorem size_empty : size (∅ : Dict K V) = 0 := rfl

variable [DecidableEq K]

@[grind =] theorem lookup_insert_eq (d : Dict K V) (k k' : K) (v : V) :
    (d.insert k v).lookup k' = if k' = k then some v else d.lookup k' := by
  split
  · rename_i h
    subst h
    exact AList.lookup_insert d
  · rename_i h
    exact AList.lookup_insert_ne h

@[grind =] theorem lookup_erase_eq (d : Dict K V) (k k' : K) :
    (d.erase k).lookup k' = if k' = k then none else d.lookup k' := by
  split
  · rename_i h
    subst h
    exact AList.lookup_erase k' d
  · rename_i h
    exact AList.lookup_erase_ne h

/-- Sets an entry, or takes it out. -/
def update (d : Dict K V) (k : K) : Option V → Dict K V
  | some v => d.insert k v
  | none => d.erase k

@[grind =] theorem lookup_update_eq (d : Dict K V) (k k' : K) (o : Option V) :
    (update d k o).lookup k' = if k' = k then o else d.lookup k' := by
  cases o with
  | some v => exact lookup_insert_eq d k k' v
  | none => exact lookup_erase_eq d k k'

theorem mem_iff {d : Dict K V} {k : K} : k ∈ d ↔ ∃ v, d.lookup k = some v := by
  rw [← AList.lookup_isSome, Option.isSome_iff_exists]

theorem size_insert_of_none {d : Dict K V} {k : K} (h : d.lookup k = none) (v : V) :
    size (d.insert k v) = size d + 1 := by
  have hk : k ∉ d.keys := AList.lookup_eq_none.mp h
  rw [size, AList.keys_insert, List.erase_of_not_mem hk, List.length_cons, size]

theorem size_insert_of_some {d : Dict K V} {k : K} {v : V} (h : d.lookup k = some v) (v' : V) :
    size (d.insert k v') = size d := by
  have hk : k ∈ d.keys := mem_iff.mpr ⟨v, h⟩
  have hpos := List.length_pos_of_mem hk
  rw [size, AList.keys_insert, List.length_cons, List.length_erase_of_mem hk, size]
  omega

theorem size_erase_of_some {d : Dict K V} {k : K} {v : V} (h : d.lookup k = some v) :
    size (d.erase k) + 1 = size d := by
  have hk : k ∈ d.keys := mem_iff.mpr ⟨v, h⟩
  have hpos := List.length_pos_of_mem hk
  rw [size, AList.keys_erase, List.length_erase_of_mem hk, size]
  omega

/-- A map without an entry is empty. -/
theorem size_eq_zero_iff {d : Dict K V} : size d = 0 ↔ ∀ k, d.lookup k = none := by
  constructor
  · intro h k
    apply AList.lookup_eq_none.mpr
    have hnil : d.keys = [] := List.length_eq_zero_iff.mp h
    rw [AList.mem_keys, hnil]
    exact List.not_mem_nil
  · intro h
    by_contra hne
    obtain ⟨k, hk⟩ := List.exists_mem_of_ne_nil d.keys fun hnil => hne (List.length_eq_zero_iff.mpr hnil)
    exact AList.lookup_eq_none.mp (h k) hk

theorem eq_empty {d : Dict K V} (h : ∀ k, d.lookup k = none) : d = ∅ := by
  have hkeys : d.keys = [] := List.length_eq_zero_iff.mp (size_eq_zero_iff.mpr h)
  exact AList.ext (List.map_eq_nil_iff.mp hkeys)

end Dict

end Lib
