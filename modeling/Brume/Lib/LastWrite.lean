import Mathlib.Data.List.Basic

/-!
# The last of several writes

What a list of writes to keys leaves at one key.
-/

namespace Lib
variable {κ ν : Type} [DecidableEq κ]

def lastWrite (k : κ) (writes : List (κ × ν)) : Option ν :=
  (writes.filter (·.1 = k)).getLast?.map Prod.snd

@[simp] theorem lastWrite_nil (k : κ) : lastWrite k ([] : List (κ × ν)) = none := rfl

theorem lastWrite_append (k : κ) (writes writes' : List (κ × ν)) :
    lastWrite k (writes ++ writes') = (lastWrite k writes').or (lastWrite k writes) := by
  unfold lastWrite
  rw [List.filter_append, List.getLast?_append]
  cases (writes'.filter (·.1 = k)).getLast? <;> rfl

theorem lastWrite_cons (k k' : κ) (v : ν) (writes : List (κ × ν)) :
    lastWrite k ((k', v) :: writes) =
      (lastWrite k writes).or (if k' = k then some v else none) := by
  rw [← List.singleton_append, lastWrite_append]
  congr 1
  by_cases hk : k' = k <;> simp [lastWrite, hk]

end Lib
