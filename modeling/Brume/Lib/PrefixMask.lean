import Mathlib.Data.Nat.Bitwise

/-!
# Prefix masks on fixed-width numbers

`highMask w n` is `MAX << n` in a `w`-bit word, with zero for a shift that
`checked_shl` refuses. Masking two words with it compares what is left of them
after dropping the low `n` bits.
-/

namespace Lib

/-- `MAX.checked_shl(n).unwrap_or(0)` in a `w`-bit word. -/
def highMask (w n : ℕ) : ℕ := if n < w then ((2 ^ w - 1) <<< n) % 2 ^ w else 0

theorem testBit_highMask (w n i : ℕ) : (highMask w n).testBit i = decide (n ≤ i ∧ i < w) := by
  unfold highMask
  split
  · rename_i hn
    rw [Nat.testBit_mod_two_pow, Nat.testBit_shiftLeft, Nat.testBit_two_pow_sub_one]
    by_cases hi : i < w <;> by_cases hni : n ≤ i <;> simp [hi, hni]
    omega
  · simp only [Nat.zero_testBit]
    symm
    simp only [decide_eq_false_iff_not]
    omega

/-- The bits of two words agree from position `n` up. -/
theorem and_highMask_eq_iff (w n x y : ℕ) :
    x &&& highMask w n = y &&& highMask w n ↔ ∀ i, n ≤ i → i < w → x.testBit i = y.testBit i := by
  constructor
  · intro h i hn hi
    have hb := congrArg (Nat.testBit · i) h
    simpa [testBit_highMask, hn, hi] using hb
  · intro h
    apply Nat.eq_of_testBit_eq
    intro i
    rw [Nat.testBit_and, Nat.testBit_and, testBit_highMask]
    by_cases hi : n ≤ i ∧ i < w
    · rw [h i hi.1 hi.2]
    · simp [hi]

/-- The same without a word size: dropping the low bits by a division. -/
theorem div_two_pow_eq_iff (n x y : ℕ) :
    x / 2 ^ n = y / 2 ^ n ↔ ∀ i, n ≤ i → x.testBit i = y.testBit i := by
  constructor
  · intro h i hn
    have hb := congrArg (Nat.testBit · (i - n)) h
    simpa [Nat.testBit_div_two_pow, Nat.sub_add_cancel hn] using hb
  · intro h
    apply Nat.eq_of_testBit_eq
    intro i
    rw [Nat.testBit_div_two_pow, Nat.testBit_div_two_pow]
    exact h (i + n) (Nat.le_add_left n i)

end Lib
