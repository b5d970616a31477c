import Mathlib.Data.List.Basic
import Mathlib.Data.List.DropRight

/-!
# Text operations of the standard library

A `&str` is the list of its characters. The operations follow the documented
behaviour of `str::trim`, `str::split`, `str::split_once` and of `FromStr` for
the unsigned integers.
-/

namespace Lib

abbrev Text := List Char

/-- `char::is_whitespace`: the Unicode property `White_Space`. -/
def isWhitespace (c : Char) : Bool :=
  let n := c.toNat
  (9 ≤ n && n ≤ 13) || n == 0x20 || n == 0x85 || n == 0xA0 || n == 0x1680 ||
    (0x2000 ≤ n && n ≤ 0x200A) || n == 0x2028 || n == 0x2029 || n == 0x202F || n == 0x205F ||
    n == 0x3000

def trim (s : Text) : Text := (s.dropWhile isWhitespace).rdropWhile isWhitespace

/-- `s.split(c)`. -/
def split (c : Char) (s : Text) : List Text := s.splitOn c

/-- `s.split_once(c)`: the parts before and behind the first `c`. -/
def splitOnce (c : Char) (s : Text) : Option (Text × Text) :=
  if c ∈ s then some (s.takeWhile (· ≠ c), (s.dropWhile (· ≠ c)).tail) else none

/-- The value of a character as a digit in a radix up to 16. -/
def toDigit (radix : ℕ) (c : Char) : Option ℕ :=
  let n := c.toNat
  let d := if 48 ≤ n ∧ n ≤ 57 then some (n - 48)
    else if 97 ≤ n ∧ n ≤ 102 then some (n - 87)
    else if 65 ≤ n ∧ n ≤ 70 then some (n - 55)
    else none
  d.filter (· < radix)

/-- The value of a digit string; `none` when a character is not a digit. -/
def digitsVal (radix : ℕ) (s : Text) : Option ℕ :=
  s.foldlM (fun acc c => (toDigit radix c).map (acc * radix + ·)) 0

/-- `FromStr` of an unsigned type with values below `limit`: an optional plus
sign and at least one decimal digit. -/
def parseUnsigned (limit : ℕ) (s : Text) : Option ℕ :=
  let digits := if s.head? = some '+' then s.tail else s
  if digits = [] then none else (digitsVal 10 digits).filter (· < limit)

theorem parseUnsigned_lt {limit n : ℕ} {s : Text} (h : parseUnsigned limit s = some n) : n < limit := by
  unfold parseUnsigned at h
  generalize (if s.head? = some '+' then s.tail else s) = digits at h
  simp only at h
  by_cases hd : digits = []
  · rw [if_pos hd] at h
    cases h
  · rw [if_neg hd] at h
    simpa using (Option.filter_eq_some_iff.mp h).2

theorem trim_eq_nil_iff {s : Text} : trim s = [] ↔ ∀ c ∈ s, isWhitespace c = true := by
  unfold trim
  rw [List.rdropWhile_eq_nil_iff]
  constructor
  · intro h
    by_contra hc
    have hne : s.dropWhile isWhitespace ≠ [] := fun h0 => hc (List.dropWhile_eq_nil_iff.mp h0)
    have hhead := List.head_dropWhile_not isWhitespace hne
    rw [h _ (List.head_mem hne)] at hhead
    cases hhead
  · intro h c hc
    exact h c ((List.dropWhile_sublist _).subset hc)

theorem dropWhile_eq_self {p : Char → Bool} {t : Text} (h : ∀ c ∈ t, p c = false) : t.dropWhile p = t := by
  cases t with
  | nil => rfl
  | cons c t => simp [h c (by simp)]

/-- White space around a word is trimmed. -/
theorem trim_append {a t b : Text} (ha : ∀ c ∈ a, isWhitespace c = true)
    (hb : ∀ c ∈ b, isWhitespace c = true) (ht : ∀ c ∈ t, isWhitespace c = false) (hne : t ≠ []) :
    trim (a ++ (t ++ b)) = t := by
  have hfront : (t ++ b).dropWhile isWhitespace = t ++ b := by
    cases t with
    | nil => exact absurd rfl hne
    | cons c t => simp [ht c (by simp)]
  have hback : ∀ c ∈ t.reverse, isWhitespace c = false := fun c hc => ht c (List.mem_reverse.mp hc)
  rw [trim, List.dropWhile_append_of_pos ha, hfront, List.rdropWhile, List.reverse_append,
    List.dropWhile_append_of_pos (by simpa using hb), dropWhile_eq_self hback, List.reverse_reverse]

theorem mem_of_mem_split {c d : Char} {s field : Text} (h : field ∈ split c s) (hd : d ∈ field) : d ∈ s := by
  induction s generalizing field with
  | nil =>
    rw [split, List.splitOn_nil, List.mem_singleton] at h
    rwa [h] at hd
  | cons e s ih =>
    obtain ⟨first, rest, hsplit⟩ := List.exists_cons_of_ne_nil (List.splitOn_ne_nil c s)
    rw [split, hsplit] at ih
    rw [split, List.splitOn_cons_eq_if_modifyHead, hsplit] at h
    by_cases he : (e == c) = true
    · rw [if_pos he] at h
      rcases List.mem_cons.mp h with rfl | h
      · cases hd
      · exact List.mem_cons_of_mem e (ih h hd)
    · rw [if_neg he] at h
      rcases List.mem_cons.mp h with rfl | h
      · rcases List.mem_cons.mp hd with rfl | hd
        · exact List.mem_cons_self
        · exact List.mem_cons_of_mem e (ih List.mem_cons_self hd)
      · exact List.mem_cons_of_mem e (ih (List.mem_cons_of_mem first h) hd)

/-- A text is its trimmed middle with white space around it. -/
theorem exists_trim (s : Text) :
    ∃ a b, s = a ++ (trim s ++ b) ∧ (∀ c ∈ a, isWhitespace c = true) ∧ ∀ c ∈ b, isWhitespace c = true := by
  have hfront : s.takeWhile isWhitespace ++ s.dropWhile isWhitespace = s :=
    List.takeWhile_append_dropWhile
  have hback : trim s ++ (s.dropWhile isWhitespace).rtakeWhile isWhitespace = s.dropWhile isWhitespace :=
    List.rdropWhile_append_rtakeWhile
  refine ⟨s.takeWhile isWhitespace, (s.dropWhile isWhitespace).rtakeWhile isWhitespace, ?_,
    fun c hc => List.mem_takeWhile_imp hc, fun c hc => List.mem_rtakeWhile_imp hc⟩
  rw [hback, hfront]

theorem splitOnce_append {c : Char} {k : Text} (h : c ∉ k) (v : Text) :
    splitOnce c (k ++ c :: v) = some (k, v) := by
  have hk : ∀ d ∈ k, decide (d ≠ c) = true := by
    intro d hd
    rw [decide_eq_true_eq]
    rintro rfl
    exact h hd
  rw [splitOnce, if_pos (by simp), List.takeWhile_append_of_pos hk, List.dropWhile_append_of_pos hk]
  simp

theorem splitOnce_eq_some {c : Char} {s k v : Text} (h : splitOnce c s = some (k, v)) :
    s = k ++ c :: v ∧ c ∉ k := by
  unfold splitOnce at h
  split at h
  · rename_i hmem
    cases h
    constructor
    · have hne : s.dropWhile (· ≠ c) ≠ [] := by
        intro hnil
        have hall := List.dropWhile_eq_nil_iff.mp hnil c hmem
        simp at hall
      have hhead : (s.dropWhile (· ≠ c)).head hne = c := by
        have hnot := List.head_dropWhile_not (fun d => decide (d ≠ c)) hne
        simpa using hnot
      have hsplit : s.takeWhile (· ≠ c) ++ s.dropWhile (· ≠ c) = s := List.takeWhile_append_dropWhile
      conv_lhs => rw [← hsplit, ← List.cons_head_tail hne, hhead]
    · intro hk
      have hne := List.mem_takeWhile_imp hk
      simp at hne
  · cases h

end Lib
