import Brume.Lib.Text

/-!
# Parameter expansion of the shell

The expansions that cut a value at a pattern, for the patterns that occur.
`[[:space:]]` is the white space of the C locale.
-/

namespace Lib

namespace Shell

/-- `[[:space:]]`. -/
def isSpace (c : Char) : Bool := (9 ≤ c.toNat && c.toNat ≤ 13) || c.toNat == 32

/-- `${s%%[![:space:]]*}`: what stands before the first character that is no space. -/
def leadingSpace (s : Text) : Text := s.takeWhile isSpace

/-- `${s##*[![:space:]]}`: what stands behind the last character that is no space. -/
def trailingSpace (s : Text) : Text := s.rtakeWhile isSpace

/-- `${s#"${p}"}`. -/
def removePrefix (p s : Text) : Text := if p <+: s then s.drop p.length else s

/-- `${s%"${p}"}`. -/
def removeSuffix (p s : Text) : Text := if p <:+ s then s.take (s.length - p.length) else s

/-- `${s%%c*}`: what stands before the first `c`. -/
def before (c : Char) (s : Text) : Text := s.takeWhile (· ≠ c)

/-- `${s#*c}`: what stands behind the first `c`. -/
def behind (c : Char) (s : Text) : Text := if c ∈ s then (s.dropWhile (· ≠ c)).tail else s

/-- `IFS='c' read -ra array <<< "${s}"` on the first line of `s`. An empty field
at the end, which `read` leaves out, is here. -/
def readArray (c : Char) (s : Text) : List Text := split c (s.takeWhile (· ≠ '\n'))

/-- `$(echo "${s}")` of a text on one line: a text that reads as options of `echo` is not printed. -/
def echo (s : Text) : Text :=
  if s.head? = some '-' ∧ s.tail ≠ [] ∧ s.tail.all fun c => c = 'n' ∨ c = 'e' ∨ c = 'E' then [] else s

theorem isWhitespace_of_isSpace {c : Char} (h : isSpace c = true) : isWhitespace c = true := by
  simp only [isSpace, isWhitespace, Bool.or_eq_true] at h ⊢
  tauto

theorem removePrefix_append (p s : Text) : removePrefix p (p ++ s) = s := by
  rw [removePrefix, if_pos (List.prefix_append p s), List.drop_left]

theorem removeSuffix_append (p s : Text) : removeSuffix p (s ++ p) = s := by
  have hlength : (s ++ p).length - p.length = s.length := by
    rw [List.length_append]
    omega
  rw [removeSuffix, if_pos (List.suffix_append s p), hlength, List.take_left]

theorem removePrefix_leadingSpace (s : Text) : removePrefix (leadingSpace s) s = s.dropWhile isSpace := by
  have h := removePrefix_append (leadingSpace s) (s.dropWhile isSpace)
  have hsplit : leadingSpace s ++ s.dropWhile isSpace = s := List.takeWhile_append_dropWhile
  rwa [hsplit] at h

theorem removeSuffix_trailingSpace (s : Text) : removeSuffix (trailingSpace s) s = s.rdropWhile isSpace := by
  have h := removeSuffix_append (trailingSpace s) (s.rdropWhile isSpace)
  have hsplit : s.rdropWhile isSpace ++ trailingSpace s = s := List.rdropWhile_append_rtakeWhile
  rwa [hsplit] at h

/-- Cutting the space at both ends leaves the middle of the text. -/
theorem exists_trimmed {s t : Text} (h : removePrefix (leadingSpace s) s = t) :
    ∃ a b, s = a ++ (removeSuffix (trailingSpace t) t ++ b) ∧ (∀ c ∈ a, isSpace c = true) ∧
      ∀ c ∈ b, isSpace c = true := by
  have hsplit : s.takeWhile isSpace ++ s.dropWhile isSpace = s := List.takeWhile_append_dropWhile
  have hsplit' : t.rdropWhile isSpace ++ t.rtakeWhile isSpace = t := List.rdropWhile_append_rtakeWhile
  rw [removePrefix_leadingSpace] at h
  rw [removeSuffix_trailingSpace]
  refine ⟨s.takeWhile isSpace, t.rtakeWhile isSpace, ?_, fun c hc => List.mem_takeWhile_imp hc,
    fun c hc => List.mem_rtakeWhile_imp hc⟩
  rw [hsplit', ← h, hsplit]

/-- The fields of the first line are fields of the text, cut at a line feed. -/
theorem readArray_fields {c : Char} (hc : c ≠ '\n') (s : Text) :
    readArray c s <+: (split c s).map fun field => field.takeWhile (· ≠ '\n') := by
  induction s with
  | nil => exact List.prefix_rfl
  | cons d s ih =>
    obtain ⟨field, fields, hsplit⟩ := List.exists_cons_of_ne_nil (List.splitOn_ne_nil c s)
    by_cases hd : d = '\n'
    · subst hd
      have hne : ('\n' == c) = false := by simpa using hc.symm
      simp [readArray, split, List.splitOn_cons_eq_if_modifyHead, hne, hsplit]
    · have hline : readArray c (d :: s) = split c (d :: s.takeWhile (· ≠ '\n')) := by
        simp [readArray, hd]
      rw [hline]
      obtain ⟨first, rest, hfirst⟩ :=
        List.exists_cons_of_ne_nil (List.splitOn_ne_nil c (s.takeWhile (· ≠ '\n')))
      simp only [readArray, split, hsplit, hfirst, List.map_cons, List.cons_prefix_cons] at ih
      obtain ⟨hhead, hrest⟩ := ih
      by_cases hdc : (d == c) = true
      · have hfields : split c (d :: s) = [] :: field :: fields := by
          rw [split, List.splitOn_cons_eq_if_modifyHead, if_pos hdc, hsplit]
        have hfields' : split c (d :: s.takeWhile (· ≠ '\n')) = [] :: first :: rest := by
          rw [split, List.splitOn_cons_eq_if_modifyHead, if_pos hdc, hfirst]
        rw [hfields, hfields', List.map_cons, List.map_cons, hhead]
        exact List.cons_prefix_cons.mpr ⟨rfl, List.cons_prefix_cons.mpr ⟨rfl, hrest⟩⟩
      · have hfields : split c (d :: s) = (d :: field) :: fields := by
          rw [split, List.splitOn_cons_eq_if_modifyHead, if_neg hdc, hsplit]
          rfl
        have hfields' : split c (d :: s.takeWhile (· ≠ '\n')) = (d :: first) :: rest := by
          rw [split, List.splitOn_cons_eq_if_modifyHead, if_neg hdc, hfirst]
          rfl
        rw [hfields, hfields', List.map_cons, hhead]
        refine List.cons_prefix_cons.mpr ⟨?_, hrest⟩
        rw [List.takeWhile_cons_of_pos (by simpa using hd)]

/-- A text with a `c` is what stands before the first one, `c`, and what stands behind it. -/
theorem before_behind {c : Char} {s : Text} (h : c ∈ s) :
    s = before c s ++ c :: behind c s ∧ c ∉ before c s := by
  apply splitOnce_eq_some
  rw [splitOnce, if_pos h, before, behind, if_pos h]

end Shell

end Lib
