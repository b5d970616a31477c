import Brume.Lib.Text

/-!
# Lines

A text is cut at its line feeds. `str::lines` and the loop around the shell's
`read` take the same pieces and treat a carriage return before the line feed
differently.
-/

namespace Lib

/-- `s.strip_suffix('\r').unwrap_or(s)`, and `${s%$'\r'}` of the shell. -/
def stripCr (s : Text) : Text := if s.getLast? = some '\r' then s.dropLast else s

/-- The pieces of a text, each with the mark whether a line feed ended it. What
stands behind the last line feed is a piece when it is not empty. -/
def pieces : Text → List (Text × Bool)
  | [] => []
  | c :: s =>
    if c = '\n' then ([], true) :: pieces s
    else
      match pieces s with
      | [] => [([c], false)]
      | (piece, ended) :: rest => (c :: piece, ended) :: rest

/-- `s.lines()`: a carriage return goes with the line feed behind it. -/
def lines (s : Text) : List Text :=
  (pieces s).map fun (piece, ended) => if ended then stripCr piece else piece

/-- The lines of `while IFS= read -r line || [ -n "${line}" ]`. `read` leaves
out the null characters. -/
def readLines (s : Text) : List Text := (pieces (s.filter (· ≠ '\x00'))).map Prod.fst

theorem stripCr_or (s : Text) : s = stripCr s ∨ s = stripCr s ++ ['\r'] := by
  unfold stripCr
  split
  · rename_i h
    right
    have hne : s ≠ [] := by
      intro hnil
      rw [hnil] at h
      cases h
    rw [List.getLast?_eq_some_getLast hne, Option.some_inj] at h
    rw [← h, List.dropLast_concat_getLast]
  · exact .inl rfl

theorem stripCr_of_notMem {s : Text} (h : '\r' ∉ s) : stripCr s = s := by
  unfold stripCr
  rw [if_neg]
  intro hlast
  exact h (List.mem_of_getLast? hlast)

theorem pieces_line {l : Text} (h : '\n' ∉ l) (s : Text) :
    pieces (l ++ '\n' :: s) = (l, true) :: pieces s := by
  induction l with
  | nil => simp [pieces]
  | cons c l ih =>
    have hc : c ≠ '\n' := fun he => h (by simp [he])
    have hl : '\n' ∉ l := fun hm => h (by simp [hm])
    simp [pieces, hc, ih hl]

/-- A line without carriage return and line feed is read as it was written. -/
theorem lines_line {l : Text} (hlf : '\n' ∉ l) (hcr : '\r' ∉ l) (s : Text) :
    lines (l ++ '\n' :: s) = l :: lines s := by
  simp [lines, pieces_line hlf, stripCr_of_notMem hcr]

/-! ### Carriage returns -/

/-- Every carriage return stands directly before a line feed. -/
def CrBeforeLf : Text → Prop
  | [] => True
  | c :: s => (c = '\r' → s.head? = some '\n') ∧ CrBeforeLf s

instance decidableCrBeforeLf : (s : Text) → Decidable (CrBeforeLf s)
  | [] => isTrue trivial
  | c :: s =>
    have := decidableCrBeforeLf s
    inferInstanceAs (Decidable ((c = '\r' → s.head? = some '\n') ∧ CrBeforeLf s))

/-- What `lines` leaves of a piece has no carriage return. -/
theorem mem_pieces_of_crBeforeLf {s : Text} (h : CrBeforeLf s) {piece : Text} {ended : Bool}
    (hmem : (piece, ended) ∈ pieces s) :
    '\r' ∉ piece ∨ ended = true ∧ ∃ content, piece = content ++ ['\r'] ∧ '\r' ∉ content := by
  induction s generalizing piece ended with
  | nil => cases hmem
  | cons c s ih =>
    rw [pieces] at hmem
    by_cases hlf : c = '\n'
    · rw [if_pos hlf] at hmem
      rcases List.mem_cons.mp hmem with heq | hrest
      · cases heq
        simp
      · exact ih h.2 hrest
    · rw [if_neg hlf] at hmem
      by_cases hcr : c = '\r'
      · subst hcr
        -- the line feed ends the piece behind the carriage return
        obtain ⟨rest, rfl⟩ := List.head?_eq_some_iff.mp (h.1 rfl)
        rw [pieces, if_pos rfl] at hmem
        rcases List.mem_cons.mp hmem with heq | hrest
        · cases heq
          exact .inr ⟨rfl, [], rfl, by simp⟩
        · exact ih h.2 (by rw [pieces, if_pos rfl]; exact .tail _ hrest)
      · cases hpieces : pieces s with
        | nil =>
          rw [hpieces] at hmem
          cases List.mem_singleton.mp hmem
          simp [Ne.symm hcr]
        | cons first rest =>
          rw [hpieces] at hmem
          rcases List.mem_cons.mp hmem with heq | hrest
          · cases heq
            obtain hnot | ⟨hended, content, hpiece, hnot⟩ := ih h.2 (by rw [hpieces]; exact .head _)
            · left
              simp [Ne.symm hcr, hnot]
            · refine .inr ⟨hended, c :: content, by rw [hpiece, List.cons_append], ?_⟩
              simp [Ne.symm hcr, hnot]
          · exact ih h.2 (by rw [hpieces]; exact .tail _ hrest)

theorem notMem_lines_of_crBeforeLf {s : Text} (h : CrBeforeLf s) {line : Text} (hmem : line ∈ lines s) :
    '\r' ∉ line := by
  obtain ⟨⟨piece, ended⟩, hpiece, rfl⟩ := List.mem_map.mp hmem
  obtain hnot | ⟨rfl, content, rfl, hnot⟩ := mem_pieces_of_crBeforeLf h hpiece
  · cases ended with
    | false => exact hnot
    | true =>
      simp only [↓reduceIte]
      rwa [stripCr_of_notMem hnot]
  · have hstrip : stripCr (content ++ ['\r']) = content := by simp [stripCr]
    simp only [↓reduceIte]
    rwa [hstrip]

end Lib
