import Brume.Whitelist

/-!
# The characters of an address

What the parsers of `AddressText` take off the front of a text: digits, dots
and colons only, and a colon exactly when the address is an IPv6 address.
-/

namespace Brume
open Lib

namespace AddressText

def isDecimal (c : Char) : Bool := (toDigit 10 c).isSome

def isHex (c : Char) : Bool := (toDigit 16 c).isSome

/-- The characters of an IPv4 address. -/
def isIpv4Char (c : Char) : Bool := isDecimal c || c == '.'

/-- The characters of an IPv4 or an IPv6 address. -/
def isAddressChar (c : Char) : Bool := isHex c || c == '.' || c == ':'

/-- The parser went from `s` to `rest` over characters with `P`. -/
def Took (P : Char → Bool) (s rest : Text) : Prop := ∃ used, s = used ++ rest ∧ ∀ c ∈ used, P c = true

variable {P : Char → Bool} {s s' rest : Text}

theorem Took.refl (P : Char → Bool) (s : Text) : Took P s s := ⟨[], rfl, by simp⟩

theorem Took.trans (h : Took P s s') (h' : Took P s' rest) : Took P s rest := by
  obtain ⟨used, rfl, hused⟩ := h
  obtain ⟨used', rfl, hused'⟩ := h'
  refine ⟨used ++ used', by rw [List.append_assoc], fun c hc => ?_⟩
  rcases List.mem_append.mp hc with h | h
  · exact hused c h
  · exact hused' c h

theorem Took.mono {Q : Char → Bool} (h : Took P s rest) (hPQ : ∀ c, P c = true → Q c = true) :
    Took Q s rest := by
  obtain ⟨used, hs, hused⟩ := h
  exact ⟨used, hs, fun c hc => hPQ c (hused c hc)⟩

theorem Took.all (h : Took P s []) : ∀ c ∈ s, P c = true := by
  obtain ⟨used, hs, hused⟩ := h
  rw [List.append_nil] at hs
  rwa [hs]

theorem Took.mem (h : Took P s rest) {c : Char} (hc : c ∈ rest) : c ∈ s := by
  obtain ⟨used, rfl, -⟩ := h
  exact List.mem_append_right used hc

theorem isHex_of_isDecimal {c : Char} (h : isDecimal c = true) : isHex c = true := by
  unfold isDecimal isHex toDigit at *
  grind

theorem range_of_isHex {c : Char} (h : isHex c = true) : 48 ≤ c.toNat ∧ c.toNat ≤ 102 := by
  unfold isHex toDigit at h
  simp only at h
  split_ifs at h <;> first | omega | cases h

theorem readGivenChar_took {c : Char} (h : readGivenChar c s = some rest) (hc : P c = true) :
    Took P s rest ∧ c ∈ s := by
  cases s with
  | nil => cases h
  | cons d s =>
    rw [readGivenChar] at h
    split at h
    · rename_i hd
      cases h
      subst hd
      exact ⟨⟨[d], rfl, by simpa using hc⟩, by simp⟩
    · cases h

theorem readNumber_took {radix maxDigits limit n : ℕ} {allowZeroPrefix : Bool}
    (h : readNumber radix maxDigits allowZeroPrefix limit s = some (n, rest))
    (hP : ∀ c, (toDigit radix c).isSome = true → P c = true) : Took P s rest := by
  unfold readNumber at h
  simp only at h
  split_ifs at h
  split at h
  · cases h
    refine ⟨_, List.takeWhile_append_dropWhile.symm, fun c hc => ?_⟩
    have hdigit := List.mem_takeWhile_imp hc
    exact hP c hdigit
  · cases h

theorem readSeparator_took {α : Type} {sep : Char} {index : ℕ} {inner : Text → Option (α × Text)} {a : α}
    (h : readSeparator sep index inner s = some (a, rest)) (hsep : P sep = true)
    (hinner : ∀ s rest a, inner s = some (a, rest) → Took P s rest) :
    Took P s rest ∧ (0 < index → sep ∈ s) := by
  unfold readSeparator at h
  split at h
  · obtain ⟨s', hs', hrest⟩ := Option.bind_eq_some_iff.mp h
    obtain ⟨htook, hmem⟩ := readGivenChar_took hs' hsep
    exact ⟨htook.trans (hinner s' rest a hrest), fun _ => hmem⟩
  · rename_i hindex
    exact ⟨hinner s rest a h, fun hpos => absurd hpos hindex⟩

theorem readIpv4Addr_took {ip : Ipv4Addr} (h : readIpv4Addr s = some (ip, rest)) :
    Took isIpv4Char s rest := by
  have hnumber : ∀ s rest n, readNumber 10 3 false 256 s = some (n, rest) → Took isIpv4Char s rest := by
    intro s rest n hn
    refine readNumber_took hn fun c hc => ?_
    simp [isIpv4Char, isDecimal, hc]
  unfold readIpv4Addr at h
  obtain ⟨⟨a, s₁⟩, ha, h⟩ := Option.bind_eq_some_iff.mp h
  obtain ⟨⟨b, s₂⟩, hb, h⟩ := Option.bind_eq_some_iff.mp h
  obtain ⟨⟨c, s₃⟩, hc, h⟩ := Option.bind_eq_some_iff.mp h
  obtain ⟨⟨d, s₄⟩, hd, h⟩ := Option.bind_eq_some_iff.mp h
  cases h
  have h₁ := (readSeparator_took ha rfl hnumber).1
  have h₂ := (readSeparator_took hb rfl hnumber).1
  have h₃ := (readSeparator_took hc rfl hnumber).1
  have h₄ := (readSeparator_took hd rfl hnumber).1
  exact ((h₁.trans h₂).trans h₃).trans h₄

theorem isAddressChar_of_isIpv4Char {c : Char} (h : isIpv4Char c = true) : isAddressChar c = true := by
  simp only [isIpv4Char, isAddressChar, Bool.or_eq_true] at h ⊢
  rcases h with h | h
  · exact .inl (.inl (isHex_of_isDecimal h))
  · exact .inl (.inr h)

/-- Behind a first group, and in three groups or more, there is a colon. -/
theorem readGroups_took {n i : ℕ} {groups : List ℕ} {ipv4 : Bool}
    (h : readGroups n i s = (groups, ipv4, rest)) :
    Took isAddressChar s rest ∧ (0 < i ∧ groups ≠ [] ∨ 2 < groups.length → ':' ∈ s) := by
  induction n generalizing i s groups ipv4 with
  | zero =>
    cases h
    exact ⟨Took.refl _ _, by simp⟩
  | succ n ih =>
    rw [readGroups] at h
    split at h
    · rename_i ip s' hip
      cases h
      split at hip
      · obtain ⟨htook, hcolon⟩ := readSeparator_took (P := isAddressChar) hip rfl
          fun s rest a ha => (readIpv4Addr_took ha).mono fun c hc => isAddressChar_of_isIpv4Char hc
        refine ⟨htook, ?_⟩
        rintro (⟨hi, -⟩ | hlength)
        · exact hcolon hi
        · simp at hlength
      · cases hip
    · split at h
      · rename_i g s' hg
        obtain ⟨htook, hcolon⟩ := readSeparator_took (P := isAddressChar) hg rfl
          fun s rest a ha => readNumber_took ha fun c hc => by simp [isAddressChar, isHex, hc]
        rcases hgroups : readGroups n (i + 1) s' with ⟨groups', ipv4', rest'⟩
        rw [hgroups] at h
        cases h
        obtain ⟨htook', hcolon'⟩ := ih hgroups
        refine ⟨htook.trans htook', ?_⟩
        rintro (⟨hi, -⟩ | hlength)
        · exact hcolon hi
        · refine htook.mem (hcolon' (.inl ⟨by omega, ?_⟩))
          intro hnil
          simp [hnil] at hlength
      · cases h
        exact ⟨Took.refl _ _, by simp⟩

theorem readIpv6Addr_took {ip : Ipv6Addr} (h : readIpv6Addr s = some (ip, rest)) :
    Took isAddressChar s rest ∧ ':' ∈ s := by
  unfold readIpv6Addr at h
  rcases hhead : readGroups 8 0 s with ⟨head, headIpv4, s₀⟩
  obtain ⟨htook, hcolon⟩ := readGroups_took hhead
  simp only [hhead] at h
  split at h
  · rename_i hlength
    cases h
    exact ⟨htook, hcolon (.inr (by omega))⟩
  · split at h
    · cases h
    · obtain ⟨s₁, hs₁, h⟩ := Option.bind_eq_some_iff.mp h
      obtain ⟨s₂, hs₂, h⟩ := Option.bind_eq_some_iff.mp h
      cases h
      obtain ⟨htook₁, hmem⟩ := readGivenChar_took (P := isAddressChar) hs₁ rfl
      have htook₂ := (readGivenChar_took (P := isAddressChar) hs₂ rfl).1
      have htook₃ := (readGroups_took (n := 8 - (head.length + 1)) (i := 0) (s := s₂) rfl).1
      exact ⟨((htook.trans htook₁).trans htook₂).trans htook₃, htook.mem hmem⟩

end AddressText

open AddressText

/-- The text of an address has its characters, and a colon exactly for IPv6. -/
theorem parseIpAddr_chars {s : Text} {ip : IpAddr} (h : parseIpAddr s = some ip) :
    (∀ c ∈ s, isAddressChar c = true) ∧ (':' ∈ s ↔ ip.isIpv4 = false) := by
  unfold parseIpAddr readIpAddr at h
  split at h
  · rename_i ip' hread
    cases h
    split at hread
    · rename_i ip4 rest hip
      cases hread
      have hall := (readIpv4Addr_took hip).all
      refine ⟨fun c hc => isAddressChar_of_isIpv4Char (hall c hc), ?_⟩
      simp only [IpAddr.isIpv4, Bool.true_eq_false, iff_false]
      intro hcolon
      have hbad := hall ':' hcolon
      revert hbad
      decide
    · obtain ⟨⟨ip6, rest⟩, hip, heq⟩ := Option.map_eq_some_iff.mp hread
      cases heq
      obtain ⟨htook, hcolon⟩ := readIpv6Addr_took hip
      exact ⟨htook.all, by simp [hcolon, IpAddr.isIpv4]⟩
  · cases h

/-- The text of a prefix length: decimal digits behind at most one sign. -/
theorem parseUnsigned_chars {limit n : ℕ} {s : Text} (h : parseUnsigned limit s = some n) :
    ∀ c ∈ s, c = '+' ∨ isDecimal c = true := by
  have hdigits : ∀ (t : Text) (acc m : ℕ), t.foldlM (fun acc c => (toDigit 10 c).map (acc * 10 + ·)) acc = some m →
      ∀ c ∈ t, isDecimal c = true := by
    intro t
    induction t with
    | nil => simp
    | cons d t ih =>
      intro acc m hm c hc
      rw [List.foldlM_cons] at hm
      obtain ⟨acc', hacc, hrest⟩ := Option.bind_eq_some_iff.mp hm
      rcases List.mem_cons.mp hc with rfl | hc
      · obtain ⟨digit, hdigit, -⟩ := Option.map_eq_some_iff.mp hacc
        simp [isDecimal, hdigit]
      · exact ih acc' m hrest c hc
  have hfilter : ∀ t : Text, (if t = [] then none else (digitsVal 10 t).filter (· < limit)) = some n →
      ∀ c ∈ t, isDecimal c = true := by
    intro t ht
    split at ht
    · cases ht
    · exact hdigits t 0 n (Option.filter_eq_some_iff.mp ht).1
  unfold parseUnsigned at h
  simp only at h
  intro c hc
  by_cases hplus : s.head? = some '+'
  · rw [if_pos hplus] at h
    obtain ⟨t, rfl⟩ := List.head?_eq_some_iff.mp hplus
    rcases List.mem_cons.mp hc with rfl | hc
    · exact .inl rfl
    · exact .inr (hfilter t h c hc)
  · rw [if_neg hplus] at h
    exact .inr (hfilter s h c hc)

end Brume
