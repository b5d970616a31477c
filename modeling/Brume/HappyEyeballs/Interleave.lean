import Brume.Lib.Alternate
import Brume.Lib.Loop
import Brume.Net

/-!
# The order of the attempts (`happy_eyeballs.rs`)

`interleave_addresses` splits the addresses of a target by family and merges
the two lists again, IPv6 first.
-/

namespace Brume
open Lib

def splitFamilies (addresses : List SocketAddr) : List SocketAddr × List SocketAddr :=
  addresses.foldl (fun (v6Addrs, v4Addrs) addr =>
    if addr.isIpv6 then (v6Addrs ++ [addr], v4Addrs) else (v6Addrs, v4Addrs ++ [addr])) ([], [])

/-- The two iterators and the list that the loop pushes to. -/
structure Merge where
  v6Iter : List SocketAddr
  v4Iter : List SocketAddr
  ordered : List SocketAddr

namespace Merge

/-- `if let Some(v6) = v6_iter.next()`, with the flag `added`. -/
def takeV6 (s : Merge) : Bool × Merge :=
  match s.v6Iter with
  | [] => (false, s)
  | v6 :: rest => (true, { s with v6Iter := rest, ordered := s.ordered ++ [v6] })

def takeV4 (s : Merge) : Bool × Merge :=
  match s.v4Iter with
  | [] => (false, s)
  | v4 :: rest => (true, { s with v4Iter := rest, ordered := s.ordered ++ [v4] })

def round : Loop Merge (List SocketAddr) := fun s =>
  let (addedV6, s) := s.takeV6
  let (addedV4, s) := s.takeV4
  if addedV6 || addedV4 then .inl s else .inr s.ordered

def start (addresses : List SocketAddr) : Merge :=
  let (v6Addrs, v4Addrs) := splitFamilies addresses
  ⟨v6Addrs, v4Addrs, []⟩

def remaining (s : Merge) : ℕ := s.v6Iter.length + s.v4Iter.length

theorem round_inl {s t : Merge} (h : round s = .inl t) :
    t.remaining < s.remaining ∧
      t.ordered ++ alternate t.v6Iter t.v4Iter = s.ordered ++ alternate s.v6Iter s.v4Iter := by
  obtain ⟨v6Iter, v4Iter, ordered⟩ := s
  cases v6Iter with
  | nil =>
    cases v4Iter with
    | nil => cases h
    | cons v4 v4s =>
      cases h
      simp [remaining, alternate]
  | cons v6 v6s =>
    cases v4Iter with
    | nil =>
      cases h
      simp [remaining]
    | cons v4 v4s =>
      cases h
      constructor
      · simp only [remaining, List.length_cons]
        omega
      · simp [alternate]

theorem round_inr {s : Merge} {r : List SocketAddr} (h : round s = .inr r) :
    r = s.ordered ++ alternate s.v6Iter s.v4Iter := by
  obtain ⟨v6Iter, v4Iter, ordered⟩ := s
  cases v6Iter with
  | nil =>
    cases v4Iter with
    | nil =>
      cases h
      simp [alternate]
    | cons v4 v4s => cases h
  | cons v6 v6s => cases v4Iter <;> cases h

end Merge

def interleaveAddresses (addresses : List SocketAddr) : List SocketAddr :=
  Merge.round.exec Merge.remaining (fun _ _ h => (Merge.round_inl h).1) (Merge.start addresses)

theorem interleaveAddresses_returns (addresses : List SocketAddr) :
    Merge.round.Returns (Merge.start addresses) (interleaveAddresses addresses) :=
  Loop.returns_exec _ _ _

theorem splitFamilies_eq (addresses : List SocketAddr) :
    splitFamilies addresses = (addresses.filter (·.isIpv6), addresses.filter (!·.isIpv6)) := by
  suffices h : ∀ v6 v4 : List SocketAddr, addresses.foldl (fun (v6Addrs, v4Addrs) addr =>
      if addr.isIpv6 then (v6Addrs ++ [addr], v4Addrs) else (v6Addrs, v4Addrs ++ [addr])) (v6, v4) =
      (v6 ++ addresses.filter (·.isIpv6), v4 ++ addresses.filter (!·.isIpv6)) by
    exact h [] []
  induction addresses with
  | nil => simp
  | cons addr addresses ih =>
    intro v6 v4
    rw [List.foldl_cons]
    cases hfamily : addr.isIpv6 with
    | true =>
      simp only [↓reduceIte]
      rw [ih]
      simp [hfamily]
    | false =>
      simp only [Bool.false_eq_true, ↓reduceIte]
      rw [ih]
      simp [hfamily]

/-- The loop computes the alternating merge of the two families. -/
theorem interleaveAddresses_eq (addresses : List SocketAddr) :
    interleaveAddresses addresses =
      alternate (addresses.filter (·.isIpv6)) (addresses.filter (!·.isIpv6)) := by
  obtain ⟨t, ht, hr⟩ := (interleaveAddresses_returns addresses).invariant
    (fun s => s.ordered ++ alternate s.v6Iter s.v4Iter =
      alternate (addresses.filter (·.isIpv6)) (addresses.filter (!·.isIpv6)))
    (fun s t hs hround => (Merge.round_inl hround).2.trans hs)
    (by simp [Merge.start, splitFamilies_eq])
  rw [Merge.round_inr hr, ht]

theorem interleaveAddresses_perm (addresses : List SocketAddr) :
    (interleaveAddresses addresses).Perm addresses := by
  rw [interleaveAddresses_eq]
  exact (alternate_perm _ _).trans (List.filter_append_perm _ _)

theorem interleaveAddresses_length (addresses : List SocketAddr) :
    (interleaveAddresses addresses).length = addresses.length :=
  (interleaveAddresses_perm addresses).length_eq

theorem interleaveAddresses_filter (addresses : List SocketAddr) :
    (interleaveAddresses addresses).filter (·.isIpv6) = addresses.filter (·.isIpv6) ∧
      (interleaveAddresses addresses).filter (!·.isIpv6) = addresses.filter (!·.isIpv6) := by
  rw [interleaveAddresses_eq]
  refine filter_alternate _ (fun a ha => (List.mem_filter.mp ha).2) ?_
  intro a ha
  simpa using (List.mem_filter.mp ha).2

/-- What one of the families has left is what the other part of a cut holds of it. -/
theorem eq_drop_of_filter {p : SocketAddr → Bool} {all family done rest : List SocketAddr}
    (hfamily : all.filter p = family) (hcut : all = done ++ rest) (hrest : ∀ a ∈ rest, p a = true) :
    rest = family.drop (done.countP p) := by
  rw [← hfamily, hcut, List.filter_append, List.filter_eq_self.mpr hrest, List.countP_eq_length_filter,
    List.drop_left]

/-- In every prefix that has exhausted neither family the IPv6 addresses lead by 0 or 1. -/
theorem interleaveAddresses_balanced {addresses done rest : List SocketAddr}
    (hcut : interleaveAddresses addresses = done ++ rest) (h6 : ∃ a ∈ rest, a.isIpv6 = true)
    (h4 : ∃ a ∈ rest, a.isIpv6 = false) :
    done.countP (·.isIpv6) = done.countP (!·.isIpv6) ∨
      done.countP (·.isIpv6) = done.countP (!·.isIpv6) + 1 := by
  rw [interleaveAddresses_eq] at hcut
  obtain ⟨xa, xb, ya, yb, hx, hy, hperm, hbalance⟩ := alternate_append hcut
  have h6all : ∀ a ∈ xa ++ xb, a.isIpv6 = true := by
    intro a ha
    rw [← hx] at ha
    exact (List.mem_filter.mp ha).2
  have h4all : ∀ a ∈ ya ++ yb, a.isIpv6 = false := by
    intro a ha
    rw [← hy] at ha
    simpa using (List.mem_filter.mp ha).2
  have hcount6 : done.countP (·.isIpv6) = xa.length := by
    rw [hperm.countP_eq, List.countP_append,
      List.countP_eq_length.mpr fun a ha => h6all a (List.mem_append_left _ ha),
      List.countP_eq_zero.mpr fun a ha => by simp [h4all a (List.mem_append_left _ ha)], Nat.add_zero]
  have hcount4 : done.countP (!·.isIpv6) = ya.length := by
    rw [hperm.countP_eq, List.countP_append,
      List.countP_eq_zero.mpr fun a ha => by simp [h6all a (List.mem_append_left _ ha)],
      List.countP_eq_length.mpr fun a ha => by simp [h4all a (List.mem_append_left _ ha)], Nat.zero_add]
  rw [hcount6, hcount4]
  obtain ⟨-, rfl⟩ | ⟨-, rfl⟩ | hlead := hbalance
  · obtain ⟨a, ha, hfamily⟩ := h6
    rw [h4all a (List.mem_append_right _ ha)] at hfamily
    cases hfamily
  · obtain ⟨a, ha, hfamily⟩ := h4
    rw [h6all a (List.mem_append_right _ ha)] at hfamily
    cases hfamily
  · exact hlead

/-- `interleave_addresses` is a stable alternating merge. -/
theorem interleaveAddresses_stable (addresses : List SocketAddr) :
    Merge.round.Returns (Merge.start addresses) (interleaveAddresses addresses) ∧
    (interleaveAddresses addresses).Perm addresses ∧
    (interleaveAddresses addresses).filter (·.isIpv6) = addresses.filter (·.isIpv6) ∧
    (interleaveAddresses addresses).filter (!·.isIpv6) = addresses.filter (!·.isIpv6) ∧
    ∀ done rest, interleaveAddresses addresses = done ++ rest →
      ((∃ a ∈ rest, a.isIpv6 = true) → (∃ a ∈ rest, a.isIpv6 = false) →
        done.countP (·.isIpv6) = done.countP (!·.isIpv6) ∨
          done.countP (·.isIpv6) = done.countP (!·.isIpv6) + 1) ∧
      ((∀ a ∈ rest, a.isIpv6 = true) →
        rest = (addresses.filter (·.isIpv6)).drop (done.countP (·.isIpv6))) ∧
      ((∀ a ∈ rest, a.isIpv6 = false) →
        rest = (addresses.filter (!·.isIpv6)).drop (done.countP (!·.isIpv6))) := by
  obtain ⟨h6, h4⟩ := interleaveAddresses_filter addresses
  refine ⟨interleaveAddresses_returns addresses, interleaveAddresses_perm addresses, h6, h4, ?_⟩
  intro done rest hcut
  refine ⟨interleaveAddresses_balanced hcut, eq_drop_of_filter h6 hcut, ?_⟩
  intro hrest
  exact eq_drop_of_filter h4 hcut fun a ha => by simp [hrest a ha]

end Brume
