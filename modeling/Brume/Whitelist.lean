import Mathlib.Data.Set.Defs
import Brume.AddressText
import Brume.Lib.PrefixMask

/-!
# The whitelist (`config.rs`)

The parser of the whitelist text and the test of an address. An arithmetic
step of `prefix_matches` that leaves its range is `none`; the theorem below
says that no parsed list gets there, and what the list denotes as a set of
128-bit addresses.
-/

namespace Brume
open Lib

namespace Config

def normalize (address : IpAddr) : IpAddr :=
  match address with
  | .v6 ip =>
    match ip.toIpv4Mapped with
    | some ip => .v4 ip
    | none => .v6 ip
  | other => other

/-- `a - b` on unsigned numbers: out of range when `b` is larger. -/
def checkedSub (a b : ℕ) : Option ℕ := if b ≤ a then some (a - b) else none

def prefixMatches (network address : IpAddr) (bits : UInt8) : Option Bool :=
  match network, address with
  | .v4 a, .v4 b => do
    let shift ← checkedSub 32 bits.toNat
    let mask := highMask 32 shift
    some (a.toNat &&& mask == b.toNat &&& mask)
  | .v6 a, .v6 b => do
    let shift ← checkedSub 128 bits.toNat
    let mask := highMask 128 shift
    some (a.toNat &&& mask == b.toNat &&& mask)
  | _, _ => some false

end Config

structure Whitelist where
  addresses : List IpAddr
  networks : List (IpAddr × UInt8)
  deriving DecidableEq

namespace Whitelist
open Config

def isEmpty (w : Whitelist) : Bool := w.addresses.isEmpty && w.networks.isEmpty

/-- The trimmed, non-empty parts between the commas. -/
def entries (value : Text) : List Text := ((split ',' value).map trim).filter (· ≠ [])

def badAddress (entry : Text) : String := "无效的白名单地址：" ++ String.ofList entry

def badNetwork (entry : Text) : String := "无效的白名单网段：" ++ String.ofList entry

/-- A mapped network of at least 96 bits is stored as an IPv4 network. -/
def storedNetwork (ip : IpAddr) (bits : UInt8) : IpAddr × UInt8 :=
  match ip with
  | .v6 ip6 =>
    match ip6.toIpv4Mapped with
    | some ip4 => if 96 ≤ bits then (.v4 ip4, bits - 96) else (.v6 ip6, bits)
    | none => (.v6 ip6, bits)
  | .v4 ip4 => (.v4 ip4, bits)

/-- The body of the loop of `parse` for one entry. -/
def addEntry (result : Whitelist) (entry : Text) : Except String Whitelist :=
  match splitOnce '/' entry with
  | some (address, bits) =>
    match parseIpAddr address with
    | none => .error (badAddress entry)
    | some ip =>
      match parseUnsigned 256 bits with
      | none => .error (badNetwork entry)
      | some n =>
        let bits := UInt8.ofNat n
        if bits > if ip.isIpv4 then 32 else 128 then .error (badNetwork entry)
        else .ok { result with networks := result.networks ++ [storedNetwork ip bits] }
  | none =>
    match parseIpAddr entry with
    | none => .error (badAddress entry)
    | some ip => .ok { result with addresses := result.addresses ++ [Config.normalize ip] }

def parse (value : Text) : Except String Whitelist := do
  let result ← (entries value).foldlM addEntry ⟨[], []⟩
  if trim value ≠ [] ∧ result.isEmpty then .error "白名单至少需要一个有效的 IP 或网段"
  else .ok result

/-- The closure of `networks.iter().any`. -/
def networkAllows (address normalized : IpAddr) (network : IpAddr × UInt8) : Option Bool := do
  if ← prefixMatches network.1 normalized network.2 then some true
  else prefixMatches network.1 address network.2

def allows (w : Whitelist) (address : IpAddr) : Option Bool :=
  if w.addresses.isEmpty && w.networks.isEmpty then some true
  else
    let normalized := Config.normalize address
    if w.addresses.contains normalized then some true
    else w.networks.anyM (networkAllows address normalized)

end Whitelist

/-! ### Sets of addresses -/

/-- Bit `i` of an address, counted from the front. -/
def Ipv6Addr.bit (a : Ipv6Addr) (i : ℕ) : Bool := a.toNat.testBit (127 - i)

/-- The addresses that share the first `b` bits of `n`. -/
def firstBits (b : ℕ) (n : Ipv6Addr) : Set Ipv6Addr := {a | ∀ i < b, a.bit i = n.bit i}

/-- The addresses a network stands for, with IPv4 inside `::ffff:0:0/96`. -/
def networkSet (ip : IpAddr) (b : ℕ) : Set Ipv6Addr :=
  match ip with
  | .v4 x => firstBits (96 + b) x.toIpv6Mapped
  | .v6 n => firstBits b n

/-- The addresses an entry of the whitelist text stands for. -/
def EntryCovers (entry : Text) (a : Ipv6Addr) : Prop :=
  match splitOnce '/' entry with
  | none =>
    match parseIpAddr entry with
    | some (.v4 x) => a ∈ firstBits (96 + 32) x.toIpv6Mapped
    | some (.v6 n) => a = n
    | none => False
  | some (address, bits) =>
    match parseIpAddr address, parseUnsigned 256 bits with
    | some ip, some b => a ∈ networkSet ip b
    | _, _ => False

theorem mem_firstBits_iff {b : ℕ} (hb : b ≤ 128) {a n : Ipv6Addr} :
    a ∈ firstBits b n ↔ ∀ j, 128 - b ≤ j → j < 128 → a.toNat.testBit j = n.toNat.testBit j := by
  constructor
  · intro h j hj hlt
    have hi := h (127 - j) (by omega)
    rwa [Ipv6Addr.bit, Ipv6Addr.bit, show 127 - (127 - j) = j by omega] at hi
  · intro h i hi
    exact h (127 - i) (by omega) (by omega)

theorem firstBits_full {a n : Ipv6Addr} : a ∈ firstBits 128 n ↔ a = n := by
  rw [mem_firstBits_iff (le_refl 128)]
  constructor
  · intro h
    apply Ipv6Addr.toNat_inj.mp
    apply Nat.eq_of_testBit_eq
    intro j
    by_cases hj : j < 128
    · exact h j (by omega) hj
    · have hpow : 2 ^ 128 ≤ 2 ^ j := Nat.pow_le_pow_right (by decide) (by omega)
      rw [Nat.testBit_lt_two_pow (a.toNat_lt.trans_le hpow),
        Nat.testBit_lt_two_pow (n.toNat_lt.trans_le hpow)]
  · rintro rfl j _ _
    rfl

theorem testBit_toIpv6Mapped (x : Ipv4Addr) (j : ℕ) :
    x.toIpv6Mapped.toNat.testBit j = if j < 32 then x.toNat.testBit j else (0xffff).testBit (j - 32) := by
  rw [Ipv4Addr.toIpv6Mapped_toNat, Nat.mul_comm, Nat.testBit_two_pow_mul_add _ x.toNat_lt]

/-- Only mapped addresses share the first 96 bits of a mapped address. -/
theorem mapped_of_firstBits {b : ℕ} (hb : b ≤ 32) {a : Ipv6Addr} {x : Ipv4Addr}
    (h : a ∈ firstBits (96 + b) x.toIpv6Mapped) : ∃ y : Ipv4Addr, a = y.toIpv6Mapped := by
  have hdiv : a.toNat / 2 ^ 32 = 0xffff := by
    apply Nat.eq_of_testBit_eq
    intro j
    rw [Nat.testBit_div_two_pow]
    by_cases hj : j + 32 < 128
    · have hx := (mem_firstBits_iff (by omega)).mp h (j + 32) (by omega) hj
      rw [testBit_toIpv6Mapped, if_neg (by omega), Nat.add_sub_cancel] at hx
      exact hx
    · have hpow : 2 ^ 128 ≤ 2 ^ (j + 32) := Nat.pow_le_pow_right (by decide) (by omega)
      have hff : 0xffff < 2 ^ j :=
        lt_of_lt_of_le (by decide : 0xffff < 2 ^ 96) (Nat.pow_le_pow_right (by decide) (by omega))
      rw [Nat.testBit_lt_two_pow (a.toNat_lt.trans_le hpow), Nat.testBit_lt_two_pow hff]
  have hsplit : a.toNat = beVal (a.octets.toList.take 12) * 2 ^ 32 + beVal (a.octets.toList.drop 12) := by
    have ha := beVal_append (a.octets.toList.take 12) (a.octets.toList.drop 12)
    rw [List.take_append_drop, List.length_drop, Vector.length_toList] at ha
    exact ha
  have hlow := beVal_lt (a.octets.toList.drop 12)
  rw [List.length_drop, Vector.length_toList] at hlow
  have htake : a.octets.toList.take 12 = mappedPrefix := by
    apply beVal_inj (by simp [mappedPrefix])
    have hm : beVal mappedPrefix = 0xffff := by decide
    omega
  exact ⟨⟨buffer (a.octets.toList.drop 12) (by simp)⟩,
    Ipv6Addr.toIpv4Mapped_eq_some.mp (if_pos htake)⟩

/-! ### The test of one network -/

namespace Config

theorem normalize_mapped (y : Ipv4Addr) : normalize (.v6 y.toIpv6Mapped) = .v4 y := by
  simp [normalize]

theorem normalize_not_mapped {a : Ipv6Addr} (h : a.toIpv4Mapped = none) :
    normalize (.v6 a) = .v6 a := by
  simp [normalize, h]

/-- On the IPv6 form of addresses, `normalize` loses nothing. -/
theorem normalize_v6_inj {a n : Ipv6Addr} : normalize (.v6 a) = normalize (.v6 n) ↔ a = n := by
  constructor
  · intro h
    rcases ha : a.toIpv4Mapped with _ | x <;> rcases hn : n.toIpv4Mapped with _ | y <;>
      simp only [normalize, ha, hn] at h
    · exact IpAddr.v6.inj h
    · cases h
    · cases h
    · rw [Ipv6Addr.toIpv4Mapped_eq_some.mp ha, Ipv6Addr.toIpv4Mapped_eq_some.mp hn, IpAddr.v4.inj h]
  · rintro rfl
    rfl

theorem normalize_eq_v4 {a : Ipv6Addr} {x : Ipv4Addr} :
    normalize (.v6 a) = normalize (.v4 x) ↔ a = x.toIpv6Mapped := by
  rw [← normalize_v6_inj, normalize_mapped]
  rfl

theorem checkedSub_of_le {a b : ℕ} (h : b ≤ a) : checkedSub a b = some (a - b) := if_pos h

theorem prefixMatches_v6 {n a : Ipv6Addr} {bits : UInt8} (hb : bits.toNat ≤ 128) :
    ∃ r, prefixMatches (.v6 n) (.v6 a) bits = some r ∧ (r = true ↔ a ∈ firstBits bits.toNat n) := by
  let mask := highMask 128 (128 - bits.toNat)
  refine ⟨n.toNat &&& mask == a.toNat &&& mask, by simp [prefixMatches, checkedSub_of_le hb, mask], ?_⟩
  rw [beq_iff_eq, and_highMask_eq_iff, mem_firstBits_iff hb]
  constructor
  · intro h j hj hlt
    exact (h j hj hlt).symm
  · intro h j hj hlt
    exact (h j hj hlt).symm

theorem prefixMatches_v4 {x y : Ipv4Addr} {bits : UInt8} (hb : bits.toNat ≤ 32) :
    ∃ r, prefixMatches (.v4 x) (.v4 y) bits = some r ∧
      (r = true ↔ y.toIpv6Mapped ∈ firstBits (96 + bits.toNat) x.toIpv6Mapped) := by
  let mask := highMask 32 (32 - bits.toNat)
  refine ⟨x.toNat &&& mask == y.toNat &&& mask, by simp [prefixMatches, checkedSub_of_le hb, mask], ?_⟩
  rw [beq_iff_eq, and_highMask_eq_iff, mem_firstBits_iff (by omega)]
  constructor
  · intro h j hj hlt
    rw [testBit_toIpv6Mapped, testBit_toIpv6Mapped]
    -- above the 32 bits of the IPv4 address both carry the same prefix
    by_cases h32 : j < 32
    · rw [if_pos h32, if_pos h32, h j (by omega) h32]
    · rw [if_neg h32, if_neg h32]
  · intro h j hj h32
    have hj' := h j (by omega) (by omega)
    rw [testBit_toIpv6Mapped, testBit_toIpv6Mapped, if_pos h32, if_pos h32] at hj'
    exact hj'.symm

theorem prefixMatches_v6_v4 (n : Ipv6Addr) (y : Ipv4Addr) (bits : UInt8) :
    prefixMatches (.v6 n) (.v4 y) bits = some false := rfl

end Config

namespace Whitelist
open Config

/-- The prefix of a network is no longer than its addresses. -/
def InRange (network : IpAddr × UInt8) : Prop :=
  network.2.toNat ≤ if network.1.isIpv4 then 32 else 128

/-- With a prefix in range, no step of `prefix_matches` leaves its range. -/
theorem prefixMatches_isSome {network : IpAddr × UInt8} (h : InRange network) (address : IpAddr) :
    (prefixMatches network.1 address network.2).isSome := by
  obtain ⟨ip, bits⟩ := network
  cases ip with
  | v4 x =>
    cases address with
    | v4 y =>
      obtain ⟨r, hr, -⟩ := prefixMatches_v4 (x := x) (y := y) h
      simp [hr]
    | v6 a => rfl
  | v6 n =>
    cases address with
    | v4 y => rfl
    | v6 a =>
      obtain ⟨r, hr, -⟩ := prefixMatches_v6 (n := n) (a := a) h
      simp [hr]

/-- Testing the normalised and the raw form decides membership in the set of a network. -/
theorem networkAllows_spec {network : IpAddr × UInt8} (h : InRange network) (a : Ipv6Addr) :
    ∃ r, networkAllows (.v6 a) (Config.normalize (.v6 a)) network = some r ∧
      (r = true ↔ a ∈ networkSet network.1 network.2.toNat) := by
  obtain ⟨ip, bits⟩ := network
  cases ip with
  | v4 x =>
    rcases ha : a.toIpv4Mapped with _ | y
    · -- a native IPv6 address lies in no IPv4 network
      refine ⟨false, by simp [networkAllows, normalize_not_mapped ha, prefixMatches], ?_⟩
      simp only [networkSet, Bool.false_eq_true, false_iff]
      intro hm
      obtain ⟨y, hy⟩ := mapped_of_firstBits h hm
      rw [Ipv6Addr.toIpv4Mapped_eq_some.mpr hy] at ha
      cases ha
    · obtain rfl := Ipv6Addr.toIpv4Mapped_eq_some.mp ha
      obtain ⟨r, hr, hiff⟩ := prefixMatches_v4 (x := x) (y := y) h
      refine ⟨r, ?_, hiff⟩
      rw [networkAllows, normalize_mapped, hr]
      cases r <;> rfl
  | v6 n =>
    obtain ⟨r, hr, hiff⟩ := prefixMatches_v6 (n := n) (a := a) h
    refine ⟨r, ?_, hiff⟩
    rcases ha : a.toIpv4Mapped with _ | y
    · rw [networkAllows, normalize_not_mapped ha, hr]
      cases r <;> rfl
    · obtain rfl := Ipv6Addr.toIpv4Mapped_eq_some.mp ha
      simp [networkAllows, normalize_mapped, prefixMatches_v6_v4, hr]

end Whitelist

/-! ### What a list denotes -/

namespace Whitelist
open Config

/-- Rewriting a mapped network to IPv4 keeps its range and its set. -/
theorem storedNetwork_spec (ip : IpAddr) (bits : UInt8)
    (h : bits.toNat ≤ if ip.isIpv4 then 32 else 128) :
    InRange (storedNetwork ip bits) ∧
      networkSet (storedNetwork ip bits).1 (storedNetwork ip bits).2.toNat = networkSet ip bits.toNat := by
  cases ip with
  | v4 x => exact ⟨h, rfl⟩
  | v6 n =>
    rcases hn : n.toIpv4Mapped with _ | x
    · simp only [storedNetwork, hn]
      exact ⟨h, trivial⟩
    · by_cases h96 : 96 ≤ bits
      · have h96' : 96 ≤ bits.toNat := h96
        have hsub : (bits - 96).toNat = bits.toNat - 96 := UInt8.toNat_sub_of_le bits 96 h96
        have hwidth : bits.toNat ≤ 128 := h
        simp only [storedNetwork, hn, if_pos h96, InRange, IpAddr.isIpv4, ↓reduceIte, networkSet, hsub]
        rw [Ipv6Addr.toIpv4Mapped_eq_some.mp hn, show 96 + (bits.toNat - 96) = bits.toNat by omega]
        exact ⟨by omega, rfl⟩
      · simp only [storedNetwork, hn, if_neg h96]
        exact ⟨h, trivial⟩

/-- The address is listed or lies in a listed network. -/
def Covers (w : Whitelist) (a : Ipv6Addr) : Prop :=
  Config.normalize (.v6 a) ∈ w.addresses ∨ ∃ network ∈ w.networks, a ∈ networkSet network.1 network.2.toNat

/-- Every network of the list has its prefix in range. -/
def WellFormed (w : Whitelist) : Prop := ∀ network ∈ w.networks, InRange network

theorem covers_addAddress (w : Whitelist) (ip : IpAddr) (a : Ipv6Addr) :
    ({ w with addresses := w.addresses ++ [Config.normalize ip] } : Whitelist).Covers a ↔
      w.Covers a ∨ Config.normalize (.v6 a) = Config.normalize ip := by
  simp only [Covers, List.mem_append, List.mem_singleton]
  exact or_right_comm

theorem covers_addNetwork (w : Whitelist) (network : IpAddr × UInt8) (a : Ipv6Addr) :
    ({ w with networks := w.networks ++ [network] } : Whitelist).Covers a ↔
      w.Covers a ∨ a ∈ networkSet network.1 network.2.toNat := by
  simp only [Covers, List.mem_append, List.mem_singleton, or_and_right, exists_or, exists_eq_left]
  exact or_assoc.symm

/-- An accepted entry is an address, or a network with its prefix in range. -/
theorem addEntry_cases {w w' : Whitelist} {entry : Text} (h : addEntry w entry = .ok w') :
    (∃ ip, splitOnce '/' entry = none ∧ parseIpAddr entry = some ip ∧
      w' = { w with addresses := w.addresses ++ [Config.normalize ip] }) ∨
    ∃ address digits ip, ∃ bits : UInt8, splitOnce '/' entry = some (address, digits) ∧
      parseIpAddr address = some ip ∧ parseUnsigned 256 digits = some bits.toNat ∧
      bits.toNat ≤ (if ip.isIpv4 then 32 else 128) ∧
      w' = { w with networks := w.networks ++ [storedNetwork ip bits] } := by
  unfold addEntry at h
  rcases hs : splitOnce '/' entry with _ | ⟨address, digits⟩
  · rw [hs] at h
    rcases hp : parseIpAddr entry with _ | ip
    · simp [hp] at h
    · simp only [hp, Except.ok.injEq] at h
      exact .inl ⟨ip, rfl, rfl, h.symm⟩
  · rw [hs] at h
    rcases hp : parseIpAddr address with _ | ip
    · simp [hp] at h
    · rcases hn : parseUnsigned 256 digits with _ | n
      · simp [hp, hn] at h
      · simp only [hp, hn] at h
        by_cases hle : UInt8.ofNat n > if ip.isIpv4 then 32 else 128
        · rw [if_pos hle] at h
          cases h
        · rw [if_neg hle] at h
          cases h
          have hn256 := parseUnsigned_lt hn
          have hnat : (UInt8.ofNat n).toNat = n := by
            rw [UInt8.toNat_ofNat']
            omega
          have hwidth : (UInt8.ofNat n).toNat ≤ if ip.isIpv4 then 32 else 128 := by
            cases ip <;> exact UInt8.le_iff_toNat_le.mp (UInt8.not_lt.mp hle)
          exact .inr ⟨address, digits, ip, UInt8.ofNat n, rfl, hp, by rw [hn, hnat], hwidth, rfl⟩

/-- One entry adds exactly the addresses it covers. -/
theorem addEntry_spec {w w' : Whitelist} {entry : Text} (hw : w.WellFormed)
    (h : addEntry w entry = .ok w') :
    w'.WellFormed ∧ w'.isEmpty = false ∧ ∀ a, w'.Covers a ↔ w.Covers a ∨ EntryCovers entry a := by
  obtain ⟨ip, hs, hp, rfl⟩ | ⟨address, digits, ip, bits, hs, hp, hn, hwidth, rfl⟩ := addEntry_cases h
  · refine ⟨hw, by simp [isEmpty], fun a => ?_⟩
    rw [covers_addAddress]
    apply or_congr_right
    simp only [EntryCovers, hs, hp]
    cases ip with
    | v4 x => exact normalize_eq_v4.trans firstBits_full.symm
    | v6 n => exact normalize_v6_inj
  · obtain ⟨hrange, hset⟩ := storedNetwork_spec ip bits hwidth
    refine ⟨?_, by simp [isEmpty], fun a => ?_⟩
    · intro network hmem
      rcases List.mem_append.mp hmem with hold | hnew
      · exact hw network hold
      · rw [List.mem_singleton.mp hnew]
        exact hrange
    · rw [covers_addNetwork]
      apply or_congr_right
      rw [hset]
      simp only [EntryCovers, hs, hp, hn]

/-- The loop of `parse`: each entry adds what it covers. -/
theorem addEntries_spec {es : List Text} {w w' : Whitelist} (hw : w.WellFormed)
    (h : es.foldlM addEntry w = .ok w') :
    w'.WellFormed ∧ (es ≠ [] → w'.isEmpty = false) ∧
      ∀ a, w'.Covers a ↔ w.Covers a ∨ ∃ e ∈ es, EntryCovers e a := by
  induction es generalizing w with
  | nil =>
    cases h
    exact ⟨hw, by simp, by simp⟩
  | cons e es ih =>
    rw [List.foldlM_cons] at h
    rcases he : addEntry w e with err | w₁
    · rw [he] at h
      cases h
    · rw [he] at h
      obtain ⟨hw₁, hne₁, hcov₁⟩ := addEntry_spec hw he
      obtain ⟨hw', hne', hcov'⟩ := ih hw₁ h
      refine ⟨hw', fun _ => ?_, fun a => ?_⟩
      · rcases es with _ | ⟨e', es'⟩
        · cases h
          exact hne₁
        · exact hne' (by simp)
      · rw [hcov', hcov₁]
        simp only [List.mem_cons, exists_eq_or_imp]
        tauto

/-- `any` with a test that never leaves its range. -/
theorem anyM_some {α : Type} {l : List α} {f : α → Option Bool} {P : α → Prop}
    (h : ∀ n ∈ l, ∃ r, f n = some r ∧ (r = true ↔ P n)) :
    ∃ r, l.anyM f = some r ∧ (r = true ↔ ∃ n ∈ l, P n) := by
  induction l with
  | nil => exact ⟨false, rfl, by simp⟩
  | cons n ns ih =>
    obtain ⟨r, hr, hiff⟩ := h n (by simp)
    obtain ⟨r', hr', hiff'⟩ := ih fun m hm => h m (by simp [hm])
    cases r with
    | true => exact ⟨true, by simp [List.anyM, hr], by simp [hiff.mp rfl]⟩
    | false =>
      have hno : ¬P n := fun hm => absurd (hiff.mpr hm) (by simp)
      exact ⟨r', by simp [List.anyM, hr, hr'], by simp [hiff', hno]⟩

theorem anyM_networkAllows {networks : List (IpAddr × UInt8)} (h : ∀ n ∈ networks, InRange n)
    (a : Ipv6Addr) :
    ∃ r, networks.anyM (networkAllows (.v6 a) (Config.normalize (.v6 a))) = some r ∧
      (r = true ↔ ∃ n ∈ networks, a ∈ networkSet n.1 n.2.toNat) :=
  anyM_some fun n hn => networkAllows_spec (h n hn) a

/-- `allows` decides the set a well-formed list denotes; the empty list denotes all. -/
theorem allows_spec {w : Whitelist} (hw : w.WellFormed) (a : Ipv6Addr) :
    ∃ r, w.allows (.v6 a) = some r ∧ (r = true ↔ w.isEmpty = true ∨ w.Covers a) := by
  by_cases he : w.isEmpty
  · exact ⟨true, if_pos he, by simp [he]⟩
  · obtain ⟨r, hr, hiff⟩ := anyM_networkAllows hw a
    by_cases hmem : Config.normalize (.v6 a) ∈ w.addresses
    · refine ⟨true, ?_, by simp [Covers, hmem]⟩
      unfold allows
      rw [if_neg (by simpa [isEmpty] using he)]
      simp [hmem]
    · refine ⟨r, ?_, by simp [Covers, hmem, he, hiff]⟩
      unfold allows
      rw [if_neg (by simpa [isEmpty] using he)]
      simp [hmem, hr]

theorem entries_eq_nil_of_blank {s : Text} (h : trim s = []) : entries s = [] := by
  have hcomma : ',' ∉ s := by
    intro hmem
    have hspace := trim_eq_nil_iff.mp h ',' hmem
    revert hspace
    decide
  simp [entries, split, List.splitOn_eq_singleton hcomma, h]

theorem parse_ok {s : Text} {w : Whitelist} (h : parse s = .ok w) :
    (entries s).foldlM addEntry ⟨[], []⟩ = .ok w ∧ (trim s = [] ∨ w.isEmpty = false) := by
  unfold parse at h
  rcases hf : (entries s).foldlM addEntry ⟨[], []⟩ with e | w'
  · rw [hf] at h
    cases h
  · rw [hf] at h
    by_cases hc : trim s ≠ [] ∧ w'.isEmpty
    · simp [bind, Except.bind, hc] at h
    · simp only [bind, Except.bind, if_neg hc, Except.ok.injEq] at h
      subst h
      refine ⟨rfl, ?_⟩
      by_cases ht : trim s = []
      · exact .inl ht
      · exact .inr (by simpa [ht] using hc)

/-- A parsed list allows the addresses its entries cover, and every address only
when the text is blank. -/
theorem parse_denotes (s : Text) :
    (trim s ≠ [] → entries s = [] → ∃ e, parse s = .error e) ∧
      ∀ w, parse s = .ok w →
        (∀ a : Ipv6Addr, ∃ r, w.allows (.v6 a) = some r ∧
          (r = true ↔ trim s = [] ∨ ∃ e ∈ entries s, EntryCovers e a)) ∧
        ∀ network ∈ w.networks, ∀ address, (prefixMatches network.1 address network.2).isSome := by
  refine ⟨fun ht he => ?_, fun w hw => ?_⟩
  · refine ⟨"白名单至少需要一个有效的 IP 或网段", ?_⟩
    simp [parse, he, bind, Except.bind, pure, Except.pure, ht, isEmpty]
  · obtain ⟨hfold, hblank⟩ := parse_ok hw
    obtain ⟨hwf, hne, hcov⟩ := addEntries_spec (by simp [WellFormed]) hfold
    refine ⟨fun a => ?_, fun network hmem address => prefixMatches_isSome (hwf network hmem) address⟩
    obtain ⟨r, hr, hiff⟩ := allows_spec hwf a
    refine ⟨r, hr, ?_⟩
    have hempty : w.isEmpty = true ↔ trim s = [] := by
      rcases hblank with ht | hf
      · rw [entries_eq_nil_of_blank ht] at hfold
        cases hfold
        simp [isEmpty, ht]
      · constructor
        · intro h
          rw [h] at hf
          cases hf
        · intro ht
          rw [entries_eq_nil_of_blank ht] at hfold
          cases hfold
          rfl
    have hnone : ¬(⟨[], []⟩ : Whitelist).Covers a := by simp [Covers]
    rw [hiff, hempty, hcov, or_iff_right hnone]

/-- The mapped network `::ffff:192.0.2.0/120` and the peer `::ffff:192.0.2.20`. -/
theorem parse_denotes_mapped_network :
    ∃ r, (⟨[], [(.v4 ⟨#v[192, 0, 2, 0]⟩, 24)]⟩ : Whitelist).allows
        (.v6 (Ipv4Addr.toIpv6Mapped ⟨#v[192, 0, 2, 20]⟩)) = some r ∧
      (r = true ↔ trim "::ffff:192.0.2.0/120".toList = [] ∨
        ∃ e ∈ entries "::ffff:192.0.2.0/120".toList,
          EntryCovers e (Ipv4Addr.toIpv6Mapped ⟨#v[192, 0, 2, 20]⟩)) :=
  ((parse_denotes "::ffff:192.0.2.0/120".toList).2 _ (by decide)).1 _

/-! ### The two forms of an IPv4 peer -/

/-- An IPv6 network that holds all of `::ffff:0:0/96`, such as `::/0`. -/
def HoldsMapped (network : IpAddr × UInt8) : Prop :=
  network.1.isIpv4 = false ∧ ∀ x : Ipv4Addr, x.toIpv6Mapped ∈ networkSet network.1 network.2.toNat

/-- An address or an IPv4 network of the list covers `x`. -/
def CoversIpv4 (w : Whitelist) (x : Ipv4Addr) : Prop :=
  .v4 x ∈ w.addresses ∨
    ∃ network ∈ w.networks, network.1.isIpv4 = true ∧ x.toIpv6Mapped ∈ networkSet network.1 network.2.toNat

/-- Networks are stored the way `storedNetwork` leaves them. -/
def Stored (w : Whitelist) : Prop :=
  ∀ network ∈ w.networks, ∃ ip bits, bits.toNat ≤ (if ip.isIpv4 then 32 else 128) ∧
    network = storedNetwork ip bits

theorem addEntry_stored {w w' : Whitelist} {entry : Text} (hw : w.Stored)
    (h : addEntry w entry = .ok w') : w'.Stored := by
  obtain ⟨ip, -, -, rfl⟩ | ⟨address, digits, ip, bits, -, -, -, hwidth, rfl⟩ := addEntry_cases h
  · exact hw
  · intro network hmem
    rcases List.mem_append.mp hmem with hold | hnew
    · exact hw network hold
    · exact ⟨ip, bits, hwidth, List.mem_singleton.mp hnew⟩

theorem addEntries_stored {es : List Text} {w w' : Whitelist} (hw : w.Stored)
    (h : es.foldlM addEntry w = .ok w') : w'.Stored := by
  induction es generalizing w with
  | nil =>
    cases h
    exact hw
  | cons e es ih =>
    rw [List.foldlM_cons] at h
    rcases he : addEntry w e with err | w₁
    · rw [he] at h
      cases h
    · rw [he] at h
      exact ih (addEntry_stored hw he) h

/-- A stored IPv6 network holds every mapped address or none: the others became IPv4 networks. -/
theorem holdsMapped_of_mem {w : Whitelist} (hw : w.Stored) {network : IpAddr × UInt8}
    (hmem : network ∈ w.networks) (hv6 : network.1.isIpv4 = false) {x : Ipv4Addr}
    (hx : x.toIpv6Mapped ∈ networkSet network.1 network.2.toNat) : HoldsMapped network := by
  obtain ⟨ip, bits, hwidth, rfl⟩ := hw network hmem
  refine ⟨hv6, fun y => ?_⟩
  cases ip with
  | v4 z => simp [storedNetwork, IpAddr.isIpv4] at hv6
  | v6 n =>
    have hle : bits.toNat ≤ 128 := hwidth
    rw [(storedNetwork_spec (.v6 n) bits hwidth).2] at hx ⊢
    -- behind 96 bits `n` would be mapped, and stored as an IPv4 network
    have hshort : bits.toNat < 96 := by
      by_contra hlong
      have hfirst : n ∈ firstBits (96 + 0) x.toIpv6Mapped := by
        intro i hi
        exact (hx i (by omega)).symm
      obtain ⟨z, hz⟩ := mapped_of_firstBits (by omega) hfirst
      have h96 : 96 ≤ bits := UInt8.le_iff_toNat_le.mpr (Nat.not_lt.mp hlong)
      simp [storedNetwork, Ipv6Addr.toIpv4Mapped_eq_some.mpr hz, h96, IpAddr.isIpv4] at hv6
    rw [networkSet, mem_firstBits_iff hle] at hx ⊢
    intro j hj hlt
    have hxj := hx j hj hlt
    rw [testBit_toIpv6Mapped, if_neg (by omega)] at hxj ⊢
    exact hxj

/-- On the IPv4 form only the IPv4 networks of a list count. -/
theorem networkAllows_v4 {network : IpAddr × UInt8} (h : InRange network) (x : Ipv4Addr) :
    ∃ r, networkAllows (.v4 x) (Config.normalize (.v4 x)) network = some r ∧
      (r = true ↔ network.1.isIpv4 = true ∧ x.toIpv6Mapped ∈ networkSet network.1 network.2.toNat) := by
  obtain ⟨ip, bits⟩ := network
  cases ip with
  | v4 z =>
    obtain ⟨r, hr, hiff⟩ := prefixMatches_v4 (x := z) (y := x) h
    refine ⟨r, ?_, by simpa [IpAddr.isIpv4, networkSet] using hiff⟩
    rw [networkAllows, show Config.normalize (.v4 x) = .v4 x from rfl, hr]
    cases r <;> rfl
  | v6 n => exact ⟨false, by simp [networkAllows, prefixMatches, Config.normalize], by simp [IpAddr.isIpv4]⟩

theorem anyM_networkAllows_v4 {networks : List (IpAddr × UInt8)} (h : ∀ n ∈ networks, InRange n)
    (x : Ipv4Addr) :
    ∃ r, networks.anyM (networkAllows (.v4 x) (Config.normalize (.v4 x))) = some r ∧
      (r = true ↔ ∃ n ∈ networks, n.1.isIpv4 = true ∧ x.toIpv6Mapped ∈ networkSet n.1 n.2.toNat) :=
  anyM_some fun n hn => networkAllows_v4 (h n hn) x

/-- `allows` on the IPv4 form: the list is empty or an IPv4 entry covers the address. -/
theorem allows_v4_spec {w : Whitelist} (hw : w.WellFormed) (x : Ipv4Addr) :
    ∃ r, w.allows (.v4 x) = some r ∧ (r = true ↔ w.isEmpty = true ∨ w.CoversIpv4 x) := by
  by_cases he : w.isEmpty
  · exact ⟨true, if_pos he, by simp [he]⟩
  · obtain ⟨r, hr, hiff⟩ := anyM_networkAllows_v4 hw x
    have hne : ¬(w.addresses.isEmpty && w.networks.isEmpty) = true := he
    by_cases hmem : .v4 x ∈ w.addresses
    · refine ⟨true, ?_, by simp [CoversIpv4, hmem]⟩
      rw [allows, if_neg hne]
      simp [Config.normalize, hmem]
    · refine ⟨r, ?_, by simp [CoversIpv4, hmem, he, hiff]⟩
      rw [allows, if_neg hne]
      simpa [Config.normalize, hmem] using hr

/-- On the mapped form a stored list has one more way to cover: a network that holds every mapped address. -/
theorem covers_mapped_iff {w : Whitelist} (hw : w.Stored) (x : Ipv4Addr) :
    w.Covers x.toIpv6Mapped ↔ w.CoversIpv4 x ∨ ∃ network ∈ w.networks, HoldsMapped network := by
  rw [Covers, CoversIpv4, normalize_mapped]
  constructor
  · rintro (haddr | ⟨network, hmem, hx⟩)
    · exact .inl (.inl haddr)
    · cases hv : network.1.isIpv4 with
      | true => exact .inl (.inr ⟨network, hmem, hv, hx⟩)
      | false => exact .inr ⟨network, hmem, holdsMapped_of_mem hw hmem hv hx⟩
  · rintro ((haddr | ⟨network, hmem, -, hx⟩) | ⟨network, hmem, -, hall⟩)
    · exact .inl haddr
    · exact .inr ⟨network, hmem, hx⟩
    · exact .inr ⟨network, hmem, hall x⟩

/-- The mapped form of an IPv4 peer is allowed wherever the plain form is, and the two
decisions differ exactly when no IPv4 entry covers the peer and an IPv6 network of the
list holds all mapped addresses. -/
theorem allows_forms {s : Text} {w : Whitelist} (h : parse s = .ok w) (x : Ipv4Addr) :
    (w.allows (.v4 x) = some true → w.allows (.v6 x.toIpv6Mapped) = some true) ∧
      (w.allows (.v4 x) = w.allows (.v6 x.toIpv6Mapped) ↔
        (∃ network ∈ w.networks, HoldsMapped network) → w.CoversIpv4 x) := by
  obtain ⟨hfold, -⟩ := parse_ok h
  have hwf := (addEntries_spec (by simp [WellFormed]) hfold).1
  have hstored := addEntries_stored (by simp [Stored]) hfold
  obtain ⟨r, hr, hiff⟩ := allows_v4_spec hwf x
  obtain ⟨r', hr', hiff'⟩ := allows_spec hwf x.toIpv6Mapped
  rw [covers_mapped_iff hstored x] at hiff'
  have hempty : w.isEmpty = true → ¬∃ network ∈ w.networks, HoldsMapped network := by
    intro he
    have hnil : w.networks = [] := List.isEmpty_iff.mp (Bool.and_eq_true_iff.mp he).2
    simp [hnil]
  have hforms : r = r' ↔ (r = true ↔ r' = true) := Bool.eq_iff_iff
  rw [hr, hr', Option.some_inj, Option.some_inj, Option.some_inj, hforms, hiff, hiff']
  refine ⟨fun hplain => ?_, fun heq hmapped => ?_, fun hcov => ⟨fun hplain => ?_, ?_⟩⟩
  · exact hplain.imp_right .inl
  · rcases heq.mpr (.inr (.inr hmapped)) with he | hc
    · exact absurd hmapped (hempty he)
    · exact hc
  · exact hplain.imp_right .inl
  · rintro (he | hc | hmapped)
    · exact .inl he
    · exact .inr hc
    · exact .inr (hcov hmapped)

/-- The mapped network `::ffff:192.0.2.0/120` and the peer 192.0.2.20. -/
theorem allows_forms_mapped_network :
    (⟨[], [(.v4 ⟨#v[192, 0, 2, 0]⟩, 24)]⟩ : Whitelist).allows (.v4 ⟨#v[192, 0, 2, 20]⟩) =
      (⟨[], [(.v4 ⟨#v[192, 0, 2, 0]⟩, 24)]⟩ : Whitelist).allows
        (.v6 (Ipv4Addr.toIpv6Mapped ⟨#v[192, 0, 2, 20]⟩)) :=
  (allows_forms (s := "::ffff:192.0.2.0/120".toList) (by decide) ⟨#v[192, 0, 2, 20]⟩).2.mpr
    fun h => by
      obtain ⟨network, hmem, hv, -⟩ := h
      rw [List.mem_singleton.mp hmem] at hv
      cases hv

/-- Under `::/0` the peer 192.0.2.1 is refused in one form and allowed in the other. -/
theorem allows_forms_differ :
    ¬∀ (s : Text) (w : Whitelist), parse s = .ok w →
      ∀ x : Ipv4Addr, w.allows (.v4 x) = w.allows (.v6 x.toIpv6Mapped) := by
  intro h
  have hx := h "::/0".toList ⟨[], [(.v6 ⟨Vector.replicate 16 0⟩, 0)]⟩ (by decide) ⟨#v[192, 0, 2, 1]⟩
  revert hx
  decide

end Whitelist

end Brume
