import Brume.AddressChars
import Brume.Lib.Result
import Brume.Lib.Shell

/-!
# The nftables rules of the installer (`install.sh`)

`setup_firewall_nftables` and the verdict of its rules, compared with
`Whitelist::allows`. `xargs` and the reading of an address by `nft` are
parameters; `Documented` is what the script relies on.
-/

namespace Brume
open Lib

namespace Installer
open Shell

namespace Nftables

/-- An address and the number of its leading bits that count. -/
abbrev Network := IpAddr × ℕ

inductive Protocol where
  | tcp
  | udp
  | other
  deriving DecidableEq

inductive Verdict where
  | accept
  | drop
  deriving DecidableEq

structure Packet where
  source : IpAddr
  protocol : Protocol
  dport : UInt16

structure Rule where
  saddr : Option Network
  protocol : Protocol
  dport : UInt16
  verdict : Verdict

/-- The chain `input` of the table `inet brume`, when the table is there. -/
abbrev Ruleset := Option (List Rule)

/-- `xargs` is the output of `$(echo "${ip}" | xargs)`; `saddr` is the network that `nft` reads
in the operand of `saddr`, or `none` when it refuses the rule. -/
structure Tools where
  xargs : Text → Text
  saddr : Text → Option Network

/-! ### Matching -/

/-- `ip saddr` matches IPv4 packets and `ip6 saddr` IPv6 packets, by the leading bits. -/
def matchesSource : Network → IpAddr → Bool
  | (.v4 network, bits), .v4 source => network.toNat / 2 ^ (32 - bits) == source.toNat / 2 ^ (32 - bits)
  | (.v6 network, bits), .v6 source => network.toNat / 2 ^ (128 - bits) == source.toNat / 2 ^ (128 - bits)
  | _, _ => false

def Rule.applies (rule : Rule) (packet : Packet) : Bool :=
  rule.saddr.all (matchesSource · packet.source) && rule.protocol == packet.protocol &&
    rule.dport == packet.dport

/-- The first rule that applies decides, and the policy of the chain is to accept. -/
def verdict (rules : List Rule) (packet : Packet) : Verdict :=
  match rules.find? (·.applies packet) with
  | some rule => rule.verdict
  | none => .accept

def admits (ruleset : Ruleset) (packet : Packet) : Bool :=
  match ruleset with
  | some rules => verdict rules packet == .accept
  | none => true

/-! ### The commands -/

/-- `nft delete table inet brume`. -/
def removeFirewallNftables (_ : Ruleset) : Ruleset := none

/-- `nft add table inet brume` and `nft add chain inet brume input`. -/
def addChain (ruleset : Ruleset) : Ruleset := some (ruleset.getD [])

/-- `nft add rule inet brume input`. -/
def addRule (ruleset : Ruleset) (rule : Rule) : Ruleset := ruleset.map (· ++ [rule])

/-- The body of the loop over the entries; `nft` refuses an address of the other family. -/
def allowIp (t : Tools) (port : UInt16) (ruleset : Ruleset) (ip : Text) : Ruleset :=
  if ip = [] then ruleset
  else
    let ip6 := decide (':' ∈ ip)
    match (t.saddr ip).filter fun network => network.1.isIpv4 == !ip6 with
    | some network =>
      let ruleset := addRule ruleset ⟨some network, .tcp, port, .accept⟩
      addRule ruleset ⟨some network, .udp, port, .accept⟩
    | none => ruleset

def setupFirewallNftables (t : Tools) (port : UInt16) (whitelist : Text) (ruleset : Ruleset) : Ruleset :=
  let ruleset := removeFirewallNftables ruleset
  let ruleset := addChain ruleset
  let ruleset := ((readArray ',' whitelist).map t.xargs).foldl (allowIp t port) ruleset
  let ruleset := addRule ruleset ⟨none, .tcp, port, .drop⟩
  addRule ruleset ⟨none, .udp, port, .drop⟩

/-! ### The verdict of the rules -/

/-- The network of the rules that the loop adds for `ip`. -/
def networkOf (t : Tools) (ip : Text) : Option Network :=
  if ip = [] then none else (t.saddr ip).filter fun network => network.1.isIpv4 == !decide (':' ∈ ip)

def allowRules (port : UInt16) (network : Network) : List Rule :=
  [⟨some network, .tcp, port, .accept⟩, ⟨some network, .udp, port, .accept⟩]

def dropRules (port : UInt16) : List Rule := [⟨none, .tcp, port, .drop⟩, ⟨none, .udp, port, .drop⟩]

theorem allowIp_some (t : Tools) (port : UInt16) (rules : List Rule) (ip : Text) :
    allowIp t port (some rules) ip =
      some (rules ++ (networkOf t ip).toList.flatMap (allowRules port)) := by
  unfold allowIp networkOf
  by_cases hip : ip = []
  · simp [hip]
  · simp only [if_neg hip]
    split <;> rename_i hnetwork <;> simp [hnetwork, addRule, allowRules]

theorem foldl_allowIp (t : Tools) (port : UInt16) (ips : List Text) (rules : List Rule) :
    ips.foldl (allowIp t port) (some rules) =
      some (rules ++ (ips.filterMap (networkOf t)).flatMap (allowRules port)) := by
  induction ips generalizing rules with
  | nil => simp
  | cons ip ips ih =>
    rw [List.foldl_cons, allowIp_some, ih, List.append_assoc, List.filterMap_cons]
    cases networkOf t ip <;> simp

/-- The rules that `setup_firewall_nftables` leaves, whatever was there before. -/
theorem setup_rules (t : Tools) (port : UInt16) (whitelist : Text) (ruleset : Ruleset) :
    setupFirewallNftables t port whitelist ruleset =
      some ((((readArray ',' whitelist).map t.xargs).filterMap (networkOf t)).flatMap (allowRules port) ++
        dropRules port) := by
  have hloop := foldl_allowIp t port ((readArray ',' whitelist).map t.xargs) []
  simp only [setupFirewallNftables, removeFirewallNftables, addChain, Option.getD_none, hloop]
  simp [addRule, dropRules]

/-- A TCP or UDP packet to the port. -/
def Packet.IsFor (packet : Packet) (port : UInt16) : Prop :=
  (packet.protocol = .tcp ∨ packet.protocol = .udp) ∧ packet.dport = port

theorem allowRules_apply {port : UInt16} {network : Network} {packet : Packet} :
    (∃ rule ∈ allowRules port network, rule.applies packet = true) ↔
      packet.IsFor port ∧ matchesSource network packet.source = true := by
  obtain ⟨source, protocol, dport⟩ := packet
  by_cases hport : port = dport
  · cases protocol <;> simp [allowRules, Rule.applies, Packet.IsFor, hport]
  · cases protocol <;> simp [allowRules, Rule.applies, Packet.IsFor, hport, Ne.symm hport]

theorem dropRules_apply {port : UInt16} {packet : Packet} :
    (∃ rule ∈ dropRules port, rule.applies packet = true) ↔ packet.IsFor port := by
  obtain ⟨source, protocol, dport⟩ := packet
  by_cases hport : port = dport
  · cases protocol <;> simp [dropRules, Rule.applies, Packet.IsFor, hport]
  · cases protocol <;> simp [dropRules, Rule.applies, Packet.IsFor, hport, Ne.symm hport]

/-- When one of `rules` applies, the others are not reached. -/
theorem verdict_append_pos {rules : List Rule} {packet : Packet} {v : Verdict}
    (hv : ∀ rule ∈ rules, rule.verdict = v) (h : ∃ rule ∈ rules, rule.applies packet = true)
    (rules' : List Rule) : verdict (rules ++ rules') packet = v := by
  obtain ⟨rule, hrule⟩ := Option.isSome_iff_exists.mp (List.find?_isSome.mpr h)
  rw [verdict, List.find?_append, hrule]
  exact hv rule (List.mem_of_find?_eq_some hrule)

theorem verdict_append_neg {rules : List Rule} {packet : Packet}
    (h : ¬∃ rule ∈ rules, rule.applies packet = true) (rules' : List Rule) :
    verdict (rules ++ rules') packet = verdict rules' packet := by
  have hnone : rules.find? (·.applies packet) = none := by
    rw [List.find?_eq_none]
    intro rule hmem happlies
    exact h ⟨rule, hmem, happlies⟩
  rw [verdict, verdict, List.find?_append, hnone, Option.none_or]

theorem verdict_allowRules (port : UInt16) (networks : List Network) :
    ∀ rule ∈ networks.flatMap (allowRules port), rule.verdict = .accept := by
  intro rule hrule
  obtain ⟨network, -, hmem⟩ := List.mem_flatMap.mp hrule
  simp only [allowRules, List.mem_cons, List.not_mem_nil, or_false] at hmem
  rcases hmem with rfl | rfl <;> rfl

theorem verdict_dropRules (port : UInt16) : ∀ rule ∈ dropRules port, rule.verdict = .drop := by
  intro rule hmem
  simp only [dropRules, List.mem_cons, List.not_mem_nil, or_false] at hmem
  rcases hmem with rfl | rfl <;> rfl

/-- A packet to the port needs a network that matches its source; every other packet passes. -/
theorem verdict_setup (port : UInt16) (networks : List Network) (packet : Packet) :
    verdict (networks.flatMap (allowRules port) ++ dropRules port) packet = .accept ↔
      (packet.IsFor port → ∃ network ∈ networks, matchesSource network packet.source = true) := by
  have happly : (∃ rule ∈ networks.flatMap (allowRules port), rule.applies packet = true) ↔
      packet.IsFor port ∧ ∃ network ∈ networks, matchesSource network packet.source = true := by
    constructor
    · rintro ⟨rule, hrule, hpacket⟩
      obtain ⟨network, hnetwork, hmem⟩ := List.mem_flatMap.mp hrule
      obtain ⟨hfor, hmatch⟩ := allowRules_apply.mp ⟨rule, hmem, hpacket⟩
      exact ⟨hfor, network, hnetwork, hmatch⟩
    · rintro ⟨hfor, network, hnetwork, hmatch⟩
      obtain ⟨rule, hmem, hpacket⟩ := allowRules_apply.mpr ⟨hfor, hmatch⟩
      exact ⟨rule, List.mem_flatMap.mpr ⟨network, hnetwork, hmem⟩, hpacket⟩
  by_cases hallow : ∃ rule ∈ networks.flatMap (allowRules port), rule.applies packet = true
  · have haccept := verdict_append_pos (verdict_allowRules port networks) hallow (dropRules port)
    exact iff_of_true haccept fun _ => (happly.mp hallow).2
  · rw [verdict_append_neg hallow]
    by_cases hfor : packet.IsFor port
    · have hdrop := verdict_append_pos (verdict_dropRules port) (dropRules_apply.mpr hfor) []
      rw [List.append_nil] at hdrop
      rw [hdrop]
      refine iff_of_false (by decide) fun h => ?_
      exact hallow (happly.mpr ⟨hfor, h hfor⟩)
    · have hnone := verdict_append_neg (fun h => hfor (dropRules_apply.mp h)) []
      rw [List.append_nil] at hnone
      rw [hnone]
      exact iff_of_true rfl fun h => absurd h hfor

/-! ### What a network matches -/

/-- The form in which the dual-stack listener reports a source. -/
def dualStack : IpAddr → Ipv6Addr
  | .v4 ip => ip.toIpv6Mapped
  | .v6 ip => ip

/-- A rule matches the sources of its own family that the network covers. -/
theorem matchesSource_iff {network : IpAddr} {bits : ℕ} (hbits : bits ≤ if network.isIpv4 then 32 else 128)
    (source : IpAddr) :
    matchesSource (network, bits) source = true ↔
      network.isIpv4 = source.isIpv4 ∧ dualStack source ∈ networkSet network bits := by
  cases network with
  | v4 x =>
    have hbits' : bits ≤ 32 := hbits
    cases source with
    | v6 a => simp [matchesSource, IpAddr.isIpv4]
    | v4 y =>
      simp only [matchesSource, beq_iff_eq, IpAddr.isIpv4, true_and, dualStack, networkSet]
      rw [div_two_pow_eq_iff, mem_firstBits_iff (by omega)]
      constructor
      · intro h j hj hlt
        rw [testBit_toIpv6Mapped, testBit_toIpv6Mapped]
        by_cases h32 : j < 32
        · rw [if_pos h32, if_pos h32, h j (by omega)]
        · rw [if_neg h32, if_neg h32]
      · intro h j hj
        by_cases h32 : j < 32
        · have hj' := h j (by omega) (by omega)
          rw [testBit_toIpv6Mapped, testBit_toIpv6Mapped, if_pos h32, if_pos h32] at hj'
          exact hj'.symm
        · have hpow : 2 ^ 32 ≤ 2 ^ j := Nat.pow_le_pow_right (by decide) (by omega)
          rw [Nat.testBit_lt_two_pow (x.toNat_lt.trans_le hpow),
            Nat.testBit_lt_two_pow (y.toNat_lt.trans_le hpow)]
  | v6 n =>
    have hbits' : bits ≤ 128 := hbits
    cases source with
    | v4 y => simp [matchesSource, IpAddr.isIpv4]
    | v6 a =>
      simp only [matchesSource, beq_iff_eq, IpAddr.isIpv4, true_and, dualStack, networkSet]
      rw [div_two_pow_eq_iff, mem_firstBits_iff hbits']
      constructor
      · intro h j hj hlt
        exact (h j hj).symm
      · intro h j hj
        by_cases h128 : j < 128
        · exact (h j hj h128).symm
        · have hpow : 2 ^ 128 ≤ 2 ^ j := Nat.pow_le_pow_right (by decide) (by omega)
          rw [Nat.testBit_lt_two_pow (n.toNat_lt.trans_le hpow),
            Nat.testBit_lt_two_pow (a.toNat_lt.trans_le hpow)]

/-! ### The entries of the text -/

/-- The network that an entry of the whitelist writes. -/
def entryNetwork (entry : Text) : Option Network :=
  match splitOnce '/' entry with
  | none => (parseIpAddr entry).map fun ip => (ip, if ip.isIpv4 then 32 else 128)
  | some (address, bits) => do
    let ip ← parseIpAddr address
    let n ← parseUnsigned 256 bits
    some (ip, n)

def isEntryChar (c : Char) : Bool := AddressText.isAddressChar c || c == '/' || c == '+'

/-- An entry that `Whitelist::parse` accepts, as a network. -/
structure Accepted (entry : Text) (network : Network) : Prop where
  written : entryNetwork entry = some network
  bits_le : network.2 ≤ if network.1.isIpv4 then 32 else 128
  chars : ∀ c ∈ entry, isEntryChar c = true
  colon : ':' ∈ entry ↔ network.1.isIpv4 = false
  covers : ∀ a, EntryCovers entry a ↔ a ∈ networkSet network.1 network.2

theorem accepted_of_addEntry {w w' : Whitelist} {entry : Text}
    (h : Whitelist.addEntry w entry = .ok w') : ∃ network, Accepted entry network := by
  obtain ⟨ip, hs, hp, -⟩ | ⟨address, digits, ip, bits, hs, hp, hn, hwidth, -⟩ := Whitelist.addEntry_cases h
  · obtain ⟨hchars, hcolon⟩ := parseIpAddr_chars hp
    refine ⟨(ip, if ip.isIpv4 then 32 else 128), ?_, le_rfl, ?_, hcolon, ?_⟩
    · simp [entryNetwork, hs, hp]
    · intro c hc
      simp [isEntryChar, hchars c hc]
    · intro a
      simp only [EntryCovers, hs, hp]
      cases ip with
      | v4 x => rfl
      | v6 n => exact firstBits_full.symm
  · obtain ⟨hchars, hcolon⟩ := parseIpAddr_chars hp
    have hdigits := parseUnsigned_chars hn
    obtain ⟨rfl, -⟩ := splitOnce_eq_some hs
    refine ⟨(ip, bits.toNat), ?_, hwidth, ?_, ?_, ?_⟩
    · simp [entryNetwork, hs, hp, hn]
    · intro c hc
      rcases List.mem_append.mp hc with haddress | hrest
      · simp [isEntryChar, hchars c haddress]
      · rcases List.mem_cons.mp hrest with rfl | hdigit
        · rfl
        · rcases hdigits c hdigit with rfl | hdecimal
          · rfl
          · simp [isEntryChar, AddressText.isAddressChar, AddressText.isHex_of_isDecimal hdecimal]
    · have hnot : ':' ∉ digits := by
        intro hmem
        have hbad := hdigits ':' hmem
        revert hbad
        decide
      simp [hcolon, hnot]
    · intro a
      simp only [EntryCovers, hs, hp, hn]

/-- The entries of an accepted text are networks, one by one. -/
theorem accepted_of_parse {whitelist : Text} {w : Whitelist} (h : Whitelist.parse whitelist = .ok w) :
    ∀ entry ∈ Whitelist.entries whitelist, ∃ network, Accepted entry network := by
  obtain ⟨hfold, -⟩ := Whitelist.parse_ok h
  have hall : ∀ (es : List Text) (w₀ w₁ : Whitelist), es.foldlM Whitelist.addEntry w₀ = .ok w₁ →
      ∀ entry ∈ es, ∃ network, Accepted entry network := by
    intro es
    induction es with
    | nil => simp
    | cons e es ih =>
      intro w₀ w₁ hes entry hmem
      rw [List.foldlM_cons] at hes
      obtain ⟨w₂, he, hrest⟩ := Result.bind_ok.mp hes
      rcases List.mem_cons.mp hmem with rfl | hmem
      · exact accepted_of_addEntry he
      · exact ih w₂ w₁ hrest entry hmem
  exact hall _ _ _ hfold

theorem not_isWhitespace_of_isEntryChar {c : Char} (h : isEntryChar c = true) : isWhitespace c = false := by
  simp only [isEntryChar, AddressText.isAddressChar, Bool.or_eq_true, beq_iff_eq] at h
  rcases h with (((h | rfl) | rfl) | rfl) | rfl
  · obtain ⟨hlow, hhigh⟩ := AddressText.range_of_isHex h
    simp only [isWhitespace, Bool.or_eq_false_iff, Bool.and_eq_false_iff, decide_eq_false_iff_not,
      beq_eq_false_iff_ne]
    omega
  · rfl
  · rfl
  · rfl
  · rfl

/-- A field of the shell's loop is blank or an entry of the text: the cut at a line feed falls
into the white space around an entry. -/
theorem trim_field {whitelist : Text} (haccepted : ∀ entry ∈ Whitelist.entries whitelist,
      ∃ network, Accepted entry network) {field : Text} (h : field ∈ readArray ',' whitelist) :
    trim field = [] ∨ trim field ∈ Whitelist.entries whitelist := by
  obtain ⟨whole, hwhole, rfl⟩ := List.mem_map.mp ((readArray_fields (by decide) whitelist).subset h)
  obtain ⟨a, b, hsplit, ha, hb⟩ := exists_trim whole
  by_cases hblank : trim whole = []
  · left
    rw [trim_eq_nil_iff] at hblank ⊢
    exact fun c hc => hblank c (List.takeWhile_subset _ hc)
  · have hentry : trim whole ∈ Whitelist.entries whitelist := by
      simp only [Whitelist.entries, List.mem_filter, List.mem_map, decide_eq_true_eq]
      exact ⟨⟨whole, hwhole, rfl⟩, hblank⟩
    obtain ⟨network, haccept⟩ := haccepted _ hentry
    have hword : ∀ c ∈ trim whole, isWhitespace c = false := fun c hc =>
      not_isWhitespace_of_isEntryChar (haccept.chars c hc)
    have hline : (trim whole).takeWhile (· ≠ '\n') = trim whole := by
      rw [List.takeWhile_eq_self_iff]
      intro c hc
      rw [decide_eq_true_eq]
      rintro rfl
      have hspace := hword _ hc
      revert hspace
      decide
    have hfield : whole.takeWhile (· ≠ '\n') = (a ++ (trim whole ++ b)).takeWhile (· ≠ '\n') := by
      rw [← hsplit]
    rw [hfield, List.takeWhile_append]
    split
    · right
      rw [List.takeWhile_append, hline, if_pos rfl]
      rw [trim_append ha (fun c hc => hb c (List.takeWhile_subset _ hc)) hword hblank]
      exact hentry
    · left
      rw [trim_eq_nil_iff]
      exact fun c hc => ha c (List.takeWhile_subset _ hc)

/-! ### The two whitelists -/

/-- What the script relies on: `xargs` cuts the white space around a word, or leaves something
that `nft` refuses, and `nft` reads an entry of the text as the network that it writes. -/
structure Tools.Documented (t : Tools) (whitelist : Text) : Prop where
  xargs_word : ∀ a word b, (∀ c ∈ a, isWhitespace c = true) → (∀ c ∈ b, isWhitespace c = true) →
    (∀ c ∈ word, isEntryChar c = true) →
    t.xargs (a ++ (word ++ b)) = word ∨ t.saddr (t.xargs (a ++ (word ++ b))) = none
  saddr_entry : ∀ entry ∈ Whitelist.entries whitelist, t.saddr entry = entryNetwork entry

/-- An entry on the first line that `xargs` leaves intact, written in the family of the source,
covers the source. -/
def PassedOn (t : Tools) (whitelist : Text) (source : IpAddr) : Prop :=
  ∃ field ∈ readArray ',' whitelist, t.xargs field = trim field ∧
    (':' ∈ trim field ↔ source.isIpv4 = false) ∧ EntryCovers (trim field) (dualStack source)

/-- Some entry covers the source. -/
def Covered (whitelist : Text) (source : IpAddr) : Prop :=
  ∃ entry ∈ Whitelist.entries whitelist, EntryCovers entry (dualStack source)

theorem not_entryCovers_nil (a : Ipv6Addr) : ¬EntryCovers [] a := by
  have hnone : parseIpAddr [] = none := rfl
  simp [EntryCovers, splitOnce, hnone]

section
variable {t : Tools} {whitelist : Text} (ht : t.Documented whitelist)
  (haccepted : ∀ entry ∈ Whitelist.entries whitelist, ∃ network, Accepted entry network)
include ht haccepted

/-- A field that `xargs` leaves as its entry becomes the network of this entry. -/
theorem networkOf_entry {field : Text} (hfield : field ∈ readArray ',' whitelist)
    (hxargs : t.xargs field = trim field) (hne : trim field ≠ []) :
    ∃ network, networkOf t (t.xargs field) = some network ∧ Accepted (trim field) network := by
  have hmem := (trim_field haccepted hfield).resolve_left hne
  obtain ⟨network, haccept⟩ := haccepted _ hmem
  refine ⟨network, ?_, haccept⟩
  rw [networkOf, hxargs, if_neg hne, ht.saddr_entry _ hmem, haccept.written]
  have hcolon := haccept.colon
  cases hv : network.1.isIpv4 <;> simp [hv] at hcolon ⊢ <;> simp [hcolon]

/-- Only such fields become a network. -/
theorem xargs_of_networkOf {field : Text} (hfield : field ∈ readArray ',' whitelist) {network : Network}
    (h : networkOf t (t.xargs field) = some network) : t.xargs field = trim field ∧ trim field ≠ [] := by
  obtain ⟨a, b, hsplit, ha, hb⟩ := exists_trim field
  have hchars : ∀ c ∈ trim field, isEntryChar c = true := by
    rcases trim_field haccepted hfield with hblank | hentry
    · simp [hblank]
    · exact (haccepted _ hentry).choose_spec.chars
  have hword := ht.xargs_word a (trim field) b ha hb hchars
  rw [← hsplit] at hword
  have hxargs : t.xargs field = trim field := by
    refine hword.resolve_right fun hnone => ?_
    simp [networkOf, hnone] at h
  refine ⟨hxargs, fun hnil => ?_⟩
  rw [hxargs, hnil] at h
  cases h

theorem exists_network_iff (source : IpAddr) :
    (∃ network ∈ ((readArray ',' whitelist).map t.xargs).filterMap (networkOf t),
      matchesSource network source = true) ↔ PassedOn t whitelist source := by
  constructor
  · rintro ⟨network, hnetwork, hmatch⟩
    obtain ⟨text, htext, hsome⟩ := List.mem_filterMap.mp hnetwork
    obtain ⟨field, hfield, rfl⟩ := List.mem_map.mp htext
    obtain ⟨hxargs, hne⟩ := xargs_of_networkOf ht haccepted hfield hsome
    obtain ⟨network', hsome', haccept⟩ := networkOf_entry ht haccepted hfield hxargs hne
    rw [hsome] at hsome'
    cases hsome'
    obtain ⟨hfamily, hcovers⟩ := (matchesSource_iff haccept.bits_le source).mp hmatch
    refine ⟨field, hfield, hxargs, ?_, (haccept.covers _).mpr hcovers⟩
    rw [haccept.colon, hfamily]
  · rintro ⟨field, hfield, hxargs, hcolon, hcovers⟩
    have hne : trim field ≠ [] := by
      intro hnil
      rw [hnil] at hcovers
      exact not_entryCovers_nil _ hcovers
    obtain ⟨network, hsome, haccept⟩ := networkOf_entry ht haccepted hfield hxargs hne
    have hfamily : network.1.isIpv4 = source.isIpv4 := by
      have hiff := haccept.colon.symm.trans hcolon
      cases hn : network.1.isIpv4 <;> cases hs : source.isIpv4 <;> simp [hn, hs] at hiff ⊢
    refine ⟨network, List.mem_filterMap.mpr ⟨t.xargs field, List.mem_map.mpr ⟨field, hfield, rfl⟩, hsome⟩, ?_⟩
    exact (matchesSource_iff haccept.bits_le source).mpr ⟨hfamily, (haccept.covers _).mp hcovers⟩

end

theorem covered_of_passedOn {t : Tools} {whitelist : Text} (haccepted : ∀ entry ∈ Whitelist.entries whitelist,
      ∃ network, Accepted entry network) {source : IpAddr} (h : PassedOn t whitelist source) :
    Covered whitelist source := by
  obtain ⟨field, hfield, -, -, hcovers⟩ := h
  refine ⟨trim field, (trim_field haccepted hfield).resolve_left fun hnil => ?_, hcovers⟩
  rw [hnil] at hcovers
  exact not_entryCovers_nil _ hcovers

def isBlank (c : Char) : Bool := c == ' ' || c == '\t'

/-- In a text whose white space is blanks, every entry reaches `nft`. -/
theorem passedOn_iff_of_blank {t : Tools} {whitelist : Text}
    (hxargs : ∀ a word b, (∀ c ∈ a, isBlank c = true) → (∀ c ∈ b, isBlank c = true) →
      (∀ c ∈ word, isEntryChar c = true) → t.xargs (a ++ (word ++ b)) = word)
    (hblank : ∀ c ∈ whitelist, isWhitespace c = true → isBlank c = true)
    (haccepted : ∀ entry ∈ Whitelist.entries whitelist, ∃ network, Accepted entry network)
    (source : IpAddr) :
    PassedOn t whitelist source ↔ ∃ entry ∈ Whitelist.entries whitelist,
      (':' ∈ entry ↔ source.isIpv4 = false) ∧ EntryCovers entry (dualStack source) := by
  have hline : readArray ',' whitelist = split ',' whitelist := by
    rw [readArray, List.takeWhile_eq_self_iff.mpr]
    intro c hc
    rw [decide_eq_true_eq]
    rintro rfl
    have hbad := hblank _ hc (by decide)
    revert hbad
    decide
  constructor
  · rintro ⟨field, hfield, -, hcolon, hcovers⟩
    refine ⟨trim field, (trim_field haccepted hfield).resolve_left fun hnil => ?_, hcolon, hcovers⟩
    rw [hnil] at hcovers
    exact not_entryCovers_nil _ hcovers
  · rintro ⟨entry, hentry, hcolon, hcovers⟩
    obtain ⟨network, haccept⟩ := haccepted entry hentry
    simp only [Whitelist.entries, List.mem_filter, List.mem_map] at hentry
    obtain ⟨⟨field, hfield, rfl⟩, -⟩ := hentry
    obtain ⟨a, b, hsplit, ha, hb⟩ := exists_trim field
    have hmem : ∀ c ∈ a ++ (trim field ++ b), c ∈ whitelist := by
      intro c hc
      rw [← hsplit] at hc
      exact mem_of_mem_split hfield hc
    have hword := hxargs a (trim field) b (fun c hc => hblank c (hmem c (by simp [hc])) (ha c hc))
      (fun c hc => hblank c (hmem c (by simp [hc])) (hb c hc)) haccept.chars
    rw [← hsplit] at hword
    exact ⟨field, hline ▸ hfield, hword, hcolon, hcovers⟩

theorem allows_iff_covered {whitelist : Text} {w : Whitelist} (hparse : Whitelist.parse whitelist = .ok w)
    (hne : w.isEmpty = false) (source : IpAddr) :
    w.allows (.v6 (dualStack source)) = some true ↔ Covered whitelist source := by
  obtain ⟨r, hr, hiff⟩ := ((Whitelist.parse_denotes whitelist).2 w hparse).1 (dualStack source)
  have htext : trim whitelist ≠ [] := by
    intro hblank
    have hfold := (Whitelist.parse_ok hparse).1
    rw [Whitelist.entries_eq_nil_of_blank hblank] at hfold
    cases hfold
    cases hne
  rw [hr, Option.some_inj, hiff, or_iff_right htext]
  rfl

/-- For one source, the rules and the server decide alike on every packet to the port, and the
rules admit every other packet. -/
def Agrees (ruleset : Ruleset) (w : Whitelist) (port : UInt16) (source : IpAddr) : Prop :=
  ∀ packet : Packet, packet.source = source →
    (packet.IsFor port → (admits ruleset packet = true ↔ w.allows (.v6 (dualStack source)) = some true)) ∧
      (¬packet.IsFor port → admits ruleset packet = true)

theorem admits_setup {t : Tools} {whitelist : Text} (ht : t.Documented whitelist)
    (haccepted : ∀ entry ∈ Whitelist.entries whitelist, ∃ network, Accepted entry network)
    (ruleset : Ruleset) (port : UInt16) (packet : Packet) :
    admits (setupFirewallNftables t port whitelist ruleset) packet = true ↔
      (packet.IsFor port → PassedOn t whitelist packet.source) := by
  rw [setup_rules, admits, beq_iff_eq, verdict_setup, exists_network_iff ht haccepted]

/-- The two whitelists agree on a source exactly when a covered source is covered by an entry of
its own family that reaches `nft`. -/
theorem agrees_iff {t : Tools} {whitelist : Text} (ht : t.Documented whitelist) {w : Whitelist}
    (hparse : Whitelist.parse whitelist = .ok w) (hne : w.isEmpty = false) (ruleset : Ruleset)
    (port : UInt16) (source : IpAddr) :
    Agrees (setupFirewallNftables t port whitelist ruleset) w port source ↔
      (Covered whitelist source → PassedOn t whitelist source) := by
  have haccepted := accepted_of_parse hparse
  have hallows := allows_iff_covered hparse hne source
  constructor
  · intro hagrees hcovered
    have hpacket : Packet.IsFor ⟨source, .tcp, port⟩ port := ⟨.inl rfl, rfl⟩
    have hadmits := ((hagrees ⟨source, .tcp, port⟩ rfl).1 hpacket).mpr (hallows.mpr hcovered)
    exact (admits_setup ht haccepted ruleset port _).mp hadmits hpacket
  · intro hpassed packet hsource
    subst hsource
    have hadmits := admits_setup ht haccepted ruleset port packet
    constructor
    · intro hpacket
      rw [hadmits, hallows]
      constructor
      · intro h
        exact covered_of_passedOn haccepted (h hpacket)
      · intro hcovered _
        exact hpassed hcovered
    · intro hpacket
      exact hadmits.mpr fun h => absurd h hpacket

/-- Tools that trim a field and read the entry as it is written. -/
def plainTools : Tools := ⟨trim, entryNetwork⟩

theorem plainTools_documented (whitelist : Text) : plainTools.Documented whitelist where
  xargs_word := by
    intro a word b ha hb hword
    left
    by_cases hne : word = []
    · subst hne
      refine trim_eq_nil_iff.mpr fun c hc => ?_
      rcases List.mem_append.mp hc with h | h
      · exact ha c h
      · exact hb c h
    · exact trim_append ha hb (fun c hc => not_isWhitespace_of_isEntryChar (hword c hc)) hne
  saddr_entry := fun _ _ => rfl

/-- A network of either family and the peer 192.0.2.20. -/
theorem agrees_iff_two_networks :
    Agrees (setupFirewallNftables plainTools 1080 "192.0.2.0/24, 2001:db8::/32".toList none)
        ⟨[], [(.v4 ⟨#v[192, 0, 2, 0]⟩, 24),
          (.v6 ⟨#v[0x20, 1, 0xd, 0xb8, 0, 0, 0, 0, 0, 0, 0, 0, 0, 0, 0, 0]⟩, 32)]⟩ 1080
        (.v4 ⟨#v[192, 0, 2, 20]⟩) ↔
      (Covered "192.0.2.0/24, 2001:db8::/32".toList (.v4 ⟨#v[192, 0, 2, 20]⟩) →
        PassedOn plainTools "192.0.2.0/24, 2001:db8::/32".toList (.v4 ⟨#v[192, 0, 2, 20]⟩)) :=
  agrees_iff (plainTools_documented _) (by decide) rfl none 1080 _

/-- The server allows 192.0.2.20 under `::ffff:192.0.2.0/120`, and the rules drop its packets. -/
theorem mapped_network_disagrees :
    ¬∀ (t : Tools) (whitelist : Text) (w : Whitelist) (port : UInt16) (source : IpAddr),
      t.Documented whitelist → Whitelist.parse whitelist = .ok w → w.isEmpty = false →
        Agrees (setupFirewallNftables t port whitelist none) w port source := by
  intro h
  have hagrees := h plainTools "::ffff:192.0.2.0/120".toList ⟨[], [(.v4 ⟨#v[192, 0, 2, 0]⟩, 24)]⟩ 1080
    (.v4 ⟨#v[192, 0, 2, 20]⟩) (plainTools_documented _) (by decide) rfl
  have hiff := (hagrees ⟨_, .tcp, 1080⟩ rfl).1 ⟨.inl rfl, rfl⟩
  revert hiff
  decide

end Nftables

end Installer

end Brume
