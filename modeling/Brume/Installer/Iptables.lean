import Brume.Lib.FilterTable
import Brume.Lib.Shell

/-!
# The iptables rules of the installer (`install.sh`)

`setup_firewall_iptables`, `remove_firewall_iptables` and the operations that
call them, over the tables of both families. All commands are there, no port is
an SSH port, and what the operations do besides the configuration file and the
rules is left out. The ledger says for a sequence of operations which port the
rules were added for.
-/

namespace Brume
open Lib

namespace Installer
open Shell

namespace Iptables

inductive Family where
  | ipv4
  | ipv6
  deriving DecidableEq

inductive Protocol where
  | tcp
  | udp
  deriving DecidableEq

inductive Target where
  | accept
  | drop
  deriving DecidableEq

/-- `-p protocol --dport port -j BRUME_WHITELIST` in `INPUT`. -/
structure Jump where
  protocol : Protocol
  dport : UInt16
  deriving DecidableEq

/-- A rule of `BRUME_WHITELIST`. -/
structure Rule (Source : Type) where
  source : Option Source
  protocol : Protocol
  dport : UInt16
  target : Target
  deriving DecidableEq

/-- `INPUT` has jumps and other rules, which are numbers here. -/
abbrev Table (Source : Type) := FilterTable Jump ℕ (Rule Source)

abbrev Tables (Source : Type) := Family → Table Source

/-- `xargs` is the output of `$(echo "${ip}" | xargs)`; `resolve` gives the sources for which `-s`
adds a rule, none when the command fails. -/
structure Tools (Source : Type) where
  xargs : Text → Text
  resolve : Family → Text → List Source

variable {Source : Type}

/-- `iptables` or `ip6tables`. -/
def run (family : Family) (command : Table Source → Table Source) (s : Tables Source) : Tables Source :=
  fun f => if f = family then command (s f) else s f

/-! ### Rules -/

def removeFirewallIptables (port : UInt16) (s : Tables Source) : Tables Source :=
  let s := run .ipv4 (.deleteJump ⟨.tcp, port⟩) s
  let s := run .ipv4 (.deleteJump ⟨.udp, port⟩) s
  let s := run .ipv6 (.deleteJump ⟨.tcp, port⟩) s
  let s := run .ipv6 (.deleteJump ⟨.udp, port⟩) s
  let s := run .ipv4 .flush s
  let s := run .ipv4 .deleteChain s
  let s := run .ipv6 .flush s
  run .ipv6 .deleteChain s

/-- `-A BRUME_WHITELIST -s "${ip}"`. -/
def accept (t : Tools Source) (family : Family) (ip : Text) (protocol : Protocol) (port : UInt16) :
    List (Rule Source) :=
  (t.resolve family ip).map fun source => ⟨some source, protocol, port, .accept⟩

/-- The body of the loop over the entries. -/
def allowIp (t : Tools Source) (port : UInt16) (s : Tables Source) (ip : Text) : Tables Source :=
  if ip = [] then s
  else if ':' ∈ ip then
    let s := run .ipv6 (.append (accept t .ipv6 ip .tcp port)) s
    run .ipv6 (.append (accept t .ipv6 ip .udp port)) s
  else
    let s := run .ipv4 (.append (accept t .ipv4 ip .tcp port)) s
    run .ipv4 (.append (accept t .ipv4 ip .udp port)) s

def setupFirewallIptables (t : Tools Source) (port : UInt16) (whitelist : Text) (s : Tables Source) :
    Tables Source :=
  let s := removeFirewallIptables port s
  let s := run .ipv4 .newChain s
  let s := run .ipv6 .newChain s
  let s := run .ipv4 (.insertJump ⟨.tcp, port⟩) s
  let s := run .ipv4 (.insertJump ⟨.udp, port⟩) s
  let s := run .ipv6 (.insertJump ⟨.tcp, port⟩) s
  let s := run .ipv6 (.insertJump ⟨.udp, port⟩) s
  let s := ((readArray ',' whitelist).map t.xargs).foldl (allowIp t port) s
  let s := run .ipv4 (.append [⟨none, .tcp, port, .drop⟩]) s
  let s := run .ipv4 (.append [⟨none, .udp, port, .drop⟩]) s
  let s := run .ipv6 (.append [⟨none, .tcp, port, .drop⟩]) s
  run .ipv6 (.append [⟨none, .udp, port, .drop⟩]) s

def setupFirewall (t : Tools Source) (port : UInt16) (whitelist : Text) (s : Tables Source) : Tables Source :=
  if whitelist = [] then s else setupFirewallIptables t port whitelist s

/-! ### Operations -/

/-- The port and the whitelist of the configuration file, when Brume is installed, and the rules. -/
structure System (Source : Type) where
  config : Option (UInt16 × Text)
  tables : Tables Source

inductive Op where
  | install (port : UInt16) (whitelist : Text)
  | modify (port : UInt16) (whitelist : Text)
  | uninstall

/-- `write_config_file` refuses a value with a line break. -/
def HasBreak (value : Text) : Prop := '\n' ∈ value ∨ '\r' ∈ value

instance (value : Text) : Decidable (HasBreak value) := inferInstanceAs (Decidable (_ ∨ _))

/-- The operations; `none` when the script gives up before it changes anything. -/
def perform (t : Tools Source) (s : System Source) : Op → Option (System Source)
  | .install port whitelist =>
    if HasBreak whitelist then none
    else some ⟨some (port, whitelist), setupFirewall t port whitelist s.tables⟩
  | .modify port whitelist =>
    match s.config with
    | none => none
    | some (oldPort, oldWhitelist) =>
      if HasBreak whitelist then none
      else
        let tables :=
          if echo oldWhitelist ≠ [] then removeFirewallIptables oldPort s.tables else s.tables
        some ⟨some (port, whitelist), setupFirewall t port whitelist tables⟩
  | .uninstall =>
    match s.config with
    | none => none
    | some (currentPort, _) => some ⟨none, removeFirewallIptables currentPort s.tables⟩

def step (t : Tools Source) (s : System Source) (op : Op) : System Source := (perform t s op).getD s

/-! ### What the operations should leave -/

def familyOf (ip : Text) : Family := if ':' ∈ ip then .ipv6 else .ipv4

/-- The accept rules of one entry in one family. -/
def entryRules (t : Tools Source) (family : Family) (port : UInt16) (ip : Text) : List (Rule Source) :=
  if ip ≠ [] ∧ familyOf ip = family then accept t family ip .tcp port ++ accept t family ip .udp port else []

/-- The accept rules of the whitelist, and the drops. -/
def chainRules (t : Tools Source) (family : Family) (port : UInt16) (whitelist : Text) :
    List (Rule Source) :=
  ((readArray ',' whitelist).map t.xargs).flatMap (entryRules t family port) ++
    [⟨none, .tcp, port, .drop⟩, ⟨none, .udp, port, .drop⟩]

/-- One jump for each protocol, for the port, and the rules of the whitelist. -/
def InPlace (t : Tools Source) (port : UInt16) (whitelist : Text) (s : Tables Source) : Prop :=
  ∀ family, (s family).jumps.Perm [⟨.tcp, port⟩, ⟨.udp, port⟩] ∧
    (s family).chain = some (chainRules t family port whitelist)

def Correct (t : Tools Source) (op : Op) (s : System Source) : Prop :=
  match op with
  | .install port whitelist => whitelist ≠ [] → InPlace t port whitelist s.tables
  | .modify port whitelist => whitelist ≠ [] → InPlace t port whitelist s.tables
  | .uninstall => ∀ family, (s.tables family).Bare

/-- After every operation that is performed the rules are as they should be. -/
def CorrectRun (t : Tools Source) (s : System Source) : List Op → Prop
  | [] => True
  | op :: ops => (∀ s', perform t s op = some s' → Correct t op s') ∧ CorrectRun t (step t s op) ops

/-! ### The ledger -/

/-- The configuration, and the port for which rules are in place. -/
structure Ledger where
  config : Option (UInt16 × Text)
  guarded : Option UInt16

namespace Ledger

/-- Removing the rules of a port leaves those of another. -/
def without (port : UInt16) (guarded : Option UInt16) : Option UInt16 :=
  if guarded = some port then none else guarded

/-- The port for which rules are in place when `modify` sets up the new ones. -/
def cleaned (guarded : Option UInt16) (oldPort : UInt16) (oldWhitelist : Text) : Option UInt16 :=
  if echo oldWhitelist ≠ [] then without oldPort guarded else guarded

def setup (port : UInt16) (whitelist : Text) (guarded : Option UInt16) : Option UInt16 :=
  if whitelist = [] then guarded else some port

def next (l : Ledger) : Op → Ledger
  | .install port whitelist =>
    if HasBreak whitelist then l else ⟨some (port, whitelist), setup port whitelist l.guarded⟩
  | .modify port whitelist =>
    match l.config with
    | none => l
    | some (oldPort, oldWhitelist) =>
      if HasBreak whitelist then l
      else ⟨some (port, whitelist), setup port whitelist (cleaned l.guarded oldPort oldWhitelist)⟩
  | .uninstall =>
    match l.config with
    | none => l
    | some (currentPort, _) => ⟨none, without currentPort l.guarded⟩

/-- No rules are in place, or those of the port. -/
def Free (port : UInt16) (guarded : Option UInt16) : Prop := guarded = none ∨ guarded = some port

/-- The operation finds no rules of another port than the one it works on. -/
def Clear (l : Ledger) : Op → Prop
  | .install port whitelist => HasBreak whitelist ∨ whitelist = [] ∨ Free port l.guarded
  | .modify port whitelist =>
    match l.config with
    | none => True
    | some (oldPort, oldWhitelist) =>
      HasBreak whitelist ∨ whitelist = [] ∨ Free port (cleaned l.guarded oldPort oldWhitelist)
  | .uninstall =>
    match l.config with
    | none => True
    | some (currentPort, _) => Free currentPort l.guarded

def ClearRun (l : Ledger) : List Op → Prop
  | [] => True
  | op :: ops => l.Clear op ∧ ClearRun (l.next op) ops

end Ledger

/-! ### The commands on one table -/

/-- The jumps that the removal for a port leaves. -/
def left (port : UInt16) (table : Table Source) : List Jump :=
  (table.jumps.erase ⟨.tcp, port⟩).erase ⟨.udp, port⟩

theorem remove_jumps (port : UInt16) (s : Tables Source) (family : Family) :
    (removeFirewallIptables port s family).jumps = left port (s family) := by
  cases family <;> simp [removeFirewallIptables, run, left]

theorem remove_chain (port : UInt16) (s : Tables Source) (family : Family) :
    (removeFirewallIptables port s family).chain =
      if left port (s family) = [] then none else (s family).chain.map fun _ => [] := by
  cases family <;> simp [removeFirewallIptables, run, FilterTable.chain_deleteChain_flush, left]

theorem foldl_allowIp (t : Tools Source) (port : UInt16) (ips : List Text) (s : Tables Source)
    (family : Family) :
    (ips.foldl (allowIp t port) s family).jumps = (s family).jumps ∧
      (ips.foldl (allowIp t port) s family).chain =
        (s family).chain.map (· ++ ips.flatMap (entryRules t family port)) := by
  induction ips generalizing s with
  | nil => simp
  | cons ip ips ih =>
    obtain ⟨hjumps, hchain⟩ := ih (allowIp t port s ip)
    have hone : (allowIp t port s ip family).jumps = (s family).jumps ∧
        (allowIp t port s ip family).chain = (s family).chain.map (· ++ entryRules t family port ip) := by
      by_cases hip : ip = []
      · simp [allowIp, entryRules, hip]
      · by_cases hcolon : ':' ∈ ip <;> cases family <;>
          simp [allowIp, entryRules, familyOf, run, hip, hcolon, Function.comp_def]
    rw [List.foldl_cons, List.flatMap_cons, hjumps, hchain, hone.1, hone.2]
    simp [Function.comp_def]

/-- Whatever was there, setting up leaves the rules of the whitelist and the jumps of the port
before the jumps that the removal left. -/
theorem setup_table (t : Tools Source) (port : UInt16) (whitelist : Text) (s : Tables Source)
    (family : Family) :
    (setupFirewallIptables t port whitelist s family).jumps =
        ⟨.udp, port⟩ :: ⟨.tcp, port⟩ :: left port (s family) ∧
      (setupFirewallIptables t port whitelist s family).chain =
        some (chainRules t family port whitelist) := by
  have hflushed : (removeFirewallIptables port s family).chain.getD [] = [] := by
    rw [remove_chain]
    split
    · rfl
    · cases (s family).chain <;> rfl
  cases family with
  | ipv4 =>
    simp only [setupFirewallIptables, chainRules]
    simp [run, foldl_allowIp, FilterTable.jumps_insertJump, remove_jumps, hflushed]
  | ipv6 =>
    simp only [setupFirewallIptables, chainRules]
    simp [run, foldl_allowIp, FilterTable.jumps_insertJump, remove_jumps, hflushed]

/-! ### The tables and the ledger -/

/-- The jumps and the chain of a port, or nothing. -/
def Guarded (guarded : Option UInt16) (table : Table Source) : Prop :=
  match guarded with
  | none => table.Bare
  | some port => table.jumps.Perm [⟨.tcp, port⟩, ⟨.udp, port⟩] ∧ table.chain.isSome = true

/-- The removal for a port takes out every jump unless they are for another port. -/
theorem left_eq_nil_iff {guarded : Option UInt16} {table : Table Source} (h : Guarded guarded table)
    (port : UInt16) : left port table = [] ↔ Ledger.Free port guarded := by
  cases guarded with
  | none => simp [left, h.1, Ledger.Free]
  | some q =>
    have hleft : (left port table).Perm
        (([⟨.tcp, q⟩, ⟨.udp, q⟩] : List Jump).erase ⟨.tcp, port⟩ |>.erase ⟨.udp, port⟩) :=
      (h.1.erase _).erase _
    by_cases hq : q = port
    · subst hq
      have hnil : left q table = [] := by simpa using hleft
      simp [hnil, Ledger.Free]
    · have hlength := hleft.length_eq
      have hne : left port table ≠ [] := by
        intro hnil
        simp [hnil, hq] at hlength
      simp [hne, Ledger.Free, hq]

theorem bare_remove_iff {guarded : Option UInt16} {s : Tables Source}
    (h : ∀ family, Guarded guarded (s family)) (port : UInt16) :
    (∀ family, (removeFirewallIptables port s family).Bare) ↔ Ledger.Free port guarded := by
  constructor
  · intro hbare
    have hjumps := (hbare .ipv4).1
    rw [remove_jumps] at hjumps
    exact (left_eq_nil_iff (h .ipv4) port).mp hjumps
  · intro hfree family
    have hleft := (left_eq_nil_iff (h family) port).mpr hfree
    exact ⟨by rw [remove_jumps, hleft], by rw [remove_chain, if_pos hleft]⟩

/-- The removal takes out the rules of its port and leaves the jumps of another. -/
theorem guarded_remove {guarded : Option UInt16} {s : Tables Source}
    (h : ∀ family, Guarded guarded (s family)) (port : UInt16) (family : Family) :
    Guarded (Ledger.without port guarded) (removeFirewallIptables port s family) := by
  by_cases hfree : Ledger.Free port guarded
  · have hnone : Ledger.without port guarded = none := by
      rcases hfree with hnone | hsome
      · rw [Ledger.without, hnone]
        rfl
      · rw [Ledger.without, if_pos hsome]
    rw [hnone]
    exact (bare_remove_iff h port).mpr hfree family
  · cases guarded with
    | none => exact absurd (.inl rfl) hfree
    | some q =>
      have hq : q ≠ port := fun heq => hfree (.inr (by rw [heq]))
      have hne : left port (s family) ≠ [] := fun hnil => hfree ((left_eq_nil_iff (h family) port).mp hnil)
      have hperm := (((h family).1.erase ⟨.tcp, port⟩).erase ⟨.udp, port⟩)
      have hsome : Ledger.without port (some q) = some q := by
        rw [Ledger.without, if_neg]
        simpa using hq
      rw [hsome]
      constructor
      · rw [remove_jumps]
        simpa [left, hq] using hperm
      · rw [remove_chain, if_neg hne, Option.isSome_map]
        exact (h family).2

/-- The new rules are as they should be exactly when no rules of another port were in place. -/
theorem inPlace_setup_iff (t : Tools Source) {guarded : Option UInt16} {s : Tables Source}
    (h : ∀ family, Guarded guarded (s family)) (port : UInt16) (whitelist : Text) :
    InPlace t port whitelist (setupFirewallIptables t port whitelist s) ↔ Ledger.Free port guarded := by
  constructor
  · intro hplace
    have hperm := (hplace .ipv4).1
    rw [(setup_table t port whitelist s .ipv4).1] at hperm
    have hlength := hperm.length_eq
    refine (left_eq_nil_iff (h .ipv4) port).mp (List.eq_nil_of_length_eq_zero ?_)
    simp only [List.length_cons, List.length_nil] at hlength
    omega
  · intro hfree family
    obtain ⟨hjumps, hchain⟩ := setup_table t port whitelist s family
    rw [(left_eq_nil_iff (h family) port).mpr hfree] at hjumps
    exact ⟨hjumps ▸ List.Perm.swap _ _ _, hchain⟩

theorem guarded_of_inPlace {t : Tools Source} {port : UInt16} {whitelist : Text} {s : Tables Source}
    (h : InPlace t port whitelist s) (family : Family) : Guarded (some port) (s family) :=
  ⟨(h family).1, by rw [(h family).2]; rfl⟩

/-- Setting up for a whitelist, which does nothing for the empty one. -/
theorem setupFirewall_guarded (t : Tools Source) {guarded : Option UInt16} {s : Tables Source}
    (h : ∀ family, Guarded guarded (s family)) (port : UInt16) (whitelist : Text) :
    ((whitelist ≠ [] → InPlace t port whitelist (setupFirewall t port whitelist s)) ↔
        whitelist = [] ∨ Ledger.Free port guarded) ∧
      (whitelist = [] ∨ Ledger.Free port guarded →
        ∀ family, Guarded (Ledger.setup port whitelist guarded) (setupFirewall t port whitelist s family)) := by
  by_cases hempty : whitelist = []
  · simp [setupFirewall, Ledger.setup, hempty, h]
  · have hiff := inPlace_setup_iff t h port whitelist
    simp only [setupFirewall, Ledger.setup, hempty, ne_eq, not_false_eq_true, forall_const, false_or]
    exact ⟨hiff, fun hfree => guarded_of_inPlace (hiff.mpr hfree)⟩

/-- The ledger has the configuration and the port of the rules. -/
structure Matches (l : Ledger) (s : System Source) : Prop where
  config : s.config = l.config
  guarded : ∀ family, Guarded l.guarded (s.tables family)

theorem install_matches (t : Tools Source) {l : Ledger} {s : System Source} (h : Matches l s)
    (port : UInt16) (whitelist : Text) :
    ((∀ s', perform t s (.install port whitelist) = some s' → Correct t (.install port whitelist) s') ↔
        l.Clear (.install port whitelist)) ∧
      (l.Clear (.install port whitelist) →
        Matches (l.next (.install port whitelist)) (step t s (.install port whitelist))) := by
  simp only [perform, step, Ledger.Clear, Ledger.next]
  by_cases hbreak : HasBreak whitelist
  · simp [hbreak, h]
  · obtain ⟨hiff, hguarded⟩ := setupFirewall_guarded t h.guarded port whitelist
    simp only [hbreak, ↓reduceIte, Option.some_inj, forall_eq', Correct, false_or, Option.getD_some]
    exact ⟨hiff, fun hclear => ⟨rfl, hguarded hclear⟩⟩

theorem modify_matches (t : Tools Source) {l : Ledger} {s : System Source} (h : Matches l s)
    (port : UInt16) (whitelist : Text) :
    ((∀ s', perform t s (.modify port whitelist) = some s' → Correct t (.modify port whitelist) s') ↔
        l.Clear (.modify port whitelist)) ∧
      (l.Clear (.modify port whitelist) →
        Matches (l.next (.modify port whitelist)) (step t s (.modify port whitelist))) := by
  simp only [perform, step, Ledger.Clear, Ledger.next, h.config]
  rcases hconfig : l.config with _ | ⟨oldPort, oldWhitelist⟩
  · simp [h]
  · by_cases hbreak : HasBreak whitelist
    · simp [hbreak, h]
    · have hcleaned : ∀ family, Guarded (Ledger.cleaned l.guarded oldPort oldWhitelist)
          ((if echo oldWhitelist ≠ [] then removeFirewallIptables oldPort s.tables else s.tables) family) := by
        intro family
        unfold Ledger.cleaned
        split
        · exact guarded_remove h.guarded oldPort family
        · exact h.guarded family
      obtain ⟨hiff, hguarded⟩ := setupFirewall_guarded t hcleaned port whitelist
      simp only [hbreak, ↓reduceIte, Option.some_inj, forall_eq', Correct, false_or, Option.getD_some]
      exact ⟨hiff, fun hclear => ⟨rfl, hguarded hclear⟩⟩

theorem uninstall_matches (t : Tools Source) {l : Ledger} {s : System Source} (h : Matches l s) :
    ((∀ s', perform t s .uninstall = some s' → Correct t .uninstall s') ↔ l.Clear .uninstall) ∧
      (l.Clear .uninstall → Matches (l.next .uninstall) (step t s .uninstall)) := by
  simp only [perform, step, Ledger.Clear, Ledger.next, h.config]
  rcases hconfig : l.config with _ | ⟨currentPort, currentWhitelist⟩
  · simp [h]
  · simp only [Option.some_inj, forall_eq', Correct, Option.getD_some]
    exact ⟨bare_remove_iff h.guarded currentPort, fun _ => ⟨rfl, guarded_remove h.guarded currentPort⟩⟩

/-- An operation does what it should exactly when it is clear, and then keeps the match. -/
theorem step_matches (t : Tools Source) {l : Ledger} {s : System Source} (h : Matches l s) (op : Op) :
    ((∀ s', perform t s op = some s' → Correct t op s') ↔ l.Clear op) ∧
      (l.Clear op → Matches (l.next op) (step t s op)) := by
  cases op with
  | install port whitelist => exact install_matches t h port whitelist
  | modify port whitelist => exact modify_matches t h port whitelist
  | uninstall => exact uninstall_matches t h

theorem correctRun_iff (t : Tools Source) {l : Ledger} {s : System Source} (h : Matches l s) (ops : List Op) :
    CorrectRun t s ops ↔ l.ClearRun ops := by
  induction ops generalizing l s with
  | nil => exact Iff.rfl
  | cons op ops ih =>
    obtain ⟨hiff, hnext⟩ := step_matches t h op
    rw [CorrectRun, Ledger.ClearRun, hiff]
    exact and_congr_right fun hclear => ih (hnext hclear)

/-- From tables without rules of Brume, every operation of a sequence leaves the rules as they
should be exactly when none finds rules of another port in place. -/
theorem rules_follow_operations (t : Tools Source) (s : System Source)
    (hbare : ∀ family, (s.tables family).Bare) (ops : List Op) :
    CorrectRun t s ops ↔ Ledger.ClearRun ⟨s.config, none⟩ ops := by
  have h : Matches ⟨s.config, none⟩ s := ⟨rfl, hbare⟩
  exact correctRun_iff t h ops

/-- Tools that trim a field and take the source as it is written. -/
def plainTools : Tools Text := ⟨trim, fun _ ip => [ip]⟩

/-- A system with a rule of its own and none of Brume. -/
def untouched : System Text := ⟨none, fun _ => ⟨[.inr 22], none⟩⟩

/-- An installation, a new port and whitelist, and the removal. -/
theorem rules_follow_operations_modified :
    CorrectRun plainTools untouched
      [.install 1080 "192.0.2.0/24".toList, .modify 1081 "192.0.2.1, ::1".toList, .uninstall] :=
  (rules_follow_operations plainTools untouched (fun _ => ⟨rfl, rfl⟩) _).mpr
    ⟨.inr (.inr (.inl rfl)), .inr (.inr (.inl rfl)), .inr rfl, trivial⟩

/-- Installing over an installation with another port leaves the jumps of the old port. -/
theorem reinstall_leaves_jumps :
    ¬∀ (t : Tools Text) (s : System Text), (∀ family, (s.tables family).Bare) →
      ∀ ops, CorrectRun t s ops := by
  intro h
  have hrun := h plainTools untouched (fun _ => ⟨rfl, rfl⟩)
    [.install 1080 "192.0.2.1".toList, .install 1081 "192.0.2.1".toList]
  have hplace := hrun.2.1 _ rfl (by decide) .ipv4
  have hlength := hplace.1.length_eq
  revert hlength
  decide

end Iptables

end Installer

end Brume
