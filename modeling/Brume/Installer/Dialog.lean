import Brume.Installer.LegacyArguments
import Brume.Lib.Transition

/-!
# The dialogs of the installer (`install.sh`)

`get_install_config` and `get_modify_config` as machines that take one answer at a
time, as `read` leaves it in its variable. The dialogs check the port and the
presence of both credentials and nothing else; what the server makes of the file
that is written at the end is decided by these checks, the whitelist and the
lengths of the credentials.
-/

namespace Brume
open Lib

namespace Installer

/-! ### Answers -/

/-- `[[ "${s}" =~ ^[0-9]+$ ]]` and the comparisons with 1 and 65535. -/
def isPort (s : Text) : Bool :=
  s ≠ [] && s.all (fun c => (toDigit 10 c).isSome) && (digitsVal 10 s).any fun n => 1 ≤ n && n ≤ 65535

/-- `${answer:-default}`. -/
def orDefault (answer default : Text) : Text := if answer = [] then default else answer

inductive Prompt where
  | port
  | changeAuth
  | enableAuth
  | user
  | password
  | inputPassword
  | whitelist
  | version
  | confirm
  deriving DecidableEq

/-- A dialog is at a prompt, or it has ended: confirmed or given up. -/
inductive Stand where
  | asks (prompt : Prompt)
  | confirmed
  | cancelled
  deriving DecidableEq

structure Dialog where
  vars : Variables
  version : Text
  stand : Stand
  deriving DecidableEq

namespace Dialog

/-- Where `get_install_config` starts, and starts again when the answers are not confirmed. -/
def install : Dialog := ⟨.initial, [], .asks .port⟩

/-- Where `get_modify_config` starts with the loaded configuration. -/
def modify (current : Variables) : Dialog := ⟨current, [], .asks .port⟩

end Dialog

/-! ### The dialogs -/

/-- The credentials behind the prompts: none, two that were typed, or those of `current`
with a user. -/
def AuthOk (current v : Variables) : Prop :=
  (v.user = [] ∧ v.password = []) ∨ (v.user ≠ [] ∧ v.password ≠ []) ∨
    (v.user ≠ [] ∧ v.user = current.user ∧ v.password = current.password)

/-- The settings that no prompt asks for. -/
def SameRest (current v : Variables) : Prop :=
  v.tcpTimeout = current.tcpTimeout ∧ v.udpTimeout = current.udpTimeout ∧ v.dnsServers = current.dnsServers

def SameAuth (current v : Variables) : Prop := v.user = current.user ∧ v.password = current.password

/-- A port that is not one of SSH: the current one, or a number that was typed. -/
def PortOk (sshPorts : List Text) (current v : Variables) : Prop :=
  v.port ∉ sshPorts ∧ (v.port = current.port ∨ isPort v.port = true)

/-- What holds of the variables at a prompt, in a dialog that starts with `current`. -/
def Stand.Holds (sshPorts : List Text) (current v : Variables) : Stand → Prop
  | .asks .port => v.port = current.port ∧ SameAuth current v
  | .asks .changeAuth | .asks .enableAuth => PortOk sshPorts current v ∧ SameAuth current v
  | .asks .user => PortOk sshPorts current v
  | .asks .password => PortOk sshPorts current v ∧ v.user ≠ []
  | .asks .inputPassword => PortOk sshPorts current v ∧ SameAuth current v ∧ v.user ≠ []
  | .asks .whitelist | .asks .version | .asks .confirm | .confirmed | .cancelled =>
    PortOk sshPorts current v ∧ AuthOk current v

/-- The settings that a prompt can empty. -/
def clearable : Setting → Bool
  | .user | .pwd | .whitelist => true
  | _ => false

/-- Every value is one of `current` or an answer, or was emptied. -/
def Typed (answers : List Text) (current v : Variables) : Prop :=
  ∀ s : Setting, v.get s = current.get s ∨ v.get s ∈ answers ∨ v.get s = [] ∧ clearable s = true

structure Dialog.Sound (sshPorts : List Text) (current : Variables) (answers : List Text) (d : Dialog) : Prop where
  holds : d.stand.Holds sshPorts current d.vars
  rest : SameRest current d.vars
  typed : Typed answers current d.vars

variable {sshPorts answers : List Text} {current v : Variables} {d d' : Dialog} {answer e : Text}

theorem Typed.append (h : Typed answers current v) (more : List Text) : Typed (answers ++ more) current v := by
  intro s
  rcases h s with hsame | htyped | hnil
  · exact .inl hsame
  · exact .inr (.inl (List.mem_append_left _ htyped))
  · exact .inr (.inr hnil)

theorem Typed.set (h : Typed answers current v) {s : Setting} {value : Text}
    (hvalue : value = current.get s ∨ value ∈ answers ∨ value = [] ∧ clearable s = true) :
    Typed answers current (v.set s value) := by
  intro s'
  by_cases hs : s' = s
  · subst hs
    rw [Variables.get_set]
    exact hvalue
  · rw [Variables.get_set_of_ne v hs]
    exact h s'

theorem Typed.setAnswer (h : Typed answers current v) (s : Setting) (answer : Text) :
    Typed (answers ++ [answer]) current (v.set s answer) :=
  (h.append [answer]).set (.inr (.inl (List.mem_append_right _ (List.mem_singleton_self answer))))

theorem Typed.port (h : Typed answers current v) {port : Text} (hport : port = current.port ∨ isPort port = true ∧ port = answer) :
    Typed (answers ++ [answer]) current { v with port } := by
  rcases hport with rfl | ⟨-, rfl⟩
  · exact (h.append [answer]).set (s := .port) (.inl rfl)
  · exact h.setAnswer .port port

namespace Dialog

theorem Sound.append (h : d.Sound sshPorts current answers) (more : List Text) :
    d.Sound sshPorts current (answers ++ more) := ⟨h.holds, h.rest, h.typed.append more⟩

end Dialog

/-! ### The file that the server reads -/

/-- The server interprets every line of a file that it accepts. -/
theorem interpret_of_written {v : Variables} (hclean : ∀ s, '\n' ∉ v.get s ∧ '\r' ∉ v.get s)
    (settings : List Setting) {config config' : Config} {number : ℕ}
    (h : config.readLinesFrom number (lines (settings.flatMap fun s => printLine s.key (v.get s))) = .ok config') :
    ∀ s ∈ settings, ∃ x, s.interpret (v.get s) = .ok x := by
  induction settings generalizing config number with
  | nil =>
    intro s hs
    cases hs
  | cons s settings ih =>
    have hkey := key_notMem s
    have hlf : '\n' ∉ s.key.toList ++ '=' :: v.get s := by
      have hfront : '\n' ∉ s.key.toList := fun hm => absurd (hkey _ hm).1 (by decide)
      simp [hfront, (hclean s).1]
    have hcr : '\r' ∉ s.key.toList ++ '=' :: v.get s := by
      have hfront : '\r' ∉ s.key.toList := fun hm => absurd (hkey _ hm).1 (by decide)
      simp [hfront, (hclean s).2]
    have hstrip : stripCr (s.key.toList ++ '=' :: v.get s) = [] ++ (s.key.toList ++ []) ++ '=' :: v.get s := by
      rw [stripCr_of_notMem hcr, List.append_nil, List.nil_append]
    rw [List.flatMap_cons, printLine, List.append_assoc, List.singleton_append, lines_line hlf hcr,
      Config.readLinesFrom, readLine_key hstrip (by simp) (by simp)] at h
    obtain ⟨config₁, hline, hrest⟩ := Result.bind_ok.mp h
    obtain ⟨x, hx, -⟩ := Config.applySetting_ok.mp (Result.mapError_ok.mp hline)
    intro s' hs'
    rcases List.mem_cons.mp hs' with rfl | hs'
    · exact ⟨x, hx⟩
    · exact ih hrest s' hs'

theorem parse_written_iff (files : Text → Except String Text) {v : Variables} {text : Text}
    (hdns : v.dnsServers ≠ []) (hwrite : writeConfigFile v = .ok text) (config : Config) :
    Config.parse (Function.update files configFile (.ok text)) ["--config".toList, configFile] = .ok (some config) ↔
      (∀ s : Setting, s.interpret (v.get s) = .ok (config.get s)) ∧ config.validate = .ok () := by
  rw [parse_configPath rfl (Function.update_self configFile _ files)]
  refine and_congr_left fun _ => ?_
  constructor
  · intro hread
    obtain ⟨hclean, settings, htext, hmissing⟩ := writeConfigFile_ok hwrite
    have hvalues : ∀ s : Setting, ∃ x, s.interpret (v.get s) = .ok x := by
      intro s
      by_cases hs : s ∈ settings
      · rw [htext] at hread
        exact interpret_of_written hclean settings hread s hs
      · obtain ⟨rfl, hempty | hdefault⟩ := hmissing s hs
        · exact absurd hempty hdns
        · exact ⟨_, (congrArg Setting.dnsServers.interpret hdefault).trans interpret_defaultDnsServers⟩
    choose x hx using hvalues
    let goal : Config :=
      ⟨x .port, x .user, x .pwd, x .whitelist, x .tcpTimeout, x .udpTimeout, x .dnsServers⟩
    have hgoal : ∀ s : Setting, s.interpret (v.get s) = .ok (goal.get s) := by
      intro s
      cases s <;> exact hx _
    have hsame := readLinesFrom_writeConfigFile (fun s => .inr (hgoal s)) hwrite
    have hconfig := Except.ok.inj (hread.symm.trans hsame)
    rw [hconfig]
    exact hgoal
  · intro hgoal
    exact readLinesFrom_writeConfigFile (fun s => .inr (hgoal s)) hwrite

/-! ### What the server accepts -/

theorem parsePort_of_isPort {s : Text} (h : isPort s = true) : ∃ port, Config.parsePort s = .ok port := by
  simp only [isPort, Bool.and_eq_true, decide_eq_true_eq, List.all_eq_true, Option.any_eq_true] at h
  obtain ⟨⟨hne, hdigits⟩, n, hn, hlow, hhigh⟩ := h
  have hplus : s.head? ≠ some '+' := by
    intro hhead
    obtain ⟨rest, rfl⟩ := List.head?_eq_some_iff.mp hhead
    exact absurd (hdigits '+' (List.mem_cons_self ..)) (by decide)
  have hparse : parseUnsigned 65536 s = some n := by
    have hlt : n < 65536 := by omega
    rw [parseUnsigned, if_neg hplus]
    simp [hne, hn, hlt]
  have hzero : n ≠ 0 := by omega
  exact ⟨_, by rw [Config.parsePort, hparse]; exact if_neg hzero⟩

theorem Agree.unchanged {config : Config} (h : Agree current config) {s : Setting} (hsame : v.get s = current.get s)
    (hclean : '\r' ∉ v.get s) : s.interpret (v.get s) = .ok (config.get s) := by
  rw [hsame] at hclean ⊢
  exact (h s).resolve_left hclean

theorem ofList_eq_empty_iff {s : Text} : utf8Bytes (String.ofList s) = [] ↔ s = [] := by
  rw [Config.utf8Bytes_eq_nil_iff, String.isEmpty_iff]
  constructor
  · intro h
    have htext := congrArg String.toList h
    simpa using htext
  · rintro rfl
    rfl

namespace Dialog

variable {config : Config} {text : Text}

/-- Both credentials are there or none, as the server wants them. -/
theorem Sound.auth_iff (h : d.Sound sshPorts current answers) (hd : d.stand = .confirmed)
    (hagree : Agree current config) (hvalid : config.validate = .ok ())
    (hclean : ∀ s, '\r' ∉ d.vars.get s) : d.vars.user = [] ↔ d.vars.password = [] := by
  have hholds := h.holds
  rw [hd] at hholds
  rcases hholds.2 with ⟨huser, hpassword⟩ | ⟨huser, hpassword⟩ | ⟨-, huser, hpassword⟩
  · exact iff_of_true huser hpassword
  · exact iff_of_false huser hpassword
  · have huser' := hagree.unchanged (s := .user) huser (hclean .user)
    have hpassword' := hagree.unchanged (s := .pwd) hpassword (hclean .pwd)
    have hboth := (Config.validate_ok_iff.mp hvalid).1
    have husername : config.username = String.ofList d.vars.user := (Except.ok.inj huser').symm
    have hpasswords : config.password = String.ofList d.vars.password := (Except.ok.inj hpassword').symm
    rwa [husername, hpasswords, ofList_eq_empty_iff, ofList_eq_empty_iff] at hboth

theorem Sound.port_ok (h : d.Sound sshPorts current answers) (hd : d.stand = .confirmed) (hagree : Agree current config)
    (hclean : ∀ s, '\r' ∉ d.vars.get s) :
    d.vars.port ∉ sshPorts ∧ ∃ port, Config.parsePort d.vars.port = .ok port ∧ port ≠ 0 := by
  have hholds := h.holds
  rw [hd] at hholds
  obtain ⟨hssh, hport⟩ := hholds.1
  have hparse : ∃ port, Config.parsePort d.vars.port = .ok port := by
    rcases hport with hsame | hport
    · exact ⟨config.port, hagree.unchanged (s := .port) hsame (hclean .port)⟩
    · exact parsePort_of_isPort hport
  obtain ⟨port, hparse⟩ := hparse
  exact ⟨hssh, port, hparse, parsePort_checked hparse⟩

theorem Sound.rest_ok (h : d.Sound sshPorts current answers) (hagree : Agree current config)
    (hclean : ∀ s, '\r' ∉ d.vars.get s) :
    ∀ s ∈ [Setting.tcpTimeout, .udpTimeout, .dnsServers], s.interpret (d.vars.get s) = .ok (config.get s) := by
  intro s hs
  obtain ⟨htcp, hudp, hdns⟩ := h.rest
  simp only [List.mem_cons, List.not_mem_nil, or_false] at hs
  rcases hs with rfl | rfl | rfl
  · exact hagree.unchanged (s := .tcpTimeout) htcp (hclean _)
  · exact hagree.unchanged (s := .udpTimeout) hudp (hclean _)
  · exact hagree.unchanged (s := .dnsServers) hdns (hclean _)

/-- What the server makes of the file of a confirmed dialog that started with its
configuration: that configuration with the answers, unless the whitelist is wrong or
a credential too long. -/
theorem Sound.accepted_iff (h : d.Sound sshPorts current answers) (hd : d.stand = .confirmed)
    (hagree : Agree current config) (hvalid : config.validate = .ok ()) (files : Text → Except String Text)
    (hwrite : writeConfigFile d.vars = .ok text) :
    d.vars.port ∉ sshPorts ∧ ∃ port, Config.parsePort d.vars.port = .ok port ∧ port ≠ 0 ∧
      ∀ config', Config.parse (Function.update files configFile (.ok text)) ["--config".toList, configFile] =
          .ok (some config') ↔
        (∃ w, Whitelist.parse d.vars.whitelist = .ok w ∧
          config' = { config with
            port
            username := String.ofList d.vars.user
            password := String.ofList d.vars.password
            whitelist := w }) ∧
        (utf8Bytes (String.ofList d.vars.user)).length ≤ 255 ∧
        (utf8Bytes (String.ofList d.vars.password)).length ≤ 255 := by
  have hclean : ∀ s, '\r' ∉ d.vars.get s := fun s => ((writeConfigFile_ok hwrite).1 s).2
  obtain ⟨hssh, port, hport, hzero⟩ := h.port_ok hd hagree hclean
  refine ⟨hssh, port, hport, hzero, fun config' => ?_⟩
  have hrest := h.rest_ok hagree hclean
  have hauth := h.auth_iff hd hagree hvalid hclean
  have hdns : d.vars.dnsServers ≠ [] := by
    intro hnil
    have hread := hrest .dnsServers (by simp)
    rw [Variables.get, hnil] at hread
    cases hread
  rw [parse_written_iff files hdns hwrite, Config.validate_ok_iff]
  constructor
  · rintro ⟨hread, -, huser, hpassword⟩
    have huser' : config'.username = String.ofList d.vars.user := (Except.ok.inj (hread .user)).symm
    have hpassword' : config'.password = String.ofList d.vars.password := (Except.ok.inj (hread .pwd)).symm
    rw [huser'] at huser
    rw [hpassword'] at hpassword
    refine ⟨⟨config'.whitelist, hread .whitelist, ?_⟩, huser, hpassword⟩
    apply Config.ext_get
    intro s
    cases s with
    | port => exact Except.ok.inj ((hread .port).symm.trans hport)
    | user => exact huser'
    | pwd => exact hpassword'
    | whitelist => rfl
    | tcpTimeout => exact Except.ok.inj ((hread .tcpTimeout).symm.trans (hrest .tcpTimeout (by simp)))
    | udpTimeout => exact Except.ok.inj ((hread .udpTimeout).symm.trans (hrest .udpTimeout (by simp)))
    | dnsServers => exact Except.ok.inj ((hread .dnsServers).symm.trans (hrest .dnsServers (by simp)))
  · rintro ⟨⟨w, hw, rfl⟩, huser, hpassword⟩
    refine ⟨fun s => ?_, ?_, huser, hpassword⟩
    · cases s with
      | port => exact hport
      | user | pwd => rfl
      | whitelist => exact hw
      | tcpTimeout => exact hrest .tcpTimeout (by simp)
      | udpTimeout => exact hrest .udpTimeout (by simp)
      | dnsServers => exact hrest .dnsServers (by simp)
    · rw [ofList_eq_empty_iff, ofList_eq_empty_iff]
      exact hauth

end Dialog

end Installer

end Brume
