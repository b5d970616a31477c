import Brume.ConfigParse
import Brume.Lib.Result
import Brume.Lib.Shell

/-!
# The configuration file of the installer (`install.sh`)

`load_config_file` and `write_config_file` on the shell variables. The commands
that move the written file into place are taken to succeed. The server and the
installer read the same pieces between line feeds; the invariant says that a
variable, read as a value of its setting, is what the server holds.
-/

namespace Brume
open Lib

namespace Installer
open Shell

/-- The shell variables of a configuration. -/
structure Variables where
  port : Text
  user : Text
  password : Text
  whitelist : Text
  tcpTimeout : Text
  udpTimeout : Text
  dnsServers : Text
  deriving DecidableEq

def defaultDnsServers : Text := "8.8.8.8,1.1.1.1".toList

namespace Variables

/-- The defaults that `get_current_config_auto` starts from. -/
def initial : Variables where
  port := "1080".toList
  user := []
  password := []
  whitelist := []
  tcpTimeout := "0".toList
  udpTimeout := "60".toList
  dnsServers := defaultDnsServers

/-- The branches of `case "${key}"`. -/
def assign (v : Variables) (key value : Text) : Option Variables :=
  if key = "port".toList then some { v with port := value }
  else if key = "username".toList then some { v with user := value }
  else if key = "password".toList then some { v with password := value }
  else if key = "whitelist".toList then some { v with whitelist := value }
  else if key = "tcp_timeout".toList then some { v with tcpTimeout := value }
  else if key = "udp_timeout".toList then some { v with udpTimeout := value }
  else if key = "dns_servers".toList then some { v with dnsServers := value }
  else none

end Variables

/-- The body of the loop of `load_config_file`. -/
def loadLine (v : Variables) (line : Text) : Except String Variables :=
  let line := stripCr line
  let content := removePrefix (leadingSpace line) line
  if content = [] ∨ content.head? = some '#' then .ok v
  else if '=' ∉ content then .error "配置文件格式无效"
  else
    let key := before '=' line
    let key := removePrefix (leadingSpace key) key
    let key := removeSuffix (trailingSpace key) key
    let value := behind '=' line
    match v.assign key value with
    | some v => .ok v
    | none => .error "配置文件包含未知配置项"

def loadConfigFile (v : Variables) (text : Text) : Except String Variables :=
  (readLines text).foldlM loadLine v

/-- `printf 'key=%s\n' "${value}"`. -/
def printLine (key : String) (value : Text) : Text := key.toList ++ '=' :: value ++ ['\n']

def writeConfigFile (v : Variables) : Except String Text :=
  let values := [v.port, v.user, v.password, v.whitelist, v.tcpTimeout, v.udpTimeout, v.dnsServers]
  if values.any fun value => '\n' ∈ value ∨ '\r' ∈ value then .error "配置值不能包含换行符"
  else
    let orDefault := if v.dnsServers = [] then defaultDnsServers else v.dnsServers
    .ok (printLine "port" v.port ++ printLine "username" v.user ++ printLine "password" v.password ++
      printLine "whitelist" v.whitelist ++ printLine "tcp_timeout" v.tcpTimeout ++
      printLine "udp_timeout" v.udpTimeout ++
      if orDefault ≠ defaultDnsServers then printLine "dns_servers" v.dnsServers else [])

/-! ### Variables and settings -/

namespace Variables

/-- The variable of a setting. -/
def get (v : Variables) : Setting → Text
  | .port => v.port
  | .user => v.user
  | .pwd => v.password
  | .whitelist => v.whitelist
  | .tcpTimeout => v.tcpTimeout
  | .udpTimeout => v.udpTimeout
  | .dnsServers => v.dnsServers

def set (v : Variables) : Setting → Text → Variables
  | .port, port => { v with port }
  | .user, user => { v with user }
  | .pwd, password => { v with password }
  | .whitelist, whitelist => { v with whitelist }
  | .tcpTimeout, tcpTimeout => { v with tcpTimeout }
  | .udpTimeout, udpTimeout => { v with udpTimeout }
  | .dnsServers, dnsServers => { v with dnsServers }

@[simp] theorem get_set (v : Variables) (s : Setting) (value : Text) : (v.set s value).get s = value := by
  cases s <;> rfl

theorem get_set_of_ne (v : Variables) {s s' : Setting} (h : s' ≠ s) (value : Text) :
    (v.set s value).get s' = v.get s' := by
  cases s <;> cases s' <;> first | rfl | exact absurd rfl h

theorem assign_cases {v v' : Variables} {key value : Text} (h : v.assign key value = some v') :
    ∃ s : Setting, key = s.key.toList ∧ v' = v.set s value := by
  unfold assign at h
  split_ifs at h with hport huser hpassword hwhitelist htcp hudp hdns <;>
    rw [Option.some_inj] at h <;> subst h
  · exact ⟨.port, hport, rfl⟩
  · exact ⟨.user, huser, rfl⟩
  · exact ⟨.pwd, hpassword, rfl⟩
  · exact ⟨.whitelist, hwhitelist, rfl⟩
  · exact ⟨.tcpTimeout, htcp, rfl⟩
  · exact ⟨.udpTimeout, hudp, rfl⟩
  · exact ⟨.dnsServers, hdns, rfl⟩

end Variables

/-! ### One line -/

theorem key_ne_nil (s : Setting) : s.key.toList ≠ [] := by
  cases s <;> decide

theorem key_notMem (s : Setting) : ∀ c ∈ s.key.toList, isWhitespace c = false ∧ c ≠ '#' ∧ c ≠ '=' := by
  have hall : (s.key.toList.all fun c => !isWhitespace c && c != '#' && c != '=') = true := by
    cases s <;> decide
  intro c hc
  simpa [and_assoc] using List.all_eq_true.mp hall c hc

theorem ofKey_key (s : Setting) : Setting.ofKey s.key.toList = some s := by
  cases s <;> decide

/-- The server takes a line whose key has white space around it. -/
theorem readLine_key {config : Config} {number : ℕ} {line a b value : Text} {s : Setting}
    (hline : stripCr line = a ++ (s.key.toList ++ b) ++ '=' :: value)
    (ha : ∀ c ∈ a, isWhitespace c = true ∧ c ≠ '=') (hb : ∀ c ∈ b, isWhitespace c = true ∧ c ≠ '=') :
    config.readLine number line =
      (config.applySetting s value).mapError fun error => s!"配置文件第 {number} 行：{error}" := by
  have hkey := key_notMem s
  have hfront : (stripCr line).dropWhile isWhitespace = s.key.toList ++ b ++ '=' :: value := by
    rw [hline, List.append_assoc, List.dropWhile_append_of_pos fun c hc => (ha c hc).1]
    cases hs : s.key.toList with
    | nil => exact absurd hs (key_ne_nil s)
    | cons c t =>
      rw [hs] at hkey
      simp [(hkey c (by simp)).1]
  have hskip : ¬(trim (stripCr line) = [] ∨
      ((stripCr line).dropWhile isWhitespace).head? = some '#') := by
    rintro (hblank | hcomment)
    · rw [trim_eq_nil_iff, hline] at hblank
      have hequals := hblank '=' (by simp)
      revert hequals
      decide
    · rw [hfront] at hcomment
      cases hs : s.key.toList with
      | nil => exact absurd hs (key_ne_nil s)
      | cons c t =>
        rw [hs] at hkey hcomment
        have hc : c = '#' := by simpa using hcomment
        exact (hkey c (by simp)).2.1 hc
  have hnot : '=' ∉ a ++ (s.key.toList ++ b) := by
    simp only [List.mem_append, not_or]
    exact ⟨fun h => (ha _ h).2 rfl, fun h => (hkey _ h).2.2 rfl, fun h => (hb _ h).2 rfl⟩
  have htrim : trim (a ++ (s.key.toList ++ b)) = s.key.toList :=
    trim_append (fun c hc => (ha c hc).1) (fun c hc => (hb c hc).1) (fun c hc => (hkey c hc).1)
      (key_ne_nil s)
  rw [Config.readLine]
  simp only [if_neg hskip]
  rw [hline, splitOnce_append hnot]
  simp only [htrim, ofKey_key]

/-- The server skips what the shell takes for a blank line or a comment. -/
theorem readLine_skip {config : Config} {number : ℕ} {line : Text}
    (h : (stripCr line).dropWhile isSpace = [] ∨ ((stripCr line).dropWhile isSpace).head? = some '#') :
    config.readLine number line = .ok config := by
  have hskip : trim (stripCr line) = [] ∨
      ((stripCr line).dropWhile isWhitespace).head? = some '#' := by
    rcases h with hblank | hcomment
    · left
      rw [trim_eq_nil_iff]
      exact fun c hc => isWhitespace_of_isSpace (List.dropWhile_eq_nil_iff.mp hblank c hc)
    · right
      have hsplit : (stripCr line).takeWhile isSpace ++ (stripCr line).dropWhile isSpace =
        stripCr line := List.takeWhile_append_dropWhile
      rw [← hsplit, List.dropWhile_append_of_pos fun c hc =>
        isWhitespace_of_isSpace (List.mem_takeWhile_imp hc)]
      obtain ⟨rest, hrest⟩ := List.head?_eq_some_iff.mp hcomment
      rw [hrest]
      rfl
  rw [Config.readLine]
  simp only [if_pos hskip]

theorem loadLine_cases {v v' : Variables} {line : Text} (h : loadLine v line = .ok v') :
    (v' = v ∧ ((stripCr line).dropWhile isSpace = [] ∨
      ((stripCr line).dropWhile isSpace).head? = some '#')) ∨
    ∃ s a b value, stripCr line = a ++ (Setting.key s).toList ++ b ++ '=' :: value ∧
      (∀ c ∈ a, isSpace c = true) ∧ (∀ c ∈ b, isSpace c = true) ∧ v' = v.set s value := by
  unfold loadLine at h
  simp only [removePrefix_leadingSpace (stripCr line)] at h
  by_cases hskip : (stripCr line).dropWhile isSpace = [] ∨
      ((stripCr line).dropWhile isSpace).head? = some '#'
  · rw [if_pos hskip, Except.ok.injEq] at h
    exact .inl ⟨h.symm, hskip⟩
  · rw [if_neg hskip] at h
    by_cases hequals : '=' ∉ (stripCr line).dropWhile isSpace
    · rw [if_pos hequals] at h
      cases h
    · rw [if_neg hequals] at h
      have hmem : '=' ∈ stripCr line := (List.dropWhile_sublist _).subset (not_not.mp hequals)
      obtain ⟨hline, -⟩ := before_behind hmem
      obtain ⟨a, b, hkey, ha, hb⟩ := exists_trimmed (s := before '=' (stripCr line)) rfl
      split at h
      · rename_i v₁ hassign
        cases h
        obtain ⟨s, hs, hv⟩ := Variables.assign_cases hassign
        rw [hs] at hkey
        refine .inr ⟨s, a, b, behind '=' (stripCr line), ?_, ha, hb, hv⟩
        rw [List.append_assoc a, ← hkey]
        exact hline
      · cases h

/-! ### One file -/

/-- A variable without a carriage return is read by the server as what it holds. -/
def Agree (v : Variables) (config : Config) : Prop :=
  ∀ s, '\r' ∈ v.get s ∨ s.interpret (v.get s) = .ok (config.get s)

theorem agree_initial : Agree .initial .initial := by
  intro s
  right
  cases s <;> rfl

theorem agree_set {v : Variables} {config : Config} (h : Agree v config) {s : Setting} {value : Text}
    {x : s.Value} (hvalue : '\r' ∈ value ∨ s.interpret value = .ok x) :
    Agree (v.set s value) (config.set s x) := by
  intro s'
  by_cases hs : s' = s
  · subst hs
    simpa using hvalue
  · rw [Variables.get_set_of_ne v hs, Config.get_set_of_ne config hs]
    exact h s'

/-- A carriage return behind a line makes it neither a blank line nor a comment. -/
theorem skip_of_append {s : Text}
    (h : (s ++ ['\r']).dropWhile isSpace = [] ∨ ((s ++ ['\r']).dropWhile isSpace).head? = some '#') :
    s.dropWhile isSpace = [] ∨ (s.dropWhile isSpace).head? = some '#' := by
  rw [List.dropWhile_append] at h
  cases hs : s.dropWhile isSpace with
  | nil => exact .inl rfl
  | cons c t =>
    rw [hs] at h
    simpa using h

/-- The text of a value, and what stands before it, when the line ends in a carriage return. -/
theorem value_of_append {front value line : Text} (h : front ++ '=' :: value = line ++ ['\r']) :
    ∃ value', value = value' ++ ['\r'] ∧ line = front ++ '=' :: value' := by
  rcases List.eq_nil_or_concat value with rfl | ⟨value', c, rfl⟩
  · have hlast := (List.append_inj' h rfl).2
    simp at hlast
  · rw [List.concat_eq_append, ← List.cons_append, ← List.append_assoc] at h
    obtain ⟨hline, hlast⟩ := List.append_inj' h rfl
    exact ⟨value', by rw [List.concat_eq_append, hlast], hline.symm⟩

/-- Where the shell keeps one more carriage return, it is in the value. -/
theorem agree_line {v v' : Variables} {config config' : Config} {number : ℕ} {line line' : Text}
    (hcr : stripCr line' = stripCr line ∨ stripCr line' = stripCr line ++ ['\r'])
    (hagree : Agree v config) (hload : loadLine v line' = .ok v')
    (hread : config.readLine number line = .ok config') : Agree v' config' := by
  obtain ⟨rfl, hskip⟩ | ⟨s, a, b, value, hline', ha, hb, rfl⟩ := loadLine_cases hload
  · have hskip' : (stripCr line).dropWhile isSpace = [] ∨
        ((stripCr line).dropWhile isSpace).head? = some '#' := by
      rcases hcr with heq | heq
      · rwa [heq] at hskip
      · rw [heq] at hskip
        exact skip_of_append hskip
    rw [readLine_skip hskip', Except.ok.injEq] at hread
    rwa [← hread]
  · have hvalue : ∃ value', stripCr line = a ++ (s.key.toList ++ b) ++ '=' :: value' ∧
        (value = value' ∨ '\r' ∈ value) := by
      rw [List.append_assoc a] at hline'
      rcases hcr with heq | heq
      · exact ⟨value, heq ▸ hline', .inl rfl⟩
      · obtain ⟨value', rfl, hline⟩ := value_of_append (hline'.symm.trans heq)
        exact ⟨value', hline, .inr (by simp)⟩
    obtain ⟨value', hline, hor⟩ := hvalue
    have hspace : ∀ c, isSpace c = true → isWhitespace c = true ∧ c ≠ '=' := by
      intro c hc
      refine ⟨isWhitespace_of_isSpace hc, ?_⟩
      rintro rfl
      cases hc
    rw [readLine_key hline (fun c hc => hspace c (ha c hc)) fun c hc => hspace c (hb c hc)] at hread
    obtain ⟨x, hx, rfl⟩ := Result.map_ok.mp (Result.mapError_ok.mp hread)
    refine agree_set hagree ?_
    rcases hor with rfl | hreturn
    · exact .inr hx
    · exact .inl hreturn

/-- Both readers over the same pieces. -/
theorem agree_pieces {ps : List (Text × Bool)} {v v' : Variables} {config config' : Config} {number : ℕ}
    (hagree : Agree v config) (hload : (ps.map Prod.fst).foldlM loadLine v = .ok v')
    (hread : config.readLinesFrom number
      (ps.map fun (piece, ended) => if ended then stripCr piece else piece) = .ok config') :
    Agree v' config' := by
  induction ps generalizing v config number with
  | nil =>
    cases hload
    cases hread
    exact hagree
  | cons p ps ih =>
    obtain ⟨piece, ended⟩ := p
    simp only [List.map_cons, List.foldlM_cons, Config.readLinesFrom] at hload hread
    obtain ⟨v₁, hv₁, hload'⟩ := Result.bind_ok.mp hload
    obtain ⟨config₁, hconfig₁, hread'⟩ := Result.bind_ok.mp hread
    refine ih (agree_line ?_ hagree hv₁ hconfig₁) hload' hread'
    cases ended with
    | false => exact .inl rfl
    | true => exact stripCr_or (stripCr piece)

/-- On a text without null characters the installer loads what the server reads. -/
theorem agree_file {text : Text} (hnul : '\x00' ∉ text) {v : Variables} {config : Config}
    (hload : loadConfigFile .initial text = .ok v)
    (hread : Config.initial.readLinesFrom 1 (lines text) = .ok config) : Agree v config := by
  have hfilter : text.filter (· ≠ '\x00') = text := by
    rw [List.filter_eq_self]
    intro c hc
    rw [decide_eq_true_eq]
    rintro rfl
    exact hnul hc
  rw [loadConfigFile, readLines, hfilter] at hload
  exact agree_pieces agree_initial hload hread

/-! ### The written file -/

theorem applySetting_of_interpret {config : Config} {s : Setting} {value : Text} {x : s.Value}
    (h : s.interpret value = .ok x) : config.applySetting s value = .ok (config.set s x) := by
  rw [Config.applySetting, h]
  rfl

/-- The lines of some settings, each read as its variable says, fill in these settings. -/
theorem readLinesFrom_written {v : Variables} {goal : Config}
    (hclean : ∀ s, '\n' ∉ v.get s ∧ '\r' ∉ v.get s)
    (hgoal : ∀ s : Setting, s.interpret (v.get s) = .ok (goal.get s)) (settings : List Setting)
    (config : Config) (number : ℕ) :
    ∃ config', config.readLinesFrom number
        (lines (settings.flatMap fun s => printLine s.key (v.get s))) = .ok config' ∧
      ∀ s, config'.get s = if s ∈ settings then goal.get s else config.get s := by
  induction settings generalizing config number with
  | nil => exact ⟨config, rfl, by simp⟩
  | cons s settings ih =>
    obtain ⟨config', hread, hget⟩ := ih (config.set s (goal.get s)) (number + 1)
    refine ⟨config', ?_, fun s' => ?_⟩
    · have hkey := key_notMem s
      have hlf : '\n' ∉ s.key.toList ++ '=' :: v.get s := by
        have hfront : '\n' ∉ s.key.toList := fun hm => absurd (hkey _ hm).1 (by decide)
        simp [hfront, (hclean s).1]
      have hcr : '\r' ∉ s.key.toList ++ '=' :: v.get s := by
        have hfront : '\r' ∉ s.key.toList := fun hm => absurd (hkey _ hm).1 (by decide)
        simp [hfront, (hclean s).2]
      have hstrip : stripCr (s.key.toList ++ '=' :: v.get s) = [] ++ (s.key.toList ++ []) ++ '=' :: v.get s := by
        rw [stripCr_of_notMem hcr, List.append_nil, List.nil_append]
      rw [List.flatMap_cons, printLine, List.append_assoc, List.singleton_append, lines_line hlf hcr,
        Config.readLinesFrom, readLine_key hstrip (by simp) (by simp), applySetting_of_interpret (hgoal s)]
      exact hread
    · rw [hget]
      by_cases hs : s' = s
      · subst hs
        simp
      · rw [Config.get_set_of_ne config hs]
        simp [hs]

theorem writeConfigFile_ok {v : Variables} {text : Text} (h : writeConfigFile v = .ok text) :
    (∀ s, '\n' ∉ v.get s ∧ '\r' ∉ v.get s) ∧
      ∃ settings : List Setting, text = settings.flatMap (fun s => printLine s.key (v.get s)) ∧
        ∀ s ∉ settings, s = .dnsServers ∧ (v.dnsServers = [] ∨ v.dnsServers = defaultDnsServers) := by
  unfold writeConfigFile at h
  simp only at h
  by_cases hbreak : [v.port, v.user, v.password, v.whitelist, v.tcpTimeout, v.udpTimeout,
      v.dnsServers].any fun value => '\n' ∈ value ∨ '\r' ∈ value
  · rw [if_pos hbreak] at h
    cases h
  · rw [if_neg hbreak, Except.ok.injEq] at h
    refine ⟨fun s => ?_, ?_⟩
    · have hmem : v.get s ∈ [v.port, v.user, v.password, v.whitelist, v.tcpTimeout, v.udpTimeout,
          v.dnsServers] := by
        cases s <;> simp [Variables.get]
      have hclean : ¬('\n' ∈ v.get s ∨ '\r' ∈ v.get s) := by
        intro hs
        exact hbreak (List.any_eq_true.mpr ⟨v.get s, hmem, decide_eq_true hs⟩)
      exact not_or.mp hclean
    · by_cases hdefault : (if v.dnsServers = [] then defaultDnsServers else v.dnsServers) ≠
          defaultDnsServers
      · refine ⟨Setting.all, ?_, fun s hs => ?_⟩
        · rw [if_pos hdefault] at h
          rw [← h]
          simp [Setting.all, Setting.key, Variables.get]
        · exact absurd (by cases s <;> simp [Setting.all]) hs
      · refine ⟨Setting.all.dropLast, ?_, fun s hs => ⟨?_, ?_⟩⟩
        · rw [if_neg hdefault] at h
          rw [← h]
          simp [Setting.all, Setting.key, Variables.get]
        · cases s <;> first | rfl | exact absurd (by simp [Setting.all]) hs
        · by_cases hempty : v.dnsServers = []
          · exact .inl hempty
          · rw [if_neg hempty, not_not] at hdefault
            exact .inr hdefault

theorem interpret_defaultDnsServers :
    Setting.dnsServers.interpret defaultDnsServers = .ok (Config.initial.get .dnsServers) := by
  rfl

/-- The server reads the written file as the configuration that the variables stand for. -/
theorem readLinesFrom_writeConfigFile {v : Variables} {config : Config} {text : Text}
    (hagree : Agree v config) (hwrite : writeConfigFile v = .ok text) :
    Config.initial.readLinesFrom 1 (lines text) = .ok config := by
  obtain ⟨hclean, settings, rfl, hmissing⟩ := writeConfigFile_ok hwrite
  have hgoal : ∀ s : Setting, s.interpret (v.get s) = .ok (config.get s) := by
    intro s
    exact (hagree s).resolve_left (hclean s).2
  obtain ⟨config', hread, hget⟩ := readLinesFrom_written hclean hgoal settings .initial 1
  have heq : config' = config := by
    apply Config.ext_get
    intro s
    rw [hget]
    by_cases hs : s ∈ settings
    · rw [if_pos hs]
    · rw [if_neg hs]
      obtain ⟨rfl, hdns⟩ := hmissing s hs
      have hvalue := hgoal .dnsServers
      rcases hdns with hempty | hdefault
      · -- the server refuses an empty list of DNS servers
        have hrefused : Setting.dnsServers.interpret [] = .error "DNS 服务器必须是逗号分隔的 IP 或 IP:端口" := rfl
        rw [Variables.get, hempty, hrefused] at hvalue
        cases hvalue
      · rw [Variables.get, hdefault, interpret_defaultDnsServers] at hvalue
        exact Except.ok.inj hvalue
  rwa [← heq]

theorem parse_configPath {files : Text → Except String Text} {args : List Text} {path text : Text}
    (hargs : Config.parseArgs ⟨none, []⟩ args = .ok (some ⟨some path, []⟩))
    (hfile : files path = .ok text) (config : Config) :
    Config.parse files args = .ok (some config) ↔
      Config.initial.readLinesFrom 1 (lines text) = .ok config ∧ config.validate = .ok () := by
  have hfileRead : Config.initial.readFile files path =
      Config.initial.readLinesFrom 1 (lines text) := by
    rw [Config.readFile, hfile]
    rfl
  have hparse : Config.parse files args = (do
      let config ← Config.initial.readLinesFrom 1 (lines text)
      config.validate
      .ok (some config)) := by
    rw [← hfileRead, Config.parse, hargs]
    rfl
  rw [hparse]
  constructor
  · intro h
    obtain ⟨config', hread, hrest⟩ := Result.bind_ok.mp h
    obtain ⟨u, hvalid, hsome⟩ := Result.bind_ok.mp hrest
    obtain rfl := Option.some_inj.mp (Except.ok.inj hsome)
    exact ⟨hread, hvalid⟩
  · rintro ⟨hread, hvalid⟩
    exact Result.bind_ok.mpr ⟨config, hread, Result.bind_ok.mpr ⟨(), hvalid, rfl⟩⟩

/-- Loading the file of a configuration that the server accepts and writing the loaded values
back gives a file with the same configuration. -/
theorem rewrite_preserves {files : Text → Except String Text} {args : List Text} {path text text' : Text}
    {v : Variables} {config : Config}
    (hargs : Config.parseArgs ⟨none, []⟩ args = .ok (some ⟨some path, []⟩))
    (hfile : files path = .ok text) (hnul : '\x00' ∉ text)
    (hparse : Config.parse files args = .ok (some config))
    (hload : loadConfigFile .initial text = .ok v) (hwrite : writeConfigFile v = .ok text') :
    Config.parse (Function.update files path (.ok text')) args = .ok (some config) := by
  obtain ⟨hread, hvalid⟩ := (parse_configPath hargs hfile config).mp hparse
  have hagree := agree_file hnul hload hread
  exact (parse_configPath hargs (Function.update_self path _ files) config).mpr
    ⟨readLinesFrom_writeConfigFile hagree hwrite, hvalid⟩

/-- A file with a comment, a repeated key, a carriage return and no line feed at its end. -/
theorem rewrite_preserves_file :
    Config.parse
      (Function.update
        (fun _ => .ok "# c\nport=1\n  username = a#\r\npassword=b=\nport=2000".toList) "f".toList
        (.ok "port=2000\nusername= a#\npassword=b=\nwhitelist=\ntcp_timeout=0\nudp_timeout=60\n".toList))
      ["--config".toList, "f".toList] =
    .ok (some { Config.initial with port := 2000, username := " a#", password := "b=" }) :=
  rewrite_preserves
    (v := { Variables.initial with port := "2000".toList, user := " a#".toList, password := "b=".toList })
    rfl rfl (by decide) (by decide) (by decide) (by decide)

end Installer

end Brume
