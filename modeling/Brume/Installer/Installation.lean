import Brume.Installer.LegacyArguments
import Brume.Lib.Script
import Mathlib.Data.List.Infix

/-!
# The files of an installation (`install.sh`)

What the script leaves for the next start of the service: the program, the
configuration file and the service definition, and the functions of the script that
replace them. Any command may fail, and where the script does not look at the status
of a command it goes on with what the command has done. A release of the server is
what its `--help` prints and what it makes of arguments and files, a service manager
how it splits the arguments of a definition. The directory of the download, the
directories' modes and the registration of the service are left out.
-/

namespace Brume
open Lib Session

namespace Installer
open Shell

/-! ### The installation -/

structure Binary where
  help : Option Text
  parse : (Text → Except String Text) → List Text → Except String (Option Config)

structure File where
  text : Text
  mode : ℕ
  deriving DecidableEq

/-- A service definition: the program, its arguments, and whether `tee` has written all of it. -/
structure ServiceFile where
  program : Text
  cmdArgs : Text
  whole : Bool
  deriving DecidableEq

/-- What a start of the service sees. -/
structure Installed where
  binary : Option Binary
  config : Option File
  service : Option ServiceFile

/-- With the files that the script moves into place. -/
structure Disk extends Installed where
  staged : Option Binary
  temp : Option File

def contains (s pattern : Text) : Bool := decide (pattern <:+: s)

def binarySupportsConfig (b : Binary) : Bool := b.help.any (contains · "--config".toList)

def binarySupportsDns (b : Binary) : Bool := b.help.any (contains · "--dns-servers".toList)

/-- A line that `^[[:space:]]*dns_servers[[:space:]]*=` matches. -/
def isDnsLine (line : Text) : Bool :=
  let content := line.dropWhile isSpace
  decide ("dns_servers".toList <+: content) &&
    ((content.drop "dns_servers".length).dropWhile isSpace).head? = some '='

def mentionsDnsServers (text : Text) : Bool := (lines text).any isDnsLine

def isBlankChar (c : Char) : Bool := c = ' ' || c = '\t' || c = '\n'

/-- `read -r -a` with the default `IFS`. -/
def fields (s : Text) : List Text := (s.splitOnP isBlankChar).filter (· ≠ [])

/-- No service manager and no shell quotes, expands or drops it. -/
def isPlain (c : Char) : Bool := c.isAlphanum || decide (c ∈ "+,-./:=@_".toList)

/-- Plain words with blanks between them. -/
def Plain (cmdArgs : Text) : Prop := ∀ c ∈ cmdArgs, isPlain c = true ∨ c = ' '

instance (cmdArgs : Text) : Decidable (Plain cmdArgs) := List.decidableBAll _ cmdArgs

/-- How a service manager makes arguments of those of a definition: plain words go to the
program as they are. -/
structure ServiceManager where
  split : Text → List Text
  split_plain : ∀ cmdArgs, Plain cmdArgs → split cmdArgs = fields cmdArgs

/-- `${INSTALL_DIR}/brume`. -/
def program : Text := "/usr/local/bin/brume".toList

def configArgs : Text := "--config ".toList ++ configFile

/-- The service definition that `create_service` leaves. -/
def configService : ServiceFile := ⟨program, configArgs, true⟩

/-- The placeholders of the SysVinit script. -/
def placeholderProgram : Text := "PLACEHOLDER_INSTALL_DIR/brume".toList

def placeholderArgs : Text := "--config PLACEHOLDER_CONFIG_FILE".toList

/-- `[[ " ${cmd_args} " == *" --config "* ]]`. -/
def usesConfigFile (cmdArgs : Text) : Bool := contains (' ' :: cmdArgs ++ [' ']) " --config ".toList

/-- `fs::read_to_string` on the files of the installation and the others. -/
def Installed.readToString (files : Text → Except String Text) (i : Installed) : Text → Except String Text :=
  Function.update files configFile (match i.config with
    | some file => .ok file.text
    | none => .error "No such file or directory")

/-- A start of the service runs the server with `config`. -/
structure Installed.Boots (manager : ServiceManager) (files : Text → Except String Text) (config : Config)
    (i : Installed) : Prop where
  starts : ∃ service b, i.service = some service ∧ i.binary = some b ∧ service.whole = true ∧
    service.program = program ∧ b.parse (i.readToString files) (manager.split service.cmdArgs) = .ok (some config)

/-! ### Commands -/

inductive Command where
  | mkdirConfigDir
  | chmodConfigDir
  | mktempConfig
  | openTemp
  | printf (line : Text)
  | chmodTemp
  | mvTemp
  | rmTemp
  | chmodConfig
  | curl
  | mktempBinary
  | cpBinary (b : Binary)
  | chmodStaged
  | mvStaged
  | rmStaged
  | openService
  | fillService (file : ServiceFile)
  | sedInstallDir
  | sedConfigFile
  | register
  | scheduleUpgradeRestart
  | stopService
  | removeFirewall (port : Text)
  | setupFirewall (port whitelist : Text)
  | restartService

inductive ScriptQuery where
  | run (command : Command)
  | getCurrentConfigAuto
  | tar
  | grepDnsServers
  | helpConfig (b : Binary)
  | helpDns (b : Binary)
  | helpInstalled

/-- A command answers with its success; the configuration comes with the mark whether
it is that of the file. -/
@[reducible] def ScriptAnswer : ScriptQuery → Type
  | .run _ => Bool
  | .getCurrentConfigAuto => Except IoError (Variables × Bool)
  | .tar => Option Binary
  | .grepDnsServers => Bool
  | .helpConfig _ => Bool
  | .helpDns _ => Bool
  | .helpInstalled => Bool

abbrev Script := Session ScriptQuery ScriptAnswer

/-- What a command does to the disk, when it succeeds (`true`) and when it fails. -/
def Command.Effect (d : Disk) : Command → Bool → Disk → Prop
  | .mktempConfig, true, d' => d' = { d with temp := some ⟨[], 0o600⟩ }
  | .openTemp, true, d' => d' = { d with temp := d.temp.map fun file => { file with text := [] } }
  | .printf line, true, d' => d' = { d with temp := d.temp.map fun file => { file with text := file.text ++ line } }
  -- what the file system took of the line
  | .printf line, false, d' =>
    ∃ part, part <+: line ∧ d' = { d with temp := d.temp.map fun file => { file with text := file.text ++ part } }
  | .chmodTemp, true, d' => d' = { d with temp := d.temp.map fun file => { file with mode := 0o600 } }
  | .mvTemp, true, d' => d' = { d with config := d.temp, temp := none }
  | .rmTemp, true, d' => d' = { d with temp := none }
  | .chmodConfig, true, d' => d' = { d with config := d.config.map fun file => { file with mode := 0o600 } }
  | .mktempBinary, true, d' => d' = { d with staged := none }
  | .cpBinary b, true, d' => d' = { d with staged := some b }
  | .cpBinary _, false, d' => d' = { d with staged := none }
  | .mvStaged, true, d' => d' = { d with binary := d.staged, staged := none }
  | .rmStaged, true, d' => d' = { d with staged := none }
  -- `tee` empties the file before it writes it
  | .openService, true, d' => d' = { d with service := some ⟨[], [], false⟩ }
  | .fillService file, true, d' => d' = { d with service := some file }
  | .fillService _, false, d' => ∃ part : ServiceFile, part.whole = false ∧ d' = { d with service := some part }
  | .sedInstallDir, true, d' => d' = { d with service := d.service.map fun file =>
      if file.program = placeholderProgram then { file with program } else file }
  | .sedConfigFile, true, d' => d' = { d with service := d.service.map fun file =>
      if file.cmdArgs = placeholderArgs then { file with cmdArgs := configArgs } else file }
  | _, _, d' => d' = d

/-- The outcomes of `get_current_config_auto` when its commands print what they read.
There is none when its loop over old arguments does not end. -/
inductive Installed.Loads (i : Installed) : Except IoError (Variables × Bool) → Prop
  | notInstalled (h : i.service = none) : i.Loads (.error ⟨.other, "Brume 服务未安装，无法更新"⟩)
  | invalidPath {service : ServiceFile} (hservice : i.service = some service)
      (huses : usesConfigFile service.cmdArgs = true)
      (h : contains service.cmdArgs configArgs = false ∨ i.config = none) :
      i.Loads (.error ⟨.other, "服务配置文件路径无效，请检查 /etc/brume/brume.conf"⟩)
  | file {service : ServiceFile} {file : File} (hservice : i.service = some service)
      (huses : usesConfigFile service.cmdArgs = true) (h : contains service.cmdArgs configArgs = true)
      (hconfig : i.config = some file) :
      i.Loads (((loadConfigFile .initial file.text).mapError fun e => ⟨.other, e⟩).map (·, true))
  | arguments {service : ServiceFile} {v : Variables} (hservice : i.service = some service)
      (huses : usesConfigFile service.cmdArgs = false)
      (h : Legacy.round.Returns ⟨fields service.cmdArgs, .initial⟩ v) : i.Loads (.ok (v, false))

/-- What `get_current_config_auto` takes an installation for when a `grep`, `head`, `sed` or
`read` in it fails, which it does not notice: whatever arguments were printed, and the front of
the file. -/
def Installed.misread (cmdArgs : Text) (length : ℕ) (i : Installed) : Installed :=
  { i with
    service := i.service.map fun file => { file with cmdArgs }
    config := i.config.map fun file => { file with text := file.text.take length } }

/-- `releases` are the programs that a download can give, `room` that the lines of the
configuration always find room, `reads` that the commands that read it do not fail. A failing
`grep -q` counts as not found, a failing `--help` as one without the option. -/
def commands (releases : Set Binary) (room reads : Prop) : Commands ScriptQuery ScriptAnswer Disk
  | .run command, d, success, d' => command.Effect d success d' ∧ (room → ∀ line, command = .printf line → success = true)
  | .getCurrentConfigAuto, d, r, d' =>
    (d.Loads r ∨ ¬reads ∧ ∃ cmdArgs length, (d.misread cmdArgs length).Loads r) ∧ d' = d
  | .tar, d, unpacked, d' => (∀ b, unpacked = some b → b ∈ releases) ∧ d' = d
  | .grepDnsServers, d, found, d' =>
    (found = d.config.any (mentionsDnsServers ·.text) ∨ ¬reads ∧ found = false) ∧ d' = d
  | .helpConfig b, d, supports, d' => (supports = true → binarySupportsConfig b = true) ∧ d' = d
  | .helpDns b, d, supports, d' => (supports = true → binarySupportsDns b = true) ∧ d' = d
  | .helpInstalled, d, supports, d' => (supports = true → d.binary.any binarySupportsConfig = true) ∧ d' = d

/-! ### The script -/

/-- A command and its `|| return 1` or `exit 1`. -/
def attempt (command : Command) (message : String) : Script Unit := do
  if ← perform (.run command) then pure () else throw ⟨.other, message⟩

/-- With a command that cleans up behind a failure. -/
def attemptOr (command cleanup : Command) (message : String) : Script Unit := do
  if ← perform (.run command) then pure ()
  else
    let _ ← perform (.run cleanup)
    throw ⟨.other, message⟩

/-- The status of a `printf` in front of another command is dropped. -/
def printAll : List Text → Script Unit
  | [] => pure ()
  | line :: rest => do
    let _ ← perform (.run (.printf line))
    printAll rest

def settingLines (v : Variables) : List Text :=
  [printLine "port" v.port, printLine "username" v.user, printLine "password" v.password,
    printLine "whitelist" v.whitelist, printLine "tcp_timeout" v.tcpTimeout, printLine "udp_timeout" v.udpTimeout]

/-- The group of `write_config_file`, with the status of its last command. -/
def printSettings (v : Variables) : Script Bool := do
  if ← perform (.run .openTemp) then
    printAll (settingLines v)
    if (if v.dnsServers = [] then defaultDnsServers else v.dnsServers) ≠ defaultDnsServers then
      perform (ScriptQuery.run (.printf (printLine "dns_servers" v.dnsServers)))
    else pure true
  else pure false

def writeConfig (v : Variables) : Script Unit := do
  let values := [v.port, v.user, v.password, v.whitelist, v.tcpTimeout, v.udpTimeout, v.dnsServers]
  if values.any fun value => '\n' ∈ value ∨ '\r' ∈ value then throw ⟨.other, "配置值不能包含换行符"⟩
  else
    attempt .mkdirConfigDir ""
    attempt .chmodConfigDir ""
    attempt .mktempConfig ""
    if ← printSettings v then
      attemptOr .chmodTemp .rmTemp ""
      attemptOr .mvTemp .rmTemp ""
    else
      let _ ← perform (.run .rmTemp)
      throw ⟨.other, ""⟩

def prepareBinary : Script Binary := do
  attempt .curl "下载失败，请检查网络连接或版本是否存在"
  match ← perform ScriptQuery.tar with
  | none => throw ⟨.other, "解压失败"⟩
  | some b =>
    if !(← perform (.helpConfig b)) then
      throw ⟨.other, "该版本不支持配置文件，请选择包含 --config 功能的新版本"⟩
    else
      if ← perform .grepDnsServers then
        if !(← perform (.helpDns b)) then
          throw ⟨.other, "该版本不支持 dns_servers，请选择包含 --dns-servers 功能的新版本"⟩
        else pure b
      else pure b

def installPreparedBinary (b : Binary) : Script Unit := do
  attempt .mktempBinary ""
  attemptOr (.cpBinary b) .rmStaged "安装失败，请检查权限"
  attemptOr .chmodStaged .rmStaged "安装失败，请检查权限"
  attemptOr .mvStaged .rmStaged "安装失败，请检查权限"

inductive InitSystem where
  | systemd
  | openrc
  | sysvinit
  deriving DecidableEq

/-- `tee "${service_file}"`. -/
def teeService (file : ServiceFile) (message : String) : Script Unit := do
  attempt .openService message
  attempt (.fillService file) message

def createService : InitSystem → Script Unit
  | .systemd => do
    teeService configService "创建服务文件失败，请检查权限"
    let _ ← perform (.run .register)
    pure ()
  | .openrc => do
    teeService configService "创建 OpenRC 服务脚本失败"
    let _ ← perform (.run .register)
    pure ()
  | .sysvinit => do
    teeService ⟨placeholderProgram, placeholderArgs, true⟩ "创建 SysVinit 服务脚本失败"
    let _ ← perform (.run .sedInstallDir)
    let _ ← perform (.run .sedConfigFile)
    let _ ← perform (.run .register)
    pure ()

/-! ### Releases -/

/-- What the script relies on: a release understands the arguments of an old service, and
the configuration file as far as its help goes, as this version of the server does. -/
structure Binary.Documented (b : Binary) : Prop where
  arguments : ∀ files (pairs : List Pair) config,
    Config.parse files (pairs.flatMap Pair.words) = .ok (some config) →
      b.parse files (pairs.flatMap Pair.words) = .ok (some config)
  configFile : ∀ files text config, binarySupportsConfig b = true → files configFile = .ok text →
    (mentionsDnsServers text = true → binarySupportsDns b = true) →
      Config.parse files ["--config".toList, configFile] = .ok (some config) →
        b.parse files ["--config".toList, configFile] = .ok (some config)

/-- It takes no arguments that this version refuses, and its help tells what its configuration file can hold. -/
structure Binary.Earlier (b : Binary) : Prop extends b.Documented where
  accepts : ∀ files args config, b.parse files args = .ok (some config) → Config.parse files args = .ok (some config)
  dns : ∀ files text config, files Installer.configFile = .ok text → mentionsDnsServers text = true →
    b.parse files ["--config".toList, Installer.configFile] = .ok (some config) → binarySupportsDns b = true

section
variable {pairs : List Pair} {config : Config}

theorem pairs_known (pairs : List Pair) : ∀ o ∈ pairs.map Pair.occurrence, o.Known := by
  intro o ho
  obtain ⟨p, -, rfl⟩ := List.mem_map.mp ho
  exact p.known

theorem pairs_tokens (pairs : List Pair) :
    pairs.flatMap Pair.words = (pairs.map Pair.occurrence).flatMap Occurrence.tokens := by
  rw [List.flatMap_map]
  rfl

theorem pairs_configs (pairs : List Pair) : Config.configs (pairs.map Pair.occurrence) = [] := by
  have hnot : ∀ p : Pair, ¬p.occurrence.IsConfig := by
    rintro ⟨option, setting, value, hlegacy⟩ rfl
    cases hlegacy
  simp [Config.configs, hnot]

theorem pairs_assignments (pairs : List Pair) :
    (pairs.map Pair.occurrence).filterMap Occurrence.assignment? = assignments pairs := by
  rw [List.filterMap_map, assignments, ← List.filterMap_eq_map]
  exact List.filterMap_congr fun p _ => p.assignment

theorem parse_pairs {files : Text → Except String Text} (h : Config.parse files (pairs.flatMap Pair.words) = .ok (some config)) :
    Config.initial.assign (assignments pairs) = .ok config ∧ config.validate = .ok () := by
  rw [pairs_tokens] at h
  obtain ⟨file, hconfigs, hassign, hvalid⟩ := Config.parse_assign (pairs_known pairs) h
  have hempty : file = [] := by
    obtain ⟨-, hfile⟩ | ⟨path, contents, hone, -⟩ := hconfigs
    · exact hfile
    · rw [pairs_configs] at hone
      cases hone
  rw [hempty, List.nil_append, pairs_assignments] at hassign
  exact ⟨hassign, hvalid⟩

theorem parse_pairs_files {files : Text → Except String Text}
    (h : Config.parse files (pairs.flatMap Pair.words) = .ok (some config)) (files' : Text → Except String Text) :
    Config.parse files' (pairs.flatMap Pair.words) = .ok (some config) := by
  obtain ⟨a, hargs, config₁, hread, hrest⟩ := Config.parse_ok.mp h
  have hpath : a.configPath = none := by
    rw [pairs_tokens, Config.parseArgs_flatMap (pairs_known pairs)] at hargs
    obtain ⟨a', hadd, hsome⟩ := Result.map_ok.mp hargs
    obtain rfl := Option.some_inj.mp hsome
    have hlist := (Config.addAll_ok.mp hadd).2.1
    rw [pairs_configs] at hlist
    simpa using hlist
  rw [hpath] at hread
  refine Config.parse_ok.mpr ⟨a, hargs, config₁, ?_, hrest⟩
  rw [hpath]
  exact hread

theorem isDnsLine_printLine {s : Setting} (hs : s ≠ .dnsServers) (value : Text) :
    isDnsLine (s.key.toList ++ '=' :: value) = false := by
  cases s <;> first | exact absurd rfl hs | simp [isDnsLine, Setting.key, isSpace]

theorem mentionsDnsServers_written {v : Variables} (hclean : ∀ s, '\n' ∉ v.get s ∧ '\r' ∉ v.get s)
    (settings : List Setting) (hsettings : Setting.dnsServers ∉ settings) :
    mentionsDnsServers (settings.flatMap fun s => printLine s.key (v.get s)) = false := by
  induction settings with
  | nil => rfl
  | cons s settings ih =>
    obtain ⟨hs, hrest⟩ := not_or.mp (List.mem_cons.not.mp hsettings)
    have hkey := key_notMem s
    have hlf : '\n' ∉ s.key.toList ++ '=' :: v.get s := by
      have hfront : '\n' ∉ s.key.toList := fun hm => absurd (hkey _ hm).1 (by decide)
      simp [hfront, (hclean s).1]
    have hcr : '\r' ∉ s.key.toList ++ '=' :: v.get s := by
      have hfront : '\r' ∉ s.key.toList := fun hm => absurd (hkey _ hm).1 (by decide)
      simp [hfront, (hclean s).2]
    rw [mentionsDnsServers, List.flatMap_cons, printLine, List.append_assoc, List.singleton_append,
      lines_line hlf hcr, List.any_cons, isDnsLine_printLine (Ne.symm hs)]
    exact ih hrest

theorem writeConfigFile_default {v : Variables} {text : Text} (hdns : v.dnsServers = defaultDnsServers)
    (h : writeConfigFile v = .ok text) : mentionsDnsServers text = false := by
  have hclean := (writeConfigFile_ok h).1
  unfold writeConfigFile at h
  simp only at h
  split at h
  · cases h
  · have hne : v.dnsServers ≠ [] := by
      rw [hdns]
      decide
    rw [if_neg hne, hdns, if_neg (not_not.mpr rfl), List.append_nil, Except.ok.injEq] at h
    rw [← h]
    have hlines := mentionsDnsServers_written hclean Setting.all.dropLast (by decide)
    simpa [Setting.all, Setting.key, Variables.get] using hlines

end

theorem legacyOption_ne {word : Text} {s : Setting} (h : legacyOption word = some s) : Setting.dnsServers ≠ s := by
  unfold legacyOption at h
  split_ifs at h <;> cases h <;> decide

theorem returns_dnsServers {words : List Text} {v v' : Variables} (h : Legacy.round.Returns ⟨words, v⟩ v') :
    v'.dnsServers = v.dnsServers := by
  have hround : ∀ s t : Legacy, s.vars.dnsServers = v.dnsServers → Legacy.round s = .inl t →
      t.vars.dnsServers = v.dnsServers := by
    intro s t hs ht
    unfold Legacy.round at ht
    split at ht
    · cases ht
    · split at ht
      · rename_i setting hoption
        cases ht
        exact (Variables.get_set_of_ne s.vars (legacyOption_ne hoption) _).trans hs
      · cases ht
        exact hs
  obtain ⟨s, hs, hleave⟩ := h.invariant _ hround rfl
  unfold Legacy.round at hleave
  split at hleave
  · cases hleave
    exact hs
  · split at hleave <;> cases hleave

/-- The configuration is that of the file, or of the loop over old arguments. -/
theorem loads_ok {i : Installed} {v : Variables} {usesFile : Bool} (h : i.Loads (.ok (v, usesFile))) :
    ∃ service, i.service = some service ∧ usesFile = usesConfigFile service.cmdArgs ∧
      (usesFile = true → ∃ file, i.config = some file ∧ loadConfigFile .initial file.text = .ok v) ∧
      (usesFile = false → Legacy.round.Returns ⟨fields service.cmdArgs, .initial⟩ v) := by
  generalize hr : (Except.ok (v, usesFile) : Except IoError (Variables × Bool)) = r at h
  cases h with
  | notInstalled h => cases hr
  | invalidPath hservice huses h => cases hr
  | file hservice huses h hconfig =>
    obtain ⟨_, hload, heq⟩ := Result.map_ok.mp hr.symm
    cases heq
    exact ⟨_, hservice, huses.symm, fun _ => ⟨_, hconfig, Result.mapError_ok.mp hload⟩,
      fun hfalse => absurd hfalse (by decide)⟩
  | arguments hservice huses h =>
    cases hr
    exact ⟨_, hservice, huses.symm, fun htrue => absurd htrue (by decide), fun _ => h⟩

/-! ### Starts -/

/-- A `sed` of the SysVinit script has not run, or has failed. -/
def ServiceFile.Unfilled (file : ServiceFile) : Prop :=
  file.program = placeholderProgram ∨ file.cmdArgs = placeholderArgs

/-- A definition that `create_service` has not finished. -/
def ServiceFile.Rewriting (file : ServiceFile) : Prop := file.whole = false ∨ file.Unfilled

/-- The service starts with `config`, or it will when its definition is finished. -/
def Installed.Ready (manager : ServiceManager) (files : Text → Except String Text) (config : Config)
    (i : Installed) : Prop :=
  i.Boots manager files config ∨ (∃ file, i.service = some file ∧ file.Rewriting) ∧
    Installed.Boots manager files config { i with service := some configService }

/-- Behind `create_service` the service starts with `config`, or a `sed` of the SysVinit script has failed. -/
def Installed.Defined (manager : ServiceManager) (files : Text → Except String Text) (config : Config)
    (initSystem : InitSystem) (i : Installed) : Prop :=
  i.service = some configService ∧ i.Boots manager files config ∨
    initSystem = .sysvinit ∧ ∃ file, i.service = some file ∧ file.Unfilled

/-- A configuration file that was not there before can be read by its owner only. -/
def Installed.Private (before i : Installed) : Prop :=
  ∀ file, i.config = some file → before.config = some file ∨ file.mode = 0o600

theorem private_stored (before : Installed) (binary : Option Binary) (service : Option ServiceFile) (text : Text) :
    before.Private ⟨binary, some ⟨text, 0o600⟩, service⟩ := by
  intro file hfile
  cases hfile
  exact .inr rfl

/-- The service was defined by this script: with the file, or with arguments as before there
was one, which are plain words. -/
def Installed.Written (i : Installed) : Prop :=
  ∀ service, i.service = some service →
    Plain service.cmdArgs ∧
      if usesConfigFile service.cmdArgs then fields service.cmdArgs = ["--config".toList, configFile]
      else ∃ pairs : List Pair, fields service.cmdArgs = pairs.flatMap Pair.words

section
variable {manager : ServiceManager} {files : Text → Except String Text} {config : Config} {i : Installed}

theorem fields_configArgs : fields configArgs = ["--config".toList, configFile] := by
  decide

theorem plain_configArgs : Plain configArgs := by
  decide

theorem readToString_configFile {file : File} (h : i.config = some file) :
    i.readToString files configFile = .ok file.text := by
  rw [Installed.readToString, Function.update_self, h]

/-- The text of a configuration file, as every reader of this version takes it. -/
def ReadAs (text : Text) (config : Config) : Prop :=
  ∀ files : Text → Except String Text, files configFile = .ok text →
    Config.parse files ["--config".toList, configFile] = .ok (some config)

/-- An empty file is that of the defaults. -/
theorem readAs_nil : ReadAs [] Config.initial :=
  fun _ hfile => (parse_configPath rfl hfile _).mpr ⟨rfl, rfl⟩

theorem readAs_of_parse {text : Text} (hfile : files configFile = .ok text)
    (h : Config.parse files ["--config".toList, configFile] = .ok (some config)) : ReadAs text config :=
  fun _ hfile' => (parse_configPath rfl hfile' config).mpr ((parse_configPath rfl hfile config).mp h)

/-- A release that the script lets through starts with the file. -/
theorem boots_file {b : Binary} {service : ServiceFile} {file : File} (hb : b.Documented)
    (hsupports : binarySupportsConfig b = true) (hdns : mentionsDnsServers file.text = true → binarySupportsDns b = true)
    (hread : ReadAs file.text config) (hbinary : i.binary = some b) (hconfig : i.config = some file)
    (hservice : i.service = some service) (hwhole : service.whole = true) (hprogram : service.program = program)
    (hplain : Plain service.cmdArgs) (hfields : fields service.cmdArgs = ["--config".toList, configFile]) :
    i.Boots manager files config := by
  have hfile := @readToString_configFile files _ _ hconfig
  refine ⟨service, b, hservice, hbinary, hwhole, hprogram, ?_⟩
  rw [manager.split_plain _ hplain, hfields]
  exact hb.configFile _ _ _ hsupports hfile hdns (hread _ hfile)

end

end Installer

end Brume
