import Brume.Installer.Parts

/-!
# The upgrade (`install.sh`)

`upgrade` takes the configuration of the service, fetches a release and replaces the
files of the installation. Wherever it ends, the service starts with the
configuration that it had, as long as the lines of the configuration file find room
and the commands that read the installation do not fail. Neither failure is noticed.
-/

namespace Brume
open Lib Session

namespace Installer
open Shell

/-- The old configuration goes to the file, or the file that is there is secured. -/
def storeConfig (v : Variables) (usesConfigFile : Bool) : Script Unit :=
  if usesConfigFile then do
    attempt .chmodConfigDir ""
    attempt .chmodConfig ""
  else writeConfig v

def upgrade (initSystem : InitSystem) : Script Unit := do
  let current ← ofExcept (← perform .getCurrentConfigAuto)
  let b ← prepareBinary
  storeConfig current.1 current.2
  installPreparedBinary b
  createService initSystem
  let _ ← perform (.run .scheduleUpgradeRestart)
  pure ()

/-! ### The migrated configuration -/

section
variable {releases : Set Binary} {room reads : Prop} {I : Installed → Prop} {Q : Unit → Disk → Prop} {d : Disk}

theorem keeps_storeConfig {v : Variables} {usesFile : Bool} (hroom : room) (hinv : I d.toInstalled)
    (hstored : ∀ text, (if usesFile then ∃ file, d.config = some file ∧ text = file.text else writeConfigFile v = .ok text) →
      I { d.toInstalled with config := some ⟨text, 0o600⟩ } ∧
      ∀ d', d'.toInstalled = { d.toInstalled with config := some ⟨text, 0o600⟩ } → Q () d')
    (hfile : usesFile = true → d.config ≠ none) :
    Keeps (commands releases room reads) (fun d => I d.toInstalled) Q (storeConfig v usesFile) d := by
  cases usesFile with
  | false => exact keeps_writeConfig hroom hinv hstored
  | true =>
    obtain ⟨file, hconfig⟩ := Option.ne_none_iff_exists'.mp (hfile rfl)
    obtain ⟨hsecured, hdone⟩ := hstored file.text ⟨file, hconfig, rfl⟩
    refine Keeps.bind (keeps_aside rfl hinv ?_)
    intro d₁ hchmod _
    rw [show d₁ = d from hchmod]
    apply keeps_attempt hinv
    · intro d₂ hchmod
      have hd₂ : d₂.toInstalled = { d.toInstalled with config := some ⟨file.text, 0o600⟩ } := by
        rw [show d₂ = _ from hchmod, hconfig]
        rfl
      exact ⟨hd₂ ▸ hsecured, hdone d₂ hd₂⟩
    · intro d₂ hchmod
      rw [show d₂ = d from hchmod]
      exact hinv

end

section
variable {pairs : List Pair} {config : Config}

/-- The file that the script makes of the arguments of an old service. -/
theorem migrated {files files' : Text → Except String Text} {v : Variables} {text : Text}
    (hparse : Config.parse files (pairs.flatMap Pair.words) = .ok (some config))
    (hreturns : Legacy.round.Returns ⟨pairs.flatMap Pair.words, .initial⟩ v) (hwrite : writeConfigFile v = .ok text)
    (hfile : files' configFile = .ok text) :
    Config.parse files' ["--config".toList, configFile] = .ok (some config) ∧ mentionsDnsServers text = false := by
  have hdns : v.dnsServers = defaultDnsServers := returns_dnsServers hreturns
  obtain rfl := hreturns.unique (legacy_returns pairs .initial)
  obtain ⟨hassign, hvalid⟩ := parse_pairs hparse
  refine ⟨(parse_configPath rfl hfile config).mpr ⟨readLinesFrom_writeConfigFile (agree_setAll hassign) hwrite, hvalid⟩, ?_⟩
  exact writeConfigFile_default hdns hwrite

end

/-! ### The upgrade -/

section
variable {manager : ServiceManager} {files : Text → Except String Text} {config : Config} {i : Installed}
  {releases : Set Binary} {room reads : Prop}

/-- What is stored before the program is replaced: a file that is read as the
configuration, and that the old service does not mind. -/
structure Stored (manager : ServiceManager) (files : Text → Except String Text) (config : Config) (before : Installed)
    (b : Binary) (text : Text) : Prop where
  read : ReadAs text config
  dns : mentionsDnsServers text = true → binarySupportsDns b = true
  old : Installed.Boots manager files config { before with config := some ⟨text, 0o600⟩ }
  new : Installed.Boots manager files config { before with binary := some b, config := some ⟨text, 0o600⟩ }

theorem stored_file {b : Binary} {service : ServiceFile} {file : File} (hb : b.Documented)
    (hinstalled : ∀ b, i.binary = some b → b.Earlier) (hboots : i.Boots manager files config)
    (hservice : i.service = some service) (hplain : Plain service.cmdArgs)
    (hfields : fields service.cmdArgs = ["--config".toList, configFile]) (hconfig : i.config = some file)
    (hsupports : binarySupportsConfig b = true) (hdns : mentionsDnsServers file.text = true → binarySupportsDns b = true) :
    Stored manager files config i b file.text := by
  obtain ⟨service', b₀, hservice', hbinary, hwhole, hprogram, hparse⟩ := hboots
  rw [hservice] at hservice'
  cases hservice'
  have hfile := @readToString_configFile files _ _ hconfig
  have hread : ReadAs file.text config := by
    rw [manager.split_plain _ hplain, hfields] at hparse
    exact readAs_of_parse hfile ((hinstalled b₀ hbinary).accepts _ _ _ hparse)
  refine ⟨hread, hdns, ⟨service, b₀, hservice, hbinary, hwhole, hprogram, ?_⟩, ?_⟩
  · rw [Installed.readToString, hconfig] at hparse
    exact hparse
  · exact @boots_file manager files config _ b service ⟨file.text, 0o600⟩ hb hsupports hdns hread rfl rfl hservice hwhole
      hprogram hplain hfields

theorem stored_arguments {b : Binary} {service : ServiceFile} {pairs : List Pair} {v : Variables} {text : Text}
    (hb : b.Documented) (hinstalled : ∀ b, i.binary = some b → b.Earlier) (hboots : i.Boots manager files config)
    (hservice : i.service = some service) (hplain : Plain service.cmdArgs)
    (hfields : fields service.cmdArgs = pairs.flatMap Pair.words)
    (hreturns : Legacy.round.Returns ⟨fields service.cmdArgs, .initial⟩ v) (hwrite : writeConfigFile v = .ok text) :
    Stored manager files config i b text := by
  obtain ⟨service', b₀, hservice', hbinary, hwhole, hprogram, hparse⟩ := hboots
  rw [hservice] at hservice'
  cases hservice'
  rw [manager.split_plain _ hplain, hfields] at hparse
  rw [hfields] at hreturns
  have hpairs := (hinstalled b₀ hbinary).accepts _ _ _ hparse
  have hmigrated : ∀ files' : Text → Except String Text, files' configFile = .ok text →
      Config.parse files' ["--config".toList, configFile] = .ok (some config) ∧ mentionsDnsServers text = false :=
    fun _ hfile => migrated hpairs hreturns hwrite hfile
  have hnone : mentionsDnsServers text = false := (hmigrated (fun _ => .ok text) rfl).2
  have hruns : ∀ b : Binary, b.Documented →
      Installed.Boots manager files config { i with binary := some b, config := some ⟨text, 0o600⟩ } := by
    intro b hb
    refine ⟨service, b, hservice, rfl, hwhole, hprogram, ?_⟩
    rw [manager.split_plain _ hplain, hfields]
    exact hb.arguments _ _ _ (parse_pairs_files hpairs _)
  refine ⟨fun files' hfile => (hmigrated files' hfile).1, ?_, ?_, hruns b hb⟩
  · rw [hnone]
    intro hfalse
    cases hfalse
  · have hold := hruns b₀ (hinstalled b₀ hbinary).toDocumented
    rwa [← hbinary] at hold

/-- The end of an upgrade. -/
def Upgraded (releases : Set Binary) (manager : ServiceManager) (files : Text → Except String Text) (config : Config)
    (initSystem : InitSystem) (i : Installed) : Prop :=
  (∃ b ∈ releases, i.binary = some b) ∧ (∃ file, i.config = some file ∧ file.mode = 0o600 ∧ ReadAs file.text config) ∧
    i.Defined manager files config initSystem

theorem keeps_behind_stored {d₀ d : Disk} {b : Binary} {text : Text} {initSystem : InitSystem} (hb : b.Documented)
    (hrelease : b ∈ releases) (hsupports : binarySupportsConfig b = true)
    (hstored : Stored manager files config d₀.toInstalled b text)
    (hd : d.toInstalled = { d₀.toInstalled with config := some ⟨text, 0o600⟩ }) :
    Keeps (commands releases room reads) (fun d => d.Ready manager files config ∧ d₀.Private d.toInstalled)
      (fun _ d => Upgraded releases manager files config initSystem d.toInstalled)
      (installPreparedBinary b >>= fun _ => createService initSystem >>= fun _ =>
        perform (.run .scheduleUpgradeRestart) >>= fun _ => pure ()) d := by
  let I : Installed → Prop := fun i => i.Ready manager files config ∧ d₀.Private i
  have hprivate : ∀ binary service, d₀.Private ⟨binary, some ⟨text, 0o600⟩, service⟩ :=
    fun binary service => private_stored _ binary service text
  have hfinal : Installed.Boots manager files config ⟨some b, some ⟨text, 0o600⟩, some configService⟩ :=
    @boots_file manager files config _ b configService ⟨text, 0o600⟩ hb hsupports hstored.dns hstored.read rfl rfl rfl rfl
      rfl plain_configArgs fields_configArgs
  have hservices : ∀ file : ServiceFile, file = configService ∨ file.Rewriting → I ⟨some b, some ⟨text, 0o600⟩, some file⟩ := by
    intro file hfile
    rcases hfile with rfl | hrewriting
    · exact ⟨.inl hfinal, hprivate _ _⟩
    · exact ⟨.inr ⟨⟨file, rfl, hrewriting⟩, hfinal⟩, hprivate _ _⟩
  have hinv : I d.toInstalled := by
    rw [hd]
    exact ⟨.inl hstored.old, hprivate _ _⟩
  have hinstalled : I { d.toInstalled with binary := some b } := by
    rw [hd]
    exact ⟨.inl hstored.new, hprivate _ _⟩
  refine Keeps.bind (keeps_installPreparedBinary (I := I) hinv ⟨hinstalled, ?_⟩)
  intro d₁ hd₁
  have hinv₁ : I d₁.toInstalled := hd₁ ▸ hinstalled
  rw [hd] at hd₁
  refine Keeps.bind (keeps_createService (I := I) hinv₁ ?_ ?_)
  · rw [hd₁]
    exact hservices
  intro d₂ file hd₂ hfile
  rw [hd₁] at hd₂
  have hinv₂ : I d₂.toInstalled := by
    rw [hd₂]
    exact hservices file (hfile.imp_right fun h => .inr h.2)
  have hend : Upgraded releases manager files config initSystem d₂.toInstalled := by
    rw [hd₂]
    refine ⟨⟨b, hrelease, rfl⟩, ⟨_, rfl, rfl, hstored.read⟩, ?_⟩
    rcases hfile with rfl | ⟨hinit, hunfilled⟩
    · exact .inl ⟨rfl, hfinal⟩
    · exact .inr ⟨hinit, file, rfl, hunfilled⟩
  refine Keeps.bind (keeps_run (I := I) rfl hinv₂ ?_)
  intro _ d₃ _ hd₃
  rw [← hd₃] at hinv₂ hend
  exact ⟨hinv₂, hend⟩

theorem keeps_upgrade {d₀ : Disk} (hroom : room) (hreads : reads) (hreleases : ∀ b ∈ releases, b.Documented) (hwritten : d₀.Written)
    (hinstalled : ∀ b, d₀.binary = some b → b.Earlier) (hboots : d₀.Boots manager files config) (initSystem : InitSystem) :
    Keeps (commands releases room reads) (fun d => d.Ready manager files config ∧ d₀.Private d.toInstalled)
      (fun _ d => Upgraded releases manager files config initSystem d.toInstalled) (upgrade initSystem) d₀ := by
  have hready : d₀.Ready manager files config ∧ d₀.Private d₀.toInstalled := ⟨.inl hboots, fun _ hfile => .inl hfile⟩
  refine Keeps.bind (keeps_perform hready ?_)
  intro r d ⟨hloads, hd⟩
  replace hloads := hloads.resolve_right fun hfails => hfails.1 hreads
  subst hd
  refine ⟨hready, Keeps.bind (keeps_ofExcept hready ?_)⟩
  intro current hcurrent
  obtain ⟨v, usesFile⟩ := current
  rw [hcurrent] at hloads
  obtain ⟨service, hservice, huses, hthere, hreturns⟩ := loads_ok hloads
  have hpresent : usesFile = true → d.config ≠ none := by
    intro hfile
    obtain ⟨file, hconfig, -⟩ := hthere hfile
    rw [hconfig]
    exact Option.some_ne_none file
  obtain ⟨hplain, hform⟩ := hwritten service hservice
  rw [← huses] at hform
  refine Keeps.bind (keeps_prepareBinary (I := fun i => i.Ready manager files config ∧ d.Private i) hreads hready ?_)
  intro b hrelease hsupports hdns
  have hb := hreleases b hrelease
  have hstored : ∀ text, (if usesFile then ∃ file, d.config = some file ∧ text = file.text
      else writeConfigFile v = .ok text) → Stored manager files config d.toInstalled b text := by
    intro text htext
    cases usesFile with
    | true =>
      obtain ⟨file, hconfig, rfl⟩ := htext
      rw [hconfig] at hdns
      exact stored_file hb hinstalled hboots hservice hplain hform hconfig hsupports hdns
    | false =>
      obtain ⟨pairs, hpairs⟩ := hform
      exact stored_arguments hb hinstalled hboots hservice hplain hpairs (hreturns rfl) htext
  refine Keeps.bind (keeps_storeConfig (I := fun i => i.Ready manager files config ∧ d.Private i) hroom hready ?_ hpresent)
  intro text htext
  have hfile := hstored text htext
  exact ⟨⟨.inl hfile.old, private_stored _ _ _ text⟩, fun _ hd' => keeps_behind_stored hb hrelease hsupports hfile hd'⟩

theorem leads_upgrade {d : Disk} {b : Binary} {v : Variables} {text : Text} {parts : List Text}
    (hload : commands releases room reads .getCurrentConfigAuto d (.ok (v, false)) d) (hwrite : writeConfigFile v = .ok text) (hparts : List.Forall₂ (· <+: ·) parts (settingLines v))
    (hroom : room → parts = settingLines v) (hrelease : b ∈ releases) (hconfig : binarySupportsConfig b = true)
    (hdns : d.config.any (mentionsDnsServers ·.text) = true → binarySupportsDns b = true) (initSystem : InitSystem) :
    Leads (commands releases room reads) (upgrade initSystem) d (.done (.ok ()))
      ⟨⟨some b, some ⟨parts.flatten, 0o600⟩, some configService⟩, none, none⟩ := by
  have hdefault : v.dnsServers = defaultDnsServers := by
    obtain hloads | ⟨-, cmdArgs, length, hloads⟩ := hload.1
    · obtain ⟨service, -, -, -, hreturns⟩ := loads_ok hloads
      exact returns_dnsServers (hreturns rfl)
    · obtain ⟨service, -, -, -, hreturns⟩ := loads_ok hloads
      exact returns_dnsServers (hreturns rfl)
  refine Leads.seq (leads_perform hload) (Leads.seq .start ?_)
  refine Leads.seq (leads_prepareBinary hrelease hconfig hdns) ?_
  refine Leads.seq (leads_writeConfig hwrite hdefault hparts hroom) ?_
  refine Leads.seq (leads_installPreparedBinary b) (Leads.seq (leads_createService initSystem) ?_)
  exact Leads.seq (leads_run rfl) .start

/-- From an installation that starts, an upgrade that is cut off anywhere, or fails anywhere, leaves
one that starts with the same configuration, or a service definition that is being replaced by
one that will; and an upgrade that ends well leaves a new release with it. The lines of the
file find room, and the commands that read the installation do not fail. -/
theorem upgrade_keeps_configuration {d₀ d : Disk} {p : Script Unit} (hreleases : ∀ b ∈ releases, b.Documented)
    (hwritten : d₀.Written) (hinstalled : ∀ b, d₀.binary = some b → b.Earlier) (hboots : d₀.Boots manager files config)
    (initSystem : InitSystem) (h : Leads (commands releases True True) (upgrade initSystem) d₀ p d) :
    d.Ready manager files config ∧ d₀.Private d.toInstalled ∧
      (p = .done (.ok ()) → Upgraded releases manager files config initSystem d.toInstalled) := by
  have hkeeps := (keeps_upgrade trivial trivial hreleases hwritten hinstalled hboots initSystem).leads h
  refine ⟨hkeeps.holds.1, hkeeps.holds.2, ?_⟩
  rintro rfl
  exact hkeeps.2

/-- A release that is this version of the server. -/
def server : Binary := ⟨some "--config --dns-servers".toList, Config.parse⟩

theorem server_earlier : server.Earlier := by
  have hdns : binarySupportsDns server = true := by decide
  exact ⟨⟨fun _ _ _ h => h, fun _ _ _ _ _ _ h => h⟩, fun _ _ _ h => h, fun _ _ _ _ _ _ => hdns⟩

theorem legacyOption_user : legacyOption "-user".toList = some .user := rfl

theorem legacyOption_pwd : legacyOption "-pwd".toList = some .pwd := rfl

/-- A service of a version without a configuration file. -/
def oldPairs : List Pair :=
  [⟨"-user".toList, .user, "a".toList, legacyOption_user⟩, ⟨"-pwd".toList, .pwd, "b".toList, legacyOption_pwd⟩]

def oldService : ServiceFile := ⟨program, "-user a -pwd b".toList, true⟩

/-- A service manager that splits every argument as plain words. -/
def wordManager : ServiceManager := ⟨fields, fun _ _ => rfl⟩

theorem oldFields : fields oldService.cmdArgs = oldPairs.flatMap Pair.words := by decide

theorem oldService_plain : Plain oldService.cmdArgs := by decide

theorem oldService_arguments : usesConfigFile oldService.cmdArgs = false := by decide

def oldDisk : Disk := ⟨⟨some server, none, some oldService⟩, none, none⟩

theorem oldDisk_loads : oldDisk.Loads (.ok (Variables.initial.setAll oldPairs, false)) := by
  have hreturns := legacy_returns oldPairs .initial
  rw [← oldFields] at hreturns
  exact .arguments rfl oldService_arguments hreturns

theorem oldDisk_written : ∃ text, writeConfigFile (Variables.initial.setAll oldPairs) = .ok text := by
  have hclean : ∀ p ∈ oldPairs, '\n' ∉ p.value ∧ '\r' ∉ p.value := by decide
  exact writeConfigFile_isOk fun s => ⟨notMem_setAll (fun p hp => (hclean p hp).1) (fun s => (initial_notMem s).1) s,
    notMem_setAll (fun p hp => (hclean p hp).2) (fun s => (initial_notMem s).2) s⟩

theorem upgrade_keeps_configuration_old :
    ∃ d, Leads (commands {server} True True) (upgrade .systemd) oldDisk (.done (.ok ())) d ∧
      Upgraded {server} wordManager (fun _ => .error "") { Config.initial with username := "a", password := "b" }
        .systemd d.toInstalled := by
  have hreleases : ∀ b ∈ ({server} : Set Binary), b.Documented := by
    intro b hb
    rw [Set.mem_singleton_iff.mp hb]
    exact server_earlier.toDocumented
  have hinstalled : ∀ b, oldDisk.binary = some b → b.Earlier := by
    intro b hb
    rw [← Option.some_inj.mp hb]
    exact server_earlier
  have hwritten : oldDisk.Written := by
    intro service hservice
    rw [← Option.some_inj.mp hservice, oldService_arguments, if_neg Bool.false_ne_true]
    exact ⟨oldService_plain, oldPairs, oldFields⟩
  have hboots : oldDisk.Boots wordManager (fun _ => .error "") { Config.initial with username := "a", password := "b" } := by
    have hparse : Config.parse (fun _ => .error "") (oldPairs.flatMap Pair.words) =
        .ok (some { Config.initial with username := "a", password := "b" }) := by decide
    refine ⟨oldService, server, rfl, rfl, rfl, rfl, ?_⟩
    rw [wordManager.split_plain _ oldService_plain, oldFields]
    exact parse_pairs_files hparse _
  obtain ⟨text, hwrite⟩ := oldDisk_written
  have hlines : List.Forall₂ (· <+: ·) (settingLines (Variables.initial.setAll oldPairs))
      (settingLines (Variables.initial.setAll oldPairs)) := List.forall₂_same.mpr fun line _ => List.prefix_refl line
  have hnone : oldDisk.config.any (mentionsDnsServers ·.text) = true → binarySupportsDns server = true :=
    fun h => absurd h Bool.false_ne_true
  have hrun := @leads_upgrade {server} True True oldDisk server _ _ _ ⟨.inl oldDisk_loads, rfl⟩ hwrite hlines (fun _ => rfl)
    (Set.mem_singleton server) (by decide) hnone .systemd
  exact ⟨_, hrun, (upgrade_keeps_configuration hreleases hwritten hinstalled hboots .systemd hrun).2.2 rfl⟩

/-- A `printf` that fails in front of another one goes unnoticed: whatever parts of the lines the file
system took, an upgrade of an old service ends well, and the service starts with what they say;
with the defaults, where it took nothing. -/
theorem upgrade_takes_parts {d : Disk} {b : Binary} {v : Variables} {text : Text} {parts : List Text}
    (hload : d.Loads (.ok (v, false))) (hwrite : writeConfigFile v = .ok text)
    (hparts : List.Forall₂ (· <+: ·) parts (settingLines v)) (hrelease : b ∈ releases) (hb : b.Documented)
    (hsupports : binarySupportsConfig b = true) (hdns : binarySupportsDns b = true) (initSystem : InitSystem) :
    ∃ d', Leads (commands releases False True) (upgrade initSystem) d (.done (.ok ())) d' ∧
      d'.config = some ⟨parts.flatten, 0o600⟩ ∧
        (∀ manager files config, ReadAs parts.flatten config → d'.Boots manager files config) ∧
        (parts.flatten = [] → ∀ manager files, d'.Boots manager files Config.initial) := by
  have hrun := @leads_upgrade releases False True _ _ _ _ _ ⟨.inl hload, rfl⟩ hwrite hparts False.elim hrelease hsupports
    (fun _ => hdns) initSystem
  have hboots : ∀ manager files config, ReadAs parts.flatten config →
      Installed.Boots manager files config ⟨some b, some ⟨parts.flatten, 0o600⟩, some configService⟩ := by
    intro manager files config hread
    exact @boots_file manager files config _ b configService ⟨parts.flatten, 0o600⟩ hb hsupports (fun _ => hdns) hread rfl
      rfl rfl rfl rfl plain_configArgs fields_configArgs
  refine ⟨_, hrun, rfl, hboots, fun hnil manager files => hboots manager files _ ?_⟩
  rw [hnil]
  exact readAs_nil

theorem upgrade_takes_parts_old :
    ∃ d, Leads (commands {server} False True) (upgrade .systemd) oldDisk (.done (.ok ())) d ∧
      d.Boots wordManager (fun _ => .error "") Config.initial := by
  have hparts : List.Forall₂ (· <+: ·) (List.replicate 6 []) (settingLines (Variables.initial.setAll oldPairs)) := by
    simp [settingLines]
  obtain ⟨text, hwrite⟩ := oldDisk_written
  obtain ⟨d, hrun, -, -, hboots⟩ := @upgrade_takes_parts {server} oldDisk server _ _ _ oldDisk_loads hwrite hparts rfl
    server_earlier.toDocumented (by decide) (by decide) .systemd
  exact ⟨d, hrun, hboots rfl _ _⟩

/-- A command that reads the service definition and fails goes unnoticed too: from any
installation with a service, an upgrade ends well with the defaults, and those have no credentials. -/
theorem upgrade_misreads {d : Disk} {b : Binary} {service : ServiceFile} (hservice : d.service = some service)
    (hrelease : b ∈ releases) (hb : b.Documented) (hsupports : binarySupportsConfig b = true)
    (hdns : binarySupportsDns b = true) (initSystem : InitSystem) :
    ∃ d', Leads (commands releases True False) (upgrade initSystem) d (.done (.ok ())) d' ∧
      ∀ manager files, d'.Boots manager files Config.initial := by
  have hloads : (d.misread [] 0).Loads (.ok (.initial, false)) := by
    have hmisread : (d.misread [] 0).service = some { service with cmdArgs := [] } := by
      rw [Installed.misread, hservice]
      rfl
    have huses : usesConfigFile [] = false := by decide
    exact .arguments hmisread huses (legacy_returns [] .initial)
  obtain ⟨text, hwrite⟩ : ∃ text, writeConfigFile .initial = .ok text :=
    writeConfigFile_isOk fun s => ⟨(initial_notMem s).1, (initial_notMem s).2⟩
  have hlines : List.Forall₂ (· <+: ·) (settingLines .initial) (settingLines .initial) :=
    List.forall₂_same.mpr fun line _ => List.prefix_refl line
  have hload : commands releases True False .getCurrentConfigAuto d (.ok (.initial, false)) d :=
    ⟨.inr ⟨not_false, [], 0, hloads⟩, rfl⟩
  have hrun := leads_upgrade hload hwrite hlines (fun _ => rfl) hrelease hsupports (fun _ => hdns) initSystem
  refine ⟨_, hrun, fun manager files => ?_⟩
  have hread : ReadAs (settingLines .initial).flatten Config.initial := by
    have hparse : Config.initial.readLinesFrom 1 (lines (settingLines .initial).flatten) = .ok .initial := by
      decide
    exact fun _ hfile => (parse_configPath rfl hfile _).mpr ⟨hparse, rfl⟩
  exact @boots_file manager files _ _ b configService ⟨_, 0o600⟩ hb hsupports (fun _ => hdns) hread rfl rfl rfl rfl rfl
    plain_configArgs fields_configArgs

end

end Installer

end Brume
