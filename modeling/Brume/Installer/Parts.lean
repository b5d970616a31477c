import Brume.Installer.Installation
import Mathlib.Data.List.Forall2

/-!
# The functions of the script under failures (`install.sh`)

For every function that replaces a file of the installation: what holds wherever it
is cut off, if a condition on the installation holds before and behind the one
command that matters; and a run of it that returns.
-/

namespace Brume
open Lib Session

namespace Installer
open Shell

/-! ### What the parts of the script keep -/

section
variable {releases : Set Binary} {room reads : Prop} {I : Installed → Prop} {Q : Unit → Disk → Prop} {d d' : Disk}

/-- The commands that move no file of the installation. -/
def Command.aside : Command → Bool
  | .mvTemp | .chmodConfig | .mvStaged | .openService | .fillService _ | .sedInstallDir | .sedConfigFile => false
  | _ => true

theorem effect_aside {command : Command} (haside : command.aside = true) {success : Bool} (h : command.Effect d success d') :
    d'.toInstalled = d.toInstalled := by
  cases command with
  | mvTemp | chmodConfig | mvStaged | openService | fillService | sedInstallDir | sedConfigFile => cases haside
  | printf line =>
    cases success with
    | true =>
      cases h
      rfl
    | false =>
      obtain ⟨part, -, hd⟩ := h
      rw [hd]
  | _ => cases success <;> cases h <;> rfl

theorem keeps_run {command : Command} {Q : Bool → Disk → Prop} (haside : command.aside = true) (hinv : I d.toInstalled)
    (hQ : ∀ success d', command.Effect d success d' → d'.toInstalled = d.toInstalled → Q success d') :
    Keeps (commands releases room reads) (fun d => I d.toInstalled) Q (perform (ScriptQuery.run command) : Script Bool) d := by
  refine ⟨hinv, ?_⟩
  intro success d' ⟨heffect, _⟩
  have hsame := effect_aside haside heffect
  have hinv' : I d'.toInstalled := hsame ▸ hinv
  exact ⟨hinv', hQ success d' heffect hsame⟩

theorem keeps_attempt {command : Command} {message : String} (hinv : I d.toInstalled)
    (hok : ∀ d', command.Effect d true d' → I d'.toInstalled ∧ Q () d')
    (hfail : ∀ d', command.Effect d false d' → I d'.toInstalled) :
    Keeps (commands releases room reads) (fun d => I d.toInstalled) Q (attempt command message) d := by
  refine Keeps.bind (keeps_perform hinv ?_)
  intro success d' ⟨heffect, _⟩
  cases success with
  | true => exact ⟨(hok d' heffect).1, hok d' heffect⟩
  | false => exact ⟨hfail d' heffect, hfail d' heffect⟩

theorem keeps_aside {command : Command} {message : String} (haside : command.aside = true) (hinv : I d.toInstalled)
    (hQ : ∀ d', command.Effect d true d' → d'.toInstalled = d.toInstalled → Q () d') :
    Keeps (commands releases room reads) (fun d => I d.toInstalled) Q (attempt command message) d := by
  apply keeps_attempt hinv
  · intro d' heffect
    have hsame := effect_aside haside heffect
    exact ⟨hsame ▸ hinv, hQ d' heffect hsame⟩
  · intro d' heffect
    exact effect_aside haside heffect ▸ hinv

theorem keeps_attemptOr {command cleanup : Command} {message : String} (hcleanup : cleanup.aside = true)
    (hinv : I d.toInstalled) (hok : ∀ d', command.Effect d true d' → I d'.toInstalled ∧ Q () d')
    (hfail : ∀ d', command.Effect d false d' → d'.toInstalled = d.toInstalled) :
    Keeps (commands releases room reads) (fun d => I d.toInstalled) Q (attemptOr command cleanup message) d := by
  refine Keeps.bind (keeps_perform hinv ?_)
  intro success d' ⟨heffect, _⟩
  cases success with
  | true => exact ⟨(hok d' heffect).1, hok d' heffect⟩
  | false =>
    have hinv' : I d'.toInstalled := hfail d' heffect ▸ hinv
    refine ⟨hinv', Keeps.bind (keeps_run hcleanup hinv' ?_)⟩
    intro _ d'' _ hsame
    have hinv'' : I d''.toInstalled := hsame ▸ hinv'
    exact hinv''

theorem keeps_asideOr {command cleanup : Command} {message : String} (haside : command.aside = true)
    (hcleanup : cleanup.aside = true) (hinv : I d.toInstalled)
    (hQ : ∀ d', command.Effect d true d' → d'.toInstalled = d.toInstalled → Q () d') :
    Keeps (commands releases room reads) (fun d => I d.toInstalled) Q (attemptOr command cleanup message) d := by
  apply keeps_attemptOr hcleanup hinv
  · intro d' heffect
    have hsame := effect_aside haside heffect
    exact ⟨hsame ▸ hinv, hQ d' heffect hsame⟩
  · intro d' heffect
    exact effect_aside haside heffect

theorem keeps_printAll (hroom : room) (hinv : I d.toInstalled) (lines : List Text) {text : Text} {mode : ℕ}
    (htemp : d.temp = some ⟨text, mode⟩) :
    Keeps (commands releases room reads) (fun d => I d.toInstalled)
      (fun _ d' => d' = { d with temp := some ⟨text ++ lines.flatten, mode⟩ }) (printAll lines) d := by
  induction lines generalizing d text with
  | nil =>
    refine ⟨hinv, ?_⟩
    rw [List.flatten_nil, List.append_nil, ← htemp]
  | cons line rest ih =>
    refine Keeps.bind (keeps_perform hinv ?_)
    intro success d' ⟨heffect, hnever⟩
    obtain rfl := hnever hroom line rfl
    cases heffect
    refine ⟨hinv, ?_⟩
    have htemp' : (d.temp.map fun file => { file with text := file.text ++ line }) = some ⟨text ++ line, mode⟩ := by
      rw [htemp]
      rfl
    have hrest := ih (d := { d with temp := d.temp.map fun file => { file with text := file.text ++ line } }) hinv htemp'
    rw [List.append_assoc, ← List.flatten_cons] at hrest
    exact hrest

theorem keeps_printSettings {v : Variables} {text : Text} (hroom : room) (hinv : I d.toInstalled)
    (hwrite : writeConfigFile v = .ok text) {file : File} (htemp : d.temp = some file) :
    Keeps (commands releases room reads) (fun d => I d.toInstalled)
      (fun success d' => d'.toInstalled = d.toInstalled ∧ (success = true → d'.temp = some ⟨text, file.mode⟩))
      (printSettings v) d := by
  rw [writeConfigFile] at hwrite
  simp only at hwrite
  split at hwrite
  · cases hwrite
  · rw [Except.ok.injEq] at hwrite
    refine Keeps.bind (keeps_run rfl hinv ?_)
    intro success d₁ heffect hd₁
    have hinv₁ : I d₁.toInstalled := hd₁ ▸ hinv
    cases success with
    | false => exact ⟨hinv₁, hd₁, fun hfalse => absurd hfalse (by decide)⟩
    | true =>
      have htemp₁ : d₁.temp = some ⟨[], file.mode⟩ := by
        rw [show d₁ = _ from heffect, htemp]
        rfl
      refine Keeps.bind ((keeps_printAll hroom hinv₁ (settingLines v) htemp₁).imp ?_)
      intro _ d₂ hd₂
      have hsame : d₂.toInstalled = d.toInstalled := by
        rw [hd₂]
        exact hd₁
      have hinv₂ : I d₂.toInstalled := hsame ▸ hinv
      by_cases hdns : (if v.dnsServers = [] then defaultDnsServers else v.dnsServers) ≠ defaultDnsServers
      · rw [if_pos hdns] at hwrite ⊢
        refine ⟨hinv₂, ?_⟩
        intro success d₃ ⟨heffect, hnever⟩
        obtain rfl := hnever hroom _ rfl
        have hd₃ := effect_aside rfl heffect
        have hinv₃ : I d₃.toInstalled := hd₃ ▸ hinv₂
        refine ⟨hinv₃, hd₃.trans hsame, fun _ => ?_⟩
        rw [show d₃ = _ from heffect]
        simp [hd₂, ← hwrite, settingLines]
      · rw [if_neg hdns] at hwrite ⊢
        refine ⟨hinv₂, hsame, fun _ => ?_⟩
        simp [hd₂, ← hwrite, settingLines]

theorem keeps_writeConfig {v : Variables} (hroom : room) (hinv : I d.toInstalled)
    (hwritten : ∀ text, writeConfigFile v = .ok text → I { d.toInstalled with config := some ⟨text, 0o600⟩ } ∧
      ∀ d', d'.toInstalled = { d.toInstalled with config := some ⟨text, 0o600⟩ } → Q () d') :
    Keeps (commands releases room reads) (fun d => I d.toInstalled) Q (writeConfig v) d := by
  unfold writeConfig
  simp only
  split
  · exact hinv
  · rename_i hclean
    obtain ⟨text, hwrite⟩ : ∃ text, writeConfigFile v = .ok text := by
      rw [writeConfigFile]
      simp only
      rw [if_neg hclean]
      exact ⟨_, rfl⟩
    obtain ⟨hmoved, hdone⟩ := hwritten text hwrite
    refine Keeps.bind (keeps_aside rfl hinv ?_)
    intro d₁ _ hd₁
    rw [← hd₁] at hinv hmoved hdone
    refine Keeps.bind (keeps_aside rfl hinv ?_)
    intro d₂ _ hd₂
    rw [← hd₂] at hinv hmoved hdone
    refine Keeps.bind (keeps_aside rfl hinv ?_)
    intro d₃ hmktemp hd₃
    rw [← hd₃] at hinv hmoved hdone
    have htemp : d₃.temp = some ⟨[], 0o600⟩ := by rw [show d₃ = _ from hmktemp]
    refine Keeps.bind ((keeps_printSettings hroom hinv hwrite htemp).imp ?_)
    intro success d₄ ⟨hd₄, hprinted⟩
    rw [← hd₄] at hinv hmoved hdone
    cases success with
    | false =>
      refine Keeps.bind (keeps_run rfl hinv ?_)
      intro _ d₅ _ hd₅
      have hinv₅ : I d₅.toInstalled := hd₅ ▸ hinv
      exact hinv₅
    | true =>
      refine Keeps.bind (keeps_asideOr rfl rfl hinv ?_)
      intro d₅ hchmod hd₅
      rw [← hd₅] at hinv hmoved hdone
      have hprivate : d₅.temp = some ⟨text, 0o600⟩ := by
        rw [show d₅ = _ from hchmod, hprinted rfl]
        rfl
      apply keeps_attemptOr rfl hinv
      · intro d₆ hmv
        have hd₆ : d₆.toInstalled = { d₅.toInstalled with config := some ⟨text, 0o600⟩ } := by
          rw [show d₆ = _ from hmv, hprivate]
        exact ⟨hd₆ ▸ hmoved, hdone d₆ hd₆⟩
      · intro d₆ hmv
        rw [show d₆ = d₅ from hmv]

theorem keeps_prepareBinary {Q : Binary → Disk → Prop} (hreads : reads) (hinv : I d.toInstalled)
    (hok : ∀ b ∈ releases, binarySupportsConfig b = true →
      (d.config.any (mentionsDnsServers ·.text) = true → binarySupportsDns b = true) → Q b d) :
    Keeps (commands releases room reads) (fun d => I d.toInstalled) Q prepareBinary d := by
  refine Keeps.bind (keeps_attempt hinv ?_ ?_)
  · intro d' hcurl
    rw [show d' = d from hcurl]
    refine ⟨hinv, Keeps.bind (keeps_perform hinv ?_)⟩
    intro unpacked d₁ ⟨hreleases, hd₁⟩
    rw [hd₁]
    refine ⟨hinv, ?_⟩
    cases unpacked with
    | none => exact hinv
    | some b =>
      refine Keeps.bind (keeps_perform hinv ?_)
      intro config d₂ ⟨hconfig, hd₂⟩
      rw [hd₂]
      refine ⟨hinv, ?_⟩
      cases config with
      | false => exact hinv
      | true =>
        have hb := hok b (hreleases b rfl) (hconfig rfl)
        refine Keeps.bind (keeps_perform hinv ?_)
        intro found d₃ ⟨hfound, hd₃⟩
        rw [hd₃]
        refine ⟨hinv, ?_⟩
        obtain rfl := hfound.resolve_right fun hfails => hfails.1 hreads
        cases hmentions : d.config.any (mentionsDnsServers ·.text) with
        | false => exact ⟨hinv, hb fun htrue => absurd (hmentions.symm.trans htrue) Bool.false_ne_true⟩
        | true =>
          refine Keeps.bind (keeps_perform hinv ?_)
          intro dns d₄ ⟨hdns, hd₄⟩
          rw [hd₄]
          refine ⟨hinv, ?_⟩
          cases dns with
          | false => exact hinv
          | true => exact ⟨hinv, hb fun _ => hdns rfl⟩
  · intro d' hcurl
    rw [show d' = d from hcurl]
    exact hinv

theorem keeps_installPreparedBinary {b : Binary} (hinv : I d.toInstalled)
    (hinstalled : I { d.toInstalled with binary := some b } ∧
      ∀ d', d'.toInstalled = { d.toInstalled with binary := some b } → Q () d') :
    Keeps (commands releases room reads) (fun d => I d.toInstalled) Q (installPreparedBinary b) d := by
  obtain ⟨hmoved, hdone⟩ := hinstalled
  refine Keeps.bind (keeps_aside rfl hinv ?_)
  intro d₁ _ hd₁
  rw [← hd₁] at hinv hmoved hdone
  refine Keeps.bind (keeps_asideOr rfl rfl hinv ?_)
  intro d₂ hcp hd₂
  rw [← hd₂] at hinv hmoved hdone
  have hcopied : d₂.staged = some b := by rw [show d₂ = _ from hcp]
  refine Keeps.bind (keeps_asideOr rfl rfl hinv ?_)
  intro d₃ hchmod hd₃
  rw [← hd₃] at hinv hmoved hdone
  have hstaged : d₃.staged = some b := by rw [show d₃ = d₂ from hchmod, hcopied]
  apply keeps_attemptOr rfl hinv
  · intro d₄ hmv
    have hd₄ : d₄.toInstalled = { d₃.toInstalled with binary := some b } := by
      rw [show d₄ = _ from hmv, hstaged]
    exact ⟨hd₄ ▸ hmoved, hdone d₄ hd₄⟩
  · intro d₄ hmv
    rw [show d₄ = d₃ from hmv]

theorem keeps_teeService {file : ServiceFile} {message : String} (hinv : I d.toInstalled)
    (hpart : ∀ part : ServiceFile, part.whole = false → I { d.toInstalled with service := some part })
    (hfull : I { d.toInstalled with service := some file } ∧
      ∀ d', d'.toInstalled = { d.toInstalled with service := some file } → Q () d') :
    Keeps (commands releases room reads) (fun d => I d.toInstalled) Q (teeService file message) d := by
  refine Keeps.bind (keeps_attempt hinv ?_ ?_)
  · intro d₁ hopen
    rw [show d₁ = _ from hopen]
    have hempty := hpart ⟨[], [], false⟩ rfl
    refine ⟨hempty, keeps_attempt hempty ?_ ?_⟩
    · intro d₂ hfill
      rw [show d₂ = _ from hfill]
      exact ⟨hfull.1, hfull.2 _ rfl⟩
    · intro d₂ ⟨part, hwhole, hfill⟩
      rw [hfill]
      exact hpart part hwhole
  · intro d₁ hopen
    rw [show d₁ = d from hopen]
    exact hinv

theorem effect_sedInstallDir {i : Installed} {success : Bool}
    (hd : d.toInstalled = { i with service := some ⟨placeholderProgram, placeholderArgs, true⟩ })
    (h : Command.Effect d .sedInstallDir success d') :
    ∃ program', (program' = placeholderProgram ∨ program' = program) ∧
      d'.toInstalled = { i with service := some ⟨program', placeholderArgs, true⟩ } := by
  obtain ⟨installed, staged, temp⟩ := d
  cases hd
  cases success <;> cases h
  · exact ⟨_, .inl rfl, rfl⟩
  · exact ⟨_, .inr rfl, rfl⟩

theorem effect_sedConfigFile {i : Installed} {program' : Text} {success : Bool}
    (hprogram : program' = placeholderProgram ∨ program' = program)
    (hd : d.toInstalled = { i with service := some ⟨program', placeholderArgs, true⟩ })
    (h : Command.Effect d .sedConfigFile success d') :
    ∃ file : ServiceFile, (file = configService ∨ file.Unfilled) ∧ d'.toInstalled = { i with service := some file } := by
  obtain ⟨installed, staged, temp⟩ := d
  cases hd
  cases success <;> cases h
  · exact ⟨_, .inr (.inr rfl), rfl⟩
  · rcases hprogram with rfl | rfl
    · exact ⟨⟨placeholderProgram, configArgs, true⟩, .inr (.inl rfl), rfl⟩
    · exact ⟨configService, .inl rfl, rfl⟩

/-- A failing `sed` is not noticed. -/
theorem keeps_createService {initSystem : InitSystem} (hinv : I d.toInstalled)
    (hwritten : ∀ file : ServiceFile, file = configService ∨ file.Rewriting →
      I { d.toInstalled with service := some file })
    (hdone : ∀ d' file, d'.toInstalled = { d.toInstalled with service := some file } →
      (file = configService ∨ initSystem = .sysvinit ∧ file.Unfilled) → Q () d') :
    Keeps (commands releases room reads) (fun d => I d.toInstalled) Q (createService initSystem) d := by
  have hpart : ∀ part : ServiceFile, part.whole = false → I { d.toInstalled with service := some part } :=
    fun part hwhole => hwritten part (.inr (.inl hwhole))
  have hregister : ∀ d' file, d'.toInstalled = { d.toInstalled with service := some file } →
      (file = configService ∨ initSystem = .sysvinit ∧ file.Unfilled) →
      Keeps (commands releases room reads) (fun d => I d.toInstalled) Q
        (perform (.run .register) >>= fun _ => pure () : Script Unit) d' := by
    intro d' file hd' hfile
    have hfinal : I d'.toInstalled := hd' ▸ hwritten file (hfile.imp_right fun h => .inr h.2)
    refine Keeps.bind (keeps_run rfl hfinal ?_)
    intro _ d₁ _ hd₁
    have hfinal₁ : I d₁.toInstalled := hd₁ ▸ hfinal
    exact ⟨hfinal₁, hdone d₁ file (hd₁.trans hd') hfile⟩
  have hfull := fun d' hd' => hregister d' configService hd' (.inl rfl)
  cases initSystem with
  | systemd => exact Keeps.bind (keeps_teeService hinv hpart ⟨hwritten _ (.inl rfl), hfull⟩)
  | openrc => exact Keeps.bind (keeps_teeService hinv hpart ⟨hwritten _ (.inl rfl), hfull⟩)
  | sysvinit =>
    have hplaceholders := hwritten ⟨placeholderProgram, placeholderArgs, true⟩ (.inr (.inr (.inl rfl)))
    refine Keeps.bind (keeps_teeService hinv hpart ⟨hplaceholders, fun d₁ hd₁ => ?_⟩)
    have hinv₁ : I d₁.toInstalled := hd₁ ▸ hplaceholders
    refine Keeps.bind (keeps_perform hinv₁ ?_)
    intro success d₂ ⟨heffect, _⟩
    obtain ⟨program', hprogram, hd₂⟩ := effect_sedInstallDir hd₁ heffect
    have hinv₂ : I d₂.toInstalled := hd₂ ▸ hwritten _ (.inr (.inr (.inr rfl)))
    refine ⟨hinv₂, Keeps.bind (keeps_perform hinv₂ ?_)⟩
    intro success' d₃ ⟨heffect', _⟩
    obtain ⟨file, hfile, hd₃⟩ := effect_sedConfigFile hprogram hd₂ heffect'
    refine ⟨hd₃ ▸ hwritten file (hfile.imp_right .inr), hregister d₃ file hd₃ ?_⟩
    exact hfile.imp_right fun hunfilled => ⟨rfl, hunfilled⟩

end

/-! ### Runs in which every command but a `printf` does what it should -/

section
variable {releases : Set Binary} {room reads : Prop} {d d' : Disk}

theorem leads_run {command : Command} (h : command.Effect d true d') :
    Leads (commands releases room reads) (perform (ScriptQuery.run command) : Script Bool) d (.done (.ok true)) d' :=
  leads_perform ⟨h, fun _ _ _ => rfl⟩

theorem leads_attempt {command : Command} {message : String} (h : command.Effect d true d') :
    Leads (commands releases room reads) (attempt command message) d (.done (.ok ())) d' :=
  Leads.seq (leads_run h) .start

theorem leads_attemptOr {command cleanup : Command} {message : String} (h : command.Effect d true d') :
    Leads (commands releases room reads) (attemptOr command cleanup message) d (.done (.ok ())) d' :=
  Leads.seq (leads_run h) .start

/-- Of every line the file may get a part, as long as there is no room. -/
theorem leads_printAll {lines parts : List Text} (hparts : List.Forall₂ (· <+: ·) parts lines)
    (hroom : room → parts = lines) {text : Text} {mode : ℕ} (htemp : d.temp = some ⟨text, mode⟩) :
    Leads (commands releases room reads) (printAll lines) d (.done (.ok ()))
      { d with temp := some ⟨text ++ parts.flatten, mode⟩ } := by
  induction hparts generalizing d text with
  | nil =>
    rw [List.flatten_nil, List.append_nil, ← htemp]
    exact .start
  | @cons part line parts rest hpart _ ih =>
    have hfirst : ∃ success, commands releases room reads (.run (.printf line)) d success
        { d with temp := some ⟨text ++ part, mode⟩ } := by
      by_cases hsame : part = line
      · refine ⟨true, ?_, fun _ _ _ => rfl⟩
        rw [hsame, Command.Effect, htemp]
        rfl
      · refine ⟨false, ⟨part, hpart, ?_⟩, fun h => absurd (List.cons.inj (hroom h)).1 hsame⟩
        rw [htemp]
        rfl
    obtain ⟨success, hrun⟩ := hfirst
    have hrest := ih (d := { d with temp := some ⟨text ++ part, mode⟩ }) (fun h => (List.cons.inj (hroom h)).2) rfl
    rw [List.append_assoc, ← List.flatten_cons] at hrest
    exact Leads.seq (leads_perform hrun) hrest

theorem leads_writeConfig {v : Variables} {text : Text} {parts : List Text} (hwrite : writeConfigFile v = .ok text)
    (hdns : v.dnsServers = defaultDnsServers) (hparts : List.Forall₂ (· <+: ·) parts (settingLines v))
    (hroom : room → parts = settingLines v) :
    Leads (commands releases room reads) (writeConfig v) d (.done (.ok ()))
      { d with config := some ⟨parts.flatten, 0o600⟩, temp := none } := by
  have hlines := @leads_printAll releases room reads { d with temp := some ⟨[], 0o600⟩ } _ _ hparts hroom [] 0o600 rfl
  have hsettings : Leads (commands releases room reads) (printSettings v) { d with temp := some ⟨[], 0o600⟩ } (.done (.ok true))
      { d with temp := some ⟨parts.flatten, 0o600⟩ } := by
    refine Leads.seq (leads_run rfl) (Leads.seq hlines ?_)
    rw [hdns, if_neg (by decide)]
    exact .start
  unfold writeConfigFile at hwrite
  unfold writeConfig
  simp only at hwrite ⊢
  split at hwrite
  · cases hwrite
  · rename_i hclean
    rw [if_neg hclean]
    refine Leads.seq (leads_attempt rfl) (Leads.seq (leads_attempt rfl) (Leads.seq (leads_attempt rfl) ?_))
    exact Leads.seq hsettings (Leads.seq (leads_attemptOr rfl) (leads_attemptOr rfl))

theorem leads_prepareBinary {b : Binary} (hrelease : b ∈ releases) (hconfig : binarySupportsConfig b = true)
    (hdns : d.config.any (mentionsDnsServers ·.text) = true → binarySupportsDns b = true) :
    Leads (commands releases room reads) prepareBinary d (.done (.ok b)) d := by
  have htar : commands releases room reads .tar d (some b) d := ⟨fun _ hsome => Option.some_inj.mp hsome ▸ hrelease, rfl⟩
  have hhelp : commands releases room reads (.helpConfig b) d true d := ⟨fun _ => hconfig, rfl⟩
  refine Leads.seq (leads_attempt rfl) (Leads.seq (leads_perform htar) (Leads.seq (leads_perform hhelp) ?_))
  refine Leads.seq (leads_perform ⟨.inl rfl, rfl⟩) ?_
  cases hfound : d.config.any (mentionsDnsServers ·.text) with
  | false => exact .start
  | true =>
    have hhelp' : commands releases room reads (.helpDns b) d true d := ⟨fun _ => hdns hfound, rfl⟩
    exact Leads.seq (leads_perform hhelp') .start

theorem leads_installPreparedBinary (b : Binary) :
    Leads (commands releases room reads) (installPreparedBinary b) d (.done (.ok ()))
      { d with binary := some b, staged := none } :=
  Leads.seq (leads_attempt rfl) (Leads.seq (leads_attemptOr rfl) (Leads.seq (leads_attemptOr rfl) (leads_attemptOr rfl)))

theorem leads_createService (initSystem : InitSystem) :
    Leads (commands releases room reads) (createService initSystem) d (.done (.ok ()))
      { d with service := some configService } := by
  have htee : ∀ (file : ServiceFile) (message : String), Leads (commands releases room reads) (teeService file message) d
      (.done (.ok ())) { d with service := some file } :=
    fun _ _ => Leads.seq (leads_attempt rfl) (leads_attempt rfl)
  cases initSystem with
  | systemd => exact Leads.seq (htee _ _) (Leads.seq (leads_run rfl) .start)
  | openrc => exact Leads.seq (htee _ _) (Leads.seq (leads_run rfl) .start)
  | sysvinit =>
    exact Leads.seq (htee _ _) (Leads.seq (leads_run rfl) (Leads.seq (leads_run rfl) (Leads.seq (leads_run rfl) .start)))

end

end Installer

end Brume
