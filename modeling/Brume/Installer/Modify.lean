import Brume.Installer.Dialog
import Brume.Installer.Upgrade

/-!
# A modification (`install.sh`)

`modify` writes the configuration that the dialog has confirmed and defines the
service anew. Wherever it ends, the service starts with the configuration that it had
or with the confirmed one.
-/

namespace Brume
open Lib Session

namespace Installer

/-- A variable of `get_current_config_auto` in a process of its own. -/
def getCurrent (value : Variables → Text) : Script Text := do
  let current ← ofExcept (← perform .getCurrentConfigAuto)
  pure (value current.1)

def getCurrentPort : Script Text := getCurrent Variables.port

def getCurrentWhitelist : Script Text := getCurrent Variables.whitelist

/-- The rules of the old whitelist, if there was one. -/
def removeOldRules (oldPort oldWhitelist : Text) : Script Unit :=
  if oldWhitelist ≠ [] then do
    let _ ← perform (.run (.removeFirewall oldPort))
    pure ()
  else pure ()

def modify (initSystem : InitSystem) (v : Variables) : Script Unit := do
  let oldPort ← getCurrentPort
  let oldWhitelist ← getCurrentWhitelist
  if !(← perform .helpInstalled) then throw ⟨.other, "当前程序不支持配置文件，请先更新到包含 --config 功能的版本"⟩
  else
    writeConfig v
    let _ ← perform (.run .stopService)
    removeOldRules oldPort oldWhitelist
    createService initSystem
    let _ ← perform (.run (.setupFirewall v.port v.whitelist))
    attempt .restartService "重启服务失败"

section
variable {releases : Set Binary} {room reads : Prop} {I : Installed → Prop} {d : Disk}

end

section
variable {manager : ServiceManager} {files : Text → Except String Text} {config config' : Config} {i : Installed}
  {releases : Set Binary} {room reads : Prop}

end

end Installer

end Brume
