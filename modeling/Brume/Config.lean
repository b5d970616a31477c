import Brume.Lib.Utf8
import Brume.Whitelist

/-!
# The configuration (`config.rs`)

The settings of the server and the check that ends `Config::parse`. Every
duration in the program is a whole number of seconds.
-/

namespace Brume
open Lib

/-- `Duration::from_secs`. -/
structure Duration where
  secs : UInt64
  deriving DecidableEq

/-- Nanoseconds, the unit of the server's clock. -/
def Duration.nanos (d : Duration) : ℕ := d.secs.toNat * 1000000000

structure Config where
  port : UInt16
  username : String
  password : String
  whitelist : Whitelist
  tcpTimeout : Option Duration
  udpTimeout : Duration
  dnsServers : List SocketAddr

namespace Config

def validate (config : Config) : Except String Unit :=
  if config.username.isEmpty ≠ config.password.isEmpty then .error "用户名和密码必须同时设置"
  else if 255 < (utf8Bytes config.username).length ∨ 255 < (utf8Bytes config.password).length then
    .error "用户名和密码不能超过 255 字节"
  else .ok ()

theorem utf8Bytes_eq_nil_iff {s : String} : utf8Bytes s = [] ↔ s.isEmpty = true := by
  rw [String.isEmpty_iff]
  constructor
  · intro h
    exact utf8Bytes_inj.mp h
  · rintro rfl
    rfl

/-- Both credentials are empty, or both have 1 to 255 bytes. -/
theorem validate_ok_iff {config : Config} :
    config.validate = .ok () ↔
      (utf8Bytes config.username = [] ↔ utf8Bytes config.password = []) ∧
        (utf8Bytes config.username).length ≤ 255 ∧ (utf8Bytes config.password).length ≤ 255 := by
  rw [utf8Bytes_eq_nil_iff, utf8Bytes_eq_nil_iff, ← Bool.eq_iff_iff]
  unfold validate
  split
  · rename_i hne
    simp [hne]
  · rename_i heq
    split
    · rename_i hlong
      simp only [reduceCtorEq, false_iff]
      omega
    · rename_i hlong
      simp only [true_iff]
      exact ⟨not_not.mp heq, by omega⟩

end Config

end Brume
