import Brume.Config
import Brume.Protocol

/-!
# The client library (`client.rs`)

The constructor and the steps of a CONNECT, as programs over the connection to
the proxy server. Reaching the server and setting the options of the socket are
left to the environment.
-/

namespace Brume
open Lib Session Protocol

structure Client where
  server : String
  username : String
  password : String
  tcpTimeout : Option Duration
  udpTimeout : Option Duration

namespace Client

def CONNECT_TIMEOUT : Duration := ⟨10⟩

inductive Query where
  | connectProxy (server : String)
  | setNodelay (nodelay : Bool)
  | setReadTimeout (timeout : Option Duration)
  | setWriteTimeout (timeout : Option Duration)
  deriving DecidableEq

@[reducible] def Answer : Query → Type := fun _ => Except IoError Unit

def new (server username password : String) : Except IoError Client :=
  if username.isEmpty ≠ password.isEmpty ∨ 255 < (utf8Bytes username).length ∨
      255 < (utf8Bytes password).length then
    .error ⟨.invalidInput, "用户名和密码必须同时设置，且长度不能超过 255 字节"⟩
  else .ok ⟨server, username, password, none, some ⟨60⟩⟩

section
variable {Q : Type} {A : Q → Type}

def method (client : Client) : UInt8 := if client.username.isEmpty then 0 else 2

/-- The part of `negotiate` behind the acceptance of method 2. -/
def sendCredentials (client : Client) : Session Q A Unit := do
  let request := [1, UInt8.ofNat (utf8Bytes client.username).length] ++ utf8Bytes client.username ++
    [UInt8.ofNat (utf8Bytes client.password).length] ++ utf8Bytes client.password
  writeAll request
  let reply ← readExact 2
  if reply.toList ≠ [1, 0] then throw ⟨.permissionDenied, "代理服务器拒绝用户名或密码"⟩
  else pure ()

/-- The part of `negotiate` behind the options of the socket. -/
def negotiateMethod (client : Client) : Session Q A Unit := do
  writeAll [5, 1, client.method]
  let reply ← readExact 2
  if reply.toList ≠ [5, client.method] then throw ⟨.permissionDenied, "代理服务器未接受认证方法"⟩
  else if client.method = 2 then client.sendCredentials
  else pure ()

end

abbrev Program := Session Query Answer

def negotiate (client : Client) : Program Unit := do
  ofExcept (← perform (.connectProxy client.server))
  ofExcept (← perform (.setNodelay true))
  ofExcept (← perform (.setReadTimeout (some CONNECT_TIMEOUT)))
  ofExcept (← perform (.setWriteTimeout (some CONNECT_TIMEOUT)))
  client.negotiateMethod

/-! ### CONNECT -/

def checkStatus (status : UInt8) : Except IoError Unit :=
  if status = SUCCESS then .ok ()
  else .error ⟨.other, "SOCKS5 请求失败，状态码 " ++ toString status.toNat⟩

/-- `negotiate` followed by `write_request`. -/
def request (client : Client) (command : UInt8) (target : Target) : Program Unit := do
  client.negotiate
  writeRequest command target

def connect (client : Client) (target : Target) : Program Unit := do
  client.request CONNECT target
  let (status, _) ← readReply
  ofExcept (checkStatus status)
  ofExcept (← perform (.setReadTimeout client.tcpTimeout))
  ofExcept (← perform (.setWriteTimeout client.tcpTimeout))

/-! ### What a client carries -/

/-- Both credentials are empty, or both have 1 to 255 bytes. -/
theorem new_ok {server username password : String} {client : Client}
    (h : Client.new server username password = .ok client) :
    client.username = username ∧ client.password = password ∧
      (utf8Bytes username = [] ↔ utf8Bytes password = []) ∧
      (utf8Bytes username).length ≤ 255 ∧ (utf8Bytes password).length ≤ 255 := by
  unfold Client.new at h
  split at h
  · cases h
  · rename_i hok
    obtain ⟨hempty, hlong⟩ := not_or.mp hok
    obtain ⟨hu, hp⟩ := not_or.mp hlong
    cases h
    rw [Config.utf8Bytes_eq_nil_iff, Config.utf8Bytes_eq_nil_iff, ← Bool.eq_iff_iff]
    exact ⟨rfl, rfl, not_not.mp hempty, Nat.le_of_not_lt hu, Nat.le_of_not_lt hp⟩

end Client

end Brume
