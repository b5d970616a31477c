import Brume.Config
import Brume.Dns
import Brume.Server.Endpoint

/-!
# Connection handlers (`server.rs`)

`handle_client` and the functions it calls, as programs over the client's
connection. What they ask of the sockets, the resolver, the registry and the
relay is a `Query`. Every `timeout` and the `select!` on shutdown in `connect`
are races that the environment may decide at each wait.
-/

namespace Brume.Server
open Lib Session Protocol

/-! ### Negotiation -/

def constantTimeEq (a b : Bytes) : Bool :=
  let difference := a.zipIdx.foldl
    (fun difference (value, index) => difference ||| (value ^^^ b[index]?.getD 0).toNat)
    (a.length ^^^ b.length)
  difference == 0

section
variable {Q : Type} {A : Q → Type}

/-- The part of `negotiate` behind the selection of method 2. -/
def checkCredentials (config : Config) : Session Q A Unit := do
  let authHeader ← readExact 2
  if authHeader[0] ≠ 1 ∨ authHeader[1] = 0 then throw (invalidData "用户名密码认证请求无效")
  else
    let username ← readExact authHeader[1].toNat
    let passwordLength ← readExact 1
    if passwordLength.head = 0 then do
      writeAll [1, 1]
      throw ⟨.permissionDenied, "密码不能为空"⟩
    else
      let password ← readExact passwordLength.head.toNat
      let allowed := constantTimeEq username.toList (utf8Bytes config.username) &&
        constantTimeEq password.toList (utf8Bytes config.password)
      writeAll [1, if allowed then 0 else 1]
      if allowed then pure ()
      else throw ⟨.permissionDenied, "用户名或密码错误"⟩

def negotiate (config : Config) : Session Q A Unit := do
  let header ← readExact 2
  if header[0] ≠ 5 ∨ header[1] = 0 then throw (invalidData "SOCKS5 协商请求无效")
  else
    let methods ← readExact header[1].toNat
    let selected : UInt8 := if config.username.isEmpty then 0 else 2
    if selected ∉ methods.toList then do
      writeAll [5, 255]
      throw ⟨.permissionDenied, "客户端没有提供可用的认证方法"⟩
    else
      writeAll [5, selected]
      if selected = 2 then checkCredentials config else pure ()

end

/-! ### Queries -/

/-- The parts of a handler that run under `HANDSHAKE_TIMEOUT`. -/
inductive Stage where
  | negotiate
  | request
  deriving DecidableEq

/-- What a handler asks of its environment. A handler owns at most one
association, so the queries about it do not name it. -/
inductive Query where
  | setNodelay
  | localAddr
  | peerAddr
  | udpLocalAddr
  | elapsed (stage : Stage) (wait : ℕ)
  | cancelled (wait : ℕ)
  | lookupIp (name : String)
  | happyEyeballsConnect (addresses : List SocketAddr)
  | remoteSetNodelay
  | remoteLocalAddr
  | forwardBidirectional (timeout : Option Duration)
  | newAssociation (clientIp : IpAddr) (requestedPort : UInt16)
  | insert
  | storeDead
  | cancelStopped
  | remove
  | holdControl
  deriving DecidableEq

/-- A race is answered with `none` while it is open, and with the bytes a
pending write got out when it is over. -/
@[reducible] def Answer : Query → Type
  | .setNodelay | .remoteSetNodelay | .forwardBidirectional _ => Except IoError Unit
  | .localAddr | .peerAddr | .udpLocalAddr | .remoteLocalAddr => Except IoError SocketAddr
  | .elapsed _ _ | .cancelled _ => Option ℕ
  | .lookupIp _ => Except IoError (List IpAddr)
  | .happyEyeballsConnect _ => Except IoError Unit
  | .insert => Bool
  | .newAssociation _ _ | .storeDead | .cancelStopped | .remove | .holdControl => Unit

abbrev Handler := Session Query Answer

def ask (q : Query) : Handler (Answer q) := perform q

/-- `tokio::time::timeout(HANDSHAKE_TIMEOUT, p)`; `none` is `Elapsed`. -/
def timeout {α : Type} (stage : Stage) (p : Handler α) : Handler (Option (Except IoError α)) :=
  p.race (.elapsed stage) (fun _ sent => sent) 0

/-! ### CONNECT -/

/-- The body of `connect_task`. -/
def connectTask (timeout : Option Duration) (target : Target) : Handler Unit := do
  let address := unspecified (← ofExcept (← ask .localAddr)).ip
  let addresses ← (tryCatch
    (lookup (fun name => do ofExcept (← ask (.lookupIp name))) target)
    fun error => do
      writeReplyAsync HOST_UNREACHABLE address
      throw error)
  match ← ask (.happyEyeballsConnect addresses) with
  | .error error => do
    let status := if error.kind = .connectionRefused then CONNECTION_REFUSED else HOST_UNREACHABLE
    writeReplyAsync status address
    throw error
  | .ok () => do
    ofExcept (← ask .remoteSetNodelay)
    writeReplyAsync SUCCESS (← ofExcept (← ask .remoteLocalAddr))
    ofExcept (← ask (.forwardBidirectional timeout))

def connect (timeout : Option Duration) (target : Target) : Handler Unit := do
  match ← (connectTask timeout target).race .cancelled (fun _ sent => sent) 0 with
  | none => pure ()
  | some res => ofExcept res

/-! ### UDP ASSOCIATE -/

/-- From `Association::new` on. `hold_control` is the loop that reads and drops
bytes of the control connection until its end, an error or the shutdown. -/
def holdAssociation (clientIp : IpAddr) (requestedPort : UInt16) (relay : SocketAddr) : Handler Unit := do
  ask (.newAssociation clientIp requestedPort)
  if !(← ask .insert) then
    let address := unspecified (← ofExcept (← ask .localAddr)).ip
    writeReplyAsync SERVER_FAILURE address
    throw ⟨.addrInUse, "UDP 客户端端点已有控制连接"⟩
  else
    tryCatch (writeReplyAsync SUCCESS relay) fun error => do
      ask .storeDead
      ask .cancelStopped
      ask .remove
      throw error
    ask .holdControl
    ask .storeDead
    ask .cancelStopped
    ask .remove

/-- The check of the requested address against the peer. -/
def rejectedAddress (target : Target) (peer : SocketAddr) : Option (UInt8 × IoError) :=
  match target.host with
  | .ip ip =>
    if !ip.isUnspecified ∧ normalize ip ≠ normalize peer.ip then
      some (SERVER_FAILURE, ⟨.permissionDenied, "UDP 客户端地址与控制连接不符"⟩)
    else none
  | .domain _ => some (ADDRESS_UNSUPPORTED, ⟨.invalidInput, "UDP 客户端地址必须是 IP"⟩)

def associate (target : Target) : Handler Unit := do
  let peer ← ofExcept (← ask .peerAddr)
  match rejectedAddress target peer with
  | some (status, error) => do
    let address := unspecified (← ofExcept (← ask .localAddr)).ip
    writeReplyAsync status address
    throw error
  | none => do
    let localIp := (← ofExcept (← ask .localAddr)).ip
    let relay := SocketAddr.new (normalize localIp) (← ofExcept (← ask .udpLocalAddr)).port
    holdAssociation peer.ip target.port relay

/-! ### The handler -/

/-- The request, or the reply to one that cannot be read. -/
def readClientRequest : Handler (UInt8 × Target) := do
  match ← timeout .request readRequestAsync with
  | some (.ok request) => pure request
  | some (.error error) => do
    if error.kind = .invalidData then
      let address := unspecified (← ofExcept (← ask .localAddr)).ip
      tryCatch (writeReplyAsync ADDRESS_UNSUPPORTED address) fun _ => pure ()
      throw error
    else throw error
  | none => throw ⟨.timedOut, "读取请求超时"⟩

/-- `handle_client` up to the end of the negotiation. -/
def handshake (config : Config) : Handler Unit := do
  ofExcept (← ask .setNodelay)
  match ← timeout .negotiate (negotiate config) with
  | none => throw ⟨.timedOut, "SOCKS5 协商超时"⟩
  | some negotiated => ofExcept negotiated

/-- `handle_client` from the request on. -/
def serve (config : Config) : Handler Unit := do
  let (command, target) ← readClientRequest
  if command = CONNECT then connect config.tcpTimeout target
  else if command = UDP_ASSOCIATE then associate target
  else
    let address := unspecified (← ofExcept (← ask .localAddr)).ip
    writeReplyAsync COMMAND_UNSUPPORTED address

def handleClient (config : Config) : Handler Unit := do
  handshake config
  serve config

end Brume.Server
