import Brume.Lib.Format
import Brume.Lib.Utf8
import Brume.Net

/-!
# SOCKS5 messages (`protocol.rs`)

The readers and writers of requests and replies, once for blocking streams and
once for asynchronous ones as the source has them, and the encoders they share.
Readers and writers are programs over one connection, generic in what else the
caller may ask its environment.
-/

namespace Brume
open Lib Session

/-! ### Constants and types -/

namespace Protocol

def CONNECT : UInt8 := 1
def UDP_ASSOCIATE : UInt8 := 3
def SUCCESS : UInt8 := 0
def SERVER_FAILURE : UInt8 := 1
def HOST_UNREACHABLE : UInt8 := 4
def CONNECTION_REFUSED : UInt8 := 5
def COMMAND_UNSUPPORTED : UInt8 := 7
def ADDRESS_UNSUPPORTED : UInt8 := 8

end Protocol

inductive Host where
  | ip (ip : IpAddr)
  | domain (name : String)
  deriving DecidableEq

structure Target where
  host : Host
  port : UInt16
  deriving DecidableEq

/-- `impl From<SocketAddr> for Target`. -/
def Target.from (address : SocketAddr) : Target := ⟨.ip address.ip, address.port⟩

namespace Protocol
variable {Q : Type} {A : Q → Type}

def invalidData (message : String) : IoError := ⟨.invalidData, message⟩

/-! ### Encoders -/

def encodeAddress (bytes : Bytes) (address : SocketAddr) : Bytes :=
  match address.ip with
  | .v4 ip => bytes ++ [1] ++ ip.octets.toList ++ portBytes address.port
  | .v6 ip => bytes ++ [4] ++ ip.octets.toList ++ portBytes address.port

def encodeTarget (bytes : Bytes) (target : Target) : Except IoError Bytes :=
  match target.host with
  | .ip ip => .ok (encodeAddress bytes (SocketAddr.new ip target.port))
  | .domain name =>
    if (utf8Bytes name).length = 0 ∨ 255 < (utf8Bytes name).length then
      .error ⟨.invalidInput, "域名长度必须在 1 到 255 字节之间"⟩
    else
      .ok (bytes ++ [3] ++ [UInt8.ofNat (utf8Bytes name).length] ++ utf8Bytes name ++
        portBytes target.port)

/-! ### Blocking readers and writers -/

def readTarget (atyp : UInt8) : Session Q A Target := do
  let host ← (
    if atyp = 1 then do
      let octets ← readExact 4
      pure (Host.ip (.v4 ⟨octets⟩))
    else if atyp = 3 then do
      let length ← readExact 1
      if length[0] = 0 then throw (invalidData "域名不能为空")
      else
        let name ← readExact length[0].toNat
        match fromUtf8 name.toList with
        | some name => pure (Host.domain name)
        | none => throw (invalidData "域名编码无效")
    else if atyp = 4 then do
      let octets ← readExact 16
      pure (Host.ip (.v6 ⟨octets⟩))
    else throw (invalidData "不支持的地址类型"))
  let port ← readExact 2
  pure ⟨host, portOf port⟩

/-- The common body of `read_request` and `read_reply`, which differ in the text. -/
def readMessage (message : String) : Session Q A (UInt8 × Target) := do
  let header ← readExact 4
  if header[0] ≠ 5 ∨ header[2] ≠ 0 then throw (invalidData message)
  else
    let target ← readTarget header[3]
    pure (header[1], target)

def readRequest : Session Q A (UInt8 × Target) := readMessage "SOCKS5 请求头无效"

def writeRequest (command : UInt8) (target : Target) : Session Q A Unit :=
  match encodeTarget [5, command, 0] target with
  | .ok bytes => writeAll bytes
  | .error e => throw e

def readReply : Session Q A (UInt8 × Target) := readMessage "SOCKS5 回复头无效"

def writeReply (status : UInt8) (address : SocketAddr) : Session Q A Unit :=
  writeAll (encodeAddress [5, status, 0] address)

/-! ### Asynchronous readers and writers -/

def readTargetAsync (atyp : UInt8) : Session Q A Target := do
  let host ← (
    if atyp = 1 then do
      let octets ← readExact 4
      pure (Host.ip (.v4 ⟨octets⟩))
    else if atyp = 3 then do
      let length ← readExact 1
      if length[0] = 0 then throw (invalidData "域名不能为空")
      else
        let name ← readExact length[0].toNat
        match fromUtf8 name.toList with
        | some name => pure (Host.domain name)
        | none => throw (invalidData "域名编码无效")
    else if atyp = 4 then do
      let octets ← readExact 16
      pure (Host.ip (.v6 ⟨octets⟩))
    else throw (invalidData "不支持的地址类型"))
  let port ← readExact 2
  pure ⟨host, portOf port⟩

/-- The common body of `read_request_async` and `read_reply_async`. -/
def readMessageAsync (message : String) : Session Q A (UInt8 × Target) := do
  let header ← readExact 4
  if header[0] ≠ 5 ∨ header[2] ≠ 0 then throw (invalidData message)
  else
    let target ← readTargetAsync header[3]
    pure (header[1], target)

def readRequestAsync : Session Q A (UInt8 × Target) := readMessageAsync "SOCKS5 请求头无效"

def writeRequestAsync (command : UInt8) (target : Target) : Session Q A Unit :=
  match encodeTarget [5, command, 0] target with
  | .ok bytes => writeAll bytes
  | .error e => throw e

def readReplyAsync : Session Q A (UInt8 × Target) := readMessageAsync "SOCKS5 回复头无效"

def writeReplyAsync (status : UInt8) (address : SocketAddr) : Session Q A Unit :=
  writeAll (encodeAddress [5, status, 0] address)

/-- The hand-written copies have not drifted apart. -/
theorem readTargetAsync_eq (atyp : UInt8) :
    (readTargetAsync atyp : Session Q A Target) = readTarget atyp := rfl

theorem readMessageAsync_eq (message : String) :
    (readMessageAsync message : Session Q A _) = readMessage message := rfl

theorem writeRequestAsync_eq (command : UInt8) (target : Target) :
    (writeRequestAsync command target : Session Q A Unit) = writeRequest command target := rfl

theorem writeReplyAsync_eq (status : UInt8) (address : SocketAddr) :
    (writeReplyAsync status address : Session Q A Unit) = writeReply status address := rfl

/-! ### The language of `encodeTarget` -/

theorem encodeTarget_append (bytes : Bytes) (t : Target) :
    encodeTarget bytes t = (encodeTarget [] t).map (bytes ++ ·) := by
  rcases t with ⟨⟨ip⟩ | name, port⟩
  · cases ip <;> simp [encodeTarget, encodeAddress, SocketAddr.new, SocketAddr.ip, Except.map]
  · simp only [encodeTarget]
    split <;> simp [Except.map]

theorem encodeTarget_cons {bytes m : Bytes} {t : Target} :
    encodeTarget bytes t = .ok m ↔ ∃ e, encodeTarget [] t = .ok e ∧ m = bytes ++ e := by
  rw [encodeTarget_append]
  cases encodeTarget [] t with
  | ok e => simp [Except.map, eq_comm]
  | error e => simp [Except.map]

/-- The three address forms, behind their type byte. -/
inductive Encodes (t : Target) : UInt8 → Bytes → Prop
  | v4 (ip : Ipv4Addr) (h : t.host = .ip (.v4 ip)) :
      Encodes t 1 (ip.octets.toList ++ portBytes t.port)
  | domain (name : String) (h : t.host = .domain name) (hpos : 0 < (utf8Bytes name).length)
      (hle : (utf8Bytes name).length ≤ 255) :
      Encodes t 3 (UInt8.ofNat (utf8Bytes name).length :: (utf8Bytes name ++ portBytes t.port))
  | v6 (ip : Ipv6Addr) (h : t.host = .ip (.v6 ip)) :
      Encodes t 4 (ip.octets.toList ++ portBytes t.port)

theorem encodeTarget_iff {t : Target} {m : Bytes} :
    encodeTarget [] t = .ok m ↔ ∃ atyp e, Encodes t atyp e ∧ m = atyp :: e := by
  constructor
  · intro h
    rcases t with ⟨⟨⟨ip⟩ | ip⟩ | name, port⟩
    · exact ⟨1, _, .v4 ip rfl, by simpa [encodeTarget, encodeAddress, SocketAddr.new, SocketAddr.ip,
        SocketAddr.port, eq_comm] using h⟩
    · exact ⟨4, _, .v6 ip rfl, by simpa [encodeTarget, encodeAddress, SocketAddr.new, SocketAddr.ip,
        SocketAddr.port, eq_comm] using h⟩
    · simp only [encodeTarget] at h
      split at h
      · cases h
      · rename_i hl
        exact ⟨3, _, .domain name rfl (by omega) (by omega), by simpa [eq_comm] using h⟩
  · rintro ⟨atyp, e, he, rfl⟩
    rcases t with ⟨host, port⟩
    cases he with
    | v4 ip h =>
      cases h
      simp [encodeTarget, encodeAddress, SocketAddr.new, SocketAddr.ip, SocketAddr.port]
    | v6 ip h =>
      cases h
      simp [encodeTarget, encodeAddress, SocketAddr.new, SocketAddr.ip, SocketAddr.port]
    | domain name h hpos hle =>
      cases h
      have hn : ¬((utf8Bytes name).length = 0 ∨ 255 < (utf8Bytes name).length) := by omega
      simp only [encodeTarget, hn, ↓reduceIte]
      simp

end Protocol

end Brume
