import Brume.Config
import Brume.Lib.Lines

/-!
# Reading the configuration (`config.rs`)

`Config::parse` with the configuration file. The seven settings are one type,
so that the two tables of names and the interpretation of a value are each
written once; a setting is a field of `Config` with its `get` and `set`.
-/

namespace Brume
open Lib

deriving instance DecidableEq for Config

/-- The settings that `apply_value` knows. -/
inductive Setting where
  | port
  | user
  | pwd
  | whitelist
  | tcpTimeout
  | udpTimeout
  | dnsServers
  deriving DecidableEq

namespace Setting

def all : List Setting := [port, user, pwd, whitelist, tcpTimeout, udpTimeout, dnsServers]

/-- The names of a setting on the command line. -/
def options : Setting → List String
  | port => ["-p", "--port"]
  | user => ["-user", "--user"]
  | pwd => ["-pwd", "--pwd"]
  | whitelist => ["--whitelist"]
  | tcpTimeout => ["--tcp-timeout"]
  | udpTimeout => ["--udp-timeout"]
  | dnsServers => ["--dns-servers"]

/-- The name of a setting in the configuration file. -/
def key : Setting → String
  | port => "port"
  | user => "username"
  | pwd => "password"
  | whitelist => "whitelist"
  | tcpTimeout => "tcp_timeout"
  | udpTimeout => "udp_timeout"
  | dnsServers => "dns_servers"

def ofOption (name : Text) : Option Setting := all.find? fun s => name ∈ s.options.map String.toList

def ofKey (name : Text) : Option Setting := all.find? fun s => name = s.key.toList

/-- The type of the field of `Config`. -/
def Value : Setting → Type
  | port => UInt16
  | user | pwd => String
  | whitelist => Whitelist
  | tcpTimeout => Option Duration
  | udpTimeout => Duration
  | dnsServers => List SocketAddr

end Setting

namespace Config

def get (config : Config) : (s : Setting) → s.Value
  | .port => config.port
  | .user => config.username
  | .pwd => config.password
  | .whitelist => config.whitelist
  | .tcpTimeout => config.tcpTimeout
  | .udpTimeout => config.udpTimeout
  | .dnsServers => config.dnsServers

def set (config : Config) : (s : Setting) → s.Value → Config
  | .port, port => { config with port }
  | .user, username => { config with username }
  | .pwd, password => { config with password }
  | .whitelist, whitelist => { config with whitelist }
  | .tcpTimeout, tcpTimeout => { config with tcpTimeout }
  | .udpTimeout, udpTimeout => { config with udpTimeout }
  | .dnsServers, dnsServers => { config with dnsServers }

@[simp] theorem get_set (config : Config) (s : Setting) (value : s.Value) :
    (config.set s value).get s = value := by
  cases s <;> rfl

theorem get_set_of_ne (config : Config) {s s' : Setting} (h : s' ≠ s) (value : s.Value) :
    (config.set s value).get s' = config.get s' := by
  cases s <;> cases s' <;> first | rfl | exact absurd rfl h

theorem ext_get {config config' : Config} (h : ∀ s, config.get s = config'.get s) : config = config' := by
  obtain ⟨port, username, password, whitelist, tcpTimeout, udpTimeout, dnsServers⟩ := config
  obtain rfl : port = config'.port := h .port
  obtain rfl : username = config'.username := h .user
  obtain rfl : password = config'.password := h .pwd
  obtain rfl : whitelist = config'.whitelist := h .whitelist
  obtain rfl : tcpTimeout = config'.tcpTimeout := h .tcpTimeout
  obtain rfl : udpTimeout = config'.udpTimeout := h .udpTimeout
  obtain rfl : dnsServers = config'.dnsServers := h .dnsServers
  rfl

/-! ### Values -/

/-- `Duration::from_secs`. -/
def fromSecs (seconds : ℕ) : Duration := ⟨UInt64.ofNat seconds⟩

def parsePort (value : Text) : Except String UInt16 :=
  match parseUnsigned 65536 value with
  | none => .error "端口必须在 1 到 65535 之间"
  | some port => if port = 0 then .error "端口必须在 1 到 65535 之间" else .ok (UInt16.ofNat port)

def parseTcpTimeout (value : Text) : Except String (Option Duration) :=
  match parseUnsigned (2 ^ 64) value with
  | none => .error "TCP 超时必须是非负整数秒"
  | some seconds => .ok (if 0 < seconds then some (fromSecs seconds) else none)

def parseUdpTimeout (value : Text) : Except String Duration :=
  match parseUnsigned (2 ^ 64) value with
  | none => .error "UDP 超时必须是非负整数秒"
  | some seconds => .ok (fromSecs seconds)

/-- The closure over the entries of the DNS servers. -/
def parseDnsServer (entry : Text) : Option SocketAddr :=
  (parseSocketAddr (trim entry)).or ((parseIpAddr (trim entry)).map fun ip => SocketAddr.new ip 53)

def parseDnsServers (value : Text) : Except String (List SocketAddr) :=
  match (split ',' value).mapM parseDnsServer with
  | none => .error "DNS 服务器必须是逗号分隔的 IP 或 IP:端口"
  | some servers =>
    if servers.isEmpty ∨ 8 < servers.length ∨
        servers.any fun server => server.ip.isUnspecified || server.port == 0 then
      .error "DNS 服务器数量必须为 1 到 8，且地址和端口必须有效"
    else .ok servers

end Config

/-- What a branch of `apply_value` makes of the text of a value. -/
def Setting.interpret : (s : Setting) → Text → Except String s.Value
  | .port, value => Config.parsePort value
  | .user, value => .ok (String.ofList value)
  | .pwd, value => .ok (String.ofList value)
  | .whitelist, value => Whitelist.parse value
  | .tcpTimeout, value => Config.parseTcpTimeout value
  | .udpTimeout, value => Config.parseUdpTimeout value
  | .dnsServers, value => Config.parseDnsServers value

namespace Config

def applySetting (config : Config) (s : Setting) (value : Text) : Except String Config :=
  (s.interpret value).map (config.set s)

def applyValue (config : Config) (key value : Text) : Except String Config :=
  match Setting.ofOption key with
  | some s => config.applySetting s value
  | none => .error ("未知参数：" ++ String.ofList key)

/-! ### The configuration file -/

/-- The body of the loop of `read_file`, at line `number`. -/
def readLine (config : Config) (number : ℕ) (line : Text) : Except String Config :=
  let line := stripCr line
  if trim line = [] ∨ (line.dropWhile isWhitespace).head? = some '#' then .ok config
  else
    match splitOnce '=' line with
    | none => .error s!"配置文件第 {number} 行缺少等号"
    | some (key, value) =>
      match Setting.ofKey (trim key) with
      | none => .error s!"配置文件第 {number} 行存在未知配置项"
      | some s => (config.applySetting s value).mapError fun error => s!"配置文件第 {number} 行：{error}"

/-- The loop of `read_file` from line `number`. -/
def readLinesFrom (config : Config) : ℕ → List Text → Except String Config
  | _, [] => .ok config
  | number, line :: rest => do
    let config ← config.readLine number line
    config.readLinesFrom (number + 1) rest

def readFile (config : Config) (readToString : Text → Except String Text) (path : Text) :
    Except String Config := do
  let contents ← (readToString path).mapError fun error =>
    s!"读取配置文件 {String.ofList path} 失败：{error}"
  config.readLinesFrom 1 (lines contents)

/-! ### The command line -/

/-- What the loop over the arguments collects. -/
structure Arguments where
  configPath : Option Text
  overrides : List (Text × Text)

/-- `key` or `key=value`. -/
def keyAndInline (arg : Text) : Text × Option Text :=
  match splitOnce '=' arg with
  | some (key, value) => (key, some value)
  | none => (arg, none)

def Arguments.add (a : Arguments) (key value : Text) : Except String Arguments :=
  if key = "--config".toList then
    if value = [] then .error "配置文件路径不能为空"
    else if a.configPath.isSome then .error "只能指定一个配置文件"
    else .ok { a with configPath := some value }
  else .ok { a with overrides := a.overrides ++ [(key, value)] }

/-- The loop over the arguments; `none` when it ends in the help or the version. -/
def parseArgs (a : Arguments) : List Text → Except String (Option Arguments)
  | [] => .ok (some a)
  | arg :: args =>
    if arg = "-h".toList ∨ arg = "--help".toList ∨ arg = "--version".toList then .ok none
    else
      let (key, inlined) := keyAndInline arg
      if key ≠ "--config".toList ∧ Setting.ofOption key = none then
        .error ("未知参数：" ++ String.ofList key)
      else
        match inlined, args with
        | some value, args => do
          let a ← a.add key value
          parseArgs a args
        | none, value :: args => do
          let a ← a.add key value
          parseArgs a args
        | none, [] => .error s!"参数 {String.ofList key} 缺少值"

/-- The settings of a server without arguments. -/
def initial : Config where
  port := 1080
  username := ""
  password := ""
  whitelist := ⟨[], []⟩
  tcpTimeout := none
  udpTimeout := fromSecs 60
  dnsServers := [.v4 ⟨#v[8, 8, 8, 8]⟩ 53, .v4 ⟨#v[1, 1, 1, 1]⟩ 53]

def applyOverrides (config : Config) : List (Text × Text) → Except String Config
  | [] => .ok config
  | (key, value) :: overrides => do
    let config ← config.applyValue key value
    config.applyOverrides overrides

/-- `Config::parse`, with `fs::read_to_string` as a parameter. -/
def parse (readToString : Text → Except String Text) (args : List Text) :
    Except String (Option Config) := do
  match ← parseArgs ⟨none, []⟩ args with
  | none => .ok none
  | some a =>
    let config ←
      match a.configPath with
      | some path => initial.readFile readToString path
      | none => .ok initial
    let config ← config.applyOverrides a.overrides
    config.validate
    .ok (some config)

end Config

end Brume
