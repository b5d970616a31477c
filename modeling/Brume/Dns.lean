import Brume.Protocol

/-!
# Resolution of targets (`dns.rs`)

`lookup_ip` stands for the resolver library: the addresses of a name, or an
error. An IP target resolves to itself without asking it.
-/

namespace Brume
open Lib

variable {m : Type → Type} [Monad m] [MonadExcept IoError m]

/-- `DnsResolver::lookup`. -/
def lookup (lookupIp : String → m (List IpAddr)) (target : Target) : m (List SocketAddr) := do
  let addresses ← (
    match target.host with
    | .ip ip => pure [SocketAddr.new ip target.port]
    | .domain name => do
      let ips ← lookupIp name
      pure (ips.map (SocketAddr.new · target.port)))
  if addresses = [] then throw ⟨.notFound, "目标地址没有解析结果"⟩
  else pure addresses

end Brume
