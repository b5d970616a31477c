import Brume.Net

/-!
# Client endpoints (`server.rs`)

The normal form in which the server compares addresses, and the keys of its
registry. A key drops the IPv4-mapped form, the flow label and the scope.
-/

namespace Brume.Server

def normalize (ip : IpAddr) : IpAddr :=
  match ip with
  | .v6 ip =>
    match ip.toIpv4Mapped with
    | some ip => .v4 ip
    | none => .v6 ip
  | ip => ip

def endpointKey (address : SocketAddr) : SocketAddr :=
  SocketAddr.new (normalize address.ip) address.port

def unspecified (ip : IpAddr) : SocketAddr :=
  match ip with
  | .v4 _ => SocketAddr.new (.v4 ⟨Vector.replicate 4 0⟩) 0
  | .v6 _ => SocketAddr.new (.v6 ⟨Vector.replicate 16 0⟩) 0

theorem endpointKey_inj {a b : SocketAddr} :
    endpointKey a = endpointKey b ↔ normalize a.ip = normalize b.ip ∧ a.port = b.port :=
  SocketAddr.new_inj

end Brume.Server
