import Brume.Lib.Notes
import Brume.UdpAssociation

/-!
# UDP ASSOCIATE of the client library (`client.rs`)

`associate` from the negotiation to the connected socket. Besides the connection
to the server it uses a UDP socket and the resolver of the system, so it asks
more of its environment than `connect` does.
-/

namespace Brume
open Lib Session Protocol

namespace Client

/-- What `associate` asks: of the control connection, of the UDP socket, and of
`to_socket_addrs` for a name in the reply. -/
inductive AssociateQuery where
  | control (q : Query)
  | peerAddr
  | localAddr
  | bind (address : SocketAddr)
  | socketLocalAddr
  | toSocketAddrs (name : String) (port : UInt16)
  | socketConnect (relay : SocketAddr)
  | socketSetReadTimeout (timeout : Option Duration)
  | socketSetWriteTimeout (timeout : Option Duration)
  deriving DecidableEq

@[reducible] def AssociateAnswer : AssociateQuery → Type
  | .control q => Answer q
  | .peerAddr | .localAddr | .socketLocalAddr => Except IoError SocketAddr
  | .toSocketAddrs _ _ => Except IoError (List SocketAddr)
  | .bind _ | .socketConnect _ | .socketSetReadTimeout _ | .socketSetWriteTimeout _ => Except IoError Unit

abbrev AssociateProgram := Session AssociateQuery AssociateAnswer

def unspecified (ip : IpAddr) : SocketAddr :=
  match ip with
  | .v4 _ => SocketAddr.new (.v4 ⟨Vector.replicate 4 0⟩) 0
  | .v6 _ => SocketAddr.new (.v6 ⟨Vector.replicate 16 0⟩) 0

/-- An association as `associate` returns it: `relay` is what its socket is connected to. -/
structure Associated where
  association : UdpAssociation
  relay : SocketAddr

/-- The association with its two buffers. -/
def Associated.new (target : Target) (relay : SocketAddr) : Associated :=
  ⟨⟨target, [], Vector.replicate UdpAssociation.UDP_BUFFER_SIZE 0⟩, relay⟩

/-- Where the reply says that the server relays. An unspecified address stands for
the server itself. -/
def relayIp (bind peer : SocketAddr) (reply : Target) : AssociateProgram IpAddr :=
  match reply.host with
  | .ip ip => if !ip.isUnspecified then pure ip else pure peer.ip
  | .domain name => do
    let addresses ← ofExcept (← perform (.toSocketAddrs name reply.port))
    match addresses.find? fun address => address.ip.isIpv4 == bind.ip.isIpv4 with
    | some address => pure address.ip
    | none => throw ⟨.notFound, "UDP 中转地址没有匹配的协议族"⟩

def associate (client : Client) (target : Target) : AssociateProgram Associated := do
  client.negotiate.embed .control fun _ a => a
  let peer ← ofExcept (← perform .peerAddr)
  let bind := unspecified (← ofExcept (← perform .localAddr)).ip
  ofExcept (← perform (.bind bind))
  let port := (← ofExcept (← perform .socketLocalAddr)).port
  writeRequest UDP_ASSOCIATE ⟨.ip bind.ip, port⟩
  let (status, reply) ← readReply
  ofExcept (checkStatus status)
  let relay := SocketAddr.new (← relayIp bind peer reply) reply.port
  ofExcept (← perform (.socketConnect relay))
  ofExcept (← perform (.socketSetReadTimeout client.udpTimeout))
  ofExcept (← perform (.socketSetWriteTimeout client.udpTimeout))
  ofExcept (← perform (.control (.setReadTimeout none)))
  ofExcept (← perform (.control (.setWriteTimeout none)))
  pure (.new target relay)

end Client

end Brume
