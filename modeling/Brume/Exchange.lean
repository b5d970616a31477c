import Brume.Associate
import Brume.Handshake
import Brume.Server.Transcript

/-!
# Client and server, up to the reply

The client's `connect` and `associate` against the whole handler of the server,
with its timeouts and its registry. Behind the handshake the client sends its
request, the server answers what its environment decides, and the client reads
this answer. The server takes a note of every association that it creates. It goes
on to the relay, or holds the control connection, while the client has its result.
-/

namespace Brume
open Lib Session Protocol Server Duplex

/-! ### The server's side -/

namespace Server

/-- The client address and the port of an association that is created. -/
def requested : Query → Option (IpAddr × UInt16)
  | .newAssociation clientIp requestedPort => some (clientIp, requestedPort)
  | _ => none

abbrev Env.noted (env : Env) {α : Type} (p : Handler α) : Closed (Rest Query α × List (IpAddr × UInt16)) :=
  Session.noted env.oracle requested [] p

/-- The handler of a connection up to its relay or the control connection that it
holds, with the associations it creates. -/
def side (config : Config) (env : Env) : Closed (Rest Query Unit × List (IpAddr × UInt16)) :=
  env.noted (handleClient config)

variable {config : Config} {env : Env}

theorem embed_negotiate (f : Empty → Query) (g : (q : Empty) → Answer (f q) → NoAnswer q) :
    (negotiate config : Closed Unit).embed f g = (negotiate config : Handler Unit) := by
  unfold negotiate checkCredentials
  simp

theorem noted_timeout {α β : Type} {p : Handler α} (hp : AsksOnly (fun q => requested q = none) p) (stage : Stage)
    (f : Option (Except IoError α) → Handler β) :
    env.noted (timeout stage p >>= f) = (env.noted p).settle (onward [] fun r => env.noted (f (some r))) :=
  noted_race hp (fun _ => rfl) (fun _ => ⟨none, rfl, rfl⟩) f [] 0

theorem side_eq :
    side config env = (negotiate config).settle fun r => env.noted (ofExcept r >>= fun _ => serve config) := by
  unfold side handleClient handshake
  simp only [bind_assoc]
  refine (noted_ask_unseen rfl rfl _ []).trans ((noted_timeout (negotiate_asksOnly _ config) .negotiate _).trans ?_)
  rw [← embed_negotiate (fun q => q.elim) (fun q => q.elim), Env.noted, noted_embed, settle_settle]
  refine congrArg _ (funext fun r => ?_)
  cases r <;> rfl

/-- Where the handler of a registered association comes to rest. -/
def Env.held (env : Env) : Rest Query Unit := if env.controlEnds then .returned () else .asking .holdControl

end Server

/-! ### The client's side -/

namespace Client

/-- The addresses that the client's sockets have, and what the resolver knows. Nothing fails. -/
structure Surroundings where
  peer : SocketAddr
  localAddr : SocketAddr
  socketAddr : SocketAddr
  resolves : String → UInt16 → Except IoError (List SocketAddr)

def Surroundings.answer (around : Surroundings) : (q : AssociateQuery) → AssociateAnswer q
  | .peerAddr => .ok around.peer
  | .localAddr => .ok around.localAddr
  | .socketLocalAddr => .ok around.socketAddr
  | .toSocketAddrs name port => around.resolves name port
  | .control _ | .bind _ | .socketConnect _ | .socketSetReadTimeout _ | .socketSetWriteTimeout _ => .ok ()

/-- The request of `associate`: any address, and the port of the client's socket. -/
def Surroundings.request (around : Surroundings) : Target :=
  ⟨.ip (unspecified around.localAddr.ip).ip, around.socketAddr.port⟩

variable {client : Client} {around : Surroundings}

/-- The server takes the unspecified address for that of the peer. -/
theorem Surroundings.allowed (around : Surroundings) (peer : SocketAddr) :
    rejectedAddress around.request peer = none := by
  have hany : (unspecified around.localAddr.ip).ip.isUnspecified = true := by
    cases around.localAddr.ip <;> rfl
  have hfree : ¬(!(unspecified around.localAddr.ip).ip.isUnspecified ∧
      normalize (unspecified around.localAddr.ip).ip ≠ normalize peer.ip) := by
    intro h
    rw [hany] at h
    exact absurd h.1 (by decide)
  exact if_neg hfree

/-- Where the client sends its datagrams: to the address in the reply, or to the
server it is connected to. -/
def Surroundings.relay (around : Surroundings) (address : SocketAddr) : SocketAddr :=
  SocketAddr.new (if !address.ip.isUnspecified then address.ip else around.peer.ip) address.port

end Client

/-! ### The conversation -/

section
variable {client : Client} {config : Config}

end

end Brume
