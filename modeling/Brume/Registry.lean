import Brume.Lib.Dict
import Brume.Lib.Machine
import Brume.Protocol
import Brume.Server.Endpoint

/-!
# The association registry (`server.rs`)

Associations are shared, so they live in a heap and the registry holds their
addresses. A handler allocates at most one association, and its connection id
serves as the address.
-/

namespace Brume.Server
open Lib

/-- The address of an association (`Arc<Association>`). -/
abbrev Arc := ℕ

/-- The address of a `FlowSlot`. -/
abbrev SlotId := ℕ

structure Association where
  clientIp : IpAddr
  requestedPort : UInt16
  endpoint : Option SocketAddr
  alive : Bool
  stopped : Bool
  flows : Dict Target SlotId
  preferredAddresses : Dict Target ℕ

namespace Association

/-- The association that `associate` creates. -/
def new (clientIp : IpAddr) (requestedPort : UInt16) : Association where
  clientIp
  requestedPort
  endpoint := none
  alive := true
  stopped := false
  flows := ∅
  preferredAddresses := ∅

def accepts (a : Association) (source : SocketAddr) : Bool × Association :=
  if normalize source.ip ≠ normalize a.clientIp ∨
      (a.requestedPort ≠ 0 ∧ a.requestedPort ≠ source.port) then (false, a)
  else
    match a.endpoint with
    | some existing =>
      if endpointKey existing = endpointKey source then (true, { a with endpoint := some source })
      else (false, a)
    | none => (true, { a with endpoint := some source })

/-- The key that `remove` looks for in `endpoints`; without one it looks in `pending`. -/
def indexKey (a : Association) : Option SocketAddr :=
  if a.requestedPort ≠ 0 then some (SocketAddr.new (normalize a.clientIp) a.requestedPort)
  else a.endpoint.map endpointKey

end Association

structure AssociationRegistry where
  entries : Dict ℕ Arc
  endpoints : Dict SocketAddr ℕ
  pending : Dict IpAddr ℕ

/-- `AssociationRegistry::default()`. -/
def AssociationRegistry.default : AssociationRegistry := ⟨∅, ∅, ∅⟩

abbrev Heap := Arc → Association

def Heap.set (heap : Heap) (arc : Arc) (a : Association) : Heap := Function.update heap arc a

/-- The registry with the associations it shares with the rest of the server. -/
structure World where
  heap : Heap
  registry : AssociationRegistry

namespace World

/-- The registry of a server that has just started. -/
def initial : World := ⟨fun _ => .new (.v4 ⟨Vector.replicate 4 0⟩) 0, .default⟩

/-- `Arc::new(association)`. -/
def alloc (w : World) (arc : Arc) (a : Association) : World := { w with heap := w.heap.set arc a }

def insert (w : World) (id : ℕ) (arc : Arc) : Bool × World :=
  let a := w.heap arc
  let ip := normalize a.clientIp
  if a.requestedPort = 0 then
    if (w.registry.pending.lookup ip).isSome then (false, w)
    else (true, { w with registry := { w.registry with
      pending := w.registry.pending.insert ip id
      entries := w.registry.entries.insert id arc } })
  else
    let endpoint := SocketAddr.new ip a.requestedPort
    if (w.registry.endpoints.lookup endpoint).isSome then (false, w)
    else (true, { w with registry := { w.registry with
      endpoints := w.registry.endpoints.insert endpoint id
      entries := w.registry.entries.insert id arc } })

/-- `association.alive.load() && association.accepts(source)`. -/
def admits (w : World) (arc : Arc) (source : SocketAddr) : Bool × World :=
  if (w.heap arc).alive then
    let (accepted, a) := (w.heap arc).accepts source
    (accepted, { w with heap := w.heap.set arc a })
  else (false, w)

def find (w : World) (source : SocketAddr) : Option Arc × World :=
  let endpoint := endpointKey source
  match w.registry.endpoints.lookup endpoint with
  | some id =>
    match w.registry.entries.lookup id with
    | none => (none, w)
    | some arc =>
      let (admitted, w) := w.admits arc source
      (if admitted then some arc else none, w)
  | none =>
    let ip := normalize source.ip
    match w.registry.pending.lookup ip with
    | none => (none, w)
    | some id =>
      match w.registry.entries.lookup id with
      | none => (none, w)
      | some arc =>
        let (admitted, w) := w.admits arc source
        if admitted then
          (some arc, { w with registry := { w.registry with
            pending := w.registry.pending.erase ip
            endpoints := w.registry.endpoints.insert endpoint id } })
        else (none, w)

def remove (w : World) (id : ℕ) : World :=
  match w.registry.entries.lookup id with
  | none => w
  | some arc =>
    let entries := w.registry.entries.erase id
    let ip := normalize (w.heap arc).clientIp
    match (w.heap arc).indexKey with
    | some endpoint =>
      if w.registry.endpoints.lookup endpoint = some id then
        { w with registry := { w.registry with entries, endpoints := w.registry.endpoints.erase endpoint } }
      else { w with registry := { w.registry with entries } }
    | none =>
      if w.registry.pending.lookup ip = some id then
        { w with registry := { w.registry with entries, pending := w.registry.pending.erase ip } }
      else { w with registry := { w.registry with entries } }

/-- `association.alive.store(false)`. -/
def storeDead (w : World) (arc : Arc) : World :=
  { w with heap := w.heap.set arc { w.heap arc with alive := false } }

/-- `association.stopped.cancel()`. -/
def cancelStopped (w : World) (arc : Arc) : World :=
  { w with heap := w.heap.set arc { w.heap arc with stopped := true } }

end World

end Brume.Server
