import Brume.Dns
import Brume.Server.Receiver

/-!
# Packet tasks (`server.rs`)

`handle_udp_packet` as a machine: one step for each lock section, atomic access,
completion of the cell, wait and send. The answers of the resolver and of the
sockets are its input.
-/

namespace Brume.Server
open Lib

inductive TaskPc where
  | start
  | lockingFlows
  | awaitingCell (slot : SlotId)
  | resolving (slot : SlotId)
  | choosing (slot : SlotId) (addresses : List SocketAddr)
  | binding (slot : SlotId) (addresses : List SocketAddr) (start offset : ℕ)
  | remembering (slot : SlotId) (addresses : List SocketAddr) (index : ℕ)
  | spawning (slot : SlotId) (addresses : List SocketAddr) (index : ℕ)
  | completing (slot : SlotId) (flow : Option FlowId)
  | checking (slot : SlotId) (flow : Option FlowId)
  | droppingStale (slot : SlotId)
  | checkingAlive (slot : SlotId) (flow : FlowId)
  | touching (slot : SlotId) (flow : FlowId)
  | sending (slot : SlotId) (flow : FlowId)
  | sent (slot : SlotId) (flow : FlowId)
  | deactivating (slot : SlotId) (flow : FlowId)
  | advancing (slot : SlotId) (flow : FlowId)
  | stopping (slot : SlotId) (flow : FlowId)
  | dropping (slot : SlotId) (flow : FlowId)
  deriving DecidableEq

/-- The slot a task holds a reference to. -/
def TaskPc.slot? : TaskPc → Option SlotId
  | .start | .lockingFlows => none
  | .awaitingCell slot | .resolving slot | .choosing slot _ | .binding slot _ _ _ | .remembering slot _ _
  | .spawning slot _ _ | .completing slot _ | .checking slot _ | .droppingStale slot
  | .checkingAlive slot _ | .touching slot _ | .sending slot _ | .sent slot _ | .deactivating slot _
  | .advancing slot _ | .stopping slot _ | .dropping slot _ => some slot

structure PacketTask where
  association : Arc
  target : Target
  payload : Bytes
  attempts : ℕ
  staleRetries : ℕ
  pc : TaskPc
  deriving DecidableEq

def PacketTask.new (association : Arc) (target : Target) (payload : Bytes) : PacketTask :=
  ⟨association, target, payload, 0, 0, .start⟩

inductive TaskInput where
  | go
  | lookedUp (lookupIp : Except IoError (List IpAddr))
  | bound (ok : Bool)
  | oldest (target : Target)
  | sent (ok : Bool)

inductive TaskEvent where
  | silent
  | resolved (association : Arc) (target : Target) (addresses : List SocketAddr)
  | spawned (flow : FlowId)
  | sent (flow : FlowId) (payload : Bytes) (ok : Bool)
  | finished
  deriving DecidableEq

structure TaskStep where
  event : TaskEvent
  task : Option PacketTask
  receiver : Option (FlowId × Receiver)
  shared : Shared

/-- One step of task `id`, with `permits` of the flow semaphore free. -/
def PacketTask.step (id permits : ℕ) (t : PacketTask) (input : TaskInput) (s : Shared) : Option TaskStep :=
  let go (pc : TaskPc) (s : Shared) : Option TaskStep := some ⟨.silent, some { t with pc }, none, s⟩
  let finish (s : Shared) : Option TaskStep := some ⟨.finished, none, none, s⟩
  let association := s.association t.association
  match t.pc, input with
  | .start, .go => if association.alive then go .lockingFlows s else finish s
  | .lockingFlows, .go =>
    match association.flows.lookup t.target with
    | some slot => go (.awaitingCell slot) s
    | none =>
      if MAX_FLOWS_PER_ASSOCIATION ≤ Dict.size association.flows then finish s
      else if permits = 0 then finish s
      else go (.awaitingCell s.nextSlot) (s.newSlot t.association t.target)
  | .awaitingCell slot, .go =>
    match s.slots slot with
    | .ready flow => go (.checking slot flow) s
    | .empty => go (.resolving slot) (s.setSlot slot (.initializing id))
    | .initializing _ => none
  | .resolving slot, .lookedUp lookupIp =>
    match (lookup (fun _ => lookupIp) t.target : Except IoError (List SocketAddr)) with
    | .error _ => go (.completing slot none) s
    | .ok addresses =>
      some ⟨.resolved t.association t.target addresses, some { t with pc := .choosing slot addresses },
        none, s⟩
  | .choosing slot addresses, .go =>
    let start := (association.preferredAddresses.lookup t.target).getD 0 % addresses.length
    go (.binding slot addresses start 0) s
  | .binding slot addresses start offset, .bound ok =>
    if offset < addresses.length then
      let index := (start + offset) % addresses.length
      if ok then
        if 1 < addresses.length then go (.remembering slot addresses index) s
        else go (.spawning slot addresses index) s
      else go (.binding slot addresses start (offset + 1)) s
    else none
  | .binding slot addresses _ offset, .go =>
    if offset < addresses.length then none else go (.completing slot none) s
  | .remembering slot addresses index, .oldest oldest =>
    match s.rememberUdpAddress t.association t.target index oldest with
    | none => none
    | some s => go (.spawning slot addresses index) s
  | .spawning slot addresses index, .go =>
    match addresses[index]? with
    | none => none
    | some destination =>
      some ⟨.spawned s.nextFlow, some { t with pc := .completing slot (some s.nextFlow) },
        some (s.nextFlow, .new t.association slot t.target destination),
        s.newFlow ⟨destination, s.now, true, false, index, addresses.length⟩⟩
  | .completing slot flow, .go => go (.checking slot flow) (s.setSlot slot (.ready flow))
  | .checking slot none, .go => finish (s.removeFlowSlot t.association t.target slot)
  | .checking slot (some flow), .go =>
    if (s.flows flow).active then go (.checkingAlive slot flow) s else go (.droppingStale slot) s
  | .droppingStale slot, .go =>
    let s := s.removeFlowSlot t.association t.target slot
    let staleRetries := t.staleRetries + 1
    if 2 < staleRetries then finish s
    else some ⟨.silent, some { t with staleRetries, pc := .lockingFlows }, none, s⟩
  | .checkingAlive slot flow, .go =>
    if association.alive then
      some ⟨.silent, some { t with attempts := t.attempts + 1, pc := .touching slot flow }, none, s⟩
    else finish s
  | .touching slot flow, .go => go (.sending slot flow) (s.touch flow)
  | .sending slot flow, .sent ok =>
    some ⟨.sent flow t.payload ok,
      some { t with pc := if ok then .sent slot flow else .deactivating slot flow }, none, s⟩
  | .sent _ flow, .go => finish (s.touch flow)
  | .deactivating slot flow, .go =>
    go (if (s.flows flow).active then .advancing slot flow else .stopping slot flow) (s.deactivate flow)
  | .advancing slot flow, .oldest oldest =>
    match s.advanceUdpAddress t.association t.target flow oldest with
    | none => none
    | some s => go (.stopping slot flow) s
  | .stopping slot flow, .go => go (.dropping slot flow) (s.stopFlow flow)
  | .dropping slot flow, .go =>
    let s := s.removeFlowSlot t.association t.target slot
    if (s.flows flow).addressCount ≤ t.attempts then finish s else go .lockingFlows s
  | _, _ => none

end Brume.Server
