import Brume.Lib.Transition
import Brume.Server.Handler
import Brume.Server.PacketTask

/-!
# The server as a whole (`server.rs`)

`run_async` with everything it spawns: the connection handlers, the UDP loop,
its packet tasks and the receivers of their flows, interleaved step by step. An
input names the part that moves and what its environment answers; the events
record what other parts and the outside can see of a step.
-/

namespace Brume.Server
open Lib Session

def MAX_TCP_CLIENTS : ℕ := 2048

/-! ### Connection handlers -/

/-- A running handler: the peer of its connection and what is left of its program. -/
structure Connection where
  peer : SocketAddr
  program : Handler Unit

/-- What the control loop of an association meets. -/
inductive ControlEvent where
  | data
  | eof
  | error
  | shutdown
  deriving DecidableEq

inductive HandlerInput where
  | go
  | readResult (r : Except IoError Bytes)
  | writeResult (r : Except IoError Unit)
  | answer (q : Query) (a : Answer q)
  | control (event : ControlEvent)

inductive HandlerEvent where
  | silent
  | allocated (clientIp : IpAddr) (requestedPort : UInt16)
  | inserted (accepted : Bool)
  | deadStored
  | stopCancelled
  | removed
  | returned
  deriving DecidableEq

/-- The queries that the outside answers. The others are accesses to the server's
own state, and the control loop has its own input. -/
def Query.external : Query → Prop
  | .newAssociation _ _ | .insert | .storeDead | .cancelStopped | .remove | .holdControl => False
  | _ => True

instance (q : Query) : Decidable q.external := by
  unfold Query.external
  split <;> infer_instance

/-- The answers that the state of the server allows: the peer is that of the
connection, and a race on the shutdown is over only after it. -/
def Allowed (peer : SocketAddr) (shutdown : Bool) : (q : Query) → Answer q → Prop
  | .peerAddr, .ok address => address = peer
  | .cancelled _, some _ => shutdown = true
  | _, _ => True

instance (peer : SocketAddr) (shutdown : Bool) (q : Query) (a : Answer q) :
    Decidable (Allowed peer shutdown q a) := by
  unfold Allowed
  split <;> infer_instance

structure HandlerStep where
  event : HandlerEvent
  program : Option (Handler Unit)
  world : World

/-- One step of the handler of connection `id`. -/
def Connection.step (id : ℕ) (shutdown : Bool) (c : Connection) (input : HandlerInput) (w : World) :
    Option HandlerStep :=
  match c.program, input with
  | .done _, .go => some ⟨.returned, none, w⟩
  | .read n k, .readResult r =>
    match r with
    | .ok bytes => if h : bytes.length = n then some ⟨.silent, some (k (.ok (buffer bytes h))), w⟩ else none
    | .error e => some ⟨.silent, some (k (.error e)), w⟩
  | .write _ k, .writeResult r => some ⟨.silent, some (k r), w⟩
  | .ask (.newAssociation clientIp requestedPort) k, .go =>
    some ⟨.allocated clientIp requestedPort, some (k ()), w.alloc id (.new clientIp requestedPort)⟩
  | .ask .insert k, .go =>
    let (accepted, w) := w.insert id id
    some ⟨.inserted accepted, some (k accepted), w⟩
  | .ask .storeDead k, .go => some ⟨.deadStored, some (k ()), w.storeDead id⟩
  | .ask .cancelStopped k, .go => some ⟨.stopCancelled, some (k ()), w.cancelStopped id⟩
  | .ask .remove k, .go => some ⟨.removed, some (k ()), w.remove id⟩
  | .ask .holdControl k, .control event =>
    match event with
    | .data => some ⟨.silent, some (.ask .holdControl k), w⟩
    | .eof | .error => some ⟨.silent, some (k ()), w⟩
    | .shutdown => if shutdown then some ⟨.silent, some (k ()), w⟩ else none
  | .ask q k, .answer q' a =>
    if h : q' = q then
      if q.external ∧ Allowed c.peer shutdown q' a then some ⟨.silent, some (k (h ▸ a)), w⟩ else none
    else none
  | _, _ => none

/-! ### The UDP loop -/

inductive LoopPc where
  | waiting
  | finding (source : SocketAddr) (bytes : Bytes) (target : Target) (payload : Bytes)
  | dispatching (association : Arc) (target : Target) (payload : Bytes)
  | ended
  deriving DecidableEq

inductive LoopInput where
  | go
  | received (source : SocketAddr) (bytes : Bytes)
  | receiveError (kind : ErrorKind)
  | shutdown
  deriving DecidableEq

inductive LoopEvent where
  | silent
  | found (source : SocketAddr) (bytes : Bytes) (target : Target) (payload : Bytes)
      (association : Option Arc)
  | spawned (task : ℕ)
  | ended
  deriving DecidableEq

structure LoopStep where
  event : LoopEvent
  pc : LoopPc
  task : Option PacketTask
  world : World

/-- One step of `udp_loop`; `permits` of the packet semaphore are free. -/
def LoopPc.step (whitelist : Whitelist) (shutdown : Bool) (permits nextTask : ℕ) (pc : LoopPc)
    (input : LoopInput) (w : World) : Option LoopStep :=
  match pc, input with
  | .waiting, .shutdown => if shutdown then some ⟨.ended, .ended, none, w⟩ else none
  | .waiting, .receiveError kind =>
    if kind = .connectionReset ∨ kind = .connectionRefused then some ⟨.silent, .waiting, none, w⟩
    else some ⟨.ended, .ended, none, w⟩
  | .waiting, .received source bytes =>
    if UDP_BUFFER_SIZE < bytes.length then none
    else
      match whitelist.allows source.ip with
      | none => none
      | some false => some ⟨.silent, .waiting, none, w⟩
      | some true =>
        match Protocol.parseDatagram bytes with
        | .error _ => some ⟨.silent, .waiting, none, w⟩
        | .ok (target, payload) => some ⟨.silent, .finding source bytes target payload, none, w⟩
  | .finding source bytes target payload, .go =>
    let (association, w) := w.find source
    let pc := match association with
      | none => .waiting
      | some association => .dispatching association target payload
    some ⟨.found source bytes target payload association, pc, none, w⟩
  | .dispatching association target payload, .go =>
    if permits = 0 then some ⟨.silent, .waiting, none, w⟩
    else some ⟨.spawned nextTask, .waiting, some (.new association target payload), w⟩
  | _, _ => none

/-! ### The state -/

/-- Where `run_async` is: accepting, behind the loop, or waiting for the UDP task. -/
inductive Phase where
  | accepting
  | stopping
  | joining
  | returned
  deriving DecidableEq

structure State where
  shared : Shared
  phase : Phase
  shutdown : Bool
  nextId : ℕ
  handlers : Dict ℕ Connection
  loop : LoopPc
  nextTask : ℕ
  tasks : Dict ℕ PacketTask
  receivers : Dict FlowId Receiver

inductive Input where
  | cancel
  | tick (nanos : ℕ)
  | accept (peer : SocketAddr)
  | leaveAccept
  | stopAssociations
  | join
  | handler (id : ℕ) (input : HandlerInput)
  | loop (input : LoopInput)
  | task (id : ℕ) (input : TaskInput)
  | receiver (flow : FlowId) (input : ReceiverInput)

inductive Event where
  | cancelled
  | ticked
  | accepted (id : ℕ) (peer : SocketAddr)
  | refused (peer : SocketAddr)
  | leftAccept
  | stoppedAssociations
  | joined
  | handler (id : ℕ) (event : HandlerEvent)
  | loop (event : LoopEvent)
  | task (id : ℕ) (event : TaskEvent)
  | receiver (flow : FlowId) (event : ReceiverEvent)
  deriving DecidableEq

namespace State

/-- The state that `Server::bind` and the first lines of `run_async` build. -/
def initial : State where
  shared := ⟨.initial, fun _ => .empty, 0, fun _ => ⟨.v4 ⟨Vector.replicate 4 0⟩ 0, 0, false, false, 0, 0⟩, 0, 0⟩
  phase := .accepting
  shutdown := false
  nextId := 1
  handlers := ∅
  loop := .waiting
  nextTask := 0
  tasks := ∅
  receivers := ∅

/-- A slot lives as long as a flow table, a packet task or a receiver refers to it. -/
def slotAlive (s : State) (slot : SlotId) : Bool :=
  (List.range s.nextId).any (fun arc => (s.shared.association arc).flows.entries.any fun e => e.2 = slot) ||
    s.tasks.entries.any (fun e => e.2.pc.slot? = some slot) ||
    s.receivers.entries.any fun e => e.2.slot = slot

/-- The free permits of the flow semaphore: a slot holds one while it lives. -/
def flowPermits (s : State) : ℕ := MAX_UDP_FLOWS - (List.range s.shared.nextSlot).countP s.slotAlive

/-- The free permits of the packet semaphore. -/
def packetPermits (s : State) : ℕ := MAX_UDP_PACKET_TASKS - Dict.size s.tasks

def setWorld (s : State) (world : World) : State := { s with shared := { s.shared with world } }

/-- `alive.store(false)` and `stopped.cancel()` for every entry, under the lock. -/
def stopEntries (w : World) : World :=
  let stopped (arc : Arc) : Bool := w.registry.entries.entries.any fun entry => entry.2 = arc
  { w with heap := fun arc =>
      if stopped arc then { w.heap arc with alive := false, stopped := true } else w.heap arc }

def step (config : Config) (s : State) (input : Input) : Option (Event × State) :=
  match input with
  | .cancel => some (.cancelled, { s with shutdown := true })
  | .tick nanos => some (.ticked, { s with shared := { s.shared with now := s.shared.now + nanos } })
  | .accept peer =>
    if s.phase ≠ .accepting then none
    else
      match config.whitelist.allows peer.ip with
      | none => none
      | some false => some (.refused peer, s)
      | some true =>
        if MAX_TCP_CLIENTS ≤ Dict.size s.handlers then some (.refused peer, s)
        else some (.accepted s.nextId peer, { s with
          nextId := s.nextId + 1
          handlers := s.handlers.insert s.nextId ⟨peer, handleClient config⟩ })
  | .leaveAccept =>
    -- the shutdown, an accept error or the end of the UDP task
    if s.phase = .accepting then some (.leftAccept, { s with phase := .stopping, shutdown := true }) else none
  | .stopAssociations =>
    if s.phase = .stopping then some (.stoppedAssociations, { s.setWorld (stopEntries s.shared.world) with phase := .joining }) else none
  | .join =>
    if s.phase = .joining ∧ s.loop = .ended then some (.joined, { s with phase := .returned }) else none
  | .handler id input =>
    match s.handlers.lookup id with
    | none => none
    | some c =>
      match c.step id s.shutdown input s.shared.world with
      | none => none
      | some r => some (.handler id r.event, { s.setWorld r.world with
          handlers := Dict.update s.handlers id (r.program.map (⟨c.peer, ·⟩)) })
  | .loop input =>
    match s.loop.step config.whitelist s.shutdown s.packetPermits s.nextTask input s.shared.world with
    | none => none
    | some r => some (.loop r.event, { s.setWorld r.world with
        loop := r.pc
        nextTask := if r.task.isSome then s.nextTask + 1 else s.nextTask
        tasks := match r.task with
          | some task => s.tasks.insert s.nextTask task
          | none => s.tasks })
  | .task id input =>
    match s.tasks.lookup id with
    | none => none
    | some t =>
      match t.step id s.flowPermits input s.shared with
      | none => none
      | some r => some (.task id r.event, { s with
          shared := r.shared
          tasks := Dict.update s.tasks id r.task
          receivers := match r.receiver with
            | some (flow, receiver) => s.receivers.insert flow receiver
            | none => s.receivers })
  | .receiver flow input =>
    match s.receivers.lookup flow with
    | none => none
    | some r =>
      match r.step config.udpTimeout flow input s.shared with
      | none => none
      | some r => some (.receiver flow r.event, { s with
          shared := r.shared
          receivers := Dict.update s.receivers flow r.receiver })

/-- The server starts without packet tasks and receivers. -/
theorem lookup_initial_tasks (id : ℕ) (t : PacketTask) : initial.tasks.lookup id ≠ some t :=
  fun h => Option.some_ne_none t h.symm

theorem lookup_initial_receivers (flow : FlowId) (r : Receiver) : initial.receivers.lookup flow ≠ some r :=
  fun h => Option.some_ne_none r h.symm

end State

/-- The transition system of a server with this configuration. -/
def system (config : Config) : System State Input Event := State.step config

end Brume.Server
