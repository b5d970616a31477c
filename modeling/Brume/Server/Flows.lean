import Brume.Registry
import Brume.Config

/-!
# Flows (`server.rs`)

A flow is a connected socket with the bookkeeping around it; a flow slot is the
cell that the packet tasks of one target share. Both are shared by reference, so
they live in heaps beside the associations. Every definition here is one lock
section or one atomic access of the source.
-/

namespace Brume.Server
open Lib

def MAX_UDP_PACKET_TASKS : ℕ := 256
def MAX_UDP_FLOWS : ℕ := 1024
def MAX_FLOWS_PER_ASSOCIATION : ℕ := 128
def UDP_BUFFER_SIZE : ℕ := 65535

abbrev FlowId := ℕ

/-- `Flow`. The socket is the address it is connected to. -/
structure Flow where
  socket : SocketAddr
  lastActivity : ℕ
  active : Bool
  stopped : Bool
  addressIndex : ℕ
  addressCount : ℕ
  deriving DecidableEq

/-- `OnceCell<Option<Arc<Flow>>>`, with the task that initialises it. -/
inductive Cell where
  | empty
  | initializing (task : ℕ)
  | ready (flow : Option FlowId)
  deriving DecidableEq

/-- What the tasks of the server share. `now` is the clock behind `Instant::now`. -/
structure Shared where
  world : World
  slots : SlotId → Cell
  nextSlot : SlotId
  flows : FlowId → Flow
  nextFlow : FlowId
  now : ℕ

namespace Shared

def association (s : Shared) (arc : Arc) : Association := s.world.heap arc

def setAssociation (s : Shared) (arc : Arc) (a : Association) : Shared :=
  { s with world := { s.world with heap := s.world.heap.set arc a } }

def setSlot (s : Shared) (slot : SlotId) (c : Cell) : Shared :=
  { s with slots := Function.update s.slots slot c }

def setFlow (s : Shared) (flow : FlowId) (f : Flow) : Shared :=
  { s with flows := Function.update s.flows flow f }

/-- `*flow.last_activity.lock() = Instant::now()`. -/
def touch (s : Shared) (flow : FlowId) : Shared :=
  s.setFlow flow { s.flows flow with lastActivity := s.now }

/-- `flow.active.swap(false)`, whose result is the old value. -/
def deactivate (s : Shared) (flow : FlowId) : Shared :=
  s.setFlow flow { s.flows flow with active := false }

/-- `flow.stopped.cancel()`. -/
def stopFlow (s : Shared) (flow : FlowId) : Shared :=
  s.setFlow flow { s.flows flow with stopped := true }

/-- `flow.socket.connect(..)` and the construction of the flow. -/
def newFlow (s : Shared) (f : Flow) : Shared :=
  { s.setFlow s.nextFlow f with nextFlow := s.nextFlow + 1 }

/-- The new slot of `flows.insert(target, slot)`. -/
def newSlot (s : Shared) (arc : Arc) (target : Target) : Shared :=
  let a := s.association arc
  { (s.setSlot s.nextSlot .empty).setAssociation arc
      { a with flows := a.flows.insert target s.nextSlot } with nextSlot := s.nextSlot + 1 }

def removeFlowSlot (s : Shared) (arc : Arc) (target : Target) (slot : SlotId) : Shared :=
  let a := s.association arc
  if a.flows.lookup target = some slot then
    s.setAssociation arc { a with flows := a.flows.erase target }
  else s

/-- The key that `preferred.keys().next()` gives is any key: the environment
names it, and `none` is a wrong choice. -/
def rememberUdpAddress (s : Shared) (arc : Arc) (target : Target) (index : ℕ) (oldest : Target) :
    Option Shared :=
  let a := s.association arc
  let preferred := a.preferredAddresses
  if MAX_FLOWS_PER_ASSOCIATION ≤ Dict.size preferred ∧ target ∉ preferred then
    if oldest ∈ preferred then
      some (s.setAssociation arc
        { a with preferredAddresses := (preferred.erase oldest).insert target index })
    else none
  else some (s.setAssociation arc { a with preferredAddresses := preferred.insert target index })

def advanceUdpAddress (s : Shared) (arc : Arc) (target : Target) (flow : FlowId) (oldest : Target) :
    Option Shared :=
  let f := s.flows flow
  if 1 < f.addressCount then
    s.rememberUdpAddress arc target ((f.addressIndex + 1) % f.addressCount) oldest
  else some s

end Shared

end Brume.Server
