import Brume.Datagram
import Brume.Server.Flows

/-!
# Flow receivers (`server.rs`)

`receive_remote` as a machine: one step for each lock section, atomic access,
wait and send. What the network and the timer do is its input. The clock counts
nanoseconds without a bound; `Deadline` says when the sum below is also one of
`Instant`s.
-/

namespace Brume.Server
open Lib Protocol

inductive ReceiverPc where
  | loopHead
  | settingDeadline
  | checkingDeadline (deadline : ℕ)
  | selecting (deadline : Option ℕ)
  | received (length : ℕ)
  | touching (length : ℕ)
  | readingEndpoint (length : ℕ)
  | replying (length : ℕ) (source : SocketAddr)
  | closing
  | advancing
  | dropping
  deriving DecidableEq

structure Receiver where
  association : Arc
  slot : SlotId
  target : Target
  destination : SocketAddr
  buffer : Bytes
  receivedReply : Bool
  failed : Bool
  pc : ReceiverPc
  deriving DecidableEq

def Receiver.new (association : Arc) (slot : SlotId) (target : Target) (destination : SocketAddr) :
    Receiver where
  association
  slot
  target
  destination
  buffer := List.replicate UDP_BUFFER_SIZE 0
  receivedReply := false
  failed := false
  pc := .loopHead

inductive ReceiverInput where
  | go
  | associationStopped
  | flowStopped
  | deadlineReached
  | datagram (sender : SocketAddr) (payload : Bytes)
  | receiveError
  | oldest (target : Target)
  deriving DecidableEq

inductive ReceiverEvent where
  | silent
  | arrived (sender : SocketAddr) (payload : Bytes)
  | replied (association : Arc) (endpoint : SocketAddr) (packet : Bytes)
  | finished
  deriving DecidableEq

structure ReceiverStep where
  event : ReceiverEvent
  receiver : Option Receiver
  shared : Shared

namespace Receiver

section Bounds
attribute [local instance] decidableLeLength

/-- `write_datagram_header(&mut buffer[start..22], destination)` and the slice
that is sent; `none` is a panic. -/
def frame (buffer : Bytes) (destination : SocketAddr) (length : ℕ) : Option (Bytes × Bytes) :=
  let start := 22 - datagramHeaderLen destination
  if h : start ≤ 22 ∧ 22 ≤ buffer.length then
    match writeDatagramHeader (slice buffer start 22 h) destination with
    | none => none
    | some header =>
      let buffer := buffer.take start ++ header ++ buffer.drop 22
      if h' : start ≤ 22 + length ∧ 22 + length ≤ buffer.length then
        some (buffer, slice buffer start (22 + length) h')
      else none
  else none

end Bounds

/-- One step of the receiver of `flow`. A connected socket delivers datagrams of
its peer only. -/
def step (timeout : Duration) (flow : FlowId) (r : Receiver) (input : ReceiverInput) (s : Shared) :
    Option ReceiverStep :=
  let go (r : Receiver) (s : Shared) : Option ReceiverStep := some ⟨.silent, some r, s⟩
  let association := s.association r.association
  match r.pc, input with
  | .loopHead, .go => go { r with pc := if association.alive then .settingDeadline else .closing } s
  | .settingDeadline, .go =>
    if timeout.secs = 0 then go { r with pc := .selecting none } s
    else go { r with pc := .checkingDeadline ((s.flows flow).lastActivity + timeout.nanos) } s
  | .checkingDeadline deadline, .go =>
    -- the lock is released: an activity that is recorded by now does not count
    if deadline ≤ s.now then go { r with failed := !r.receivedReply, pc := .closing } s
    else go { r with pc := .selecting (some deadline) } s
  | .selecting _, .associationStopped => if association.stopped then go { r with pc := .closing } s else none
  | .selecting _, .flowStopped => if (s.flows flow).stopped then go { r with pc := .closing } s else none
  | .selecting (some deadline), .deadlineReached =>
    if deadline ≤ s.now then go { r with pc := .loopHead } s else none
  | .selecting _, .datagram sender payload =>
    if sender = (s.flows flow).socket then
      match copyInto r.buffer 22 (22 + payload.length) payload with
      | none => none
      | some buffer =>
        some ⟨.arrived sender payload, some { r with buffer, pc := .received payload.length }, s⟩
    else none
  | .selecting _, .receiveError => go { r with failed := true, pc := .closing } s
  | .received length, .go =>
    if association.alive then go { r with receivedReply := true, pc := .touching length } s
    else go { r with pc := .closing } s
  | .touching length, .go => go { r with pc := .readingEndpoint length } (s.touch flow)
  | .readingEndpoint length, .go =>
    match association.endpoint with
    | none => go { r with pc := .loopHead } s
    | some source => go { r with pc := .replying length source } s
  | .replying length source, .go =>
    match frame r.buffer r.destination length with
    | none => none
    | some (buffer, packet) =>
      some ⟨.replied r.association source packet, some { r with buffer, pc := .loopHead }, s⟩
  | .closing, .go =>
    let advances := (s.flows flow).active && r.failed
    go { r with pc := if advances then .advancing else .dropping } (s.deactivate flow)
  | .advancing, .oldest oldest =>
    match s.advanceUdpAddress r.association r.target flow oldest with
    | none => none
    | some s => go { r with pc := .dropping } s
  | .dropping, .go => some ⟨.finished, none, s.removeFlowSlot r.association r.target r.slot⟩
  | _, _ => none

end Receiver

end Brume.Server
