import Brume.Client
import Brume.Server.Steps

/-!
# UDP associations of the client library (`client.rs`)

`send` and `recv` of a client's association, and what they and the relay of the
server make of each other's packets. The socket is the environment's: `send`
is given what it answers to a packet, `recv` what it delivers.
-/

namespace Brume
open Lib Protocol

namespace UdpAssociation

def UDP_BUFFER_SIZE : ℕ := 65535

end UdpAssociation

/-- The receive buffer keeps its length, the send buffer does not. -/
structure UdpAssociation where
  target : Target
  sendBuffer : Bytes
  recvBuffer : Vector UInt8 UdpAssociation.UDP_BUFFER_SIZE

namespace UdpAssociation

/-- The result of `send`, and the packet that the socket was given. -/
structure Sent where
  result : Except IoError ℕ
  packet : Option Bytes
  association : UdpAssociation

def send (a : UdpAssociation) (socketSend : Bytes → Except IoError ℕ) (payload : Bytes) : Sent :=
  match appendDatagramTo a.sendBuffer a.target payload with
  | (.error e, packet) => ⟨.error e, none, { a with sendBuffer := packet }⟩
  | (.ok (), packet) =>
    match socketSend packet with
    | .error e => ⟨.error e, some packet, { a with sendBuffer := packet }⟩
    | .ok length =>
      if length ≠ packet.length then
        ⟨.error ⟨.writeZero, "UDP 数据报未完整发送"⟩, some packet, { a with sendBuffer := packet }⟩
      else ⟨.ok payload.length, some packet, { a with sendBuffer := packet }⟩

/-- The result of `recv`, and what the caller's buffer holds then. -/
structure Received where
  result : Except IoError (ℕ × Target)
  payload : Bytes
  association : UdpAssociation

/-- `socket.recv(&mut buffer)`: a datagram that is too long loses its end. -/
def fill {n : ℕ} (buf : Vector UInt8 n) (datagram : Bytes) : Vector UInt8 n :=
  buffer (datagram.take n ++ buf.toList.drop datagram.length) (by simp; omega)

def recv (a : UdpAssociation) (socketRecv : Except IoError Bytes) (payload : Bytes) : Received :=
  match socketRecv with
  | .error e => ⟨.error e, payload, a⟩
  | .ok datagram =>
    let length := min datagram.length UDP_BUFFER_SIZE
    let a := { a with recvBuffer := fill a.recvBuffer datagram }
    match parseDatagram (a.recvBuffer.toList.take length) with
    | .error e => ⟨.error e, payload, a⟩
    | .ok (target, data) =>
      if payload.length < data.length then ⟨.error ⟨.invalidInput, "接收缓冲区不足"⟩, payload, a⟩
      else ⟨.ok (data.length, target), data ++ payload.drop data.length, a⟩

/-! ### One packet in each direction -/

/-- A datagram without payload is refused behind its address. -/
theorem parseDatagram_empty {t : Target} {e : Bytes} (h : encodeTarget [] t = .ok e) :
    parseDatagram ([0, 0, 0] ++ e) = .error (invalidData "UDP 数据报没有负载") := by
  obtain ⟨atyp, e, he, rfl⟩ := encodeTarget_iff.mp h
  have hrun := (readTarget_reads he).takes std Session.noOracle [] []
  rw [List.append_nil] at hrun
  have hread : Session.readSlice (readTarget atyp) e = .ok (t, []) :=
    Session.readSlice_ok.mpr ⟨⟨[], []⟩, hrun, rfl⟩
  have hlen : ¬([0, 0, 0] ++ atyp :: e).length < 4 := by simp
  unfold parseDatagram
  rw [dif_neg hlen, if_neg (by simp [slice_zero]), slice_suffix]
  simp [hread]

/-- What a parser makes of a datagram of `t` with payload `p`. -/
def decoded (t : Target) (p : Bytes) : Except IoError (Target × Bytes) :=
  if p = [] then .error (invalidData "UDP 数据报没有负载") else .ok (t, p)

theorem parseDatagram_encoded {t : Target} {p b : Bytes} (h : encodeDatagramTo t p = .ok b) :
    parseDatagram b = decoded t p := by
  obtain ⟨e, he, rfl⟩ := encodeDatagramTo_ok.mp h
  unfold decoded
  by_cases hp : p = []
  · rw [if_pos hp, hp, List.append_nil, parseDatagram_empty he]
  · rw [if_neg hp]
    exact parseDatagram_ok.mpr ⟨hp, e, he, rfl⟩

theorem encodeDatagram_eq (address : SocketAddr) (p : Bytes) :
    encodeDatagramTo (Target.from address) p = .ok (encodeDatagram address p) := by
  have h := encodeTarget_from [0, 0, 0] address
  obtain ⟨e, he, hm⟩ := encodeTarget_cons.mp h
  exact encodeDatagramTo_ok.mpr ⟨e, he, by rw [encodeDatagram, hm]⟩

theorem send_ok {a : UdpAssociation} {socketSend : Bytes → Except IoError ℕ} {payload : Bytes} {n : ℕ}
    (h : (a.send socketSend payload).result = .ok n) :
    n = payload.length ∧ ∃ packet, (a.send socketSend payload).packet = some packet ∧
      encodeDatagramTo a.target payload = .ok packet := by
  -- the earlier contents of the buffer are cleared
  have hclear : appendDatagramTo a.sendBuffer a.target payload = appendDatagramTo [] a.target payload := rfl
  unfold send at h ⊢
  unfold encodeDatagramTo
  rw [hclear] at h ⊢
  rcases happend : appendDatagramTo [] a.target payload with ⟨e | ⟨⟩, packet⟩
  · rw [happend] at h
    cases h
  · rw [happend] at h
    simp only at h ⊢
    cases hs : socketSend packet with
    | error e =>
      rw [hs] at h
      cases h
    | ok length =>
      rw [hs] at h
      simp only at h ⊢
      by_cases hl : length ≠ packet.length
      · rw [if_pos hl] at h
        cases h
      · rw [if_neg hl] at h ⊢
        exact ⟨(Except.ok.inj h).symm, packet, rfl, rfl⟩

/-- `send` succeeds where the target has an encoding and the socket takes the packet. -/
theorem send_whole {a : UdpAssociation} {socketSend : Bytes → Except IoError ℕ} {payload packet : Bytes}
    (h : encodeDatagramTo a.target payload = .ok packet) (hsocket : socketSend packet = .ok packet.length) :
    (a.send socketSend payload).result = .ok payload.length := by
  have hclear : appendDatagramTo a.sendBuffer a.target payload = appendDatagramTo [] a.target payload := rfl
  unfold encodeDatagramTo at h
  unfold send
  rw [hclear]
  rcases happend : appendDatagramTo [] a.target payload with ⟨e | ⟨⟩, packet'⟩
  · rw [happend] at h
    cases h
  · rw [happend] at h
    cases h
    simp only [hsocket]
    rw [if_neg (not_not.mpr rfl)]

theorem take_fill {n : ℕ} (buf : Vector UInt8 n) {datagram : Bytes} (h : datagram.length ≤ n) :
    (fill buf datagram).toList.take datagram.length = datagram := by
  rw [fill, toList_buffer, List.take_of_length_le h, List.take_left]

/-- A packet that fits the buffer reaches the parser whole. -/
theorem recv_packet {a : UdpAssociation} {packet : Bytes} (payload : Bytes)
    (h : packet.length ≤ UDP_BUFFER_SIZE) {t : Target} {p : Bytes}
    (hp : parseDatagram packet = decoded t p) (hfit : p.length ≤ payload.length) :
    (a.recv (.ok packet) payload).result = (decoded t p).map (fun (t, p) => (p.length, t)) ∧
      (a.recv (.ok packet) payload).payload = p ++ payload.drop p.length := by
  have htake : (fill a.recvBuffer packet).toList.take (min packet.length UDP_BUFFER_SIZE) = packet := by
    rw [Nat.min_eq_left h]
    exact take_fill a.recvBuffer h
  unfold recv
  simp only [htake, hp]
  unfold decoded
  by_cases he : p = []
  · simp [he, Except.map]
  · simp [he, Except.map, Nat.not_lt.mpr hfit]

end UdpAssociation

/-! ### The receiver of a flow, from its start -/

namespace Server.Receiver

/-- What the receiver of a flow to `destination` has done since it was spawned. The other
tasks move in between, so every step meets a state of its own. -/
inductive Run (timeout : Duration) (flow : FlowId) (r₀ : Receiver) : List ReceiverEvent → Receiver → Prop
  | start : Run timeout flow r₀ [] r₀
  | step {events : List ReceiverEvent} {r r' : Receiver} {input : ReceiverInput} {s s' : Shared}
      {event : ReceiverEvent} (h : Run timeout flow r₀ events r)
      (hs : r.step timeout flow input s = some ⟨event, some r', s'⟩) :
      Run timeout flow r₀ (events ++ [event]) r'

/-- `q` is the last datagram that arrived, and nothing was relayed since. -/
def Pending (events : List ReceiverEvent) (q : Bytes) : Prop :=
  ∃ before sender after, events = before ++ .arrived sender q :: after ∧ ∀ e ∈ after, e = .silent

/-- What holds of a receiver throughout its life. -/
structure Relaying (r₀ : Receiver) (events : List ReceiverEvent) (r : Receiver) : Prop where
  destination : r.destination = r₀.destination
  size : r.buffer.length = UDP_BUFFER_SIZE
  fits : ∀ n, r.pc.length? = some n → 22 + n ≤ UDP_BUFFER_SIZE
  pending : ∀ q, r.held = some q → Pending events q

variable {timeout : Duration} {flow : FlowId} {r₀ r r' : Receiver} {input : ReceiverInput} {s s' : Shared}
  {events : List ReceiverEvent} {event : ReceiverEvent}

theorem relaying_new (association : Arc) (slot : SlotId) (target : Target) (destination : SocketAddr) :
    Relaying (.new association slot target destination) [] (.new association slot target destination) where
  destination := rfl
  size := List.length_replicate
  fits n h := by cases h
  pending q h := by cases h

theorem Relaying.step (h : Relaying r₀ events r)
    (hs : r.step timeout flow input s = some ⟨event, some r', s'⟩) : Relaying r₀ (events ++ [event]) r' := by
  have hnone : ∀ {r' : Receiver}, r'.pc.length? = none → r'.held = none := by
    intro r' hr
    rw [held_eq, hr]
    rfl
  cases step_cases hs with
  | loop hl =>
    refine ⟨hl.destination.trans h.destination, hl.size.trans h.size, fun n hn => ?_, fun q hq => ?_⟩
    · rcases hl.length n hn with hold | hnew
      · exact h.fits n hold
      · rw [h.size] at hnew
        exact hnew
    · rcases hl.held q hq with ⟨rfl, hold⟩ | ⟨sender, rfl⟩
      · obtain ⟨before, sender, after, rfl, hafter⟩ := h.pending q hold
        refine ⟨before, sender, after ++ [.silent], by simp, fun e he => ?_⟩
        rcases List.mem_append.mp he with hin | hlast
        · exact hafter e hin
        · exact List.mem_singleton.mp hlast
      · exact ⟨events, sender, [], rfl, by simp⟩
  | close hpc =>
    have hlen : ReceiverPc.length? (if (s.flows flow).active && r.failed then .advancing else .dropping) = none := by
      split <;> rfl
    refine ⟨h.destination, h.size, fun n hn => ?_, fun q hq => ?_⟩
    · rw [hlen] at hn
      cases hn
    · rw [hnone hlen] at hq
      cases hq
  | advance hpc _ =>
    have hpending := @hnone { r with pc := .dropping } rfl
    exact ⟨h.destination, h.size, by simp [ReceiverPc.length?], by simp [hpending]⟩

theorem Run.relaying (h : Run timeout flow r₀ events r) (h₀ : Relaying r₀ [] r₀) : Relaying r₀ events r := by
  induction h with
  | start => exact h₀
  | step _ hs ih => exact ih.step hs

/-- A relayed packet carries the datagram that arrived last, behind the header of the
destination, and it is no longer than the buffer of the client. -/
theorem Run.replied (h : Run timeout flow r₀ events r) (h₀ : Relaying r₀ [] r₀) {step : ReceiverStep}
    (hs : r.step timeout flow input s = some step) {arc : Arc} {source : SocketAddr} {packet : Bytes}
    (he : step.event = .replied arc source packet) :
    ∃ q, Pending events q ∧ q.length ≤ 65513 ∧ packet = encodeDatagram r₀.destination q := by
  have hrel := h.relaying h₀
  obtain ⟨-, -, q, hq, rfl⟩ := (step_spec hs).replied arc source packet he
  refine ⟨q, hrel.pending q hq, ?_, by rw [hrel.destination]⟩
  rw [held_eq, Option.map_eq_some_iff] at hq
  obtain ⟨n, hn, rfl⟩ := hq
  have hfit : 22 + n ≤ 65535 := hrel.fits n hn
  rw [List.length_take]
  omega

end Server.Receiver

/-! ### End to end -/

open Server

theorem length_encodeDatagram (address : SocketAddr) (q : Bytes) :
    (encodeDatagram address q).length ≤ 22 + q.length := by
  have hlen := length_encodeAddress address
  have hle := datagramHeaderLen_le address
  rw [encodeDatagram, List.length_append]
  omega

/-- UDP payloads survive the pair of client and server, except the empty one. What
`send` hands to its socket, the parser of the server takes apart again; whatever the
tasks of the server do in between, what a receiver relays is what arrived last on its
flow, and `recv` of the client takes it apart. Either parser refuses a datagram
without payload, which `send` accepts like any other when the socket takes all of the
packet. A receiver is never stopped by the size of a datagram. -/
theorem datagrams_survive (timeout : Duration) (flow : FlowId) (arc : Arc) (slot : SlotId) (target : Target)
    (destination : SocketAddr) :
    (∀ (a : UdpAssociation) (socketSend : Bytes → Except IoError ℕ) (payload : Bytes) (n : ℕ),
      (a.send socketSend payload).result = .ok n →
      n = payload.length ∧ ∃ packet, (a.send socketSend payload).packet = some packet ∧
        parseDatagram packet =
          if payload = [] then .error (invalidData "UDP 数据报没有负载") else .ok (a.target, payload)) ∧
    (∀ (a : UdpAssociation) (socketSend : Bytes → Except IoError ℕ) (payload packet : Bytes),
      encodeDatagramTo a.target payload = .ok packet → socketSend packet = .ok packet.length →
      (a.send socketSend payload).result = .ok payload.length) ∧
    ∀ events r, Receiver.Run timeout flow (.new arc slot target destination) events r →
      (∀ input s step association source packet, r.step timeout flow input s = some step →
        step.event = .replied association source packet →
        ∃ q, Receiver.Pending events q ∧ q.length ≤ 65513 ∧
          ∀ (a : UdpAssociation) (payload : Bytes), q.length ≤ payload.length →
            (a.recv (.ok packet) payload).result =
              (if q = [] then .error (invalidData "UDP 数据报没有负载")
                else .ok (q.length, Target.from destination)) ∧
            (a.recv (.ok packet) payload).payload = q ++ payload.drop q.length) ∧
      (∀ deadline s q, r.pc = .selecting deadline → q.length ≤ 65513 →
        (r.step timeout flow (.datagram (s.flows flow).socket q) s).isSome) ∧
      ∀ length source s, r.pc = .replying length source → (r.step timeout flow .go s).isSome := by
  refine ⟨fun a socketSend payload n h => ?_, fun _ _ _ _ => UdpAssociation.send_whole, fun events r hrun => ⟨?_, ?_, ?_⟩⟩
  · obtain ⟨hn, packet, hpacket, henc⟩ := UdpAssociation.send_ok h
    exact ⟨hn, packet, hpacket, UdpAssociation.parseDatagram_encoded henc⟩
  · intro input s step association source packet hs he
    obtain ⟨q, hpending, hq, rfl⟩ := hrun.replied (Receiver.relaying_new arc slot target destination) hs he
    refine ⟨q, hpending, hq, fun a payload hfit => ?_⟩
    have hlen : (encodeDatagram destination q).length ≤ UdpAssociation.UDP_BUFFER_SIZE :=
      (length_encodeDatagram destination q).trans (by rw [UdpAssociation.UDP_BUFFER_SIZE]; omega)
    have hdecoded := UdpAssociation.parseDatagram_encoded (UdpAssociation.encodeDatagram_eq destination q)
    obtain ⟨hresult, hpayload⟩ := UdpAssociation.recv_packet (a := a) payload hlen hdecoded hfit
    refine ⟨hresult.trans ?_, hpayload⟩
    rw [UdpAssociation.decoded]
    split <;> rfl
  · intro deadline s q hpc hq
    have hsize := (hrun.relaying (Receiver.relaying_new arc slot target destination)).size
    have hcopy : copyInto r.buffer 22 (22 + q.length) q =
        some (r.buffer.take 22 ++ q ++ r.buffer.drop (22 + q.length)) := by
      refine if_pos ⟨by omega, ?_, by omega⟩
      rw [hsize, UDP_BUFFER_SIZE]
      omega
    unfold Receiver.step
    simp [hpc, hcopy]
  · intro length source s hpc
    have hrel := hrun.relaying (Receiver.relaying_new arc slot target destination)
    have hfit : 22 + length ≤ r.buffer.length := by
      rw [hrel.size]
      exact hrel.fits length (by rw [hpc]; rfl)
    unfold Receiver.step
    simp [hpc, Receiver.frame_eq r.destination hfit]

/-- An association with 127.0.0.1:53 that has sent before. -/
def UdpAssociation.loopback : UdpAssociation where
  target := ⟨.ip (.v4 (.new 127 0 0 1)), 53⟩
  sendBuffer := [0, 0, 0, 1, 10, 0, 0, 1, 0, 80, 7, 7, 7, 7]
  recvBuffer := Vector.replicate UdpAssociation.UDP_BUFFER_SIZE 0

/-- Two bytes through a socket that sends whole datagrams. -/
theorem datagrams_survive_loopback :
    (2 : ℕ) = ([104, 105] : Bytes).length ∧
      ∃ packet, (UdpAssociation.loopback.send (fun b => .ok b.length) [104, 105]).packet = some packet ∧
        parseDatagram packet =
          if ([104, 105] : Bytes) = [] then .error (invalidData "UDP 数据报没有负载")
          else .ok (UdpAssociation.loopback.target, [104, 105]) :=
  (datagrams_survive ⟨60⟩ 0 1 0 UdpAssociation.loopback.target (.v4 ⟨#v[127, 0, 0, 1]⟩ 53)).1
    UdpAssociation.loopback (fun b => .ok b.length) [104, 105] 2 rfl

/-- `send` accepts an empty payload, and the server refuses the packet. -/
theorem datagrams_survive_empty :
    ¬∀ (a : UdpAssociation) (socketSend : Bytes → Except IoError ℕ) (payload : Bytes) (n : ℕ),
      (a.send socketSend payload).result = .ok n →
      ∃ packet, (a.send socketSend payload).packet = some packet ∧
        parseDatagram packet = .ok (a.target, payload) := by
  intro h
  obtain ⟨packet, hpacket, hparse⟩ := h UdpAssociation.loopback (fun b => .ok b.length) [] 0 rfl
  cases hpacket
  revert hparse
  decide

end Brume
