import Brume.Server.Receiver

/-!
# The header of a reply (`server.rs`)

`receive_remote` puts a datagram behind the first 22 bytes of its buffer and
writes the header backwards from there. What it sends is what `encode_datagram`
makes of the destination and the datagram.
-/

namespace Brume.Server
open Lib Protocol

theorem datagramHeaderLen_le (destination : SocketAddr) : datagramHeaderLen destination ≤ 22 := by
  unfold datagramHeaderLen
  split <;> omega

/-- The header ends before the datagram, and the buffer keeps its size. -/
theorem length_headed {buffer : Bytes} (destination : SocketAddr) (h : 22 ≤ buffer.length) :
    (buffer.take (22 - datagramHeaderLen destination) ++ encodeAddress [0, 0, 0] destination ++
      buffer.drop 22).length = buffer.length := by
  have hle := datagramHeaderLen_le destination
  have hlen := length_encodeAddress destination
  rw [List.length_append, List.length_append, List.length_take, List.length_drop, hlen]
  omega

namespace Receiver

/-- A datagram in the buffer is sent behind the header of its sender. -/
theorem frame_eq {buffer : Bytes} {length : ℕ} (destination : SocketAddr) (h : 22 + length ≤ buffer.length) :
    frame buffer destination length =
      some (buffer.take (22 - datagramHeaderLen destination) ++ encodeAddress [0, 0, 0] destination ++
          buffer.drop 22,
        encodeDatagram destination ((buffer.drop 22).take length)) := by
  have hle := datagramHeaderLen_le destination
  have hlen := length_encodeAddress destination
  have hb : 22 - datagramHeaderLen destination ≤ 22 ∧ 22 ≤ buffer.length := by omega
  have hslice : (slice buffer (22 - datagramHeaderLen destination) 22 hb).length =
      datagramHeaderLen destination := by
    rw [slice, List.length_drop, List.length_take]
    omega
  unfold frame
  dsimp only
  rw [dif_pos hb, writeDatagramHeader_eq hslice]
  dsimp only
  rw [dif_pos (by rw [length_headed destination hb.2]; omega), slice,
    drop_take_replaced buffer _ length (by omega) hb.2 (by omega), encodeDatagram]

/-- Outside the buffer the slice that is sent panics. -/
theorem frame_length_le {buffer buffer' packet : Bytes} {destination : SocketAddr} {length : ℕ}
    (h : frame buffer destination length = some (buffer', packet)) : 22 + length ≤ buffer.length := by
  have hle := datagramHeaderLen_le destination
  unfold frame at h
  dsimp only at h
  split at h
  · rename_i hb
    have hslice : (slice buffer (22 - datagramHeaderLen destination) 22 hb).length =
        datagramHeaderLen destination := by
      rw [slice, List.length_drop, List.length_take]
      omega
    rw [writeDatagramHeader_eq hslice] at h
    dsimp only at h
    split at h
    · rename_i hfit
      rw [length_headed destination hb.2] at hfit
      exact hfit.2
    · cases h
  · cases h

theorem frame_ok {buffer buffer' packet : Bytes} {destination : SocketAddr} {length : ℕ}
    (h : frame buffer destination length = some (buffer', packet)) :
    packet = encodeDatagram destination ((buffer.drop 22).take length) := by
  rw [frame_eq destination (frame_length_le h)] at h
  cases h
  rfl

theorem frame_length {buffer buffer' packet : Bytes} {destination : SocketAddr} {length : ℕ}
    (h : frame buffer destination length = some (buffer', packet)) : buffer'.length = buffer.length := by
  have hfit := frame_length_le h
  rw [frame_eq destination hfit] at h
  cases h
  exact length_headed destination (by omega)

end Receiver

theorem copyInto_length {bs src bs' : Bytes} {i j : ℕ} (h : copyInto bs i j src = some bs') :
    bs'.length = bs.length := by
  obtain ⟨rfl, hij, hj, hsrc⟩ := copyInto_ok h
  rw [List.length_append, List.length_append, List.length_take, List.length_drop]
  omega

/-- The reply header in place equals the plain encoder, whatever the buffer held before. -/
theorem reply_header_in_place (destination : SocketAddr) (buffer q : Bytes)
    (hbuffer : buffer.length = UDP_BUFFER_SIZE) (hq : q.length ≤ 65513) :
    ∃ received sent, copyInto buffer 22 (22 + q.length) q = some received ∧
      Receiver.frame received destination q.length = some (sent, encodeDatagram destination q) ∧
      sent.length = UDP_BUFFER_SIZE ∧ (sent.drop 22).take q.length = q := by
  have hroom : 22 + q.length ≤ buffer.length := by
    rw [hbuffer, UDP_BUFFER_SIZE]
    omega
  have hcopy : copyInto buffer 22 (22 + q.length) q =
      some (buffer.take 22 ++ q ++ buffer.drop (22 + q.length)) := if_pos ⟨by omega, hroom, by omega⟩
  have hlength := copyInto_length hcopy
  have hfront : (buffer.take 22).length = 22 := by
    rw [List.length_take]
    omega
  have hpayload : ((buffer.take 22 ++ q ++ buffer.drop (22 + q.length)).drop 22).take q.length = q := by
    rw [List.append_assoc, List.drop_left' hfront, List.take_left]
  have hframe := Receiver.frame_eq destination (hroom.trans_eq hlength.symm)
  have hheader : ((buffer.take 22 ++ q ++ buffer.drop (22 + q.length)).take
      (22 - datagramHeaderLen destination) ++ encodeAddress [0, 0, 0] destination).length = 22 := by
    have hle := datagramHeaderLen_le destination
    rw [List.length_append, List.length_take, length_encodeAddress, hlength]
    omega
  rw [hpayload] at hframe
  refine ⟨_, _, hcopy, hframe, ?_, ?_⟩
  · rw [Receiver.frame_length hframe, hlength, hbuffer]
  · rw [List.drop_left' hheader, hpayload]

/-- Two bytes to an IPv6 address over a buffer full of an earlier datagram. -/
theorem reply_header_in_place_reused :
    ∃ received sent, copyInto (List.replicate UDP_BUFFER_SIZE 7) 22 24 [104, 105] = some received ∧
      Receiver.frame received (.v6 ⟨Vector.replicate 16 1⟩ 53 0 0) 2 =
        some (sent, encodeDatagram (.v6 ⟨Vector.replicate 16 1⟩ 53 0 0) [104, 105]) := by
  obtain ⟨received, sent, hcopy, hframe, -⟩ := reply_header_in_place (.v6 ⟨Vector.replicate 16 1⟩ 53 0 0)
    (List.replicate UDP_BUFFER_SIZE 7) [104, 105] (List.length_replicate ..) (by decide)
  exact ⟨received, sent, hcopy, hframe⟩

end Brume.Server
