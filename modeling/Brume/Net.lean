import Brume.Lib.BigEndian

/-!
# Addresses (`std::net`)

The part of the standard library's address types that the server, the client
and the configuration use. An address is its octets in network order, so the
codec reads and writes them as they stand; the numeric view is `toNat`.
-/

namespace Brume
open Lib

structure Ipv4Addr where
  octets : Vector UInt8 4
  deriving DecidableEq

structure Ipv6Addr where
  octets : Vector UInt8 16
  deriving DecidableEq

inductive IpAddr where
  | v4 (ip : Ipv4Addr)
  | v6 (ip : Ipv6Addr)
  deriving DecidableEq

/-- The sockets deliver IPv6 peers with a flow label and a scope, which take
part in the equality of addresses. -/
inductive SocketAddr where
  | v4 (ip : Ipv4Addr) (port : UInt16)
  | v6 (ip : Ipv6Addr) (port : UInt16) (flowinfo scopeId : UInt32)
  deriving DecidableEq

/-! ### IPv4 and IPv6 addresses -/

def Ipv4Addr.new (a b c d : UInt8) : Ipv4Addr := ⟨#v[a, b, c, d]⟩

def Ipv4Addr.toNat (ip : Ipv4Addr) : ℕ := beVal ip.octets.toList

def Ipv6Addr.toNat (ip : Ipv6Addr) : ℕ := beVal ip.octets.toList

theorem Ipv4Addr.toNat_lt (ip : Ipv4Addr) : ip.toNat < 2 ^ 32 := by
  have h := beVal_lt ip.octets.toList
  rw [ip.octets.length_toList] at h
  exact h

theorem Ipv6Addr.toNat_lt (ip : Ipv6Addr) : ip.toNat < 2 ^ 128 := by
  have h := beVal_lt ip.octets.toList
  rw [ip.octets.length_toList] at h
  exact h

theorem Ipv6Addr.ext_octets {a b : Ipv6Addr} (h : a.octets.toList = b.octets.toList) : a = b := by
  cases a
  cases b
  congr 1
  exact Vector.toList_inj.mp h

theorem Ipv6Addr.toNat_inj {a b : Ipv6Addr} : a.toNat = b.toNat ↔ a = b := by
  constructor
  · intro h
    exact Ipv6Addr.ext_octets (beVal_inj (by simp) h)
  · rintro rfl
    rfl

/-! ### IPv4-mapped addresses -/

/-- The first 96 bits of `::ffff:0:0/96`. -/
def mappedPrefix : Bytes := [0, 0, 0, 0, 0, 0, 0, 0, 0, 0, 255, 255]

/-- `::ffff:a.b.c.d`, the form in which a dual-stack socket reports an IPv4 peer. -/
def Ipv4Addr.toIpv6Mapped (ip : Ipv4Addr) : Ipv6Addr :=
  ⟨buffer (mappedPrefix ++ ip.octets.toList) (by simp [mappedPrefix])⟩

def Ipv6Addr.toIpv4Mapped (ip : Ipv6Addr) : Option Ipv4Addr :=
  if ip.octets.toList.take 12 = mappedPrefix then
    some ⟨buffer (ip.octets.toList.drop 12) (by simp)⟩
  else none

theorem Ipv6Addr.toIpv4Mapped_eq_some {a : Ipv6Addr} {x : Ipv4Addr} :
    a.toIpv4Mapped = some x ↔ a = x.toIpv6Mapped := by
  unfold Ipv6Addr.toIpv4Mapped
  constructor
  · intro h
    split at h
    · rename_i hp
      cases h
      apply Ipv6Addr.ext_octets
      simp only [Ipv4Addr.toIpv6Mapped, toList_buffer]
      rw [← hp, List.take_append_drop]
    · cases h
  · rintro rfl
    have hx : x.octets.toList.length = 4 := by simp
    simp [Ipv4Addr.toIpv6Mapped, mappedPrefix]

@[simp] theorem Ipv4Addr.toIpv6Mapped_toIpv4Mapped (x : Ipv4Addr) :
    x.toIpv6Mapped.toIpv4Mapped = some x := Ipv6Addr.toIpv4Mapped_eq_some.mpr rfl

theorem Ipv4Addr.toIpv6Mapped_toNat (x : Ipv4Addr) :
    x.toIpv6Mapped.toNat = 0xffff * 2 ^ 32 + x.toNat := by
  simp only [Ipv6Addr.toNat, Ipv4Addr.toIpv6Mapped, toList_buffer, beVal_append,
    Vector.length_toList, Ipv4Addr.toNat]
  rfl

/-! ### Socket addresses -/

def IpAddr.isIpv4 : IpAddr → Bool
  | .v4 _ => true
  | .v6 _ => false

def IpAddr.isUnspecified : IpAddr → Bool
  | .v4 ip => decide (ip.octets.toList = List.replicate 4 0)
  | .v6 ip => decide (ip.octets.toList = List.replicate 16 0)

def SocketAddr.new : IpAddr → UInt16 → SocketAddr
  | .v4 ip, port => .v4 ip port
  | .v6 ip, port => .v6 ip port 0 0

def SocketAddr.ip : SocketAddr → IpAddr
  | .v4 ip _ => .v4 ip
  | .v6 ip _ _ _ => .v6 ip

def SocketAddr.port : SocketAddr → UInt16
  | .v4 _ port => port
  | .v6 _ port _ _ => port

def SocketAddr.isIpv6 : SocketAddr → Bool
  | .v4 .. => false
  | .v6 .. => true

@[simp] theorem SocketAddr.ip_new (ip : IpAddr) (port : UInt16) : (SocketAddr.new ip port).ip = ip := by
  cases ip <;> rfl

@[simp] theorem SocketAddr.port_new (ip : IpAddr) (port : UInt16) :
    (SocketAddr.new ip port).port = port := by
  cases ip <;> rfl

theorem SocketAddr.new_inj {ip ip' : IpAddr} {port port' : UInt16} :
    SocketAddr.new ip port = SocketAddr.new ip' port' ↔ ip = ip' ∧ port = port' := by
  constructor
  · intro h
    have hi := congrArg SocketAddr.ip h
    have hp := congrArg SocketAddr.port h
    simp only [SocketAddr.ip_new, SocketAddr.port_new] at hi hp
    exact ⟨hi, hp⟩
  · rintro ⟨rfl, rfl⟩
    rfl

/-! ### Ports on the wire -/

/-- `u16::to_be_bytes`. -/
def portBytes (port : UInt16) : Bytes := beBytes 2 port.toNat

/-- `u16::from_be_bytes`. -/
def portOf (bytes : Vector UInt8 2) : UInt16 := UInt16.ofNat (beVal bytes.toList)

@[simp] theorem portBytes_length (port : UInt16) : (portBytes port).length = 2 := beBytes_length 2 _

theorem portOf_portBytes (port : UInt16) (h : (portBytes port).length = 2) :
    portOf (buffer (portBytes port) h) = port := by
  apply UInt16.toNat_inj.mp
  have hp := port.toNat_lt
  simp only [portOf, portBytes, toList_buffer, beVal_beBytes, UInt16.toNat_ofNat']
  omega

theorem portBytes_portOf (bytes : Vector UInt8 2) : portBytes (portOf bytes) = bytes.toList := by
  have hl := bytes.length_toList
  have hlt := beVal_lt bytes.toList
  rw [hl] at hlt
  have hv : (portOf bytes).toNat = beVal bytes.toList := by
    rw [portOf, UInt16.toNat_ofNat']
    omega
  have hb := beBytes_beVal bytes.toList
  rw [hl] at hb
  rw [portBytes, hv, hb]

end Brume
