import Brume.WireFormat

/-!
# UDP datagrams (`protocol.rs`)

The parser of relayed datagrams, the encoders of the client and of the server,
and the header that the server writes in place in front of a reply.
-/

namespace Brume.Protocol
open Lib Session

def parseDatagram (bytes : Bytes) : Except IoError (Target × Bytes) :=
  if h : bytes.length < 4 then .error (invalidData "UDP 数据报头无效或不支持分片")
  else if slice bytes 0 3 (by omega) ≠ [0, 0, 0] then
    .error (invalidData "UDP 数据报头无效或不支持分片")
  else
    match readSlice (readTarget (bytes.get ⟨3, by omega⟩)) (slice bytes 4 bytes.length (by omega)) with
    | .error e => .error e
    | .ok (target, reader) =>
      if reader = [] then .error (invalidData "UDP 数据报没有负载") else .ok (target, reader)

def encodeDatagram (address : SocketAddr) (payload : Bytes) : Bytes :=
  encodeAddress [0, 0, 0] address ++ payload

/-- The buffer is cleared and refilled; an error leaves the three header bytes in it. -/
def appendDatagramTo (_bytes : Bytes) (target : Target) (payload : Bytes) :
    Except IoError Unit × Bytes :=
  match encodeTarget [0, 0, 0] target with
  | .error e => (.error e, [0, 0, 0])
  | .ok bytes => (.ok (), bytes ++ payload)

def encodeDatagramTo (target : Target) (payload : Bytes) : Except IoError Bytes :=
  match appendDatagramTo [] target payload with
  | (.error e, _) => .error e
  | (.ok (), bytes) => .ok bytes

def datagramHeaderLen (address : SocketAddr) : ℕ := if address.ip.isIpv4 then 10 else 22

/-- `none` is a panic of one of the slice copies. -/
def writeDatagramHeader (bytes : Bytes) (address : SocketAddr) : Option Bytes := do
  let bytes ← copyInto bytes 0 3 [0, 0, 0]
  match address.ip with
  | .v4 ip => do
    let bytes ← copyInto bytes 3 4 [1]
    let bytes ← copyInto bytes 4 8 ip.octets.toList
    copyInto bytes 8 10 (portBytes address.port)
  | .v6 ip => do
    let bytes ← copyInto bytes 3 4 [4]
    let bytes ← copyInto bytes 4 20 ip.octets.toList
    copyInto bytes 20 22 (portBytes address.port)

/-! ### The header in place -/

theorem length_encodeAddress (address : SocketAddr) :
    (encodeAddress [0, 0, 0] address).length = datagramHeaderLen address := by
  unfold encodeAddress datagramHeaderLen
  cases address.ip <;> simp [IpAddr.isIpv4]

/-- Written over a buffer of its own length, the header is that of `encode_datagram`. -/
theorem writeDatagramHeader_eq {bytes : Bytes} {address : SocketAddr}
    (h : bytes.length = datagramHeaderLen address) :
    writeDatagramHeader bytes address = some (encodeAddress [0, 0, 0] address) := by
  unfold datagramHeaderLen at h
  unfold writeDatagramHeader encodeAddress
  cases hip : address.ip with
  | v4 ip =>
    simp only [hip, IpAddr.isIpv4, ↓reduceIte] at h
    simp [copyInto, h]
  | v6 ip =>
    simp only [hip, IpAddr.isIpv4] at h
    simp [copyInto, h]

/-! ### The grammar of datagrams -/

theorem parseDatagram_ok {b p : Bytes} {t : Target} :
    parseDatagram b = .ok (t, p) ↔ p ≠ [] ∧ ∃ e, encodeTarget [] t = .ok e ∧ b = [0, 0, 0] ++ e ++ p := by
  constructor
  · intro h
    unfold parseDatagram at h
    split at h
    · cases h
    · rename_i hlen
      split at h
      · cases h
      · rename_i hhead
        split at h
        · cases h
        · rename_i target reader hread
          split at h
          · cases h
          · rename_i hne
            cases h
            obtain ⟨t', hrun, rfl⟩ := readSlice_ok.mp hread
            obtain ⟨e, he, hi, -⟩ := readTarget_sound hrun
            refine ⟨hne, _, encodeTarget_iff.mpr ⟨_, e, he, rfl⟩, ?_⟩
            have h3 : b.take 3 = [0, 0, 0] := by
              rw [← slice_zero b 3 (by omega)]
              exact not_not.mp hhead
            have hd : b.drop 4 = e ++ t'.input := by
              rw [← hi, slice_suffix]
            calc b = b.take 3 ++ b.drop 3 := (List.take_append_drop 3 b).symm
              _ = [0, 0, 0] ++ (b.get ⟨3, by omega⟩ :: b.drop 4) := by
                rw [h3, List.drop_eq_getElem_cons (by omega : 3 < b.length)]
                rfl
              _ = _ := by
                rw [hd]
                simp
  · rintro ⟨hne, m, hm, rfl⟩
    obtain ⟨atyp, e, he, rfl⟩ := encodeTarget_iff.mp hm
    have hread : readSlice (readTarget atyp) (e ++ p) = .ok (t, p) :=
      readSlice_ok.mpr ⟨⟨p, []⟩, (readTarget_reads he).takes std noOracle p [], rfl⟩
    have hlen : ¬([0, 0, 0] ++ atyp :: e ++ p).length < 4 := by simp
    unfold parseDatagram
    rw [dif_neg hlen, if_neg (by simp [slice_zero]), slice_suffix]
    simp [hread, hne]

/-- Why a datagram is refused: it is malformed, or it stops inside the address. -/
theorem parseDatagram_error {b : Bytes} {e : IoError} (h : parseDatagram b = .error e) :
    e.kind = .invalidData ∨ e.kind = .unexpectedEof := by
  unfold parseDatagram at h
  split at h
  · cases h
    exact Or.inl rfl
  · split at h
    · cases h
      exact Or.inl rfl
    · split at h
      · rename_i e' hread
        cases h
        unfold readSlice at hread
        split at hread
        · cases hread
        · rename_i e'' t' hrun
          cases hread
          rcases readTarget_failsIn _ std noOracle _ _ _ hrun with rfl | hk
          · exact Or.inr rfl
          · exact Or.inl hk
      · split at h
        · cases h
          exact Or.inl rfl
        · cases h

theorem encodeDatagramTo_ok {t : Target} {p b : Bytes} :
    encodeDatagramTo t p = .ok b ↔ ∃ e, encodeTarget [] t = .ok e ∧ b = [0, 0, 0] ++ e ++ p := by
  unfold encodeDatagramTo appendDatagramTo
  rw [encodeTarget_append]
  cases encodeTarget [] t with
  | error e => simp [Except.map]
  | ok e => simp [Except.map, eq_comm]

/-- The datagram grammar is exact for every byte string, its decomposition is
unique, and parsing and encoding undo each other. -/
theorem datagram_grammar :
    (∀ b t p, parseDatagram b = .ok (t, p) ↔
      p ≠ [] ∧ ∃ e, encodeTarget [] t = .ok e ∧ b = [0, 0, 0] ++ e ++ p) ∧
    (∀ b, (∃ t p, parseDatagram b = .ok (t, p)) ∨
      ∃ e, parseDatagram b = .error e ∧ (e.kind = .invalidData ∨ e.kind = .unexpectedEof)) ∧
    (∀ t t' e e' p p', encodeTarget [] t = .ok e → encodeTarget [] t' = .ok e' →
      [0, 0, 0] ++ e ++ p = [0, 0, 0] ++ e' ++ p' → t = t' ∧ p = p') ∧
    (∀ address p, p ≠ [] →
      parseDatagram (encodeDatagram address p) = .ok (Target.from address, p)) ∧
    (∀ t p b, p ≠ [] → encodeDatagramTo t p = .ok b → parseDatagram b = .ok (t, p)) ∧
    (∀ b t p, parseDatagram b = .ok (t, p) → encodeDatagramTo t p = .ok b) := by
  refine ⟨fun b t p => parseDatagram_ok, ?_, ?_, ?_, ?_, ?_⟩
  · intro b
    cases h : parseDatagram b with
    | ok v => exact Or.inl ⟨v.1, v.2, rfl⟩
    | error e => exact Or.inr ⟨e, rfl, parseDatagram_error h⟩
  · intro t t' e e' p p' he he' h
    have hc : encodeMessage (0, t) = .ok ([5, 0, 0] ++ e) := encodeTarget_cons.mpr ⟨e, he, rfl⟩
    have hc' : encodeMessage (0, t') = .ok ([5, 0, 0] ++ e') := encodeTarget_cons.mpr ⟨e', he', rfl⟩
    have heq : [5, 0, 0] ++ e ++ p = [5, 0, 0] ++ e' ++ p' := by
      simp only [List.append_assoc] at h ⊢
      rw [List.append_cancel_left h]
    obtain ⟨ht, -, hp⟩ :=
      (readMessage_exact (Q := Empty) (A := NoAnswer) "").prefix_free hc hc' heq
    exact ⟨congrArg Prod.snd ht, hp⟩
  · intro address p hp
    refine parseDatagram_ok.mpr ⟨hp, encodeAddress [] address, encodeTarget_from [] address, ?_⟩
    have h := encodeTarget_from [0, 0, 0] address
    obtain ⟨e, he, hm⟩ := encodeTarget_cons.mp h
    rw [encodeTarget_from] at he
    rw [encodeDatagram, hm, Except.ok.inj he]
  · intro t p b hp h
    exact parseDatagram_ok.mpr ⟨hp, encodeDatagramTo_ok.mp h⟩
  · intro b t p h
    exact encodeDatagramTo_ok.mpr (parseDatagram_ok.mp h).2

end Brume.Protocol
