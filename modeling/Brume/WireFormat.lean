import Brume.Protocol

/-!
# The wire format of requests and replies

`readTarget` accepts exactly the forms `encodeTarget` writes, so the readers of
requests and replies are exact readers of what the writers write, whole message
by whole message, and the asynchronous copies do the same on every stream.
-/

namespace Brume.Protocol
open Lib Session

variable {Q : Type} {A : Q → Type}

/-- `readTarget` reads each address form, and waits for all of it. -/
theorem readTarget_reads {t : Target} {atyp : UInt8} {e : Bytes} (h : Encodes t atyp e) :
    Reads (readTarget atyp : Session Q A Target) e t := by
  rcases t with ⟨host, port⟩
  have hport : Reads (readExact 2 >>= fun p => pure ⟨host, portOf p⟩ : Session Q A Target)
      (portBytes port) ⟨host, port⟩ := by
    refine (Reads.readExact _ 2 (portBytes_length port)).andThen ?_
    rw [portOf_portBytes]
    exact Reads.pure _
  unfold readTarget
  cases h with
  | v4 ip h =>
    cases h
    refine Reads.bind ?_ hport
    rw [if_pos rfl]
    refine (Reads.readExact _ 4 ip.octets.length_toList).andThen ?_
    rw [buffer_toList]
    exact Reads.pure _
  | v6 ip h =>
    cases h
    refine Reads.bind ?_ hport
    rw [if_neg (by decide), if_neg (by decide), if_pos rfl]
    refine (Reads.readExact _ 16 ip.octets.length_toList).andThen ?_
    rw [buffer_toList]
    exact Reads.pure _
  | domain name h hpos hle =>
    cases h
    have hlen : (UInt8.ofNat (utf8Bytes name).length).toNat = (utf8Bytes name).length := by
      rw [UInt8.toNat_ofNat']
      omega
    have hfirst : (buffer [UInt8.ofNat (utf8Bytes name).length] rfl : Vector UInt8 1)[0] =
        UInt8.ofNat (utf8Bytes name).length := getElem_buffer _ _ _ _
    have hne : ¬UInt8.ofNat (utf8Bytes name).length = 0 := by
      intro h0
      rw [h0, UInt8.toNat_zero] at hlen
      omega
    rw [← List.cons_append]
    refine Reads.bind ?_ hport
    rw [if_neg (by decide), if_pos rfl, ← List.singleton_append]
    refine (Reads.readExact _ 1 rfl).bind ?_
    rw [if_neg (by rw [hfirst]; exact hne)]
    refine (Reads.readExact _ _ (by rw [hfirst]; exact hlen.symm)).andThen ?_
    rw [toList_buffer, fromUtf8_utf8Bytes]
    exact Reads.pure _

/-- Whatever `readTarget` accepts, it has read in one of the three forms. -/
theorem readTarget_sound {rt : Runtime} {oracle : Oracle Q A} {t t' : Tape} {atyp : UInt8} {target : Target}
    (h : runTape rt oracle (readTarget atyp) t = (.finished (.ok target), t')) :
    ∃ e, Encodes target atyp e ∧ t.input = e ++ t'.input ∧ t.output = t'.output := by
  unfold readTarget at h
  obtain ⟨host, t₁, hhost, hport⟩ := (runTape_bind_ok rt oracle).mp h
  obtain ⟨port, t₂, hread, hpure⟩ := (runTape_bind_ok rt oracle).mp hport
  obtain ⟨hi₁, ho₁⟩ := (runTape_readExact_ok rt oracle).mp hread
  simp only [runTape_pure, Prod.mk.injEq, Outcome.finished.injEq, Except.ok.injEq] at hpure
  obtain ⟨rfl, rfl⟩ := hpure
  rw [← portBytes_portOf port] at hi₁
  split at hhost
  · rename_i hatyp
    obtain ⟨octets, t₃, hoct, hp⟩ := (runTape_bind_ok rt oracle).mp hhost
    obtain ⟨hi₂, ho₂⟩ := (runTape_readExact_ok rt oracle).mp hoct
    simp only [runTape_pure, Prod.mk.injEq, Outcome.finished.injEq, Except.ok.injEq] at hp
    obtain ⟨rfl, rfl⟩ := hp
    subst hatyp
    exact ⟨_, .v4 ⟨octets⟩ rfl, by rw [hi₂, hi₁, List.append_assoc], ho₂.trans ho₁⟩
  · split at hhost
    · rename_i hatyp
      obtain ⟨length, t₃, hlen, hname⟩ := (runTape_bind_ok rt oracle).mp hhost
      obtain ⟨hi₂, ho₂⟩ := (runTape_readExact_ok rt oracle).mp hlen
      split at hname
      · simp at hname
      · rename_i hne
        obtain ⟨name, t₄, hn, hutf⟩ := (runTape_bind_ok rt oracle).mp hname
        obtain ⟨hi₃, ho₃⟩ := (runTape_readExact_ok rt oracle).mp hn
        split at hutf
        · rename_i s hs
          simp only [runTape_pure, Prod.mk.injEq, Outcome.finished.injEq, Except.ok.injEq] at hutf
          obtain ⟨rfl, rfl⟩ := hutf
          subst hatyp
          have hb := fromUtf8_eq_some.mp hs
          have hn' : (utf8Bytes s).length = length[0].toNat := by rw [hb, name.length_toList]
          have hlt := length[0].toNat_lt
          have hpos : 0 < length[0].toNat := Nat.pos_of_ne_zero fun h0 => hne (UInt8.toNat_inj.mp h0)
          refine ⟨_, .domain s rfl (by omega) (by omega), ?_, (ho₂.trans ho₃).trans ho₁⟩
          rw [hi₂, hi₃, hi₁, toList_one _ (by omega), hn', hb, UInt8.ofNat_toNat]
          simp
        · simp at hutf
    · split at hhost
      · rename_i hatyp
        obtain ⟨octets, t₃, hoct, hp⟩ := (runTape_bind_ok rt oracle).mp hhost
        obtain ⟨hi₂, ho₂⟩ := (runTape_readExact_ok rt oracle).mp hoct
        simp only [runTape_pure, Prod.mk.injEq, Outcome.finished.injEq, Except.ok.injEq] at hp
        obtain ⟨rfl, rfl⟩ := hp
        subst hatyp
        exact ⟨_, .v6 ⟨octets⟩ rfl, by rw [hi₂, hi₁, List.append_assoc], ho₂.trans ho₁⟩
      · simp at hhost

/-- Apart from the end of the stream, `readTarget` fails with `InvalidData` only. -/
theorem readTarget_failsIn (atyp : UInt8) :
    FailsIn (readTarget atyp : Session Q A Target) (·.kind = .invalidData) := by
  refine FailsIn.bind ?_ fun host => (FailsIn.readExact 2).bind fun _ => FailsIn.pure _
  split
  · exact (FailsIn.readExact 4).bind fun _ => FailsIn.pure _
  · split
    · refine (FailsIn.readExact 1).bind fun length => ?_
      split
      · exact FailsIn.throw rfl
      · refine (FailsIn.readExact _).bind fun name => ?_
        split
        · exact FailsIn.pure _
        · exact FailsIn.throw rfl
    · split
      · exact (FailsIn.readExact 16).bind fun _ => FailsIn.pure _
      · exact FailsIn.throw rfl

/-! ### Requests and replies -/

/-- What `write_request` writes for a command (or status) and a target. -/
def encodeMessage (m : UInt8 × Target) : Except IoError Bytes := encodeTarget [5, m.1, 0] m.2

theorem encodeMessage_ok {m : UInt8 × Target} {b : Bytes} :
    encodeMessage m = .ok b ↔ ∃ atyp e, Encodes m.2 atyp e ∧ b = [5, m.1, 0, atyp] ++ e := by
  unfold encodeMessage
  rw [encodeTarget_cons]
  constructor
  · rintro ⟨_, he, rfl⟩
    obtain ⟨atyp, e, h, rfl⟩ := encodeTarget_iff.mp he
    exact ⟨atyp, e, h, by simp⟩
  · rintro ⟨atyp, e, h, rfl⟩
    exact ⟨_, encodeTarget_iff.mpr ⟨atyp, e, h, rfl⟩, by simp⟩

theorem readMessage_exact (message : String) :
    Exact (readMessage message : Session Q A _) encodeMessage where
  reads := by
    rintro m ⟨c, t⟩ h
    obtain ⟨atyp, e, he, rfl⟩ := encodeMessage_ok.mp h
    refine (Reads.readExact [5, c, 0, atyp] 4 rfl).bind ?_
    rw [if_neg (by simp)]
    refine (readTarget_reads ?_).andThen (Reads.pure _)
    simpa using he
  sound := by
    rintro rt oracle tape tape' ⟨c, t⟩ h
    obtain ⟨header, t₁, hhead, hrest⟩ := (runTape_bind_ok rt oracle).mp h
    obtain ⟨hi, ho⟩ := (runTape_readExact_ok rt oracle).mp hhead
    split at hrest
    · simp at hrest
    · rename_i hok
      obtain ⟨target, t₂, htarget, hpure⟩ := (runTape_bind_ok rt oracle).mp hrest
      obtain ⟨e, he, hi₂, ho₂⟩ := readTarget_sound htarget
      simp only [runTape_pure, Prod.mk.injEq, Outcome.finished.injEq, Except.ok.injEq] at hpure
      obtain ⟨⟨rfl, rfl⟩, rfl⟩ := hpure
      refine ⟨_, encodeMessage_ok.mpr ⟨header[3], e, he, rfl⟩, ?_, ho.trans ho₂⟩
      have h5 : header[0] = 5 := by_contra fun hc => hok (Or.inl hc)
      have h0 : header[2] = 0 := by_contra fun hc => hok (Or.inr hc)
      rw [hi, hi₂, toList_four _ (by omega) (by omega) (by omega) (by omega), h5, h0]
      simp

/-! ### Segmentation and the asynchronous copies -/

theorem readTarget_runtimeFree (atyp : UInt8) : RuntimeFree (readTarget atyp : Session Q A Target) := by
  refine RuntimeFree.bind ?_ fun host => (runtimeFree_readExact 2).bind fun _ => runtimeFree_pure _
  split
  · exact (runtimeFree_readExact 4).bind fun _ => runtimeFree_pure _
  · split
    · refine (runtimeFree_readExact 1).bind fun length => ?_
      split
      · exact runtimeFree_throw _
      · refine (runtimeFree_readExact _).bind fun name => ?_
        split
        · exact runtimeFree_pure _
        · exact runtimeFree_throw _
    · split
      · exact (runtimeFree_readExact 16).bind fun _ => runtimeFree_pure _
      · exact runtimeFree_throw _

theorem readMessage_runtimeFree (message : String) :
    RuntimeFree (readMessage message : Session Q A _) := by
  refine (runtimeFree_readExact 4).bind fun header => ?_
  split
  · exact runtimeFree_throw _
  · exact (readTarget_runtimeFree _).bind fun _ => runtimeFree_pure _

theorem writeRequest_runtimeFree (command : UInt8) (target : Target) :
    RuntimeFree (writeRequest command target : Session Q A Unit) := by
  unfold writeRequest
  split
  · exact runtimeFree_writeAll _
  · exact runtimeFree_throw _

/-- A reader of one message form and its asynchronous copy, against the bytes
`[5, c, 0] ++ encode_target(t)`. -/
structure ExactReader (oracle : Oracle Q A) (read readAsync : Session Q A (UInt8 × Target)) : Prop where
  accepts : ∀ b r out c t, runTape std oracle read ⟨b, out⟩ = (.finished (.ok (c, t)), ⟨r, out⟩) ↔
    ∃ e, encodeTarget [] t = .ok e ∧ b = [5, c, 0] ++ e ++ r
  truncated : ∀ b out c t e, encodeTarget [] t = .ok e → b <+: [5, c, 0] ++ e → b ≠ [5, c, 0] ++ e →
    runTape std oracle read ⟨b, out⟩ = (.finished (.error std.eof), ⟨[], out⟩)
  same_stream : ∀ w,
    (runWire std oracle read w).1.forgetText = (runWire tokio oracle readAsync w).1.forgetText ∧
      (runWire std oracle read w).2 = (runWire tokio oracle readAsync w).2
  segmentation : ∀ w : Wire, w.Clean →
    (runWire std oracle read w).1 = (runTape std oracle read w.tape).1 ∧
      (runWire std oracle read w).2.tape = (runTape std oracle read w.tape).2
  any_cut : ∀ w w' : Wire, w.Clean → w'.Clean → w.tape = w'.tape →
    (runWire std oracle read w).1.forgetText = (runWire tokio oracle readAsync w').1.forgetText ∧
      (runWire std oracle read w).2.tape = (runWire tokio oracle readAsync w').2.tape

/-- A writer of one message form and its asynchronous copy, against the same bytes. -/
structure ExactWriter {τ : Type} (oracle : Oracle Q A) (write writeAsync : UInt8 → τ → Session Q A Unit)
    (targetOf : τ → Target) : Prop where
  writes : ∀ c x e i out, encodeTarget [] (targetOf x) = .ok e →
    runTape std oracle (write c x) ⟨i, out⟩ = (.finished (.ok ()), ⟨i, out ++ ([5, c, 0] ++ e)⟩)
  refuses : ∀ c x e i out, encodeTarget [] (targetOf x) = .error e →
    runTape std oracle (write c x) ⟨i, out⟩ = (.finished (.error e), ⟨i, out⟩)
  same_stream : ∀ c x w,
    (runWire std oracle (write c x) w).1.forgetText =
        (runWire tokio oracle (writeAsync c x) w).1.forgetText ∧
      (runWire std oracle (write c x) w).2 = (runWire tokio oracle (writeAsync c x) w).2
  any_cut : ∀ c x (w w' : Wire), w.Clean → w'.Clean → w.tape = w'.tape →
    (runWire std oracle (write c x) w).1.forgetText =
        (runWire tokio oracle (writeAsync c x) w').1.forgetText ∧
      (runWire std oracle (write c x) w).2.tape = (runWire tokio oracle (writeAsync c x) w').2.tape

theorem readMessage_exactReader (oracle : Oracle Q A) (message : String) :
    ExactReader oracle (readMessage message) (readMessageAsync message) where
  accepts b r out c t := by
    rw [(readMessage_exact message).accepts_iff]
    constructor
    · rintro ⟨m, hm, rfl⟩
      obtain ⟨e, he, rfl⟩ := encodeTarget_cons.mp hm
      exact ⟨e, he, rfl⟩
    · rintro ⟨e, he, rfl⟩
      exact ⟨_, encodeTarget_cons.mpr ⟨e, he, rfl⟩, rfl⟩
  truncated b out c t e he hb hne :=
    ((readMessage_exact message).reads _ (c, t) (encodeTarget_cons.mpr ⟨e, he, rfl⟩)).eof
      std oracle b out hb hne
  same_stream w := readMessage_runtimeFree message std tokio oracle w
  segmentation w hw :=
    ⟨(runWire_clean std oracle _ w hw).1, (runWire_clean std oracle _ w hw).2.1⟩
  any_cut _ _ hw hw' ht := (readMessage_runtimeFree message).any_cut std tokio oracle hw hw' ht

theorem writeRequest_exactWriter (oracle : Oracle Q A) :
    ExactWriter oracle writeRequest writeRequestAsync id where
  writes c t e i out he := by
    have hm : encodeTarget [5, c, 0] t = .ok ([5, c, 0] ++ e) := encodeTarget_cons.mpr ⟨e, he, rfl⟩
    simp [writeRequest, hm]
  refuses c t e i out he := by
    have hm : encodeTarget [5, c, 0] t = .error e := by
      rw [encodeTarget_append, show encodeTarget [] t = .error e from he]
      rfl
    simp [writeRequest, hm]
  same_stream c t w := writeRequest_runtimeFree c t std tokio oracle w
  any_cut c t _ _ hw hw' ht := (writeRequest_runtimeFree c t).any_cut std tokio oracle hw hw' ht

theorem encodeTarget_from (bytes : Bytes) (address : SocketAddr) :
    encodeTarget bytes (Target.from address) = .ok (encodeAddress bytes address) := by
  cases address <;>
    simp [encodeTarget, Target.from, encodeAddress, SocketAddr.new, SocketAddr.ip, SocketAddr.port]

theorem writeReply_exactWriter (oracle : Oracle Q A) :
    ExactWriter oracle writeReply writeReplyAsync Target.from where
  writes c address e i out he := by
    have hm : encodeTarget [5, c, 0] (Target.from address) = .ok ([5, c, 0] ++ e) :=
      encodeTarget_cons.mpr ⟨e, he, rfl⟩
    rw [encodeTarget_from] at hm
    simp [writeReply, Except.ok.inj hm]
  refuses c address e i out he := by
    rw [encodeTarget_from] at he
    cases he
  same_stream c address w := runtimeFree_writeAll _ std tokio oracle w
  any_cut c address _ _ hw hw' ht := (runtimeFree_writeAll _).any_cut std tokio oracle hw hw' ht

/-- Which targets have an encoding: every address, and the domains of 1 to 255 bytes. -/
theorem encodeTarget_defined (t : Target) :
    (∃ e, encodeTarget [] t = .ok e) ↔
      ∀ name, t.host = .domain name → 1 ≤ (utf8Bytes name).length ∧ (utf8Bytes name).length ≤ 255 := by
  constructor
  · rintro ⟨m, hm⟩ name hname
    obtain ⟨atyp, e, he, -⟩ := encodeTarget_iff.mp hm
    cases he with
    | v4 ip h => rw [h] at hname; cases hname
    | v6 ip h => rw [h] at hname; cases hname
    | domain name' h hpos hle =>
      rw [h] at hname
      cases hname
      exact ⟨hpos, hle⟩
  · intro h
    rcases t with ⟨⟨ip⟩ | name, port⟩
    · exact ⟨_, rfl⟩
    · obtain ⟨hpos, hle⟩ := h name rfl
      exact ⟨_, encodeTarget_iff.mpr ⟨3, _, .domain name rfl hpos hle, rfl⟩⟩

/-- Requests and replies have one wire format, exact and unambiguous: the
readers accept the encodings and nothing else, whole, the writers produce them,
each undoes the other, and the asynchronous copies behave the same on every
stream however it is cut. -/
theorem request_reply_wire_format (oracle : Oracle Q A) :
    ExactReader oracle readRequest readRequestAsync ∧
    ExactReader oracle readReply readReplyAsync ∧
    ExactWriter oracle writeRequest writeRequestAsync id ∧
    ExactWriter oracle writeReply writeReplyAsync Target.from ∧
    (∀ t, (∃ e, encodeTarget [] t = .ok e) ↔
      ∀ name, t.host = .domain name →
        1 ≤ (utf8Bytes name).length ∧ (utf8Bytes name).length ≤ 255) ∧
    (∀ c t m i r, runTape std oracle (writeRequest c t) ⟨i, []⟩ = (.finished (.ok ()), ⟨i, m⟩) →
      runTape std oracle readRequest ⟨m ++ r, []⟩ = (.finished (.ok (c, t)), ⟨r, []⟩)) ∧
    (∀ c t b r i, runTape std oracle readRequest ⟨b, []⟩ = (.finished (.ok (c, t)), ⟨r, []⟩) →
      ∃ m, b = m ++ r ∧
        runTape std oracle (writeRequest c t) ⟨i, []⟩ = (.finished (.ok ()), ⟨i, m⟩)) ∧
    (∀ c address m i r,
      runTape std oracle (writeReply c address) ⟨i, []⟩ = (.finished (.ok ()), ⟨i, m⟩) →
      runTape std oracle readReply ⟨m ++ r, []⟩ =
        (.finished (.ok (c, Target.from address)), ⟨r, []⟩)) ∧
    (∀ c t b r, runTape std oracle readReply ⟨b, []⟩ = (.finished (.ok (c, t)), ⟨r, []⟩) →
      ∃ m, b = m ++ r ∧ encodeTarget [5, c, 0] t = .ok m) := by
  have hreq := readMessage_exactReader oracle "SOCKS5 请求头无效"
  have hrep := readMessage_exactReader oracle "SOCKS5 回复头无效"
  have hwreq := writeRequest_exactWriter oracle
  have hwrep := writeReply_exactWriter oracle
  refine ⟨hreq, hrep, hwreq, hwrep, encodeTarget_defined, ?_, ?_, ?_, ?_⟩
  · intro c t m i r hw
    cases he : encodeTarget [] t with
    | error e =>
      rw [hwreq.refuses c t e i [] he] at hw
      simp at hw
    | ok e =>
      rw [hwreq.writes c t e i [] he] at hw
      simp only [Prod.mk.injEq, Tape.mk.injEq, List.nil_append, true_and] at hw
      exact (hreq.accepts _ r [] c t).mpr ⟨e, he, by rw [hw]⟩
  · intro c t b r i hr
    obtain ⟨e, he, hb⟩ := (hreq.accepts b r [] c t).mp hr
    exact ⟨[5, c, 0] ++ e, hb, hwreq.writes c t e i [] he⟩
  · intro c address m i r hw
    have he : encodeTarget [] (Target.from address) = .ok (encodeAddress [] address) :=
      encodeTarget_from [] address
    rw [hwrep.writes c address _ i [] he] at hw
    simp only [Prod.mk.injEq, Tape.mk.injEq, List.nil_append, true_and] at hw
    exact (hrep.accepts _ r [] c _).mpr ⟨_, he, by rw [hw]⟩
  · intro c t b r hr
    obtain ⟨e, he, hb⟩ := (hrep.accepts b r [] c t).mp hr
    exact ⟨[5, c, 0] ++ e, hb, encodeTarget_cons.mpr ⟨e, he, rfl⟩⟩

end Brume.Protocol
