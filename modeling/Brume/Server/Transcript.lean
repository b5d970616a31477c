import Brume.Server.Authentication
import Brume.Server.Discipline
import Brume.WireFormat

/-!
# What a client reads from the server
-/

namespace Brume.Server
open Lib Session Protocol

/-! ### Runs that reach the relay -/

section
variable {α β : Type} {oracle : Oracle Query Answer} {t t' : Tape} {q : Query}

theorem ask_asking {q' : Query} {f : Answer q' → Handler β} (hne : q' ≠ q)
    (h : runTape tokio oracle (ask q' >>= f) t = (.asking q, t')) :
    ∃ a, oracle q' = some a ∧ runTape tokio oracle (f a) t = (.asking q, t') := by
  rcases runTape_bind_asking tokio oracle h with hask | ⟨a, t₁, hask, hf⟩
  · simp only [ask, perform, runTape] at hask
    split at hask
    · cases hask
    · cases hask
      exact absurd rfl hne
  · simp only [ask, perform, runTape] at hask
    split at hask
    · rename_i a' ha
      cases hask
      exact ⟨a, ha, hf⟩
    · cases hask

theorem ofExcept_asking {r : Except IoError α} {f : α → Handler β}
    (h : runTape tokio oracle (ofExcept r >>= f) t = (.asking q, t')) :
    ∃ a, r = .ok a ∧ runTape tokio oracle (f a) t = (.asking q, t') := by
  cases r with
  | error e => cases h
  | ok a => exact ⟨a, rfl, h⟩

/-- What is asked behind a part that does not ask it. -/
theorem bind_asking {p : Handler α} {f : α → Handler β} (hp : AsksOnly (· ≠ q) p)
    (h : runTape tokio oracle (p >>= f) t = (.asking q, t')) :
    ∃ a t₁, runTape tokio oracle p t = (.finished (.ok a), t₁) ∧ runTape tokio oracle (f a) t₁ = (.asking q, t') := by
  rcases runTape_bind_asking tokio oracle h with hasking | hok
  · exact absurd rfl (hp.asking hasking)
  · exact hok

theorem timeout_some {stage : Stage} {p : Handler α} {r : Except IoError α}
    (h : runTape tokio oracle (timeout stage p) t = (.finished (.ok (some r)), t')) :
    runTape tokio oracle p t = (.finished r, t') := runTape_race_some tokio oracle h

theorem ask_ok {q' : Query} {f : Answer q' → Handler β} {b : β}
    (h : runTape tokio oracle (ask q' >>= f) t = (.finished (.ok b), t')) :
    ∃ a, oracle q' = some a ∧ runTape tokio oracle (f a) t = (.finished (.ok b), t') := by
  obtain ⟨a, t₁, hask, hf⟩ := (runTape_bind_ok tokio oracle).mp h
  simp only [ask, perform, runTape] at hask
  split at hask
  · rename_i a' ha
    cases hask
    exact ⟨a, ha, hf⟩
  · cases hask

theorem ofExcept_ok {r : Except IoError α} {f : α → Handler β} {b : β}
    (h : runTape tokio oracle (ofExcept r >>= f) t = (.finished (.ok b), t')) :
    ∃ a, r = .ok a ∧ runTape tokio oracle (f a) t = (.finished (.ok b), t') := by
  cases r with
  | error e => cases h
  | ok a => exact ⟨a, rfl, h⟩

theorem handshake_tape {config : Config} (h : runTape tokio oracle (handshake config) t = (.finished (.ok ()), t')) :
    runTape tokio oracle (negotiate config) t = (.finished (.ok ()), t') := by
  obtain ⟨nodelay, -, h⟩ := ask_ok h
  obtain ⟨-, -, h⟩ := ofExcept_ok h
  obtain ⟨negotiated, t₁, htimeout, h⟩ := (runTape_bind_ok tokio oracle).mp h
  rcases negotiated with _ | ⟨e | ⟨⟩⟩
  · cases h
  · cases h
  · cases h
    exact timeout_some htimeout

theorem readClientRequest_tape {request : UInt8 × Target}
    (h : runTape tokio oracle readClientRequest t = (.finished (.ok request), t')) :
    runTape tokio oracle readRequestAsync t = (.finished (.ok request), t') := by
  obtain ⟨r, t₁, htimeout, h⟩ := (runTape_bind_ok tokio oracle).mp h
  rcases r with _ | ⟨error | request'⟩
  · cases h
  · -- the reply to a request that cannot be read is followed by the error
    exfalso
    dsimp only at h
    split at h
    · obtain ⟨address, -, h⟩ := ask_ok h
      obtain ⟨address, t₂, -, h⟩ := (runTape_bind_ok tokio oracle).mp h
      obtain ⟨-, t₃, -, h⟩ := (runTape_bind_ok tokio oracle).mp h
      cases h
    · cases h
  · cases h
    exact timeout_some htimeout

end

/-! ### CONNECT -/

section
variable {oracle : Oracle Query Answer} {t t' : Tape}

/-- The resolver writes nothing to the client. -/
theorem lookup_silent {target : Target} {addresses : List SocketAddr}
    (h : runTape tokio oracle (lookup (fun name => do ofExcept (← ask (.lookupIp name))) target) t =
      (.finished (.ok addresses), t')) : t' = t := by
  obtain ⟨found, t₁, hfound, h⟩ := (runTape_bind_ok tokio oracle).mp h
  have hsame : t' = t₁ := by
    split at h
    · cases h
    · cases h
      rfl
  rw [hsame]
  rcases target with ⟨ip | name, port⟩
  · cases hfound
    rfl
  · obtain ⟨ips, t₂, hips, hpure⟩ := (runTape_bind_ok tokio oracle).mp hfound
    cases hpure
    obtain ⟨r, -, hr⟩ := ask_ok hips
    cases r with
    | error e => cases hr
    | ok ips =>
      cases hr
      rfl

theorem tryLookup_silent {target : Target} {addresses : List SocketAddr} {address : SocketAddr}
    (h : runTape tokio oracle (tryCatch
        (lookup (fun name => do ofExcept (← ask (.lookupIp name))) target)
        fun error => do
          writeReplyAsync HOST_UNREACHABLE address
          throw error) t = (.finished (.ok addresses), t')) : t' = t := by
  rw [runTape_recover] at h
  split at h
  · cases h
  · exact lookup_silent h

theorem connectTask_lookup_asksOnly (target : Target) (address : SocketAddr) (d : Option Duration) :
    AsksOnly (· ≠ .forwardBidirectional d) (tryCatch
      (lookup (fun name => do ofExcept (← ask (.lookupIp name))) target : Handler (List SocketAddr))
      fun error => do
        writeReplyAsync HOST_UNREACHABLE address
        throw error) := by
  refine .recover (.bind ?_ fun addresses => .ite (.throw _) (.pure _)) fun error => ?_
  · cases target.host with
    | ip ip => exact .pure _
    | domain name =>
      exact .bind (.bind (.perform (by simp)) fun r => .ofExcept r) fun ips => .pure _
  · exact .bind (.writeAll _) fun _ => .throw _

/-- The relay starts behind the success reply and with nothing read. -/
theorem connectTask_asking {timeout d : Option Duration} {target : Target}
    (h : runTape tokio oracle (connectTask timeout target) t = (.asking (.forwardBidirectional d), t')) :
    d = timeout ∧ ∃ address, t' = ⟨t.input, t.output ++ encodeAddress [5, SUCCESS, 0] address⟩ := by
  unfold connectTask at h
  obtain ⟨r, -, h⟩ := ask_asking (by simp) h
  obtain ⟨address, -, h⟩ := ofExcept_asking h
  obtain ⟨addresses, t₁, hlookup, h⟩ := bind_asking (connectTask_lookup_asksOnly target _ d) h
  obtain ⟨r, -, h⟩ := ask_asking (by simp) h
  cases r with
  | error e => cases h
  | ok _ =>
    obtain ⟨r, -, h⟩ := ask_asking (by simp) h
    obtain ⟨-, -, h⟩ := ofExcept_asking h
    obtain ⟨r, -, h⟩ := ask_asking (by simp) h
    obtain ⟨remote, -, h⟩ := ofExcept_asking h
    obtain ⟨u, t₂, hwrite, h⟩ := bind_asking (AsksOnly.writeAll _) h
    cases hwrite
    rw [tryLookup_silent hlookup] at h
    rcases runTape_bind_asking tokio oracle h with hask | ⟨r, t₃, -, hend⟩
    · simp only [ask, perform, runTape] at hask
      split at hask
      · cases hask
      · cases hask
        exact ⟨rfl, remote, rfl⟩
    · exact ((AsksOnly.ofExcept (P := fun _ => False) r).asking hend).elim

theorem handshake_asksOnly {P : Query → Prop} (hnodelay : P .setNodelay) (helapsed : ∀ i, P (.elapsed .negotiate i))
    (config : Config) : AsksOnly P (handshake config) := by
  refine .bind (.perform hnodelay) fun r => .bind (.ofExcept r) fun _ => .bind ?_ fun negotiated => ?_
  · exact (negotiate_asksOnly P config).race helapsed 0
  · cases negotiated with
    | none => exact .throw _
    | some r => exact .ofExcept r

theorem readClientRequest_asksOnly {P : Query → Prop} (hlocal : P .localAddr) (helapsed : ∀ i, P (.elapsed .request i)) :
    AsksOnly P readClientRequest := by
  refine .bind ((readRequestAsync_readsOnly.asksOnly P).race helapsed 0) fun r => ?_
  rcases r with _ | ⟨error | request⟩
  · exact .throw _
  · refine .ite (.bind (.perform hlocal) fun r => .bind (.ofExcept r) fun address => .bind ?_ fun _ => .throw _) (.throw _)
    exact .recover (.writeAll _) fun _ => .pure _
  · exact .pure _

theorem connect_asking {timeout d : Option Duration} {target : Target}
    (h : runTape tokio oracle (connect timeout target) t = (.asking (.forwardBidirectional d), t')) :
    d = timeout ∧ ∃ address, t' = ⟨t.input, t.output ++ encodeAddress [5, SUCCESS, 0] address⟩ := by
  rcases runTape_bind_asking tokio oracle h with hrace | ⟨r, t₁, -, hend⟩
  · exact connectTask_asking (runTape_race_asking tokio oracle (by simp) hrace)
  · cases r with
    | none => cases hend
    | some r => exact ((AsksOnly.ofExcept (P := fun _ => False) r).asking hend).elim

/-- Behind an accepted negotiation and a CONNECT request, the relay starts with
what the client has sent further, and behind the success reply. -/
theorem relay_begins {config : Config} (hvalid : config.validate = .ok ()) {m replies req rest out : Bytes}
    {target : Target} {d : Option Duration} (hm : Presents config m replies)
    (hreq : encodeMessage (CONNECT, target) = .ok req)
    (h : runTape tokio oracle (handleClient config) ⟨m ++ (req ++ rest), out⟩ = (.asking (.forwardBidirectional d), t')) :
    d = config.tcpTimeout ∧ ∃ address,
      t' = ⟨rest, out ++ replies ++ encodeAddress [5, SUCCESS, 0] address⟩ := by
  obtain ⟨u, t₁, hhandshake, h⟩ := bind_asking (handshake_asksOnly (by simp) (by simp) config) h
  have hnegotiate := handshake_tape hhandshake
  rw [negotiate_accepts tokio oracle hvalid hm] at hnegotiate
  cases hnegotiate
  obtain ⟨request, t₂, hread, h⟩ := bind_asking (readClientRequest_asksOnly (by simp) (by simp)) h
  have hread := readClientRequest_tape hread
  rw [readRequestAsync, readMessageAsync_eq, ((readMessage_exact _).reads req _ hreq).takes tokio oracle] at hread
  cases hread
  exact connect_asking h

end

/-! ### An environment without faults of its own -/

/-- What the resolver, the network and the registry answer. The local sockets
answer every query, and no timeout elapses. -/
structure Env where
  localAddr : SocketAddr
  peer : SocketAddr
  udpLocalAddr : SocketAddr
  remoteLocalAddr : SocketAddr
  lookupIp : String → Except IoError (List IpAddr)
  connects : List SocketAddr → Except IoError Unit
  inserts : Bool
  controlEnds : Bool

namespace Env

/-- A run stops in front of the relay, and where the control connection is held. -/
def oracle (env : Env) : Oracle Query Answer
  | .setNodelay | .remoteSetNodelay => some (.ok ())
  | .localAddr => some (.ok env.localAddr)
  | .peerAddr => some (.ok env.peer)
  | .udpLocalAddr => some (.ok env.udpLocalAddr)
  | .remoteLocalAddr => some (.ok env.remoteLocalAddr)
  | .elapsed _ _ | .cancelled _ => some none
  | .lookupIp name => some (env.lookupIp name)
  | .happyEyeballsConnect addresses => some (env.connects addresses)
  | .forwardBidirectional _ => none
  | .insert => some env.inserts
  | .newAssociation _ _ | .storeDead | .cancelStopped | .remove => some ()
  | .holdControl => if env.controlEnds then some () else none

/-- The status that a CONNECT is answered with. -/
def connection (env : Env) (target : Target) : UInt8 :=
  match (lookup env.lookupIp target : Except IoError (List SocketAddr)) with
  | .error _ => HOST_UNREACHABLE
  | .ok addresses =>
    match env.connects addresses with
    | .error error => if error.kind = .connectionRefused then CONNECTION_REFUSED else HOST_UNREACHABLE
    | .ok () => SUCCESS

/-- The status that a UDP ASSOCIATE is answered with. -/
def association (env : Env) (target : Target) : UInt8 :=
  match rejectedAddress target env.peer with
  | some (status, _) => status
  | none => if env.inserts then SUCCESS else SERVER_FAILURE

def status (env : Env) (command : UInt8) (target : Target) : UInt8 :=
  if command = CONNECT then env.connection target
  else if command = UDP_ASSOCIATE then env.association target
  else COMMAND_UNSUPPORTED

/-- The bytes that answer a request that cannot be read. -/
def rejection (env : Env) (e : IoError) : Bytes :=
  if e.kind = .invalidData then encodeAddress [5, ADDRESS_UNSUPPORTED, 0] (unspecified env.localAddr.ip) else []

theorem connection_success {env : Env} {target : Target} :
    env.connection target = SUCCESS ↔
      ∃ addresses, (lookup env.lookupIp target : Except IoError _) = .ok addresses ∧ env.connects addresses = .ok () := by
  unfold connection
  split
  · rename_i e he
    simp [HOST_UNREACHABLE, SUCCESS, he]
  · rename_i addresses ha
    rw [ha]
    split
    · rename_i e he
      split <;> simp [HOST_UNREACHABLE, CONNECTION_REFUSED, SUCCESS, he]
    · rename_i hc
      simp [hc]

theorem association_success {env : Env} {target : Target} :
    env.association target = SUCCESS ↔
      (∃ ip, target.host = .ip ip ∧ (ip.isUnspecified = true ∨ normalize ip = normalize env.peer.ip)) ∧
        env.inserts = true := by
  rcases target with ⟨ip | name, port⟩
  · by_cases hip : !ip.isUnspecified ∧ normalize ip ≠ normalize env.peer.ip
    · have hstatus : env.association ⟨.ip ip, port⟩ = SERVER_FAILURE := by
        simp only [association, rejectedAddress, if_pos hip]
      rw [hstatus]
      refine iff_of_false (by decide) ?_
      rintro ⟨⟨ip', hhost, h⟩, -⟩
      cases hhost
      rcases h with h | h
      · simp [h] at hip
      · exact hip.2 h
    · have hstatus : env.association ⟨.ip ip, port⟩ = if env.inserts then SUCCESS else SERVER_FAILURE := by
        simp only [association, rejectedAddress, if_neg hip]
      have hallowed : ip.isUnspecified = true ∨ normalize ip = normalize env.peer.ip := by
        by_cases hu : ip.isUnspecified = true
        · exact .inl hu
        · exact .inr (by_contra fun hne => hip ⟨by simp [hu], hne⟩)
      rw [hstatus]
      cases hi : env.inserts with
      | false => simp [SUCCESS, SERVER_FAILURE]
      | true => simp [hallowed]
  · have hstatus : env.association ⟨.domain name, port⟩ = ADDRESS_UNSUPPORTED := rfl
    rw [hstatus]
    refine iff_of_false (by decide) ?_
    rintro ⟨⟨ip, hhost, -⟩, -⟩
    cases hhost

end Env

/-! ### Runs in such an environment -/

section
variable {α β : Type} (env : Env)

theorem runTape_ask {q : Query} {a : Answer q} (h : env.oracle q = some a) (f : Answer q → Handler β) (t : Tape) :
    runTape tokio env.oracle (ask q >>= f) t = runTape tokio env.oracle (f a) t := by
  have hask : runTape tokio env.oracle (ask q) t = (.finished (.ok a), t) := by
    simp only [ask, perform, runTape, h]
  exact runTape_bind_of_ok tokio env.oracle f hask

theorem runTape_ofExcept (a : α) (f : α → Handler β) (t : Tape) :
    runTape tokio env.oracle (ofExcept (.ok a) >>= f) t = runTape tokio env.oracle (f a) t := rfl

theorem runTape_timeout (stage : Stage) (p : Handler α) (t : Tape) :
    runTape tokio env.oracle (timeout stage p) t = Outcome.raced (runTape tokio env.oracle p t) :=
  runTape_race_open tokio env.oracle (fun _ => ⟨none, rfl, rfl⟩) 0 t

theorem runTape_lookup (target : Target) (t : Tape) :
    runTape tokio env.oracle (lookup (fun name => do ofExcept (← ask (.lookupIp name))) target) t =
      (.finished (lookup env.lookupIp target), t) := by
  rcases target with ⟨ip | name, port⟩
  · rfl
  · have hips : runTape tokio env.oracle (do ofExcept (← ask (.lookupIp name))) t =
        (.finished (env.lookupIp name), t) := by
      rw [runTape_ask env rfl]
      cases env.lookupIp name <;> rfl
    unfold lookup
    dsimp only
    rw [runTape_bind, runTape_bind, hips]
    cases env.lookupIp name with
    | error e => rfl
    | ok ips =>
      change runTape tokio env.oracle (if ips.map (SocketAddr.new · port) = [] then _ else _) t =
        (.finished (if ips.map (SocketAddr.new · port) = [] then _ else _), t)
      split
      · rfl
      · rfl

/-- The reply of a CONNECT, and whether the relay starts. -/
theorem connectTask_run (timeout : Option Duration) (target : Target) (t : Tape) :
    ∃ o address, runTape tokio env.oracle (connectTask timeout target) t =
        (o, ⟨t.input, t.output ++ encodeAddress [5, env.connection target, 0] address⟩) ∧
      (o = .asking (.forwardBidirectional timeout) ∧ env.connection target = SUCCESS ∨
        (∃ e, o = .finished (.error e)) ∧ env.connection target ≠ SUCCESS) := by
  unfold connectTask Env.connection
  rw [runTape_ask env rfl, runTape_ofExcept]
  dsimp only
  rw [runTape_bind, runTape_recover, runTape_lookup]
  cases (lookup env.lookupIp target : Except IoError (List SocketAddr)) with
  | error e => exact ⟨_, _, rfl, .inr ⟨⟨e, rfl⟩, (by decide : HOST_UNREACHABLE ≠ SUCCESS)⟩⟩
  | ok addresses =>
    dsimp only [Outcome.andThen]
    rw [runTape_ask env rfl]
    cases env.connects addresses with
    | error e =>
      refine ⟨_, _, rfl, .inr ⟨⟨e, rfl⟩, ?_⟩⟩
      dsimp only
      split <;> decide
    | ok u => exact ⟨_, _, rfl, .inl ⟨rfl, rfl⟩⟩

theorem connect_run (timeout : Option Duration) (target : Target) (t : Tape) :
    ∃ o address, runTape tokio env.oracle (connect timeout target) t =
        (o, ⟨t.input, t.output ++ encodeAddress [5, env.connection target, 0] address⟩) ∧
      ((∃ d, o = .asking (.forwardBidirectional d)) → env.connection target = SUCCESS) := by
  obtain ⟨o, address, hrun, ho⟩ := connectTask_run env timeout target t
  unfold connect
  rw [runTape_bind, runTape_race_open tokio env.oracle (fun _ => ⟨none, rfl, rfl⟩) 0 t, hrun]
  rcases ho with ⟨rfl, hstatus⟩ | ⟨⟨e, rfl⟩, hstatus⟩
  · exact ⟨_, _, rfl, fun _ => hstatus⟩
  · refine ⟨_, _, rfl, ?_⟩
    rintro ⟨d, hd⟩
    cases hd

/-- The control loop and what follows it write nothing. -/
theorem holdControl_run (t : Tape) :
    ∃ o, runTape tokio env.oracle (do ask .holdControl; ask .storeDead; ask .cancelStopped; ask .remove) t = (o, t) ∧
      ∀ d, o ≠ .asking (.forwardBidirectional d) := by
  cases hends : env.controlEnds with
  | false =>
    have hopen : env.oracle .holdControl = none := by simp [Env.oracle, hends]
    refine ⟨.asking .holdControl, ?_, by simp⟩
    have hask : runTape tokio env.oracle (ask .holdControl) t = (.asking .holdControl, t) := by
      simp only [ask, perform, runTape, hopen]
    rw [runTape_bind, hask]
    rfl
  | true =>
    have hends : env.oracle .holdControl = some () := by simp [Env.oracle, hends]
    rw [runTape_ask env hends]
    exact ⟨_, rfl, by simp⟩

theorem holdAssociation_run (clientIp : IpAddr) (requestedPort : UInt16) (relay : SocketAddr) (t : Tape) :
    ∃ o address, runTape tokio env.oracle (holdAssociation clientIp requestedPort relay) t =
        (o, ⟨t.input, t.output ++ encodeAddress [5, if env.inserts then SUCCESS else SERVER_FAILURE, 0] address⟩) ∧
      ∀ d, o ≠ .asking (.forwardBidirectional d) := by
  unfold holdAssociation
  rw [runTape_ask env rfl, runTape_ask env rfl]
  cases env.inserts with
  | false => exact ⟨_, _, rfl, by simp⟩
  | true =>
    obtain ⟨o, hrun, ho⟩ := holdControl_run env ⟨t.input, t.output ++ encodeAddress [5, SUCCESS, 0] relay⟩
    exact ⟨o, relay, hrun, ho⟩

/-- The reply of a UDP ASSOCIATE. -/
theorem associate_run (target : Target) (t : Tape) :
    ∃ o address, runTape tokio env.oracle (associate target) t =
        (o, ⟨t.input, t.output ++ encodeAddress [5, env.association target, 0] address⟩) ∧
      ∀ d, o ≠ .asking (.forwardBidirectional d) := by
  unfold associate Env.association
  rw [runTape_ask env rfl, runTape_ofExcept]
  cases rejectedAddress target env.peer with
  | some rejection =>
    obtain ⟨status, error⟩ := rejection
    exact ⟨_, _, rfl, by simp⟩
  | none =>
    rw [runTape_ask env rfl, runTape_ofExcept]
    dsimp only
    rw [runTape_ask env rfl, runTape_ofExcept]
    exact holdAssociation_run env _ _ _ t

/-- The reply to a request that has been read. -/
theorem serve_run (config : Config) (command : UInt8) (target : Target) {t t₁ : Tape}
    (h : runTape tokio env.oracle readRequestAsync t = (.finished (.ok (command, target)), t₁)) :
    ∃ o address, runTape tokio env.oracle (serve config) t =
        (o, ⟨t₁.input, t₁.output ++ encodeAddress [5, env.status command target, 0] address⟩) ∧
      ((∃ d, o = .asking (.forwardBidirectional d)) → env.status command target = SUCCESS) := by
  have hread : runTape tokio env.oracle readClientRequest t = (.finished (.ok (command, target)), t₁) := by
    unfold readClientRequest
    rw [runTape_bind, runTape_timeout, h]
    rfl
  unfold serve Env.status
  rw [runTape_bind_of_ok tokio env.oracle _ hread]
  dsimp only
  split
  · exact connect_run env config.tcpTimeout target t₁
  · split
    · obtain ⟨o, address, hrun, ho⟩ := associate_run env target t₁
      exact ⟨o, address, hrun, fun ⟨d, hd⟩ => absurd hd (ho d)⟩
    · refine ⟨_, _, rfl, ?_⟩
      rintro ⟨d, hd⟩
      cases hd

/-- The reply to a request that cannot be read, if it is malformed. -/
theorem serve_run_error (config : Config) {e : IoError} {t t₁ : Tape}
    (h : runTape tokio env.oracle readRequestAsync t = (.finished (.error e), t₁)) :
    runTape tokio env.oracle (serve config) t = (.finished (.error e), ⟨t₁.input, t₁.output ++ env.rejection e⟩) := by
  have hread : runTape tokio env.oracle readClientRequest t = (.finished (.error e), ⟨t₁.input, t₁.output ++ env.rejection e⟩) := by
    unfold readClientRequest
    rw [runTape_bind, runTape_timeout, h]
    dsimp only [Outcome.raced, Outcome.andThen]
    unfold Env.rejection
    split
    · rfl
    · rw [List.append_nil]
      rfl
  exact runTape_bind_error tokio env.oracle _ hread

theorem handshake_run (config : Config) (t : Tape) :
    runTape tokio env.oracle (handshake config) t = runTape tokio env.oracle (negotiate config) t := by
  have hasks := (negotiate_asksOnly (Q := Query) (A := Answer) (fun _ => False) config)
  unfold handshake
  rw [runTape_ask env rfl, runTape_ofExcept, runTape_bind, runTape_timeout]
  rcases hrun : runTape tokio env.oracle (negotiate config) t with ⟨⟨e | ⟨⟩⟩ | q, t₁⟩
  · rfl
  · rfl
  · exact (hasks.asking hrun).elim

/-! ### The transcript -/

/-- The negotiation succeeds, and a request is read or is malformed. -/
def Answerable (config : Config) (t : Tape) : Prop :=
  ∃ t₁ r t₂, runTape tokio env.oracle (negotiate config) t = (.finished (.ok ()), t₁) ∧
    runTape tokio env.oracle readRequestAsync t₁ = (.finished r, t₂) ∧ ∀ e, r = .error e → e.kind = .invalidData

/-- The request is read, and can be met. -/
def Granted (config : Config) (t : Tape) : Prop :=
  ∃ t₁ command target t₂, runTape tokio env.oracle (negotiate config) t = (.finished (.ok ()), t₁) ∧
    runTape tokio env.oracle readRequestAsync t₁ = (.finished (.ok (command, target)), t₂) ∧
    (command = CONNECT ∧
        (∃ addresses, (lookup env.lookupIp target : Except IoError _) = .ok addresses ∧ env.connects addresses = .ok ()) ∨
      command = UDP_ASSOCIATE ∧
        (∃ ip, target.host = .ip ip ∧ (ip.isUnspecified = true ∨ normalize ip = normalize env.peer.ip)) ∧
        env.inserts = true)

/-- What is written before any relayed byte, in its three parts. -/
structure Transcript (config : Config) (t : Tape) (o : Outcome Query Unit) (selection status reply : Bytes) : Prop where
  selects : selection ∈ [[], [5, 0], [5, 2], [5, 255]]
  confirms : status = [] ∨ selection = [5, 2] ∧ status ∈ [[1, 0], [1, 1]]
  replied : reply ≠ [] ↔ Answerable env config t
  decodes : reply ≠ [] → ∃ code address,
    (∀ rest out, runTape std noOracle readReply ⟨reply ++ rest, out⟩ =
      (.finished (.ok (code, Target.from address)), ⟨rest, out⟩)) ∧
    (code = SUCCESS ↔ Granted env config t)
  relay : (∃ d, o = .asking (.forwardBidirectional d)) → reply ≠ [] ∧ Granted env config t

theorem status_success {env : Env} {command : UInt8} {target : Target} :
    env.status command target = SUCCESS ↔
      command = CONNECT ∧
          (∃ addresses, (lookup env.lookupIp target : Except IoError _) = .ok addresses ∧
            env.connects addresses = .ok ()) ∨
        command = UDP_ASSOCIATE ∧
          (∃ ip, target.host = .ip ip ∧ (ip.isUnspecified = true ∨ normalize ip = normalize env.peer.ip)) ∧
          env.inserts = true := by
  unfold Env.status
  by_cases hc : command = CONNECT
  · subst hc
    rw [if_pos rfl, Env.connection_success]
    simp [CONNECT, UDP_ASSOCIATE]
  · by_cases hu : command = UDP_ASSOCIATE
    · subst hu
      rw [if_neg hc, if_pos rfl, Env.association_success]
      simp [CONNECT, UDP_ASSOCIATE]
    · rw [if_neg hc, if_neg hu]
      simp [hc, hu, COMMAND_UNSUPPORTED, SUCCESS]

theorem readReply_encoded (code : UInt8) (address : SocketAddr) (rest out : Bytes) :
    runTape std noOracle readReply ⟨encodeAddress [5, code, 0] address ++ rest, out⟩ =
      (.finished (.ok (code, Target.from address)), ⟨rest, out⟩) := by
  have henc : encodeMessage (code, Target.from address) = .ok (encodeAddress [5, code, 0] address) :=
    encodeTarget_from [5, code, 0] address
  exact ((readMessage_exact _).reads _ _ henc).takes std noOracle rest out

theorem encodeAddress_ne_nil (code : UInt8) (address : SocketAddr) : encodeAddress [5, code, 0] address ≠ [] := by
  unfold encodeAddress
  split <;> simp

/-- The bytes of the negotiation are a selection and at most one status. -/
theorem negotiate_transcript (config : Config) (t : Tape) :
    ∃ selection status, (runTape tokio env.oracle (negotiate config) t).2.output = t.output ++ (selection ++ status) ∧
      selection ∈ [[], [5, 0], [5, 2], [5, 255]] ∧
      (status = [] ∨ selection = [5, 2] ∧ status ∈ [[1, 0], [1, 1]]) := by
  have hends := negotiate_ends tokio env.oracle config t
  rcases hrun : runTape tokio env.oracle (negotiate config) t with ⟨⟨e | ⟨⟩⟩ | q, t₁⟩
  · rw [hrun] at hends
    obtain ⟨replies, hrefusal, ho⟩ := hends
    rcases List.mem_cons.mp hrefusal with rfl | hrefusal
    · exact ⟨[], [], ho, by simp, .inl rfl⟩
    rcases List.mem_cons.mp hrefusal with rfl | hrefusal
    · exact ⟨[5, 255], [], ho, by simp, .inl rfl⟩
    rcases List.mem_pair.mp hrefusal with rfl | rfl
    · exact ⟨[5, 2], [], ho, by simp, .inl rfl⟩
    · exact ⟨[5, 2], [1, 1], ho, by simp, .inr ⟨rfl, by simp⟩⟩
  · rw [hrun] at hends
    obtain ⟨m, replies, hp, -, ho⟩ := hends
    cases hp with
    | anonymous methods hpos hle hu hm => exact ⟨[5, 0], [], ho, by simp, .inl rfl⟩
    | authenticated methods hpos hle hu hm => exact ⟨[5, 2], [1, 0], ho, by simp, .inr ⟨rfl, by simp⟩⟩
  · rw [hrun] at hends
    exact hends.elim

section
variable {env} {config : Config} {t t₁ t₂ : Tape} {r : Except IoError (UInt8 × Target)}
  (hneg : runTape tokio env.oracle (negotiate config) t = (.finished (.ok ()), t₁))
  (hread : runTape tokio env.oracle readRequestAsync t₁ = (.finished r, t₂))
include hneg hread

theorem answerable_iff : Answerable env config t ↔ ∀ e, r = .error e → e.kind = .invalidData := by
  constructor
  · rintro ⟨t₁', r', t₂', hneg', hread', h⟩
    cases hneg.symm.trans hneg'
    cases hread.symm.trans hread'
    exact h
  · exact fun h => ⟨t₁, r, t₂, hneg, hread, h⟩

theorem granted_iff : Granted env config t ↔ ∃ command target, r = .ok (command, target) ∧
    env.status command target = SUCCESS := by
  constructor
  · rintro ⟨t₁', command, target, t₂', hneg', hread', h⟩
    cases hneg.symm.trans hneg'
    cases hread.symm.trans hread'
    exact ⟨command, target, rfl, status_success.mpr h⟩
  · rintro ⟨command, target, rfl, h⟩
    exact ⟨t₁, command, target, t₂, hneg, hread, status_success.mp h⟩

end

theorem transcript (config : Config) (t : Tape) :
    ∃ selection status reply,
      (runTape tokio env.oracle (handleClient config) t).2.output = t.output ++ (selection ++ status ++ reply) ∧
      Transcript env config t (runTape tokio env.oracle (handleClient config) t).1 selection status reply := by
  obtain ⟨selection, status, hout, hselection, hstatus⟩ := negotiate_transcript env config t
  have hnegotiate : ∀ t₁, (runTape tokio env.oracle (negotiate config) t) = (.finished (.ok ()), t₁) →
      runTape tokio env.oracle (handleClient config) t = runTape tokio env.oracle (serve config) t₁ := by
    intro t₁ h
    exact runTape_bind_of_ok tokio env.oracle _ ((handshake_run env config t).trans h)
  rcases hneg : runTape tokio env.oracle (negotiate config) t with ⟨⟨e | ⟨⟩⟩ | q, t₁⟩
  · have hrun : runTape tokio env.oracle (handleClient config) t = (.finished (.error e), t₁) :=
      runTape_bind_error tokio env.oracle _ ((handshake_run env config t).trans hneg)
    rw [hneg] at hout
    rw [hrun]
    refine ⟨selection, status, [], by rw [List.append_nil]; exact hout, hselection, hstatus, ?_, by simp, by simp⟩
    refine iff_of_false (by simp) ?_
    rintro ⟨t₁', r, t₂, hok, -⟩
    cases hneg.symm.trans hok
  · rw [hnegotiate t₁ hneg]
    rw [hneg] at hout
    obtain ⟨r, t₂, hread, hsilent⟩ := readRequestAsync_readsOnly.runTape tokio env.oracle t₁
    rcases r with e | ⟨command, target⟩
    · have hgranted : ¬Granted env config t := by
        rw [granted_iff hneg hread]
        simp
      have hrun := serve_run_error env config hread
      rw [hrun]
      refine ⟨selection, status, env.rejection e, ?_, hselection, hstatus, ?_, fun hreply => ?_, by simp⟩
      · rw [hsilent, hout, List.append_assoc]
      · rw [answerable_iff hneg hread]
        unfold Env.rejection
        split
        · rename_i hkind
          simp [encodeAddress_ne_nil, hkind]
        · rename_i hkind
          simp [hkind]
      · unfold Env.rejection at hreply ⊢
        split at hreply
        · rename_i hkind
          rw [if_pos hkind]
          exact ⟨_, _, readReply_encoded _ _, iff_of_false (by decide) hgranted⟩
        · exact absurd rfl hreply
    · have hgranted : Granted env config t ↔ env.status command target = SUCCESS := by
        rw [granted_iff hneg hread]
        simp
      have hanswerable : Answerable env config t := by
        rw [answerable_iff hneg hread]
        simp
      obtain ⟨o, address, hrun, ho⟩ := serve_run env config command target hread
      rw [hrun]
      refine ⟨selection, status, encodeAddress [5, env.status command target, 0] address, ?_, hselection, hstatus, ?_,
        fun _ => ?_, fun hrelay => ?_⟩
      · rw [hsilent, hout, List.append_assoc]
      · exact iff_of_true (encodeAddress_ne_nil _ _) hanswerable
      · exact ⟨_, _, readReply_encoded _ _, hgranted.symm⟩
      · exact ⟨encodeAddress_ne_nil _ _, hgranted.mpr (ho hrelay)⟩
  · exact ((negotiate_asksOnly (fun _ => False) config).asking hneg).elim

/-- The transcript of a connection is disciplined. Whatever the client sends, in
whatever pieces, and whatever the resolver, the network and the registry answer,
the server writes at most one selection, one status and one reply before it
relays; it replies exactly to the requests it has read or found malformed, with
success exactly where it grants the request, and relays behind success only. -/
theorem transcript_discipline (config : Config) (w : Wire) (hw : w.Clean) :
    ∃ selection status reply,
      (runWire tokio env.oracle (handleClient config) w).2.sink.written =
        w.sink.written ++ (selection ++ status ++ reply) ∧
      Transcript env config w.tape (runWire tokio env.oracle (handleClient config) w).1 selection status reply := by
  obtain ⟨hr, ht, -⟩ := runWire_clean tokio env.oracle (handleClient config) w hw
  obtain ⟨selection, status, reply, hout, h⟩ := transcript env config w.tape
  rw [← ht] at hout
  rw [← hr] at h
  exact ⟨selection, status, reply, hout, h⟩

end

/-- Every socket is on the loopback interface, and every connection succeeds. -/
def Env.loopback : Env :=
  let address (port : UInt16) : SocketAddr := .v4 ⟨buffer [127, 0, 0, 1] rfl⟩ port
  ⟨address 1080, address 50000, address 1080, address 50001, fun _ => .error ⟨.other, "no records found"⟩,
    fun _ => .ok (), true, false⟩

/-- A request that is cut off behind its header. -/
theorem transcript_discipline_cut :
    ∃ selection status reply,
      (runWire tokio Env.loopback.oracle (handleClient ⟨1080, "", "", ⟨[], []⟩, none, ⟨60⟩, []⟩)
          ⟨[.data 5 [1], .data 0 [5, 1, 0], .retry, .data 1 [127]], ⟨[], []⟩⟩).2.sink.written =
        [] ++ (selection ++ status ++ reply) ∧
      Transcript Env.loopback ⟨1080, "", "", ⟨[], []⟩, none, ⟨60⟩, []⟩ ⟨[5, 1, 0, 5, 1, 0, 1, 127], []⟩
        (runWire tokio Env.loopback.oracle (handleClient ⟨1080, "", "", ⟨[], []⟩, none, ⟨60⟩, []⟩)
          ⟨[.data 5 [1], .data 0 [5, 1, 0], .retry, .data 1 [127]], ⟨[], []⟩⟩).1 selection status reply :=
  transcript_discipline Env.loopback ⟨1080, "", "", ⟨[], []⟩, none, ⟨60⟩, []⟩
    ⟨[.data 5 [1], .data 0 [5, 1, 0], .retry, .data 1 [127]], ⟨[], []⟩⟩
    (by simp [Wire.Clean, Source.Clean, Sink.Clean])

end Brume.Server
