import Brume.Server.Lifetime

/-!
# Isolation of the UDP relay

What a receiver sends rests on events of several tasks: a lookup has bound the
endpoint, a packet task has resolved the target, the socket has delivered the
payload. `Traced` ties every part that relies on such an event to the run so far.
-/

namespace Brume.Server
open Lib

variable {events : List Event} {s s' : State} {e : Event} {config : Config}

/-! ### Events of the past -/

/-- A lookup gave the association to a datagram from `source` for `target`. -/
def Found (events : List Event) (source : SocketAddr) (target : Target) (arc : Arc) : Prop :=
  ∃ bytes payload, .loop (.found source bytes target payload (some arc)) ∈ events

/-- A packet task of the association resolved `target`. -/
def Resolved (events : List Event) (arc : Arc) (target : Target) (addresses : List SocketAddr) : Prop :=
  ∃ task, .task task (.resolved arc target addresses) ∈ events

theorem Found.mono {source : SocketAddr} {target : Target} {arc : Arc} (h : Found events source target arc)
    (e : Event) : Found (events ++ [e]) source target arc := by
  obtain ⟨bytes, payload, hmem⟩ := h
  exact ⟨bytes, payload, List.mem_append_left _ hmem⟩

theorem Found.of_last {source : SocketAddr} {target : Target} {arc : Arc} (h : Found [e] source target arc) :
    Found (events ++ [e]) source target arc := by
  obtain ⟨bytes, payload, hmem⟩ := h
  exact ⟨bytes, payload, List.mem_append_right _ hmem⟩

theorem found_append {source : SocketAddr} {target : Target} {arc : Arc} :
    Found (events ++ [e]) source target arc ↔ Found events source target arc ∨ Found [e] source target arc := by
  constructor
  · rintro ⟨bytes, payload, hmem⟩
    exact (List.mem_append.mp hmem).imp (⟨bytes, payload, ·⟩) (⟨bytes, payload, ·⟩)
  · exact fun h => h.elim (·.mono e) .of_last

theorem Resolved.mono {arc : Arc} {target : Target} {addresses : List SocketAddr}
    (h : Resolved events arc target addresses) (e : Event) : Resolved (events ++ [e]) arc target addresses := by
  obtain ⟨task, hmem⟩ := h
  exact ⟨task, List.mem_append_left _ hmem⟩

/-! ### Endpoints -/

/-- What a step does to the endpoints: a lookup binds the association that it
finds, and nothing else moves an endpoint. -/
structure EndpointStep (e : Event) (w w' : World) : Prop where
  kept : ∀ arc b, (w.heap arc).endpoint = some b →
    ∃ b', (w'.heap arc).endpoint = some b' ∧ endpointKey b' = endpointKey b
  origin : ∀ arc b, (w'.heap arc).endpoint = some b →
    (w.heap arc).endpoint = some b ∨ ∃ target, Found [e] b target arc
  bound : ∀ source target arc, Found [e] source target arc → (w'.heap arc).endpoint = some source

theorem EndpointStep.of_same {w w' : World}
    (he : ∀ source bytes target payload association, e ≠ .loop (.found source bytes target payload association))
    (h : ∀ arc, (w'.heap arc).endpoint = (w.heap arc).endpoint) : EndpointStep e w w' := by
  refine ⟨fun arc b hb => ⟨b, (h arc).trans hb, rfl⟩, fun arc b hb => .inl ((h arc).symm.trans hb), ?_⟩
  rintro source target arc ⟨bytes, payload, hmem⟩
  exact absurd (List.mem_singleton.mp hmem).symm (he _ _ _ _ _)

theorem EndpointStep.find {w : World} (hw : w.WellFormed) (source : SocketAddr) (bytes payload : Bytes)
    (target : Target) :
    EndpointStep (.loop (.found source bytes target payload (w.find source).1)) w (w.find source).2 where
  kept arc := (World.keeps_find hw source arc).bound
  origin arc b hb := by
    rw [World.find_endpoint hw] at hb
    split at hb
    · rename_i hfound
      cases hb
      exact .inr ⟨target, bytes, payload, by rw [hfound]; exact List.mem_singleton.mpr rfl⟩
    · exact .inl hb
  bound source' target' arc := by
    rintro ⟨bytes', payload', hmem⟩
    simp only [List.mem_singleton, Event.loop.injEq, LoopEvent.found.injEq] at hmem
    obtain ⟨rfl, -, -, -, hfound⟩ := hmem
    rw [World.find_endpoint hw, if_pos hfound.symm]

/-- A handler allocates an association before it has an endpoint, and leaves the
endpoint alone from then on. -/
theorem Controlled.endpointStep_handler (h : Controlled events s) {id : ℕ} {c : Connection} {input : HandlerInput}
    {r : HandlerStep} (hc : s.handlers.lookup id = some c)
    (hr : c.step id s.shutdown input s.shared.world = some r) :
    EndpointStep (.handler id r.event) s.shared.world r.world := by
  obtain ⟨peer, st, hst, -, hrun⟩ := h.stands id
  obtain ⟨rfl, -, ho⟩ := hrun c hc
  obtain ⟨hworld, -, st', hafter, -, -⟩ := Connection.step_spec hr ho
  refine .of_same nofun fun arc => ?_
  rw [hworld]
  by_cases hne : arc = id
  · subst hne
    cases hevent : r.event with
    | allocated clientIp requestedPort =>
      rw [hevent] at hafter
      have hfresh : st = .fresh := by cases st <;> first | rfl | cases hafter
      rw [hst.unbound (.inl hfresh)]
      simp [HandlerEvent.apply, World.alloc, Association.new]
    | inserted accepted => rw [HandlerEvent.apply, World.insert_heap]
    | removed => rw [HandlerEvent.apply, World.remove_heap]
    | deadStored => simp [HandlerEvent.apply, World.storeDead]
    | stopCancelled => simp [HandlerEvent.apply, World.cancelStopped]
    | silent => rfl
    | returned => rfl
  · rw [(r.event.apply_other s.shared.world hne).1]

/-! ### What the parts rely on -/

def LoopPc.Traced (config : Config) (events : List Event) : LoopPc → Prop
  | .finding source bytes target payload =>
    config.whitelist.allows source.ip = some true ∧ Protocol.parseDatagram bytes = .ok (target, payload)
  | .dispatching arc target _ => ∃ source, Found events source target arc
  | _ => True

structure PacketTask.Traced (events : List Event) (t : PacketTask) : Prop where
  found : ∃ source, Found events source t.target t.association
  resolved : ∀ addresses, t.pc.addresses? = some addresses → Resolved events t.association t.target addresses

structure Receiver.Traced (events : List Event) (flow : FlowId) (r : Receiver) : Prop where
  found : ∃ source, Found events source r.target r.association
  resolved : ∃ addresses, Resolved events r.association r.target addresses ∧ r.destination ∈ addresses
  held : ∀ payload, r.held = some payload → .receiver flow (.arrived r.destination payload) ∈ events
  source : ∀ source, r.source? = some source → ∃ target, Found events source target r.association

theorem LoopPc.Traced.mono {pc : LoopPc} (h : pc.Traced config events) (e : Event) :
    pc.Traced config (events ++ [e]) := by
  cases pc with
  | dispatching arc target payload =>
    obtain ⟨source, hfound⟩ := h
    exact ⟨source, hfound.mono e⟩
  | _ => exact h

theorem PacketTask.Traced.mono {t : PacketTask} (h : t.Traced events) (e : Event) : t.Traced (events ++ [e]) := by
  obtain ⟨source, hfound⟩ := h.found
  exact ⟨⟨source, hfound.mono e⟩, fun addresses ha => (h.resolved addresses ha).mono e⟩

theorem Receiver.Traced.mono {flow : FlowId} {r : Receiver} (h : r.Traced events flow) (e : Event) :
    r.Traced (events ++ [e]) flow := by
  obtain ⟨source, hfound⟩ := h.found
  obtain ⟨addresses, hresolved, hmem⟩ := h.resolved
  refine ⟨⟨source, hfound.mono e⟩, ⟨addresses, hresolved.mono e, hmem⟩,
    fun payload hp => List.mem_append_left _ (h.held payload hp), fun source hs => ?_⟩
  obtain ⟨target, htarget⟩ := h.source source hs
  exact ⟨target, htarget.mono e⟩

structure Traced (config : Config) (events : List Event) (s : State) : Prop where
  endpoint : ∀ arc source, (s.shared.world.heap arc).endpoint = some source →
    ∃ target, Found events source target arc
  bound : ∀ source target arc, Found events source target arc →
    ∃ b, (s.shared.world.heap arc).endpoint = some b ∧ endpointKey b = endpointKey source
  filtered : ∀ source bytes target payload association,
    .loop (.found source bytes target payload association) ∈ events →
    config.whitelist.allows source.ip = some true ∧ Protocol.parseDatagram bytes = .ok (target, payload)
  loop : s.loop.Traced config events
  tasks : ∀ id t, s.tasks.lookup id = some t → t.Traced events
  receivers : ∀ flow r, s.receivers.lookup flow = some r →
    flow < s.shared.nextFlow ∧ (s.shared.flows flow).socket = r.destination ∧ r.Traced events flow

/-! ### One step -/

namespace Traced

theorem initial : Traced config [] .initial where
  endpoint := nofun
  bound := by
    rintro source target arc ⟨bytes, payload, hmem⟩
    cases hmem
  filtered := nofun
  loop := trivial
  tasks id t ht := absurd ht (State.lookup_initial_tasks id t)
  receivers flow r hr := absurd hr (State.lookup_initial_receivers flow r)

theorem step_endpoint (h : Traced config events s) (he : EndpointStep e s.shared.world s'.shared.world)
    (arc : Arc) (source : SocketAddr) (hs : (s'.shared.world.heap arc).endpoint = some source) :
    ∃ target, Found (events ++ [e]) source target arc := by
  rcases he.origin arc source hs with hold | ⟨target, hnew⟩
  · obtain ⟨target, hfound⟩ := h.endpoint arc source hold
    exact ⟨target, hfound.mono e⟩
  · exact ⟨target, hnew.of_last⟩

theorem step_bound (h : Traced config events s) (he : EndpointStep e s.shared.world s'.shared.world)
    (source : SocketAddr) (target : Target) (arc : Arc) (hf : Found (events ++ [e]) source target arc) :
    ∃ b, (s'.shared.world.heap arc).endpoint = some b ∧ endpointKey b = endpointKey source := by
  rcases found_append.mp hf with hold | hnew
  · obtain ⟨b, hb, hkey⟩ := h.bound source target arc hold
    obtain ⟨b', hb', hkey'⟩ := he.kept arc b hb
    exact ⟨b', hb', hkey'.trans hkey⟩
  · exact ⟨source, he.bound source target arc hnew, rfl⟩

theorem step_filtered (h : Traced config events s) (he : ∀ source bytes target payload association,
      e = .loop (.found source bytes target payload association) →
      config.whitelist.allows source.ip = some true ∧ Protocol.parseDatagram bytes = .ok (target, payload))
    (source : SocketAddr) (bytes : Bytes) (target : Target) (payload : Bytes) (association : Option Arc)
    (hmem : .loop (.found source bytes target payload association) ∈ events ++ [e]) :
    config.whitelist.allows source.ip = some true ∧ Protocol.parseDatagram bytes = .ok (target, payload) := by
  rcases List.mem_append.mp hmem with hold | hnew
  · exact h.filtered _ _ _ _ _ hold
  · exact he _ _ _ _ _ (List.mem_singleton.mp hnew).symm

theorem step_receivers (h : Traced config events s) {shared : Shared} (hf : s.shared.nextFlow ≤ shared.nextFlow)
    (hsockets : ∀ flow < s.shared.nextFlow, (shared.flows flow).socket = (s.shared.flows flow).socket)
    (e : Event) (flow : FlowId) (r : Receiver) (hr : s.receivers.lookup flow = some r) :
    flow < shared.nextFlow ∧ (shared.flows flow).socket = r.destination ∧ r.Traced (events ++ [e]) flow := by
  obtain ⟨hlt, hsocket, htraced⟩ := h.receivers flow r hr
  exact ⟨lt_of_lt_of_le hlt hf, (hsockets flow hlt).trans hsocket, htraced.mono e⟩

/-- A step of a part that relays nothing. -/
theorem other (h : Traced config events s) (he : ∀ event, e ≠ .loop event)
    (hend : EndpointStep e s.shared.world s'.shared.world) (hnext : s'.shared.nextFlow = s.shared.nextFlow)
    (hflows : s'.shared.flows = s.shared.flows) (hloop : s'.loop = s.loop) (htasks : s'.tasks = s.tasks)
    (hreceivers : s'.receivers = s.receivers) : Traced config (events ++ [e]) s' where
  endpoint := h.step_endpoint hend
  bound := h.step_bound hend
  filtered := h.step_filtered fun _ _ _ _ _ heq => absurd heq (he _)
  loop := hloop ▸ h.loop.mono e
  tasks id t ht := (h.tasks id t (htasks ▸ ht)).mono e
  receivers flow r hr := h.step_receivers hnext.ge (fun _ _ => by rw [hflows]) e flow r (hreceivers ▸ hr)

theorem loopStep (h : Traced config events s) (hc : Controlled events s) {input : LoopInput}
    (hs : s.step config (.loop input) = some (e, s')) : Traced config (events ++ [e]) s' := by
  obtain ⟨r, hspec, rfl, rfl⟩ := State.step_loop hs
  have hend : EndpointStep (.loop r.event) s.shared.world r.world := by
    by_cases hf : ∃ source bytes target payload association, r.event = .found source bytes target payload association
    · obtain ⟨source, bytes, target, payload, association, hevent⟩ := hf
      have hfind := (hspec.found _ _ _ _ _ hevent).2
      have hstep := EndpointStep.find hc.wellFormed source bytes payload target
      rw [hfind] at hstep
      rwa [hevent]
    · have hworld := hspec.world.resolve_right hf
      exact .of_same (fun source bytes target payload association heq =>
        hf ⟨source, bytes, target, payload, association, Event.loop.inj heq⟩) fun _ => by rw [hworld]
  refine ⟨h.step_endpoint hend, h.step_bound hend, h.step_filtered fun _ _ _ _ _ heq => ?_, ?_,
    fun id t ht => ?_, h.step_receivers (le_refl _) (fun _ _ => rfl) _⟩
  · have hpc := (hspec.found _ _ _ _ _ (Event.loop.inj heq)).1
    have hloop := h.loop
    rwa [hpc] at hloop
  · show r.pc.Traced config _
    cases hpc : r.pc with
    | finding source bytes target payload => exact hspec.finding _ _ _ _ hpc
    | dispatching arc target payload =>
      obtain ⟨source, bytes, hevent⟩ := hspec.dispatching _ _ _ hpc
      exact ⟨source, bytes, payload, by rw [hevent]; simp⟩
    | waiting => trivial
    | ended => trivial
  · dsimp only at ht
    cases htask : r.task with
    | none =>
      rw [htask] at ht
      exact (h.tasks id t ht).mono _
    | some task =>
      rw [htask, Dict.lookup_insert_eq] at ht
      split at ht
      · cases ht
        obtain ⟨arc, target, payload, hpc, rfl⟩ := hspec.task _ htask
        have hloop := h.loop
        rw [hpc] at hloop
        obtain ⟨source, hfound⟩ := hloop
        exact ⟨⟨source, hfound.mono _⟩, nofun⟩
      · exact (h.tasks id t ht).mono _

theorem taskStep (h : Traced config events s) {id : ℕ} {input : TaskInput}
    (hs : s.step config (.task id input) = some (e, s')) : Traced config (events ++ [e]) s' := by
  obtain ⟨t, r, ht, hspec, rfl, rfl⟩ := State.step_task hs
  have hframed := hspec.framed
  have hend : EndpointStep (.task id r.event) s.shared.world r.shared.world :=
    .of_same nofun fun arc => (hframed.heap arc).2.2.1
  have htraced := h.tasks id t ht
  refine ⟨h.step_endpoint hend, h.step_bound hend, h.step_filtered nofun, h.loop.mono _,
    fun id' t' ht' => ?_, fun flow receiver hr => ?_⟩
  · rw [Dict.lookup_update_eq] at ht'
    split at ht'
    · obtain ⟨ha, htarget, haddresses⟩ := hspec.task t' ht'
      obtain ⟨source, hfound⟩ := htraced.found
      refine ⟨⟨source, ?_⟩, fun addresses hpc => ?_⟩
      · rw [ha, htarget]
        exact hfound.mono _
      · rw [ha, htarget]
        rcases haddresses addresses hpc with hold | hevent
        · exact (htraced.resolved addresses hold).mono _
        · exact ⟨id, by rw [hevent]; simp⟩
    · exact (h.tasks id' t' ht').mono _
  · have hold := h.step_receivers hframed.nextFlow hframed.sockets (.task id r.event)
    dsimp only at hr ⊢
    cases hreceiver : r.receiver with
    | none =>
      rw [hreceiver] at hr
      exact hold flow receiver hr
    | some new =>
      rw [hreceiver, Dict.lookup_insert_eq] at hr
      split at hr
      · rename_i heq
        cases hr
        obtain ⟨hflow, hnext, slot, addresses, destination, hpc, hmem, hnew, hsocket⟩ :=
          hspec.receiver new.1 new.2 hreceiver
        obtain ⟨source, hfound⟩ := htraced.found
        rw [heq, hnew]
        refine ⟨?_, hsocket, ⟨source, hfound.mono _⟩, ⟨addresses, ?_, hmem⟩, nofun, nofun⟩
        · rw [hnext, hflow]
          exact Nat.lt_succ_self _
        · exact (htraced.resolved addresses hpc).mono _
      · exact hold flow receiver hr

theorem receiverStep (h : Traced config events s) {flow : FlowId} {input : ReceiverInput}
    (hs : s.step config (.receiver flow input) = some (e, s')) : Traced config (events ++ [e]) s' := by
  obtain ⟨r, result, hr, hspec, rfl, rfl⟩ := State.step_receiver hs
  have hframed := hspec.framed
  have hend : EndpointStep (.receiver flow result.event) s.shared.world result.shared.world :=
    .of_same nofun fun arc => (hframed.heap arc).2.2.1
  have hold := h.step_receivers hframed.nextFlow hframed.sockets (.receiver flow result.event)
  refine ⟨h.step_endpoint hend, h.step_bound hend, h.step_filtered nofun, h.loop.mono _,
    fun id t ht => (h.tasks id t ht).mono _, fun flow' r' hr' => ?_⟩
  rw [Dict.lookup_update_eq] at hr'
  split at hr'
  · rename_i heq
    subst heq
    obtain ⟨ha, ht, hd, hheld, hsource⟩ := hspec.receiver r' hr'
    obtain ⟨hlt, hsocket, htraced⟩ := hold flow' r hr
    have hsocket₀ := (h.receivers flow' r hr).2.1
    refine ⟨hlt, hsocket.trans hd.symm, ?_, ?_, fun payload hp => ?_, fun source hs => ?_⟩
    · rw [ha, ht]
      exact htraced.found
    · rw [ha, ht, hd]
      exact htraced.resolved
    · rw [hd]
      rcases hheld payload hp with hp | hevent
      · exact htraced.held payload hp
      · rw [hevent, hsocket₀]
        simp
    · rw [ha]
      obtain ⟨target, hfound⟩ := h.endpoint _ _ (hsource source hs)
      exact ⟨target, hfound.mono _⟩
  · exact hold flow' r' hr'

/-- What one step of the server preserves. -/
theorem step (h : Traced config events s) (hc : Controlled events s) {input : Input}
    (hs : s.step config input = some (e, s')) : Traced config (events ++ [e]) s' := by
  cases input with
  | cancel =>
    cases hs
    exact h.other (by simp) (.of_same (by simp) fun _ => rfl) rfl rfl rfl rfl rfl
  | tick nanos =>
    cases hs
    exact h.other (by simp) (.of_same (by simp) fun _ => rfl) rfl rfl rfl rfl rfl
  | accept peer =>
    simp only [State.step] at hs
    split at hs
    · cases hs
    · split at hs
      · cases hs
      · cases hs
        exact h.other (by simp) (.of_same (by simp) fun _ => rfl) rfl rfl rfl rfl rfl
      · split at hs <;> cases hs <;> exact h.other (by simp) (.of_same (by simp) fun _ => rfl) rfl rfl rfl rfl rfl
  | leaveAccept | join =>
    simp only [State.step] at hs
    split at hs <;> cases hs
    exact h.other (by simp) (.of_same (by simp) fun _ => rfl) rfl rfl rfl rfl rfl
  | stopAssociations =>
    simp only [State.step] at hs
    split at hs <;> cases hs
    exact h.other (by simp) (.of_same (by simp) fun arc => (World.stopEntries_sameKey _ arc).2.2) rfl rfl rfl rfl rfl
  | handler id input =>
    obtain ⟨c, r, hlookup, hr, rfl, rfl⟩ := State.step_handler hs
    exact h.other (by simp) (hc.endpointStep_handler hlookup hr) rfl rfl rfl rfl rfl
  | loop input => exact h.loopStep hc hs
  | task id input => exact h.taskStep hs
  | receiver flow input => exact h.receiverStep hs

end Traced

theorem traced_of_reaches (h : System.Reaches (system config) .initial events s) :
    Controlled events s ∧ Traced config events s :=
  h.invariant (fun events s => Controlled events s ∧ Traced config events s) ⟨.initial, .initial⟩
    fun _ _ _ _ _ ht hs => ⟨ht.1.step hs, ht.2.step ht.1 hs⟩

/-! ### What a reply rests on -/

/-- A source that a lookup gave an association lies inside what its control
connection asked for. -/
theorem Traced.client (h : Traced config events s) (hc : Controlled events s) {source : SocketAddr}
    {target : Target} {arc : Arc} (hf : Found events source target arc) :
    ∃ peer port, .accepted arc peer ∈ events ∧ .handler arc (.allocated peer.ip port) ∈ events ∧
      normalize source.ip = normalize peer.ip ∧ (port ≠ 0 → source.port = port) := by
  obtain ⟨b, hb, hkey⟩ := h.bound source target arc hf
  obtain ⟨hip, hport⟩ := endpointKey_inj.mp hkey
  obtain ⟨peer, st, hst, -, -⟩ := hc.stands arc
  have hfresh : st ≠ .fresh := fun heq => by
    rw [hst.unbound (.inl heq)] at hb
    cases hb
  obtain ⟨port, halloc, hclient, hrequested⟩ := hst.allocated hfresh
  obtain ⟨hokIp, hokPort⟩ := hc.wellFormed.endpointOk arc b hb
  refine ⟨peer, port, hst.accepted hfresh, halloc, ?_, fun hne => ?_⟩
  · rw [← hip, hokIp, hclient]
  · rw [← hport, hokPort (hrequested ▸ hne), hrequested]

/-- All sources that lookups gave an association share one key. -/
theorem Traced.sameKey (h : Traced config events s) {source source' : SocketAddr} {target target' : Target} {arc : Arc}
    (hf : Found events source target arc) (hf' : Found events source' target' arc) :
    endpointKey source = endpointKey source' := by
  obtain ⟨b, hb, hkey⟩ := h.bound source target arc hf
  obtain ⟨b', hb', hkey'⟩ := h.bound source' target' arc hf'
  obtain rfl : b = b' := Option.some.inj (hb.symm.trans hb')
  exact hkey.symm.trans hkey'

/-- Two registered associations are never bound to one endpoint. -/
theorem Traced.exclusive (h : Traced config events s) (hc : Controlled events s) {source : SocketAddr}
    {target : Target} {arc : Arc} (hf : Found events source target arc) (harc : s.shared.world.Registered arc)
    {other : Arc} (hne : other ≠ arc) (hother : s.shared.world.Registered other) {b : SocketAddr}
    (hb : (s.shared.world.heap other).endpoint = some b) : endpointKey b ≠ endpointKey source := by
  intro hkey
  obtain ⟨b', hb', hkey'⟩ := h.bound source target arc hf
  have hw := hc.wellFormed
  have harc' := (hw.endpoints _ arc).mpr ⟨harc, Association.indexKey_of_endpoint (hw.endpointOk arc) hb'⟩
  have hother' := (hw.endpoints _ other).mpr ⟨hother, Association.indexKey_of_endpoint (hw.endpointOk other) hb⟩
  rw [hkey, ← hkey', harc'] at hother'
  exact hne (Option.some.inj hother').symm

/-- In every run, whatever a receiver sends to a client endpoint is the payload of
a datagram from an address that the client's association has asked for, under
that address, and the endpoint belongs to this association alone. -/
theorem relay_isolation (config : Config) {before : List Event} {s s' : State} {input : Input} {flow : FlowId}
    {arc : Arc} {endpoint : SocketAddr} {packet : Bytes}
    (h : System.Reaches (system config) .initial before s)
    (hs : s.step config input = some (.receiver flow (.replied arc endpoint packet), s')) :
    ∃ destination payload, packet = Protocol.encodeDatagram destination payload ∧
      (∃ peer port, .accepted arc peer ∈ before ∧ .handler arc (.allocated peer.ip port) ∈ before ∧
        normalize endpoint.ip = normalize peer.ip ∧ (port ≠ 0 → endpoint.port = port)) ∧
      (∃ source bytes target sent, .loop (.found source bytes target sent (some arc)) ∈ before ∧
        endpointKey source = endpointKey endpoint ∧ config.whitelist.allows source.ip = some true ∧
        Protocol.parseDatagram bytes = .ok (target, sent)) ∧
      (∃ source bytes target sent task addresses,
        .loop (.found source bytes target sent (some arc)) ∈ before ∧
        endpointKey source = endpointKey endpoint ∧ config.whitelist.allows source.ip = some true ∧
        Protocol.parseDatagram bytes = .ok (target, sent) ∧
        .task task (.resolved arc target addresses) ∈ before ∧ destination ∈ addresses) ∧
      .receiver flow (.arrived destination payload) ∈ before ∧
      (s.shared.world.Registered arc → ∀ other, other ≠ arc → s.shared.world.Registered other →
        ∀ b, (s.shared.world.heap other).endpoint = some b → endpointKey b ≠ endpointKey endpoint) := by
  obtain ⟨hc, ht⟩ := traced_of_reaches h
  have hleaves := State.step_leaves hs
  cases input with
  | receiver flow' input =>
    obtain rfl : flow = flow' := hleaves
    obtain ⟨r, result, hr, hspec, hevent, -⟩ := State.step_receiver hs
    obtain ⟨rfl, hsource, payload, hheld, hpacket⟩ := hspec.replied _ _ _ (Event.receiver.inj hevent).2.symm
    obtain ⟨-, -, htraced⟩ := ht.receivers flow r hr
    obtain ⟨target, hfound⟩ := htraced.source endpoint hsource
    obtain ⟨source', bytes', sent', hmem'⟩ := htraced.found
    obtain ⟨addresses, ⟨task, hresolved⟩, hdestination⟩ := htraced.resolved
    refine ⟨r.destination, payload, hpacket, ht.client hc hfound, ?_, ?_, htraced.held payload hheld,
      fun harc other hne hother b hb => ht.exclusive hc hfound harc hne hother hb⟩
    · obtain ⟨bytes, sent, hmem⟩ := hfound
      exact ⟨endpoint, bytes, target, sent, hmem, rfl, ht.filtered _ _ _ _ _ hmem⟩
    · obtain ⟨hallows, hparse⟩ := ht.filtered _ _ _ _ _ hmem'
      have hkey := ht.sameKey ⟨bytes', sent', hmem'⟩ hfound
      exact ⟨_, _, _, _, task, addresses, hmem', hkey, hallows, hparse, hresolved, hdestination⟩
  | _ => exact hleaves.elim

/-- A packet task resolves the target and opens a flow; its receiver gets three
bytes and is about to relay them. -/
def replyInputs : List Input :=
  relayInputs ++ [.task 0 .go, .task 0 .go, .task 0 .go, .task 0 (.lookedUp (.ok [])), .task 0 .go,
    .task 0 (.bound true), .task 0 .go, .receiver 0 .go, .receiver 0 .go, .receiver 0 .go,
    .receiver 0 (.datagram (.v4 ⟨#v[198, 51, 100, 1]⟩ 53) [7, 8, 9]), .receiver 0 .go, .receiver 0 .go,
    .receiver 0 .go]

/-- After them the flow is active, and the next step of the receiver relays the bytes. -/
theorem run_replyInputs :
    (((system anonymous).run .initial replyInputs).bind fun r =>
      (r.2.step anonymous (.receiver 0 .go)).map fun r' => ((r.2.shared.flows 0).active, r'.1)) =
        some (true, .receiver 0 (.replied 1 clientRelay [0, 0, 0, 1, 198, 51, 100, 1, 0, 53, 7, 8, 9])) := by
  decide +kernel

theorem relay_isolation_reply :
    ∃ before s s', (system anonymous).run .initial replyInputs = some (before, s) ∧
      s.step anonymous (.receiver 0 .go) =
        some (.receiver 0 (.replied 1 clientRelay [0, 0, 0, 1, 198, 51, 100, 1, 0, 53, 7, 8, 9]), s') ∧
      ∃ peer port, .accepted 1 peer ∈ before ∧ .handler 1 (.allocated peer.ip port) ∈ before ∧
        normalize clientRelay.ip = normalize peer.ip ∧ (port ≠ 0 → clientRelay.port = port) := by
  obtain ⟨⟨before, s⟩, hrun, hstep⟩ := Option.bind_eq_some_iff.mp run_replyInputs
  obtain ⟨⟨e, s'⟩, hstep, heq⟩ := Option.map_eq_some_iff.mp hstep
  obtain ⟨-, rfl⟩ := Prod.mk.inj heq
  obtain ⟨-, -, -, hclient, -⟩ := relay_isolation anonymous (System.reaches_of_run hrun) hstep
  exact ⟨before, s, s', hrun, hstep, hclient⟩

end Brume.Server
