import Brume.Registry.Invariant
import Brume.Server.ReplyHeader
import Brume.Server.System

/-!
# What a step does to the associations

Packet tasks and receivers touch the flow tables of an association only. Every
other access is one of the registry operations. `World.Keeps w w' id` says what
association `id` keeps in a step that is not one of its own handler.
-/

namespace Brume.Server
open Lib

/-! ### Flow tables -/

/-- What the registry reads of an association is unchanged. -/
def Association.SameKey (a a' : Association) : Prop :=
  a'.clientIp = a.clientIp ∧ a'.requestedPort = a.requestedPort ∧ a'.endpoint = a.endpoint

theorem Association.SameKey.indexKey {a a' : Association} (h : a.SameKey a') :
    a'.indexKey = a.indexKey := by
  obtain ⟨hip, hp, he⟩ := h
  rw [Association.indexKey, Association.indexKey, hip, hp, he]

/-- Only the flow tables of an association have changed. -/
def Association.SameBinding (a a' : Association) : Prop :=
  a'.clientIp = a.clientIp ∧ a'.requestedPort = a.requestedPort ∧ a'.endpoint = a.endpoint ∧
    a'.alive = a.alive ∧ a'.stopped = a.stopped

theorem Association.SameBinding.refl (a : Association) : a.SameBinding a := ⟨rfl, rfl, rfl, rfl, rfl⟩

theorem Association.SameBinding.key {a a' : Association} (h : a.SameBinding a') : a.SameKey a' :=
  ⟨h.1, h.2.1, h.2.2.1⟩

/-- Only flow tables, slots, flows and the clock have changed. -/
structure Shared.Framed (s s' : Shared) : Prop where
  registry : s'.world.registry = s.world.registry
  heap : ∀ arc, (s.world.heap arc).SameBinding (s'.world.heap arc)
  sockets : ∀ flow < s.nextFlow, (s'.flows flow).socket = (s.flows flow).socket
  nextFlow : s.nextFlow ≤ s'.nextFlow

namespace Shared.Framed

theorem refl (s : Shared) : s.Framed s := ⟨rfl, fun _ => .refl _, fun _ _ => rfl, le_refl _⟩

theorem setSlot (s : Shared) (slot : SlotId) (c : Cell) : s.Framed (s.setSlot slot c) :=
  ⟨rfl, fun _ => .refl _, fun _ _ => rfl, le_refl _⟩

/-- A change of the flow tables of one association. -/
theorem setAssociation (s : Shared) (arc : Arc) {a : Association}
    (h : (s.world.heap arc).SameBinding a) : s.Framed (s.setAssociation arc a) := by
  refine ⟨rfl, fun arc' => ?_, fun _ _ => rfl, le_refl _⟩
  simp only [Shared.setAssociation, Heap.set_apply]
  split
  · rename_i heq
    subst heq
    exact h
  · exact .refl _

theorem newSlot (s : Shared) (arc : Arc) (target : Target) : s.Framed (s.newSlot arc target) := by
  obtain ⟨hr, hh, hs, hn⟩ := setAssociation (s.setSlot s.nextSlot .empty) arc
    (a := { s.association arc with flows := (s.association arc).flows.insert target s.nextSlot })
    ⟨rfl, rfl, rfl, rfl, rfl⟩
  exact ⟨hr, hh, hs, hn⟩

theorem removeFlowSlot (s : Shared) (arc : Arc) (target : Target) (slot : SlotId) :
    s.Framed (s.removeFlowSlot arc target slot) := by
  unfold Shared.removeFlowSlot
  dsimp only
  split
  · exact setAssociation s arc ⟨rfl, rfl, rfl, rfl, rfl⟩
  · exact refl s

theorem rememberUdpAddress {s s' : Shared} {arc : Arc} {target oldest : Target} {index : ℕ}
    (h : s.rememberUdpAddress arc target index oldest = some s') : s.Framed s' := by
  unfold Shared.rememberUdpAddress at h
  dsimp only at h
  split at h
  · split at h
    · cases h
      exact setAssociation s arc ⟨rfl, rfl, rfl, rfl, rfl⟩
    · cases h
  · cases h
    exact setAssociation s arc ⟨rfl, rfl, rfl, rfl, rfl⟩

theorem advanceUdpAddress {s s' : Shared} {arc : Arc} {target oldest : Target} {flow : FlowId}
    (h : s.advanceUdpAddress arc target flow oldest = some s') : s.Framed s' := by
  unfold Shared.advanceUdpAddress at h
  dsimp only at h
  split at h
  · exact rememberUdpAddress h
  · cases h
    exact refl s

/-- A change of one flow that keeps its socket. -/
theorem setFlow (s : Shared) (flow : FlowId) {f : Flow} (h : f.socket = (s.flows flow).socket) :
    s.Framed (s.setFlow flow f) := by
  refine ⟨rfl, fun _ => .refl _, fun flow' _ => ?_, le_refl _⟩
  simp only [Shared.setFlow, Function.update_apply]
  split
  · rename_i heq
    subst heq
    exact h
  · rfl

theorem touch (s : Shared) (flow : FlowId) : s.Framed (s.touch flow) := setFlow s flow rfl

theorem deactivate (s : Shared) (flow : FlowId) : s.Framed (s.deactivate flow) := setFlow s flow rfl

theorem stopFlow (s : Shared) (flow : FlowId) : s.Framed (s.stopFlow flow) := setFlow s flow rfl

theorem newFlow (s : Shared) (f : Flow) : s.Framed (s.newFlow f) := by
  refine ⟨rfl, fun _ => .refl _, fun flow hflow => ?_, Nat.le_succ _⟩
  simp only [Shared.newFlow, Shared.setFlow, Function.update_apply]
  rw [if_neg (Nat.ne_of_lt hflow)]

end Shared.Framed

/-! ### One step of the UDP loop -/

/-- The loop looks up whitelisted sources of well-formed datagrams only, and
starts a task with what the lookup gave. -/
structure LoopPc.Spec (whitelist : Whitelist) (pc : LoopPc) (w : World) (r : LoopStep) : Prop where
  world : r.world = w ∨ ∃ source bytes target payload association,
    r.event = .found source bytes target payload association
  found : ∀ source bytes target payload association, r.event = .found source bytes target payload association →
    pc = .finding source bytes target payload ∧ w.find source = (association, r.world)
  finding : ∀ source bytes target payload, r.pc = .finding source bytes target payload →
    whitelist.allows source.ip = some true ∧ Protocol.parseDatagram bytes = .ok (target, payload)
  dispatching : ∀ arc target payload, r.pc = .dispatching arc target payload →
    ∃ source bytes, r.event = .found source bytes target payload (some arc)
  task : ∀ t, r.task = some t → ∃ arc target payload, pc = .dispatching arc target payload ∧
    t = .new arc target payload

/-- A step of the loop that only changes its place. -/
theorem LoopPc.Spec.go {whitelist : Whitelist} {pc pc' : LoopPc} {w : World} {event : LoopEvent}
    (he : event = .silent ∨ event = .ended) (hpc : pc' = .waiting ∨ pc' = .ended) :
    Spec whitelist pc w ⟨event, pc', none, w⟩ := by
  refine ⟨.inl rfl, fun _ _ _ _ _ h => ?_, fun _ _ _ _ h => ?_, fun _ _ _ h => ?_, nofun⟩
  · rcases he with rfl | rfl <;> cases h
  · rcases hpc with rfl | rfl <;> cases h
  · rcases hpc with rfl | rfl <;> cases h

theorem LoopPc.step_spec {whitelist : Whitelist} {shutdown : Bool} {permits nextTask : ℕ} {pc : LoopPc}
    {input : LoopInput} {w : World} {r : LoopStep}
    (h : pc.step whitelist shutdown permits nextTask input w = some r) : pc.Spec whitelist w r := by
  unfold LoopPc.step at h
  split at h
  case h_1 =>
    split at h <;> cases h
    exact .go (.inr rfl) (.inr rfl)
  case h_2 =>
    split at h <;> cases h
    · exact .go (.inl rfl) (.inl rfl)
    · exact .go (.inr rfl) (.inr rfl)
  case h_3 =>
    split at h
    · cases h
    · split at h
      · cases h
      · cases h
        exact .go (.inl rfl) (.inl rfl)
      · rename_i hallows
        split at h
        · cases h
          exact .go (.inl rfl) (.inl rfl)
        · rename_i hparse
          cases h
          refine ⟨.inl rfl, nofun, fun _ _ _ _ h => ?_, nofun, nofun⟩
          cases h
          exact ⟨hallows, hparse⟩
  case h_4 source bytes target payload =>
    cases h
    refine ⟨.inr ⟨_, _, _, _, _, rfl⟩, fun _ _ _ _ _ h => ?_, fun _ _ _ _ h => ?_, fun _ _ _ h => ?_, nofun⟩
    · cases h
      exact ⟨rfl, rfl⟩
    · dsimp only at h
      split at h <;> cases h
    · dsimp only at h ⊢
      split at h
      · cases h
      · rename_i hfound
        cases h
        exact ⟨source, bytes, by rw [hfound]⟩
  case h_5 =>
    split at h <;> cases h
    · exact .go (.inl rfl) (.inl rfl)
    · refine ⟨.inl rfl, nofun, nofun, nofun, fun _ h => ?_⟩
      cases h
      exact ⟨_, _, _, rfl, rfl⟩
  case h_6 => cases h

/-! ### One step of a packet task -/

/-- The addresses a task has resolved and not yet used up. -/
def TaskPc.addresses? : TaskPc → Option (List SocketAddr)
  | .choosing _ addresses | .binding _ addresses _ _ | .remembering _ addresses _
  | .spawning _ addresses _ => some addresses
  | _ => none

/-- A step keeps what the task is about, and a receiver is connected to one of
the addresses that the task has resolved. -/
structure PacketTask.Spec (t : PacketTask) (s : Shared) (r : TaskStep) : Prop where
  framed : s.Framed r.shared
  task : ∀ t', r.task = some t' → t'.association = t.association ∧ t'.target = t.target ∧
    ∀ addresses, t'.pc.addresses? = some addresses →
      t.pc.addresses? = some addresses ∨ r.event = .resolved t.association t.target addresses
  receiver : ∀ flow receiver, r.receiver = some (flow, receiver) →
    flow = s.nextFlow ∧ r.shared.nextFlow = s.nextFlow + 1 ∧
    ∃ slot addresses destination, t.pc.addresses? = some addresses ∧ destination ∈ addresses ∧
      receiver = .new t.association slot t.target destination ∧
      (r.shared.flows flow).socket = destination

namespace PacketTask.Spec
variable {t : PacketTask} {s s' : Shared}

theorem finish (hf : s.Framed s') : Spec t s ⟨.finished, none, none, s'⟩ :=
  ⟨hf, nofun, nofun⟩

/-- A step to a place that holds no addresses the task did not have before. -/
theorem go (hf : s.Framed s') {event : TaskEvent} {t' : PacketTask} (ha : t'.association = t.association)
    (ht : t'.target = t.target)
    (hpc : ∀ addresses, t'.pc.addresses? = some addresses → t.pc.addresses? = some addresses) :
    Spec t s ⟨event, some t', none, s'⟩ := by
  refine ⟨hf, fun _ h => ?_, nofun⟩
  cases h
  exact ⟨ha, ht, fun addresses h => .inl (hpc addresses h)⟩

end PacketTask.Spec

theorem PacketTask.step_spec {id permits : ℕ} {t : PacketTask} {input : TaskInput} {s : Shared}
    {r : TaskStep} (h : t.step id permits input s = some r) : t.Spec s r := by
  unfold PacketTask.step at h
  dsimp only at h
  split at h
  case h_1 =>
    split at h <;> cases h
    · exact .go (.refl s) rfl rfl nofun
    · exact .finish (.refl s)
  case h_2 =>
    split at h
    · cases h
      exact .go (.refl s) rfl rfl nofun
    · split at h
      · cases h
        exact .finish (.refl s)
      · split at h <;> cases h
        · exact .finish (.refl s)
        · exact .go (.newSlot s _ _) rfl rfl nofun
  case h_3 =>
    split at h <;> cases h
    · exact .go (.refl s) rfl rfl nofun
    · exact .go (.setSlot s _ _) rfl rfl nofun
  case h_4 =>
    split at h <;> cases h
    · exact .go (.refl s) rfl rfl nofun
    · -- the answer of the resolver
      refine ⟨.refl s, fun _ h => ?_, nofun⟩
      cases h
      exact ⟨rfl, rfl, fun addresses h => .inr (by cases h; rfl)⟩
  case h_5 hpc =>
    cases h
    exact .go (.refl s) rfl rfl fun _ h => by rw [hpc]; exact h
  case h_6 hpc =>
    split at h
    · split at h
      · split at h <;> cases h <;> exact .go (.refl s) rfl rfl fun _ h => by rw [hpc]; exact h
      · cases h
        exact .go (.refl s) rfl rfl fun _ h => by rw [hpc]; exact h
    · cases h
  case h_7 =>
    split at h
    · cases h
    · cases h
      exact .go (.refl s) rfl rfl nofun
  case h_8 hpc =>
    split at h
    · cases h
    · rename_i s' hs'
      cases h
      exact .go (.rememberUdpAddress hs') rfl rfl fun _ h => by rw [hpc]; exact h
  case h_9 slot addresses index hpc =>
    split at h
    · cases h
    · rename_i destination hd
      cases h
      refine ⟨.newFlow s _, fun _ h => ?_, fun _ _ h => ?_⟩
      · cases h
        exact ⟨rfl, rfl, nofun⟩
      · cases h
        refine ⟨rfl, rfl, slot, addresses, destination, by rw [hpc]; rfl, List.mem_of_getElem? hd, rfl, ?_⟩
        simp [Shared.newFlow, Shared.setFlow]
  case h_10 =>
    cases h
    exact .go (.setSlot s _ _) rfl rfl nofun
  case h_11 =>
    cases h
    exact .finish (.removeFlowSlot s _ _ _)
  case h_12 =>
    split at h <;> cases h <;> exact .go (.refl s) rfl rfl nofun
  case h_13 =>
    split at h <;> cases h
    · exact .finish (.removeFlowSlot s _ _ _)
    · exact .go (.removeFlowSlot s _ _ _) rfl rfl nofun
  case h_14 =>
    split at h <;> cases h
    · exact .go (.refl s) rfl rfl nofun
    · exact .finish (.refl s)
  case h_15 =>
    cases h
    exact .go (.touch s _) rfl rfl nofun
  case h_16 =>
    split at h <;> cases h <;> exact .go (.refl s) rfl rfl nofun
  case h_17 =>
    cases h
    exact .finish (.touch s _)
  case h_18 =>
    split at h <;> cases h <;> exact .go (.deactivate s _) rfl rfl nofun
  case h_19 =>
    split at h
    · cases h
    · rename_i s' hs'
      cases h
      exact .go (.advanceUdpAddress hs') rfl rfl nofun
  case h_20 =>
    cases h
    exact .go (.stopFlow s _) rfl rfl nofun
  case h_21 =>
    split at h <;> cases h
    · exact .finish (.removeFlowSlot s _ _ _)
    · exact .go (.removeFlowSlot s _ _ _) rfl rfl nofun
  case h_22 => cases h

/-! ### One step of a receiver -/

/-- The datagram in the buffer of a receiver that is about to relay it. -/
def Receiver.held (r : Receiver) : Option Bytes :=
  match r.pc with
  | .received length | .touching length | .readingEndpoint length | .replying length _ =>
    some ((r.buffer.drop 22).take length)
  | _ => none

/-- The client endpoint that a receiver has read. -/
def Receiver.source? (r : Receiver) : Option SocketAddr :=
  match r.pc with
  | .replying _ source => some source
  | _ => none

/-- A step keeps what the receiver is about. It relays what has arrived on its
socket, to the endpoint that the association had when it was read. -/
structure Receiver.Spec (flow : FlowId) (r : Receiver) (s : Shared) (step : ReceiverStep) : Prop where
  framed : s.Framed step.shared
  receiver : ∀ r', step.receiver = some r' → r'.association = r.association ∧ r'.target = r.target ∧
    r'.destination = r.destination ∧
    (∀ payload, r'.held = some payload →
      r.held = some payload ∨ step.event = .arrived (s.flows flow).socket payload) ∧
    ∀ source, r'.source? = some source → (s.association r.association).endpoint = some source
  replied : ∀ arc source packet, step.event = .replied arc source packet →
    arc = r.association ∧ r.source? = some source ∧
    ∃ payload, r.held = some payload ∧ packet = Protocol.encodeDatagram r.destination payload

namespace Receiver.Spec
variable {flow : FlowId} {r : Receiver} {s s' : Shared}

/-- A step that receives and sends nothing. -/
theorem go (hf : s.Framed s') {r' : Receiver} (ha : r'.association = r.association)
    (ht : r'.target = r.target) (hd : r'.destination = r.destination)
    (hh : ∀ payload, r'.held = some payload → r.held = some payload)
    (hs : ∀ source, r'.source? = some source → (s.association r.association).endpoint = some source) :
    Spec flow r s ⟨.silent, some r', s'⟩ := by
  refine ⟨hf, fun _ h => ?_, nofun⟩
  cases h
  exact ⟨ha, ht, hd, fun payload h => .inl (hh payload h), hs⟩

end Receiver.Spec

theorem Receiver.step_spec {timeout : Duration} {flow : FlowId} {r : Receiver} {input : ReceiverInput}
    {s : Shared} {step : ReceiverStep} (h : r.step timeout flow input s = some step) :
    Spec flow r s step := by
  unfold Receiver.step at h
  dsimp only at h
  split at h
  case h_1 =>
    cases h
    split <;> exact .go (.refl s) rfl rfl rfl nofun nofun
  case h_2 =>
    split at h <;> cases h <;> exact .go (.refl s) rfl rfl rfl nofun nofun
  case h_3 =>
    split at h <;> cases h <;> exact .go (.refl s) rfl rfl rfl nofun nofun
  case h_4 =>
    split at h <;> cases h
    exact .go (.refl s) rfl rfl rfl nofun nofun
  case h_5 =>
    split at h <;> cases h
    exact .go (.refl s) rfl rfl rfl nofun nofun
  case h_6 =>
    split at h <;> cases h
    exact .go (.refl s) rfl rfl rfl nofun nofun
  case h_7 sender payload =>
    split at h
    · rename_i hsender
      split at h
      · cases h
      · rename_i buffer hcopy
        cases h
        refine ⟨.refl s, fun _ h => ?_, nofun⟩
        cases h
        refine ⟨rfl, rfl, rfl, fun payload' h => .inr ?_, nofun⟩
        obtain ⟨rfl, hle, hlen, hpayload⟩ := copyInto_ok hcopy
        cases h
        have htake : (r.buffer.take 22).length = 22 := by
          rw [List.length_take]
          omega
        rw [hsender, List.append_assoc, List.drop_left' htake, List.take_left]
    · cases h
  case h_8 =>
    cases h
    exact .go (.refl s) rfl rfl rfl nofun nofun
  case h_9 hpc =>
    split at h <;> cases h
    · exact .go (.refl s) rfl rfl rfl (fun _ h => by rw [held, hpc]; exact h) nofun
    · exact .go (.refl s) rfl rfl rfl nofun nofun
  case h_10 hpc =>
    cases h
    exact .go (.touch s _) rfl rfl rfl (fun _ h => by rw [held, hpc]; exact h) nofun
  case h_11 hpc =>
    split at h
    · cases h
      exact .go (.refl s) rfl rfl rfl nofun nofun
    · rename_i source hsource
      cases h
      refine .go (.refl s) rfl rfl rfl (fun _ h => by rw [held, hpc]; exact h) fun _ h => ?_
      cases h
      exact hsource
  case h_12 length source hpc =>
    split at h
    · cases h
    · rename_i buffer packet hframe
      cases h
      refine ⟨.refl s, fun _ h => ?_, fun _ _ _ h => ?_⟩
      · cases h
        exact ⟨rfl, rfl, rfl, nofun, nofun⟩
      · cases h
        exact ⟨rfl, by rw [source?, hpc], _, by rw [held, hpc], frame_ok hframe⟩
  case h_13 =>
    cases h
    split <;> exact .go (.deactivate s _) rfl rfl rfl nofun nofun
  case h_14 =>
    split at h
    · cases h
    · rename_i s' hs'
      cases h
      exact .go (.advanceUdpAddress hs') rfl rfl rfl nofun nofun
  case h_15 =>
    cases h
    exact ⟨.removeFlowSlot s _ _ _, nofun, nofun⟩
  case h_16 => cases h

/-! ### Associations of other handlers -/

namespace World

/-- What a step keeps of association `id` that is not one of its own handler. An
endpoint changes within its key only, and only that of a registered association. -/
structure Keeps (w w' : World) (id : ℕ) : Prop where
  registered : w'.Registered id ↔ w.Registered id
  clientIp : (w'.heap id).clientIp = (w.heap id).clientIp
  requestedPort : (w'.heap id).requestedPort = (w.heap id).requestedPort
  dead : (w.heap id).alive = false → (w'.heap id).alive = false
  stopped : (w.heap id).stopped = true → (w'.heap id).stopped = true
  unbound : ¬w.Registered id → (w'.heap id).endpoint = (w.heap id).endpoint
  bound : ∀ e, (w.heap id).endpoint = some e →
    ∃ e', (w'.heap id).endpoint = some e' ∧ endpointKey e' = endpointKey e

theorem Keeps.of_same {w w' : World} {id : ℕ}
    (hreg : w'.registry.entries.lookup id = w.registry.entries.lookup id)
    (h : (w.heap id).SameBinding (w'.heap id)) : w.Keeps w' id := by
  obtain ⟨hip, hport, he, ha, hs⟩ := h
  refine ⟨by rw [Registered, Registered, hreg], hip, hport, fun h => ha.trans h, fun h => hs.trans h,
    fun _ => he, fun e h => ⟨e, he.trans h, rfl⟩⟩

theorem Keeps.refl (w : World) (id : ℕ) : w.Keeps w id := .of_same rfl (.refl _)

/-- A change of one association keeps the others. -/
theorem keeps_set (w : World) {arc id : ℕ} (a : Association) (h : id ≠ arc) :
    w.Keeps { w with heap := w.heap.set arc a } id := by
  refine .of_same rfl ?_
  simp only [Heap.set_apply, if_neg h]
  exact .refl _

theorem insert_heap (w : World) (id : ℕ) (arc : Arc) : (w.insert id arc).2.heap = w.heap := by
  unfold World.insert
  dsimp only
  split <;> split <;> rfl

theorem insert_entries {w : World} {arc id : ℕ} (h : id ≠ arc) :
    (w.insert arc arc).2.registry.entries.lookup id = w.registry.entries.lookup id := by
  have hentry : (w.registry.entries.insert arc arc).lookup id = w.registry.entries.lookup id := by
    rw [Dict.lookup_insert_eq, if_neg h]
  unfold World.insert
  dsimp only
  split <;> split
  · rfl
  · exact hentry
  · rfl
  · exact hentry

/-- A refused insert changes nothing. -/
theorem insert_refused {w : World} {arc : ℕ} (h : (w.insert arc arc).1 = false) : (w.insert arc arc).2 = w := by
  unfold World.insert at h ⊢
  dsimp only at h ⊢
  split at h <;> split at h
  · simp_all
  · cases h
  · simp_all
  · cases h

theorem remove_heap (w : World) (id : ℕ) : (w.remove id).heap = w.heap := by
  unfold World.remove
  dsimp only
  split
  · rfl
  · split <;> split <;> rfl

theorem remove_entries {w : World} {arc id : ℕ} (h : id ≠ arc) :
    (w.remove arc).registry.entries.lookup id = w.registry.entries.lookup id := by
  have hentry : (w.registry.entries.erase arc).lookup id = w.registry.entries.lookup id := by
    rw [Dict.lookup_erase_eq, if_neg h]
  unfold World.remove
  dsimp only
  split
  · rfl
  · split <;> split <;> exact hentry

/-- A lookup binds the association that it finds, and no other. -/
theorem find_endpoint {w : World} (hw : w.WellFormed) (source : SocketAddr) (id : ℕ) :
    ((w.find source).2.heap id).endpoint =
      if (w.find source).1 = some id then some source else (w.heap id).endpoint := by
  rcases hw.find_cases source with ⟨x, -, -, -, h⟩ | ⟨x, -, -, -, -, -, h⟩ | ⟨-, -, h⟩ <;> rw [h]
  · by_cases hx : id = x <;> simp [hx, eq_comm]
  · by_cases hx : id = x <;> simp [hx, eq_comm]
  · simp

theorem keeps_find {w : World} (hw : w.WellFormed) (source : SocketAddr) (id : ℕ) :
    w.Keeps (w.find source).2 id := by
  rcases hw.find_cases source with ⟨x, hx, -, hk, h⟩ | ⟨x, hx, -, hk, hip, -, h⟩ | ⟨-, -, h⟩ <;> rw [h]
  · by_cases hne : id = x
    · subst hne
      refine ⟨Iff.rfl, ?_, ?_, ?_, ?_, fun hid => absurd hx hid, fun e he => ?_⟩
        <;> simp only [Heap.set_apply, ↓reduceIte]
      · rfl
      · rfl
      · exact fun h => h
      · exact fun h => h
      · refine ⟨source, rfl, ?_⟩
        rw [Association.indexKey_of_endpoint (hw.endpointOk id) he, Option.some_inj] at hk
        exact hk.symm
    · exact keeps_set w _ hne
  · by_cases hne : id = x
    · subst hne
      refine ⟨Iff.rfl, ?_, ?_, ?_, ?_, fun hid => absurd hx hid, fun e he => ?_⟩
        <;> simp only [Heap.set_apply, ↓reduceIte]
      · rfl
      · rfl
      · exact fun h => h
      · exact fun h => h
      · rw [(Association.indexKey_eq_none.mp hk).2] at he
        cases he
    · exact .of_same rfl (by simp only [Heap.set_apply, if_neg hne]; exact .refl _)
  · exact .refl w id

/-! ### All associations -/

/-- The invariant reads the registry and the binding of its associations only. -/
theorem WellFormed.of_same {w w' : World} (hw : w.WellFormed) (hreg : w'.registry = w.registry)
    (hheap : ∀ arc, (w.heap arc).SameKey (w'.heap arc)) : w'.WellFormed where
  arc id arc h := hw.arc id arc (by rwa [← hreg])
  endpoints k id := by
    rw [Registered, hreg, (hheap id).indexKey]
    exact hw.endpoints k id
  pending ip id := by
    rw [Registered, hreg, (hheap id).indexKey, (hheap id).1]
    exact hw.pending ip id
  endpointOk id e he := by
    obtain ⟨hip, hport, hend⟩ := hheap id
    rw [hip, hport]
    exact hw.endpointOk id e (hend.symm.trans he)
  size := by
    rw [hreg]
    exact hw.size

theorem stopEntries_heap (w : World) (arc : Arc) :
    ((State.stopEntries w).heap arc = w.heap arc) ∨
      (State.stopEntries w).heap arc = { w.heap arc with alive := false, stopped := true } := by
  unfold State.stopEntries
  dsimp only
  split
  · exact .inr rfl
  · exact .inl rfl

theorem stopEntries_sameKey (w : World) (arc : Arc) :
    (w.heap arc).SameKey ((State.stopEntries w).heap arc) := by
  rcases stopEntries_heap w arc with h | h <;> rw [h] <;> exact ⟨rfl, rfl, rfl⟩

theorem WellFormed.stopEntries {w : World} (hw : w.WellFormed) : (State.stopEntries w).WellFormed :=
  hw.of_same rfl (stopEntries_sameKey w)

theorem keeps_stopEntries (w : World) (id : ℕ) : w.Keeps (State.stopEntries w) id := by
  rcases stopEntries_heap w id with h | h
  · exact .of_same rfl (h ▸ .refl _)
  · refine ⟨Iff.rfl, ?_, ?_, ?_, ?_, ?_, fun e he => ⟨e, by rw [h]; exact he, rfl⟩⟩ <;> simp [h]

end World

theorem Shared.Framed.wellFormed {s s' : Shared} (h : s.Framed s') (hw : s.world.WellFormed) :
    s'.world.WellFormed :=
  hw.of_same h.registry fun arc => (h.heap arc).key

theorem Shared.Framed.keeps {s s' : Shared} (h : s.Framed s') (id : ℕ) : s.world.Keeps s'.world id :=
  .of_same (by rw [h.registry]) (h.heap id)

/-! ### One step of the server -/

/-- The event of a step is one of the part that moved. -/
def Input.leaves : Input → Event → Prop
  | .handler id _, .handler id' _ => id' = id
  | .loop _, .loop _ => True
  | .task id _, .task id' _ => id' = id
  | .receiver flow _, .receiver flow' _ => flow' = flow
  | .handler _ _, _ | .loop _, _ | .task _ _, _ | .receiver _ _, _ => False
  | _, .handler _ _ | _, .loop _ | _, .task _ _ | _, .receiver _ _ => False
  | _, _ => True

namespace State
variable {config : Config} {s s' : State} {e : Event}

theorem step_handler {id : ℕ} {input : HandlerInput} (h : s.step config (.handler id input) = some (e, s')) :
    ∃ c r, s.handlers.lookup id = some c ∧ c.step id s.shutdown input s.shared.world = some r ∧
      e = .handler id r.event ∧ s' = { s.setWorld r.world with
        handlers := Dict.update s.handlers id (r.program.map (⟨c.peer, ·⟩)) } := by
  simp only [step] at h
  split at h
  · cases h
  · rename_i c hc
    split at h
    · cases h
    · rename_i r hr
      cases h
      exact ⟨c, r, hc, hr, rfl, rfl⟩

theorem step_loop {input : LoopInput} (h : s.step config (.loop input) = some (e, s')) :
    ∃ r, s.loop.Spec config.whitelist s.shared.world r ∧ e = .loop r.event ∧
      s' = { s.setWorld r.world with
        loop := r.pc
        nextTask := if r.task.isSome then s.nextTask + 1 else s.nextTask
        tasks := match r.task with
          | some task => s.tasks.insert s.nextTask task
          | none => s.tasks } := by
  simp only [step] at h
  split at h
  · cases h
  · rename_i r hr
    cases h
    exact ⟨r, LoopPc.step_spec hr, rfl, rfl⟩

theorem step_task {id : ℕ} {input : TaskInput} (h : s.step config (.task id input) = some (e, s')) :
    ∃ t r, s.tasks.lookup id = some t ∧ t.Spec s.shared r ∧ e = .task id r.event ∧
      s' = { s with
        shared := r.shared
        tasks := Dict.update s.tasks id r.task
        receivers := match r.receiver with
          | some (flow, receiver) => s.receivers.insert flow receiver
          | none => s.receivers } := by
  simp only [step] at h
  split at h
  · cases h
  · rename_i t ht
    split at h
    · cases h
    · rename_i r hr
      cases h
      exact ⟨t, r, ht, PacketTask.step_spec hr, rfl, rfl⟩

theorem step_receiver {flow : FlowId} {input : ReceiverInput}
    (h : s.step config (.receiver flow input) = some (e, s')) :
    ∃ r result, s.receivers.lookup flow = some r ∧ Receiver.Spec flow r s.shared result ∧
      e = .receiver flow result.event ∧
      s' = { s with shared := result.shared, receivers := Dict.update s.receivers flow result.receiver } := by
  simp only [step] at h
  split at h
  · cases h
  · rename_i r hr
    split at h
    · cases h
    · rename_i result hresult
      cases h
      exact ⟨r, result, hr, Receiver.step_spec hresult, rfl, rfl⟩

theorem step_leaves {input : Input} (h : s.step config input = some (e, s')) : input.leaves e := by
  cases input with
  | cancel =>
    cases h
    trivial
  | tick nanos =>
    cases h
    trivial
  | accept peer =>
    simp only [step] at h
    split at h
    · cases h
    · split at h
      · cases h
      · cases h
        trivial
      · split at h <;> cases h <;> trivial
  | leaveAccept | stopAssociations | join =>
    simp only [step] at h
    split at h <;> cases h
    trivial
  | handler id input =>
    obtain ⟨c, r, -, -, rfl, -⟩ := step_handler h
    rfl
  | loop input =>
    obtain ⟨r, -, rfl, -⟩ := step_loop h
    trivial
  | task id input =>
    obtain ⟨t, r, -, -, rfl, -⟩ := step_task h
    rfl
  | receiver flow input =>
    obtain ⟨r, result, -, -, rfl, -⟩ := step_receiver h
    rfl

end State

end Brume.Server
