import Brume.Server.Steps

/-!
# The steps of packet tasks and receivers, one by one

Where `PacketTask.Case` and `Receiver.Case` say what a step means for the flow
tables, the relations here keep everything a step reads and writes. Every
property of single tasks, of the life of a flow or of the preferred addresses
goes by cases on them.
-/

namespace Brume.Server
open Lib

/-! ### Packet tasks -/

/-- The flow a task holds a reference to. -/
def TaskPc.flow? : TaskPc → Option FlowId
  | .completing _ flow | .checking _ flow => flow
  | .checkingAlive _ flow | .touching _ flow | .sending _ flow | .sent _ flow | .deactivating _ flow
  | .advancing _ flow | .stopping _ flow | .dropping _ flow => some flow
  | _ => none

namespace PacketTask

/-- A silent step to another place. -/
def goes (t : PacketTask) (pc : TaskPc) (s : Shared) : TaskStep := ⟨.silent, some { t with pc }, none, s⟩

def finishes (s : Shared) : TaskStep := ⟨.finished, none, none, s⟩

/-- The steps of `handle_udp_packet` from each place, with what they find and leave. -/
inductive Moves (id permits : ℕ) (t : PacketTask) (s : Shared) : TaskPc → TaskInput → TaskStep → Prop
  | start (h : (s.association t.association).alive = true) :
      Moves id permits t s .start .go (t.goes .lockingFlows s)
  | dead (h : (s.association t.association).alive = false) : Moves id permits t s .start .go (finishes s)
  | take {slot : SlotId} (h : (s.association t.association).flows.lookup t.target = some slot) :
      Moves id permits t s .lockingFlows .go (t.goes (.awaitingCell slot) s)
  | refused (h : (s.association t.association).flows.lookup t.target = none)
      (hlimit : MAX_FLOWS_PER_ASSOCIATION ≤ Dict.size (s.association t.association).flows ∨ permits = 0) :
      Moves id permits t s .lockingFlows .go (finishes s)
  | create (h : (s.association t.association).flows.lookup t.target = none) :
      Moves id permits t s .lockingFlows .go
        (t.goes (.awaitingCell s.nextSlot) (s.newSlot t.association t.target))
  | see {slot : SlotId} {flow : Option FlowId} (h : s.slots slot = .ready flow) :
      Moves id permits t s (.awaitingCell slot) .go (t.goes (.checking slot flow) s)
  | claim {slot : SlotId} (h : s.slots slot = .empty) :
      Moves id permits t s (.awaitingCell slot) .go (t.goes (.resolving slot) (s.setSlot slot (.initializing id)))
  | unresolved {slot : SlotId} {lookupIp : Except IoError (List IpAddr)} {error : IoError}
      (h : lookup (fun _ => lookupIp) t.target = .error error) :
      Moves id permits t s (.resolving slot) (.lookedUp lookupIp) (t.goes (.completing slot none) s)
  | resolve {slot : SlotId} {lookupIp : Except IoError (List IpAddr)} {addresses : List SocketAddr}
      (h : lookup (fun _ => lookupIp) t.target = .ok addresses) :
      Moves id permits t s (.resolving slot) (.lookedUp lookupIp)
        ⟨.resolved t.association t.target addresses, some { t with pc := .choosing slot addresses }, none, s⟩
  | choose {slot : SlotId} {addresses : List SocketAddr} :
      Moves id permits t s (.choosing slot addresses) .go (t.goes (.binding slot addresses
        (((s.association t.association).preferredAddresses.lookup t.target).getD 0 % addresses.length) 0) s)
  | bind {slot : SlotId} {addresses : List SocketAddr} {start offset : ℕ} (h : offset < addresses.length) :
      Moves id permits t s (.binding slot addresses start offset) (.bound true) (t.goes
        (if 1 < addresses.length then .remembering slot addresses ((start + offset) % addresses.length)
          else .spawning slot addresses ((start + offset) % addresses.length)) s)
  | unbindable {slot : SlotId} {addresses : List SocketAddr} {start offset : ℕ} (h : offset < addresses.length) :
      Moves id permits t s (.binding slot addresses start offset) (.bound false)
        (t.goes (.binding slot addresses start (offset + 1)) s)
  | exhausted {slot : SlotId} {addresses : List SocketAddr} {start offset : ℕ} (h : addresses.length ≤ offset) :
      Moves id permits t s (.binding slot addresses start offset) .go (t.goes (.completing slot none) s)
  | remember {slot : SlotId} {addresses : List SocketAddr} {index : ℕ} {oldest : Target} {s' : Shared}
      (h : s.rememberUdpAddress t.association t.target index oldest = some s') :
      Moves id permits t s (.remembering slot addresses index) (.oldest oldest)
        (t.goes (.spawning slot addresses index) s')
  | spawn {slot : SlotId} {addresses : List SocketAddr} {index : ℕ} {destination : SocketAddr}
      (h : addresses[index]? = some destination) :
      Moves id permits t s (.spawning slot addresses index) .go
        ⟨.spawned s.nextFlow, some { t with pc := .completing slot (some s.nextFlow) },
          some (s.nextFlow, .new t.association slot t.target destination),
          s.newFlow ⟨destination, s.now, true, false, index, addresses.length⟩⟩
  | complete {slot : SlotId} {flow : Option FlowId} :
      Moves id permits t s (.completing slot flow) .go (t.goes (.checking slot flow) (s.setSlot slot (.ready flow)))
  | discard {slot : SlotId} :
      Moves id permits t s (.checking slot none) .go (finishes (s.removeFlowSlot t.association t.target slot))
  | fresh {slot : SlotId} {flow : FlowId} (h : (s.flows flow).active = true) :
      Moves id permits t s (.checking slot (some flow)) .go (t.goes (.checkingAlive slot flow) s)
  | stale {slot : SlotId} {flow : FlowId} (h : (s.flows flow).active = false) :
      Moves id permits t s (.checking slot (some flow)) .go (t.goes (.droppingStale slot) s)
  | giveUp {slot : SlotId} (h : 2 ≤ t.staleRetries) :
      Moves id permits t s (.droppingStale slot) .go (finishes (s.removeFlowSlot t.association t.target slot))
  | retry {slot : SlotId} (h : t.staleRetries < 2) :
      Moves id permits t s (.droppingStale slot) .go
        ⟨.silent, some { t with staleRetries := t.staleRetries + 1, pc := .lockingFlows }, none,
          s.removeFlowSlot t.association t.target slot⟩
  | attempt {slot : SlotId} {flow : FlowId} (h : (s.association t.association).alive = true) :
      Moves id permits t s (.checkingAlive slot flow) .go
        ⟨.silent, some { t with attempts := t.attempts + 1, pc := .touching slot flow }, none, s⟩
  | abandon {slot : SlotId} {flow : FlowId} (h : (s.association t.association).alive = false) :
      Moves id permits t s (.checkingAlive slot flow) .go (finishes s)
  | touch {slot : SlotId} {flow : FlowId} :
      Moves id permits t s (.touching slot flow) .go (t.goes (.sending slot flow) (s.touch flow))
  | send {slot : SlotId} {flow : FlowId} {ok : Bool} :
      Moves id permits t s (.sending slot flow) (.sent ok)
        ⟨.sent flow t.payload ok, some { t with pc := if ok then .sent slot flow else .deactivating slot flow },
          none, s⟩
  | done {slot : SlotId} {flow : FlowId} : Moves id permits t s (.sent slot flow) .go (finishes (s.touch flow))
  | deactivate {slot : SlotId} {flow : FlowId} :
      Moves id permits t s (.deactivating slot flow) .go (t.goes
        (if (s.flows flow).active then .advancing slot flow else .stopping slot flow) (s.deactivate flow))
  | advance {slot : SlotId} {flow : FlowId} {oldest : Target} {s' : Shared}
      (h : s.advanceUdpAddress t.association t.target flow oldest = some s') :
      Moves id permits t s (.advancing slot flow) (.oldest oldest) (t.goes (.stopping slot flow) s')
  | stop {slot : SlotId} {flow : FlowId} :
      Moves id permits t s (.stopping slot flow) .go (t.goes (.dropping slot flow) (s.stopFlow flow))
  | last {slot : SlotId} {flow : FlowId} (h : (s.flows flow).addressCount ≤ t.attempts) :
      Moves id permits t s (.dropping slot flow) .go (finishes (s.removeFlowSlot t.association t.target slot))
  | again {slot : SlotId} {flow : FlowId} (h : t.attempts < (s.flows flow).addressCount) :
      Moves id permits t s (.dropping slot flow) .go
        (t.goes .lockingFlows (s.removeFlowSlot t.association t.target slot))

end PacketTask

theorem Shared.flows_removeFlowSlot (s : Shared) (arc : Arc) (target : Target) (slot : SlotId) :
    (s.removeFlowSlot arc target slot).flows = s.flows := by
  unfold Shared.removeFlowSlot
  dsimp only
  split <;> rfl

theorem Shared.slots_removeFlowSlot (s : Shared) (arc : Arc) (target : Target) (slot : SlotId) :
    (s.removeFlowSlot arc target slot).slots = s.slots := by
  unfold Shared.removeFlowSlot
  dsimp only
  split <;> rfl

theorem Shared.nextFlow_removeFlowSlot (s : Shared) (arc : Arc) (target : Target) (slot : SlotId) :
    (s.removeFlowSlot arc target slot).nextFlow = s.nextFlow := by
  unfold Shared.removeFlowSlot
  dsimp only
  split <;> rfl

theorem Shared.nextSlot_removeFlowSlot (s : Shared) (arc : Arc) (target : Target) (slot : SlotId) :
    (s.removeFlowSlot arc target slot).nextSlot = s.nextSlot := by
  unfold Shared.removeFlowSlot
  dsimp only
  split <;> rfl

theorem PacketTask.step_moves {id permits : ℕ} {t : PacketTask} {input : TaskInput} {s : Shared} {r : TaskStep}
    (h : t.step id permits input s = some r) : t.Moves id permits s t.pc input r := by
  unfold PacketTask.step at h
  dsimp only at h
  split at h
  case h_1 hpc =>
    rw [hpc]
    split at h <;> cases h
    · exact .start ‹_›
    · exact .dead (Bool.eq_false_of_not_eq_true ‹_›)
  case h_2 hpc =>
    rw [hpc]
    split at h
    · rename_i slot hslot
      cases h
      exact .take hslot
    · rename_i hnone
      split at h
      · rename_i hsize
        cases h
        exact .refused hnone (.inl hsize)
      · split at h <;> cases h
        · exact .refused hnone (.inr ‹_›)
        · exact .create hnone
  case h_3 slot hpc =>
    rw [hpc]
    split at h
    · rename_i flow hc
      cases h
      exact .see hc
    · rename_i hc
      cases h
      exact .claim hc
    · cases h
  case h_4 hpc =>
    rw [hpc]
    split at h <;> cases h
    · exact .unresolved ‹_›
    · exact .resolve ‹_›
  case h_5 hpc =>
    rw [hpc]
    cases h
    exact .choose
  case h_6 slot addresses start offset ok hpc =>
    rw [hpc]
    split at h
    · rename_i hlt
      cases ok with
      | true =>
        simp only [if_true] at h
        have hmove := @Moves.bind id permits t s slot addresses start offset hlt
        split at h <;> cases h <;> rename_i hmany
        · rwa [if_pos hmany] at hmove
        · rwa [if_neg hmany] at hmove
      | false =>
        cases h
        exact .unbindable hlt
    · cases h
  case h_7 hpc =>
    rw [hpc]
    split at h <;> cases h
    exact .exhausted (not_lt.mp ‹_›)
  case h_8 hpc =>
    rw [hpc]
    split at h
    · cases h
    · rename_i s' hs'
      cases h
      exact .remember hs'
  case h_9 hpc =>
    rw [hpc]
    split at h <;> cases h
    exact .spawn ‹_›
  case h_10 hpc =>
    rw [hpc]
    cases h
    exact .complete
  case h_11 hpc =>
    rw [hpc]
    cases h
    exact .discard
  case h_12 hpc =>
    rw [hpc]
    split at h <;> cases h
    · exact .fresh ‹_›
    · exact .stale (Bool.eq_false_of_not_eq_true ‹_›)
  case h_13 hpc =>
    rw [hpc]
    split at h <;> cases h <;> rename_i hretries
    · exact .giveUp (by omega)
    · exact .retry (by omega)
  case h_14 hpc =>
    rw [hpc]
    split at h <;> cases h
    · exact .attempt ‹_›
    · exact .abandon (Bool.eq_false_of_not_eq_true ‹_›)
  case h_15 hpc =>
    rw [hpc]
    cases h
    exact .touch
  case h_16 hpc =>
    rw [hpc]
    cases h
    exact .send
  case h_17 hpc =>
    rw [hpc]
    cases h
    exact .done
  case h_18 hpc =>
    rw [hpc]
    cases h
    exact .deactivate
  case h_19 hpc =>
    rw [hpc]
    split at h
    · cases h
    · rename_i s' hs'
      cases h
      exact .advance hs'
  case h_20 hpc =>
    rw [hpc]
    cases h
    exact .stop
  case h_21 hpc =>
    rw [hpc]
    rw [Shared.flows_removeFlowSlot] at h
    split at h <;> cases h
    · exact .last ‹_›
    · exact .again (not_le.mp ‹_›)
  case h_22 => cases h

/-! ### What a step of a task leaves alone -/

namespace Shared

theorem association_removeFlowSlot (s : Shared) {arc arc' : Arc} (target : Target) (slot : SlotId) (h : arc' ≠ arc) :
    (s.removeFlowSlot arc target slot).association arc' = s.association arc' := by
  unfold removeFlowSlot
  dsimp only
  split
  · exact (Heap.set_apply s.world.heap arc arc' _).trans (if_neg h)
  · rfl

theorem rememberUdpAddress_eq {s s' : Shared} {arc : Arc} {target oldest : Target} {index : ℕ}
    (h : s.rememberUdpAddress arc target index oldest = some s') :
    ∃ preferredAddresses, s' = s.setAssociation arc { s.association arc with preferredAddresses } := by
  unfold rememberUdpAddress at h
  dsimp only at h
  split at h
  · split at h <;> cases h
    exact ⟨_, rfl⟩
  · cases h
    exact ⟨_, rfl⟩

theorem advanceUdpAddress_eq {s s' : Shared} {arc : Arc} {target oldest : Target} {flow : FlowId}
    (h : s.advanceUdpAddress arc target flow oldest = some s') :
    ∃ preferredAddresses, s' = s.setAssociation arc { s.association arc with preferredAddresses } := by
  unfold advanceUdpAddress at h
  dsimp only at h
  split at h
  · exact rememberUdpAddress_eq h
  · cases h
    refine ⟨(s.association arc).preferredAddresses, ?_⟩
    unfold setAssociation association Heap.set
    rw [Function.update_eq_self]

end Shared

namespace PacketTask.Moves
variable {id permits : ℕ} {t : PacketTask} {s : Shared} {pc : TaskPc} {input : TaskInput} {r : TaskStep}

/-- A task changes its own association only. -/
theorem association (h : t.Moves id permits s pc input r) {arc : Arc} (harc : arc ≠ t.association) :
    r.shared.association arc = s.association arc := by
  have hset : ∀ (s : Shared) a, (s.setAssociation t.association a).association arc = s.association arc :=
    fun s a => (Heap.set_apply s.world.heap t.association arc a).trans (if_neg harc)
  cases h with
  | create => exact hset (s.setSlot s.nextSlot .empty) _
  | remember h =>
    obtain ⟨_, rfl⟩ := Shared.rememberUdpAddress_eq h
    exact hset s _
  | advance h =>
    obtain ⟨_, rfl⟩ := Shared.advanceUdpAddress_eq h
    exact hset s _
  | discard | giveUp | retry | last | again => exact s.association_removeFlowSlot _ _ harc
  | _ => rfl

/-- A task fills the slot it has claimed only. -/
theorem slots (h : t.Moves id permits s pc input r) {slot : SlotId} (hslot : pc.slot? ≠ some slot)
    (hlt : slot < s.nextSlot) : r.shared.slots slot = s.slots slot := by
  cases h with
  | create => exact Function.update_of_ne hlt.ne _ _
  | claim | complete =>
    exact Function.update_of_ne (fun heq => hslot (congrArg some heq.symm)) _ _
  | remember h =>
    obtain ⟨_, rfl⟩ := Shared.rememberUdpAddress_eq h
    rfl
  | advance h =>
    obtain ⟨_, rfl⟩ := Shared.advanceUdpAddress_eq h
    rfl
  | discard | giveUp | retry | last | again => exact congrFun (s.slots_removeFlowSlot _ _ _) slot
  | _ => rfl

/-- A task changes the flow it holds only. -/
theorem flows (h : t.Moves id permits s pc input r) {flow : FlowId} (hflow : pc.flow? ≠ some flow)
    (hlt : flow < s.nextFlow) : r.shared.flows flow = s.flows flow := by
  cases h with
  | spawn => exact Function.update_of_ne hlt.ne _ _
  | touch | done | deactivate | stop =>
    exact Function.update_of_ne (fun heq => hflow (congrArg some heq.symm)) _ _
  | remember h =>
    obtain ⟨_, rfl⟩ := Shared.rememberUdpAddress_eq h
    rfl
  | advance h =>
    obtain ⟨_, rfl⟩ := Shared.advanceUdpAddress_eq h
    rfl
  | discard | giveUp | retry | last | again => exact congrFun (s.flows_removeFlowSlot _ _ _) flow
  | _ => rfl

/-- A task stays with its packet. -/
theorem packet (h : t.Moves id permits s pc input r) {t' : PacketTask} (ht' : r.task = some t') :
    t'.association = t.association ∧ t'.target = t.target ∧ t'.payload = t.payload := by
  cases h <;> cases ht' <;> exact ⟨rfl, rfl, rfl⟩

/-- A task gets its flow from the cell, or makes it. -/
theorem flow? (h : t.Moves id permits s pc input r) {t' : PacketTask} (ht' : r.task = some t') {flow : FlowId}
    (hflow : t'.pc.flow? = some flow) :
    pc.flow? = some flow ∨ (∃ slot, pc = .awaitingCell slot ∧ s.slots slot = .ready (some flow)) ∨
      (flow = s.nextFlow ∧ r.shared.nextFlow = s.nextFlow + 1) := by
  cases h with
  | see h =>
    cases ht'
    cases hflow
    exact .inr (.inl ⟨_, rfl, h⟩)
  | spawn =>
    cases ht'
    cases hflow
    exact .inr (.inr ⟨rfl, rfl⟩)
  | complete | fresh | attempt | touch | advance | stop =>
    cases ht'
    exact .inl hflow
  | bind =>
    cases ht'
    dsimp only at hflow
    split at hflow <;> cases hflow
  | send | deactivate =>
    cases ht'
    dsimp only at hflow
    split at hflow <;> exact .inl hflow
  | dead | refused | discard | giveUp | abandon | done | last => cases ht'
  | _ =>
    cases ht'
    cases hflow

/-- A new flow is made by a task that spawns its receiver. -/
theorem flow_lt (h : t.Moves id permits s pc input r) {flow : FlowId} (hlt : flow < r.shared.nextFlow) :
    flow < s.nextFlow ∨ flow = s.nextFlow ∧ ∃ slot addresses index, pc = .spawning slot addresses index := by
  cases h with
  | @spawn slot addresses index =>
    rcases Nat.lt_succ_iff_lt_or_eq.mp hlt with hlt | heq
    · exact .inl hlt
    · exact .inr ⟨heq, slot, addresses, index, rfl⟩
  | remember h =>
    obtain ⟨_, rfl⟩ := Shared.rememberUdpAddress_eq h
    exact .inl hlt
  | advance h =>
    obtain ⟨_, rfl⟩ := Shared.advanceUdpAddress_eq h
    exact .inl hlt
  | discard | giveUp | retry | last | again => exact .inl (hlt.trans_eq (s.nextFlow_removeFlowSlot _ _ _))
  | _ => exact .inl hlt

theorem nextFlow (h : t.Moves id permits s pc input r) : s.nextFlow ≤ r.shared.nextFlow := by
  cases h with
  | spawn => exact Nat.le_succ _
  | remember h =>
    obtain ⟨_, rfl⟩ := Shared.rememberUdpAddress_eq h
    exact le_refl _
  | advance h =>
    obtain ⟨_, rfl⟩ := Shared.advanceUdpAddress_eq h
    exact le_refl _
  | discard | giveUp | retry | last | again => exact (s.nextFlow_removeFlowSlot _ _ _).ge
  | _ => exact le_refl _

/-- A cell is filled by the task that completes it. -/
theorem cell (h : t.Moves id permits s pc input r) {slot : SlotId} {flow : FlowId}
    (hc : r.shared.slots slot = .ready (some flow)) :
    s.slots slot = .ready (some flow) ∨ pc = .completing slot (some flow) := by
  have hset : ∀ slot' c, (s.setSlot slot' c).slots slot = .ready (some flow) →
      s.slots slot = .ready (some flow) ∨ slot = slot' ∧ c = .ready (some flow) := by
    intro slot' c hc
    simp only [Shared.setSlot, Function.update_apply] at hc
    split at hc
    · exact .inr ⟨‹_›, hc⟩
    · exact .inl hc
  cases h with
  | create =>
    rcases hset _ .empty hc with hc | ⟨-, hc⟩
    · exact .inl hc
    · cases hc
  | claim =>
    rcases hset _ (.initializing id) hc with hc | ⟨-, hc⟩
    · exact .inl hc
    · cases hc
  | @complete slot' flow' =>
    rcases hset slot' (.ready flow') hc with hold | ⟨rfl, hready⟩
    · exact .inl hold
    · cases hready
      exact .inr rfl
  | remember h =>
    obtain ⟨_, rfl⟩ := Shared.rememberUdpAddress_eq h
    exact .inl hc
  | advance h =>
    obtain ⟨_, rfl⟩ := Shared.advanceUdpAddress_eq h
    exact .inl hc
  | discard | giveUp | retry | last | again =>
    exact .inl ((congrFun (s.slots_removeFlowSlot _ _ _) slot).symm.trans hc)
  | _ => exact .inl hc

/-- A new slot is empty. -/
theorem slot_lt (h : t.Moves id permits s pc input r) {slot : SlotId} (hlt : slot < r.shared.nextSlot) :
    slot < s.nextSlot ∨ r.shared.slots slot = .empty := by
  cases h with
  | create =>
    rcases Nat.lt_succ_iff_lt_or_eq.mp hlt with hlt | rfl
    · exact .inl hlt
    · exact .inr (Function.update_self _ _ _)
  | remember h =>
    obtain ⟨_, rfl⟩ := Shared.rememberUdpAddress_eq h
    exact .inl hlt
  | advance h =>
    obtain ⟨_, rfl⟩ := Shared.advanceUdpAddress_eq h
    exact .inl hlt
  | discard | giveUp | retry | last | again => exact .inl (hlt.trans_eq (s.nextSlot_removeFlowSlot _ _ _))
  | _ => exact .inl hlt

end PacketTask.Moves

/-! ### Receivers -/

/-- The exits of the loop of `receive_remote`: `dead` is a break on `alive`, at the
head of the loop or behind a datagram. -/
inductive Exit where
  | dead
  | expired
  | associationStopped
  | flowStopped
  | receiveError
  deriving DecidableEq

/-- What an exit leaves in `failed`, given `received_reply`. -/
def Exit.failed (receivedReply : Bool) : Exit → Bool
  | .expired => !receivedReply
  | .receiveError => true
  | .dead | .associationStopped | .flowStopped => false

namespace Receiver

/-- The exit that this step takes. -/
def exit? (flow : FlowId) (r : Receiver) (input : ReceiverInput) (s : Shared) : Option Exit :=
  match r.pc, input with
  | .loopHead, _ | .received _, _ => if (s.association r.association).alive then none else some .dead
  | .checkingDeadline deadline, _ => if deadline ≤ s.now then some .expired else none
  | .selecting _, .associationStopped =>
    if (s.association r.association).stopped then some .associationStopped else none
  | .selecting _, .flowStopped => if (s.flows flow).stopped then some .flowStopped else none
  | .selecting _, .receiveError => some .receiveError
  | _, _ => none

/-- What the source reads before it leaves the loop, for the exits that nobody else decides. -/
theorem exit?_cause {flow : FlowId} {r : Receiver} {input : ReceiverInput} {s : Shared} {exit : Exit}
    (h : r.exit? flow input s = some exit) :
    exit = .expired ∨ exit = .receiveError ∨ (s.association r.association).alive = false ∨
      (s.association r.association).stopped = true ∨ (s.flows flow).stopped = true := by
  unfold exit? at h
  split at h
  · split at h <;> cases h
    exact .inr (.inr (.inl (Bool.eq_false_of_not_eq_true ‹_›)))
  · split at h <;> cases h
    exact .inr (.inr (.inl (Bool.eq_false_of_not_eq_true ‹_›)))
  · split at h <;> cases h
    exact .inl rfl
  · split at h <;> cases h
    exact .inr (.inr (.inr (.inl ‹_›)))
  · split at h <;> cases h
    exact .inr (.inr (.inr (.inr ‹_›)))
  · cases h
    exact .inr (.inl rfl)
  · cases h

/-- The step takes a datagram off the socket. -/
def hears (r : Receiver) (input : ReceiverInput) : Bool :=
  match r.pc, input with
  | .selecting _, .datagram _ _ => true
  | _, _ => false

/-- Some datagram has come, whether `received_reply` is set for it or not yet. -/
def heard (r : Receiver) : Bool :=
  r.receivedReply || match r.pc with
    | .received _ => true
    | _ => false

/-- A step that stays in the loop. -/
structure Stays (flow : FlowId) (r r' : Receiver) (input : ReceiverInput) (s s' : Shared) : Prop where
  source : r.pc.looping = true
  next : r'.pc.looping = true
  association : r'.association = r.association
  slot : r'.slot = r.slot
  target : r'.target = r.target
  failed : r'.failed = r.failed
  heard : r'.heard = (r.heard || r.hears input)
  shared : s' = s ∨ s' = s.touch flow

/-- The steps of `receive_remote`, with the exit that those out of the loop take. -/
inductive Moves (flow : FlowId) (r : Receiver) (s : Shared) : ReceiverInput → ReceiverStep → Prop
  | stay {input : ReceiverInput} {event : ReceiverEvent} {r' : Receiver} {s' : Shared}
      (hexit : r.exit? flow input s = none) (h : r.Stays flow r' input s s') :
      Moves flow r s input ⟨event, some r', s'⟩
  | leave {input : ReceiverInput} {exit : Exit} {failed : Bool} (hpc : r.pc.looping = true)
      (hexit : r.exit? flow input s = some exit) (hhears : r.hears input = false)
      (hfailed : r.failed = false → failed = exit.failed r.heard) :
      Moves flow r s input ⟨.silent, some { r with failed, pc := .closing }, s⟩
  | close (hpc : r.pc = .closing) :
      Moves flow r s .go
        ⟨.silent, some { r with pc := if (s.flows flow).active && r.failed then .advancing else .dropping },
          s.deactivate flow⟩
  | advance {oldest : Target} {s' : Shared} (hpc : r.pc = .advancing)
      (h : s.advanceUdpAddress r.association r.target flow oldest = some s') :
      Moves flow r s (.oldest oldest) ⟨.silent, some { r with pc := .dropping }, s'⟩
  | drop (hpc : r.pc = .dropping) :
      Moves flow r s .go ⟨.finished, none, s.removeFlowSlot r.association r.target r.slot⟩

theorem step_moves {timeout : Duration} {flow : FlowId} {r : Receiver} {input : ReceiverInput} {s : Shared}
    {step : ReceiverStep} (h : r.step timeout flow input s = some step) : r.Moves flow s input step := by
  have stay : ∀ {event : ReceiverEvent} (r' : Receiver) {s' : Shared}, r.pc.looping = true → r'.pc.looping = true →
      { r' with buffer := r.buffer, receivedReply := r.receivedReply, pc := r.pc } = r →
      r.exit? flow input s = none → r'.heard = (r.heard || r.hears input) → s' = s ∨ s' = s.touch flow →
      r.Moves flow s input ⟨event, some r', s'⟩ := by
    intro event r' s' hsource hnext hsame hexit hheard hs
    refine .stay hexit ⟨hsource, hnext, ?_, ?_, ?_, ?_, hheard, hs⟩ <;> rw [← hsame]
  have leave : ∀ (exit : Exit) {failed : Bool}, r.pc.looping = true → r.exit? flow input s = some exit →
      r.hears input = false → (r.failed = false → failed = exit.failed r.heard) →
      r.Moves flow s input ⟨.silent, some { r with failed, pc := .closing }, s⟩ :=
    fun _ _ hsource hexit hhears hfailed => .leave hsource hexit hhears hfailed
  unfold Receiver.step at h
  dsimp only at h
  split at h
  case h_1 hpc =>
    cases h
    by_cases halive : (s.association r.association).alive = true
    · rw [if_pos halive]
      exact stay _ (by rw [hpc]; rfl) rfl rfl (by simp [exit?, hpc, halive]) (by simp [heard, hears, hpc]) (.inl rfl)
    · rw [if_neg halive]
      exact leave .dead (by rw [hpc]; rfl) (by simp [exit?, hpc, halive]) (by simp [hears, hpc]) (fun h => h)
  case h_2 hpc =>
    split at h <;> cases h
    · exact stay _ (by rw [hpc]; rfl) rfl rfl (by simp [exit?, hpc]) (by simp [heard, hears, hpc]) (.inl rfl)
    · exact stay _ (by rw [hpc]; rfl) rfl rfl (by simp [exit?, hpc]) (by simp [heard, hears, hpc]) (.inl rfl)
  case h_3 deadline hpc =>
    split at h <;> cases h <;> rename_i hdue
    · exact leave .expired (by rw [hpc]; rfl) (by simp [exit?, hpc, hdue]) (by simp [hears, hpc])
        (fun _ => by simp [Exit.failed, heard, hpc])
    · exact stay _ (by rw [hpc]; rfl) rfl rfl (by simp [exit?, hpc, not_le.mp hdue]) (by simp [heard, hears, hpc])
        (.inl rfl)
  case h_4 hpc =>
    split at h <;> cases h
    rename_i hstopped
    exact leave .associationStopped (by rw [hpc]; rfl) (by simp [exit?, hpc, hstopped]) (by simp [hears, hpc])
      (fun h => h)
  case h_5 hpc =>
    split at h <;> cases h
    rename_i hstopped
    exact leave .flowStopped (by rw [hpc]; rfl) (by simp [exit?, hpc, hstopped]) (by simp [hears, hpc]) (fun h => h)
  case h_6 hpc =>
    split at h <;> cases h
    exact stay _ (by rw [hpc]; rfl) rfl rfl (by simp [exit?, hpc]) (by simp [heard, hears, hpc]) (.inl rfl)
  case h_7 sender payload hpc =>
    split at h
    · split at h
      · cases h
      · cases h
        exact stay _ (by rw [hpc]; rfl) rfl rfl (by simp [exit?, hpc]) (by simp [heard, hears, hpc]) (.inl rfl)
    · cases h
  case h_8 hpc =>
    cases h
    exact leave .receiveError (by rw [hpc]; rfl) (by simp [exit?, hpc]) (by simp [hears, hpc]) (fun _ => rfl)
  case h_9 length hpc =>
    split at h <;> cases h <;> rename_i halive
    · exact stay _ (by rw [hpc]; rfl) rfl rfl (by simp [exit?, hpc, halive]) (by simp [heard, hears, hpc]) (.inl rfl)
    · exact leave .dead (by rw [hpc]; rfl) (by simp [exit?, hpc, halive]) (by simp [hears, hpc]) (fun h => h)
  case h_10 hpc =>
    cases h
    exact stay _ (by rw [hpc]; rfl) rfl rfl (by simp [exit?, hpc]) (by simp [heard, hears, hpc]) (.inr rfl)
  case h_11 hpc =>
    split at h <;> cases h
    · exact stay _ (by rw [hpc]; rfl) rfl rfl (by simp [exit?, hpc]) (by simp [heard, hears, hpc]) (.inl rfl)
    · exact stay _ (by rw [hpc]; rfl) rfl rfl (by simp [exit?, hpc]) (by simp [heard, hears, hpc]) (.inl rfl)
  case h_12 hpc =>
    split at h
    · cases h
    · cases h
      exact stay _ (by rw [hpc]; rfl) rfl rfl (by simp [exit?, hpc]) (by simp [heard, hears, hpc]) (.inl rfl)
  case h_13 hpc =>
    cases h
    exact .close hpc
  case h_14 hpc =>
    split at h
    · cases h
    · rename_i s' hs'
      cases h
      exact .advance hpc hs'
  case h_15 hpc =>
    cases h
    exact .drop hpc
  case h_16 => cases h

namespace Moves
variable {flow : FlowId} {r : Receiver} {s : Shared} {input : ReceiverInput}
  {result : ReceiverStep}

theorem association (h : r.Moves flow s input result) {arc : Arc} (harc : arc ≠ r.association) :
    result.shared.association arc = s.association arc := by
  cases h with
  | stay _ h => rcases h.shared with rfl | rfl <;> rfl
  | leave | close => rfl
  | advance _ h =>
    obtain ⟨_, rfl⟩ := Shared.advanceUdpAddress_eq h
    exact (Heap.set_apply s.world.heap r.association arc _).trans (if_neg harc)
  | drop => exact s.association_removeFlowSlot _ _ harc

theorem slots (h : r.Moves flow s input result) : result.shared.slots = s.slots := by
  cases h with
  | stay _ h => rcases h.shared with rfl | rfl <;> rfl
  | leave | close => rfl
  | advance _ h =>
    obtain ⟨_, rfl⟩ := Shared.advanceUdpAddress_eq h
    rfl
  | drop => exact s.slots_removeFlowSlot _ _ _

/-- A receiver changes its own flow only. -/
theorem flows (h : r.Moves flow s input result) {flow' : FlowId} (hflow : flow' ≠ flow) :
    result.shared.flows flow' = s.flows flow' := by
  cases h with
  | stay _ h =>
    rcases h.shared with rfl | rfl
    · rfl
    · exact Function.update_of_ne hflow _ _
  | leave => rfl
  | close => exact Function.update_of_ne hflow _ _
  | advance _ h =>
    obtain ⟨_, rfl⟩ := Shared.advanceUdpAddress_eq h
    rfl
  | drop => exact congrFun (s.flows_removeFlowSlot _ _ _) flow'

theorem nextFlow (h : r.Moves flow s input result) : result.shared.nextFlow = s.nextFlow := by
  cases h with
  | stay _ h => rcases h.shared with rfl | rfl <;> rfl
  | leave | close => rfl
  | advance _ h =>
    obtain ⟨_, rfl⟩ := Shared.advanceUdpAddress_eq h
    rfl
  | drop => exact s.nextFlow_removeFlowSlot _ _ _

theorem nextSlot (h : r.Moves flow s input result) : result.shared.nextSlot = s.nextSlot := by
  cases h with
  | stay _ h => rcases h.shared with rfl | rfl <;> rfl
  | leave | close => rfl
  | advance _ h =>
    obtain ⟨_, rfl⟩ := Shared.advanceUdpAddress_eq h
    rfl
  | drop => exact s.nextSlot_removeFlowSlot _ _ _

theorem packet (h : r.Moves flow s input result) {r' : Receiver} (hr' : result.receiver = some r') :
    r'.association = r.association ∧ r'.target = r.target ∧ r'.slot = r.slot := by
  cases h with
  | stay _ h =>
    cases hr'
    exact ⟨h.association, h.target, h.slot⟩
  | drop => cases hr'
  | _ =>
    cases hr'
    exact ⟨rfl, rfl, rfl⟩

end Moves

end Receiver

/-! ### Addresses of flows -/

/-- The socket of a flow and its place among the addresses do not change. -/
def Flow.SameAddress (f f' : Flow) : Prop :=
  f'.socket = f.socket ∧ f'.addressIndex = f.addressIndex ∧ f'.addressCount = f.addressCount

namespace Flow.SameAddress
variable {s s' : Shared}

theorem of_flows (h : s'.flows = s.flows) (flow : FlowId) : (s.flows flow).SameAddress (s'.flows flow) := by
  rw [h]
  exact ⟨rfl, rfl, rfl⟩

theorem setFlow (s : Shared) (flow : FlowId) (f : Flow) (h : (s.flows flow).SameAddress f) (flow' : FlowId) :
    (s.flows flow').SameAddress ((s.setFlow flow f).flows flow') := by
  simp only [Shared.setFlow, Function.update_apply]
  split
  · rename_i heq
    rwa [heq]
  · exact ⟨rfl, rfl, rfl⟩

theorem touch (s : Shared) (flow flow' : FlowId) : (s.flows flow').SameAddress ((s.touch flow).flows flow') :=
  setFlow s flow { s.flows flow with lastActivity := s.now } ⟨rfl, rfl, rfl⟩ flow'

theorem deactivate (s : Shared) (flow flow' : FlowId) :
    (s.flows flow').SameAddress ((s.deactivate flow).flows flow') :=
  setFlow s flow { s.flows flow with active := false } ⟨rfl, rfl, rfl⟩ flow'

theorem stopFlow (s : Shared) (flow flow' : FlowId) : (s.flows flow').SameAddress ((s.stopFlow flow).flows flow') :=
  setFlow s flow { s.flows flow with stopped := true } ⟨rfl, rfl, rfl⟩ flow'

theorem rememberUdpAddress {arc : Arc} {target oldest : Target} {index : ℕ}
    (h : s.rememberUdpAddress arc target index oldest = some s') (flow : FlowId) :
    (s.flows flow).SameAddress (s'.flows flow) := by
  obtain ⟨_, rfl⟩ := Shared.rememberUdpAddress_eq h
  exact ⟨rfl, rfl, rfl⟩

theorem advanceUdpAddress {arc : Arc} {target oldest : Target} {flow : FlowId}
    (h : s.advanceUdpAddress arc target flow oldest = some s') (flow' : FlowId) :
    (s.flows flow').SameAddress (s'.flows flow') := by
  obtain ⟨_, rfl⟩ := Shared.advanceUdpAddress_eq h
  exact ⟨rfl, rfl, rfl⟩

end Flow.SameAddress

theorem PacketTask.Moves.sameAddress {id permits : ℕ} {t : PacketTask} {s : Shared} {pc : TaskPc} {input : TaskInput}
    {r : TaskStep} (h : t.Moves id permits s pc input r) {flow : FlowId} (hlt : flow < s.nextFlow) :
    (s.flows flow).SameAddress (r.shared.flows flow) := by
  cases h with
  | spawn =>
    have hkept : ∀ f, (s.newFlow f).flows flow = s.flows flow := fun f => Function.update_of_ne hlt.ne _ _
    dsimp only
    rw [hkept]
    exact ⟨rfl, rfl, rfl⟩
  | touch | done => exact .touch s _ flow
  | deactivate => exact .deactivate s _ flow
  | stop => exact .stopFlow s _ flow
  | remember h => exact .rememberUdpAddress h flow
  | advance h => exact .advanceUdpAddress h flow
  | discard | giveUp | retry | last | again => exact .of_flows (s.flows_removeFlowSlot _ _ _) flow
  | _ => exact ⟨rfl, rfl, rfl⟩

theorem Receiver.Moves.sameAddress {flow : FlowId} {r : Receiver} {s : Shared}
    {input : ReceiverInput} {result : ReceiverStep} (h : r.Moves flow s input result) (flow' : FlowId) :
    (s.flows flow').SameAddress (result.shared.flows flow') := by
  cases h with
  | stay _ h =>
    rcases h.shared with rfl | rfl
    · exact ⟨rfl, rfl, rfl⟩
    · exact .touch s flow flow'
  | leave => exact ⟨rfl, rfl, rfl⟩
  | close => exact .deactivate s flow flow'
  | advance _ h => exact .advanceUdpAddress h flow'
  | drop => exact .of_flows (s.flows_removeFlowSlot _ _ _) flow'

/-! ### Preferred addresses -/

/-- An index can be remembered without a loss: `remember_udp_address` removes no other target. -/
def Shared.Room (s : Shared) (arc : Arc) (target : Target) : Prop :=
  target ∈ (s.association arc).preferredAddresses ∨
    Dict.size (s.association arc).preferredAddresses < MAX_FLOWS_PER_ASSOCIATION

instance (s : Shared) (arc : Arc) (target : Target) : Decidable (s.Room arc target) :=
  inferInstanceAs (Decidable (_ ∨ _))

/-- The index that is preferred for a target. -/
def Shared.preferred (s : Shared) (k : Arc × Target) : Option ℕ :=
  (s.association k.1).preferredAddresses.lookup k.2

/-- The index that `advance_udp_address` remembers, if any. -/
def Flow.advanced? (f : Flow) : Option ℕ :=
  if 1 < f.addressCount then some ((f.addressIndex + 1) % f.addressCount) else none

namespace Shared
variable {s s' : Shared} {arc : Arc} {target oldest : Target} {k : Arc × Target}

theorem preferred_setAssociation (a : Association) :
    (s.setAssociation arc a).preferred k =
      if k.1 = arc then a.preferredAddresses.lookup k.2 else s.preferred k := by
  have heq : (s.setAssociation arc a).association k.1 = if k.1 = arc then a else s.association k.1 :=
    Heap.set_apply s.world.heap arc k.1 a
  unfold preferred
  rw [heq]
  split <;> rfl

theorem preferred_removeFlowSlot (slot : SlotId) : (s.removeFlowSlot arc target slot).preferred k = s.preferred k := by
  unfold removeFlowSlot
  dsimp only
  split
  · rw [preferred_setAssociation]
    split
    · rename_i harc
      rw [preferred, harc]
    · rfl
  · rfl

theorem preferred_newSlot : (s.newSlot arc target).preferred k = s.preferred k := by
  have heq := @preferred_setAssociation (s.setSlot s.nextSlot .empty) arc k
    { s.association arc with flows := (s.association arc).flows.insert target s.nextSlot }
  refine Eq.trans heq ?_
  split
  · rename_i harc
    rw [preferred, harc]
  · rfl

theorem preferred_rememberUdpAddress {index : ℕ} (hroom : arc = k.1 → s.Room arc target)
    (h : s.rememberUdpAddress arc target index oldest = some s') :
    s'.preferred k = if (arc, target) = k then some index else s.preferred k := by
  unfold rememberUdpAddress at h
  dsimp only at h
  by_cases harc : k.1 = arc
  · have hroom := hroom harc.symm
    have hfits : ¬(MAX_FLOWS_PER_ASSOCIATION ≤ Dict.size (s.association arc).preferredAddresses ∧
        target ∉ (s.association arc).preferredAddresses) := by
      rintro ⟨hfull, hnew⟩
      rcases hroom with hold | hsize
      · exact hnew hold
      · omega
    rw [if_neg hfits] at h
    cases h
    rw [preferred_setAssociation, if_pos harc, Dict.lookup_insert_eq, preferred, harc]
    obtain ⟨arc', target'⟩ := k
    cases harc
    simp only [Prod.mk.injEq, true_and, eq_comm]
  · have hne : (arc, target) ≠ k := fun heq => harc (congrArg Prod.fst heq).symm
    rw [if_neg hne]
    split at h
    · split at h <;> cases h
      rw [preferred_setAssociation, if_neg harc]
    · cases h
      rw [preferred_setAssociation, if_neg harc]

theorem preferred_advanceUdpAddress {flow : FlowId} (hroom : arc = k.1 → s.Room arc target)
    (h : s.advanceUdpAddress arc target flow oldest = some s') :
    s'.preferred k = if (arc, target) = k then (s.flows flow).advanced?.or (s.preferred k) else s.preferred k := by
  unfold advanceUdpAddress at h
  dsimp only at h
  unfold Flow.advanced?
  split at h
  · rename_i hmany
    rw [preferred_rememberUdpAddress hroom h, if_pos hmany]
    rfl
  · rename_i hmany
    cases h
    rw [if_neg hmany]
    split <;> rfl

end Shared

/-- The index that the next step of a task remembers. -/
def TaskPc.remembers? (s : Shared) : TaskPc → Option ℕ
  | .remembering _ _ index => some index
  | .advancing _ flow => (s.flows flow).advanced?
  | _ => none

/-- The task is about to write to the preferred addresses. -/
def TaskPc.writes : TaskPc → Bool
  | .remembering _ _ _ | .advancing _ _ => true
  | _ => false

theorem PacketTask.Moves.preferred {id permits : ℕ} {t : PacketTask} {s : Shared} {pc : TaskPc} {input : TaskInput}
    {r : TaskStep} (h : t.Moves id permits s pc input r) {k : Arc × Target}
    (hroom : pc.writes = true → t.association = k.1 → s.Room t.association t.target) :
    r.shared.preferred k =
      if (t.association, t.target) = k then (pc.remembers? s).or (s.preferred k) else s.preferred k := by
  cases h with
  | remember h => exact Shared.preferred_rememberUdpAddress (hroom rfl) h
  | advance h => exact Shared.preferred_advanceUdpAddress (hroom rfl) h
  | create => exact (Shared.preferred_newSlot).trans (ite_self _).symm
  | discard | giveUp | retry | last | again => exact (Shared.preferred_removeFlowSlot _).trans (ite_self _).symm
  | _ => exact (ite_self _).symm

theorem Receiver.Moves.preferred {flow : FlowId} {r : Receiver} {s : Shared}
    {input : ReceiverInput} {result : ReceiverStep} (h : r.Moves flow s input result) {k : Arc × Target}
    (hroom : r.pc = .advancing → r.association = k.1 → s.Room r.association r.target) :
    result.shared.preferred k =
      if (r.association, r.target) = k ∧ r.pc = .advancing then (s.flows flow).advanced?.or (s.preferred k)
      else s.preferred k := by
  have hsame : r.pc ≠ .advancing → result.shared.preferred k = s.preferred k →
      result.shared.preferred k =
        if (r.association, r.target) = k ∧ r.pc = .advancing then (s.flows flow).advanced?.or (s.preferred k)
        else s.preferred k := fun hpc heq => by rw [heq, if_neg fun hand => hpc hand.2]
  cases h with
  | stay _ h =>
    have hsource := h.source
    refine hsame (fun hpc => ?_) ?_
    · rw [hpc] at hsource
      cases hsource
    · rcases h.shared with rfl | rfl <;> rfl
  | leave hpc =>
    refine hsame (fun hadv => ?_) rfl
    rw [hadv] at hpc
    cases hpc
  | close hpc => exact hsame (by rw [hpc]; exact nofun) rfl
  | advance hpc h =>
    rw [Shared.preferred_advanceUdpAddress (hroom hpc) h]
    simp only [hpc, and_true]
  | drop hpc => exact hsame (by rw [hpc]; exact nofun) (Shared.preferred_removeFlowSlot _)

end Brume.Server
