import Brume.Lib.OnceTable
import Brume.Server.Effects

/-!
# The steps of packet tasks and receivers, by what they do

One inversion lemma for each machine. The places of a machine fall into a few
groups, and what follows needs to know which group a step leaves and enters and
what it does to the flow tables, the slots and the flows.
-/

namespace Brume.Server
open Lib

/-! ### Receivers -/

/-- The receiver is in the loop, and will close. -/
def ReceiverPc.looping : ReceiverPc → Bool
  | .closing | .advancing | .dropping => false
  | _ => true

/-- The number of bytes that a receiver works on. -/
def ReceiverPc.length? : ReceiverPc → Option ℕ
  | .received length | .touching length | .readingEndpoint length | .replying length _ => some length
  | _ => none

theorem Receiver.held_eq (r : Receiver) :
    r.held = r.pc.length?.map fun length => (r.buffer.drop 22).take length := by
  unfold held
  cases r.pc <;> rfl

/-- A step inside the loop of a receiver, or out of it. -/
structure Receiver.Loops (flow : FlowId) (r r' : Receiver) (event : ReceiverEvent) (s s' : Shared) : Prop where
  source : r.pc.looping = true
  next : r'.pc.looping = true ∨ r'.pc = .closing
  association : r'.association = r.association
  slot : r'.slot = r.slot
  target : r'.target = r.target
  destination : r'.destination = r.destination
  size : r'.buffer.length = r.buffer.length
  length : ∀ n, r'.pc.length? = some n → r.pc.length? = some n ∨ 22 + n ≤ r.buffer.length
  held : ∀ q, r'.held = some q → (event = .silent ∧ r.held = some q) ∨ ∃ sender, event = .arrived sender q
  shared : s' = s ∨ s' = s.touch flow

/-- What one step of a receiver does. -/
inductive Receiver.Case (flow : FlowId) (r : Receiver) (s : Shared) : ReceiverInput → ReceiverStep → Prop
  | loop {input : ReceiverInput} {event : ReceiverEvent} {r' : Receiver} {s' : Shared}
      (h : Receiver.Loops flow r r' event s s') : Case flow r s input ⟨event, some r', s'⟩
  | close {input : ReceiverInput} (hpc : r.pc = .closing) :
      Case flow r s input
        ⟨.silent, some { r with pc := if (s.flows flow).active && r.failed then .advancing else .dropping },
          s.deactivate flow⟩
  | advance {oldest : Target} {s' : Shared} (hpc : r.pc = .advancing)
      (h : s.advanceUdpAddress r.association r.target flow oldest = some s') :
      Case flow r s (.oldest oldest) ⟨.silent, some { r with pc := .dropping }, s'⟩
  | drop {input : ReceiverInput} (hpc : r.pc = .dropping) :
      Case flow r s input ⟨.finished, none, s.removeFlowSlot r.association r.target r.slot⟩

theorem Receiver.step_cases {timeout : Duration} {flow : FlowId} {r : Receiver} {input : ReceiverInput}
    {s : Shared} {step : ReceiverStep} (h : r.step timeout flow input s = some step) :
    r.Case flow s input step := by
  -- a step of the loop that leaves the buffer and keeps or forgets the length
  have go : ∀ (r' : Receiver) (s' : Shared), r.pc.looping = true →
      r'.pc.looping = true ∨ r'.pc = .closing →
      { r' with receivedReply := r.receivedReply, failed := r.failed, pc := r.pc } = r →
      (∀ n, r'.pc.length? = some n → r.pc.length? = some n) → s' = s ∨ s' = s.touch flow →
      r.Case flow s input ⟨.silent, some r', s'⟩ := by
    intro r' s' hpc hnext hsame hlen hs
    have hbuffer : r'.buffer = r.buffer := by rw [← hsame]
    refine .loop ⟨hpc, hnext, ?_, ?_, ?_, ?_, ?_, fun n hn => .inl (hlen n hn), fun q hq => .inl ⟨rfl, ?_⟩, hs⟩
    · rw [← hsame]
    · rw [← hsame]
    · rw [← hsame]
    · rw [← hsame]
    · rw [hbuffer]
    · rw [held_eq, Option.map_eq_some_iff] at hq ⊢
      obtain ⟨n, hn, hq⟩ := hq
      exact ⟨n, hlen n hn, by rw [← hbuffer, hq]⟩
  unfold Receiver.step at h
  dsimp only at h
  split at h
  case h_1 hpc =>
    cases h
    refine go _ _ (by rw [hpc]; rfl) ?_ rfl ?_ (.inl rfl) <;> dsimp only <;> split <;> simp [ReceiverPc.looping, ReceiverPc.length?]
  case h_2 hpc =>
    split at h <;> cases h
    · exact go _ _ (by rw [hpc]; rfl) (.inl rfl) rfl (by simp [ReceiverPc.length?]) (.inl rfl)
    · exact go _ _ (by rw [hpc]; rfl) (.inl rfl) rfl (by simp [ReceiverPc.length?]) (.inl rfl)
  case h_3 hpc =>
    split at h <;> cases h
    · exact go _ _ (by rw [hpc]; rfl) (.inr rfl) rfl (by simp [ReceiverPc.length?]) (.inl rfl)
    · exact go _ _ (by rw [hpc]; rfl) (.inl rfl) rfl (by simp [ReceiverPc.length?]) (.inl rfl)
  case h_4 hpc =>
    split at h <;> cases h
    exact go _ _ (by rw [hpc]; rfl) (.inr rfl) rfl (by simp [ReceiverPc.length?]) (.inl rfl)
  case h_5 hpc =>
    split at h <;> cases h
    exact go _ _ (by rw [hpc]; rfl) (.inr rfl) rfl (by simp [ReceiverPc.length?]) (.inl rfl)
  case h_6 hpc =>
    split at h <;> cases h
    exact go _ _ (by rw [hpc]; rfl) (.inl rfl) rfl (by simp [ReceiverPc.length?]) (.inl rfl)
  case h_7 sender payload hpc =>
    split at h
    · split at h
      · cases h
      · rename_i buffer hcopy
        cases h
        obtain ⟨hbuffer, -, hfit, hpayload⟩ := copyInto_ok hcopy
        refine .loop ⟨by rw [hpc]; rfl, .inl rfl, rfl, rfl, rfl, rfl, copyInto_length hcopy, ?_, ?_, .inl rfl⟩
        · intro n hn
          cases hn
          exact .inr hfit
        · intro q hq
          cases hq
          have htake : (r.buffer.take 22).length = 22 := by
            rw [List.length_take]
            omega
          exact .inr ⟨sender, by rw [hbuffer, List.append_assoc, List.drop_left' htake, List.take_left]⟩
    · cases h
  case h_8 hpc =>
    cases h
    exact go _ _ (by rw [hpc]; rfl) (.inr rfl) rfl (by simp [ReceiverPc.length?]) (.inl rfl)
  case h_9 hpc =>
    split at h <;> cases h
    · exact go _ _ (by rw [hpc]; rfl) (.inl rfl) rfl (by simp [hpc, ReceiverPc.length?]) (.inl rfl)
    · exact go _ _ (by rw [hpc]; rfl) (.inr rfl) rfl (by simp [ReceiverPc.length?]) (.inl rfl)
  case h_10 hpc =>
    cases h
    exact go _ _ (by rw [hpc]; rfl) (.inl rfl) rfl (by simp [hpc, ReceiverPc.length?]) (.inr rfl)
  case h_11 hpc =>
    split at h <;> cases h
    · exact go _ _ (by rw [hpc]; rfl) (.inl rfl) rfl (by simp [ReceiverPc.length?]) (.inl rfl)
    · exact go _ _ (by rw [hpc]; rfl) (.inl rfl) rfl (by simp [hpc, ReceiverPc.length?]) (.inl rfl)
  case h_12 hpc =>
    split at h
    · cases h
    · rename_i buffer packet hframe
      cases h
      exact .loop ⟨by rw [hpc]; rfl, .inl rfl, rfl, rfl, rfl, rfl, frame_length hframe,
        by simp [ReceiverPc.length?], by simp [held], .inl rfl⟩
  case h_13 hpc =>
    cases h
    exact .close hpc
  case h_14 hpc =>
    split at h
    · cases h
    · rename_i s' hs'
      cases h
      exact .advance hpc hs'
  case h_15 hpc =>
    cases h
    exact .drop hpc
  case h_16 => cases h

/-! ### Packet tasks -/

/-- What a task is about to do with its slot. -/
def TaskPc.role : TaskPc → OnceTable.Role
  | .start | .lockingFlows => .idle
  | .awaitingCell slot => .waiting slot
  | .resolving slot | .choosing slot _ | .binding slot _ _ _ | .remembering slot _ _ | .spawning slot _ _
  | .completing slot none => .filling slot
  | .completing slot (some flow) => .publishing slot flow
  | .checking slot none => .discarding slot
  | .checking slot (some flow) | .checkingAlive slot flow | .touching slot flow | .sending slot flow
  | .sent slot flow | .deactivating slot flow => .holding slot flow
  | .droppingStale slot | .advancing slot _ | .stopping slot _ | .dropping slot _ => .retiring slot

theorem TaskPc.slot?_role (pc : TaskPc) : pc.role.slot? = pc.slot? := by
  cases pc with
  | completing slot flow => cases flow <;> rfl
  | checking slot flow => cases flow <;> rfl
  | _ => rfl

/-- The flow whose address the task is about to advance. -/
def TaskPc.advances? : TaskPc → Option FlowId
  | .advancing _ flow => some flow
  | _ => none

/-- The tables, the cells and the active flows are the same. -/
structure Shared.SameTable (s s' : Shared) : Prop where
  flows : ∀ arc, (s'.association arc).flows = (s.association arc).flows
  slots : s'.slots = s.slots
  active : ∀ flow, (s'.flows flow).active = (s.flows flow).active
  nextSlot : s'.nextSlot = s.nextSlot
  nextFlow : s'.nextFlow = s.nextFlow
  preferred : ∀ arc, Dict.size (s.association arc).preferredAddresses ≤ MAX_FLOWS_PER_ASSOCIATION →
    Dict.size (s'.association arc).preferredAddresses ≤ MAX_FLOWS_PER_ASSOCIATION

namespace Shared.SameTable
variable {s s' : Shared}

theorem refl (s : Shared) : s.SameTable s := ⟨fun _ => rfl, rfl, fun _ => rfl, rfl, rfl, fun _ h => h⟩

theorem setFlow (s : Shared) (flow : FlowId) {f : Flow} (h : f.active = (s.flows flow).active) :
    s.SameTable (s.setFlow flow f) := by
  refine ⟨fun _ => rfl, rfl, fun flow' => ?_, rfl, rfl, fun _ h => h⟩
  simp only [Shared.setFlow, Function.update_apply]
  split
  · rename_i heq
    rw [h, heq]
  · rfl

theorem touch (s : Shared) (flow : FlowId) : s.SameTable (s.touch flow) := setFlow s flow rfl

theorem stopFlow (s : Shared) (flow : FlowId) : s.SameTable (s.stopFlow flow) := setFlow s flow rfl

/-- A change of the preferred addresses of one association. -/
theorem setPreferred (s : Shared) (arc : Arc) {preferredAddresses : Dict Target ℕ}
    (h : Dict.size (s.association arc).preferredAddresses ≤ MAX_FLOWS_PER_ASSOCIATION →
      Dict.size preferredAddresses ≤ MAX_FLOWS_PER_ASSOCIATION) :
    s.SameTable (s.setAssociation arc { s.association arc with preferredAddresses }) := by
  have heq : ∀ arc', (s.setAssociation arc { s.association arc with preferredAddresses }).association arc' =
      if arc' = arc then { s.association arc with preferredAddresses } else s.association arc' := fun arc' => by
    simp only [association, setAssociation, Heap.set, Function.update_apply]
  refine ⟨fun arc' => ?_, rfl, fun _ => rfl, rfl, rfl, fun arc' hle => ?_⟩
  · rw [heq]
    split
    · rename_i h
      rw [h]
    · rfl
  · rw [heq]
    split
    · rename_i harc
      exact h (harc ▸ hle)
    · exact hle

theorem rememberUdpAddress {arc : Arc} {target oldest : Target} {index : ℕ}
    (h : s.rememberUdpAddress arc target index oldest = some s') : s.SameTable s' := by
  unfold Shared.rememberUdpAddress at h
  dsimp only at h
  split at h
  · rename_i hfull
    split at h <;> cases h
    rename_i hold
    apply setPreferred
    intro hle
    -- one key goes and one comes
    obtain ⟨v, hv⟩ := Dict.mem_iff.mp hold
    have hnone : (s.association arc).preferredAddresses.lookup target = none := AList.lookup_eq_none.mpr hfull.2
    have hnone' : ((s.association arc).preferredAddresses.erase oldest).lookup target = none := by
      rw [Dict.lookup_erase_eq, hnone, ite_self]
    have herase := Dict.size_erase_of_some hv
    rw [Dict.size_insert_of_none hnone']
    omega
  · rename_i hroom
    cases h
    apply setPreferred
    intro hle
    cases hv : (s.association arc).preferredAddresses.lookup target with
    | some v => rwa [Dict.size_insert_of_some hv]
    | none =>
      have hlt : ¬MAX_FLOWS_PER_ASSOCIATION ≤ Dict.size (s.association arc).preferredAddresses :=
        fun hge => hroom ⟨hge, AList.lookup_eq_none.mp hv⟩
      rw [Dict.size_insert_of_none hv]
      omega

theorem advanceUdpAddress {arc : Arc} {target oldest : Target} {flow : FlowId}
    (h : s.advanceUdpAddress arc target flow oldest = some s') : s.SameTable s' := by
  unfold Shared.advanceUdpAddress at h
  dsimp only at h
  split at h
  · exact rememberUdpAddress h
  · cases h
    exact refl s

end Shared.SameTable

theorem Receiver.Loops.table {flow : FlowId} {r r' : Receiver} {event : ReceiverEvent} {s s' : Shared}
    (h : Receiver.Loops flow r r' event s s') : s.SameTable s' := by
  rcases h.shared with rfl | rfl
  · exact .refl _
  · exact .touch s flow

/-- A step that leaves the role of the task and the tables as they are. -/
structure PacketTask.Quiet (t t' : PacketTask) (s s' : Shared) : Prop where
  association : t'.association = t.association
  target : t'.target = t.target
  role : t'.pc.role = t.pc.role
  advances : t'.pc.advances? = none
  table : s.SameTable s'

/-- What one step of a packet task does. -/
inductive PacketTask.Case (id : ℕ) (t : PacketTask) (s : Shared) : TaskStep → Prop
  | quiet {event : TaskEvent} {t' : PacketTask} {s' : Shared} (h : t.Quiet t' s s') :
      Case id t s ⟨event, some t', none, s'⟩
  | leave {event : TaskEvent} {s' : Shared} (hrole : t.pc.role = .idle ∨ ∃ slot flow, t.pc.role = .holding slot flow)
      (h : s.SameTable s') : Case id t s ⟨event, none, none, s'⟩
  | take {slot : SlotId} (hrole : t.pc.role = .idle)
      (h : (s.association t.association).flows.lookup t.target = some slot) :
      Case id t s ⟨.silent, some { t with pc := .awaitingCell slot }, none, s⟩
  | create (hrole : t.pc.role = .idle) (h : (s.association t.association).flows.lookup t.target = none)
      (hsize : Dict.size (s.association t.association).flows < MAX_FLOWS_PER_ASSOCIATION) :
      Case id t s ⟨.silent, some { t with pc := .awaitingCell s.nextSlot }, none,
        s.newSlot t.association t.target⟩
  | claim {slot : SlotId} (hrole : t.pc.role = .waiting slot) (h : s.slots slot = .empty) :
      Case id t s ⟨.silent, some { t with pc := .resolving slot }, none, s.setSlot slot (.initializing id)⟩
  | see {slot : SlotId} {flow : Option FlowId} (hrole : t.pc.role = .waiting slot)
      (h : s.slots slot = .ready flow) : Case id t s ⟨.silent, some { t with pc := .checking slot flow }, none, s⟩
  | spawn {slot : SlotId} {destination : SocketAddr} {index count : ℕ} (hrole : t.pc.role = .filling slot) :
      Case id t s ⟨.spawned s.nextFlow, some { t with pc := .completing slot (some s.nextFlow) },
        some (s.nextFlow, .new t.association slot t.target destination),
        s.newFlow ⟨destination, s.now, true, false, index, count⟩⟩
  | complete {slot : SlotId} {flow : Option FlowId} (hpc : t.pc = .completing slot flow) :
      Case id t s ⟨.silent, some { t with pc := .checking slot flow }, none, s.setSlot slot (.ready flow)⟩
  | stale {slot : SlotId} {flow : FlowId} (hrole : t.pc.role = .holding slot flow)
      (h : (s.flows flow).active = false) :
      Case id t s ⟨.silent, some { t with pc := .droppingStale slot }, none, s⟩
  | deactivate {slot : SlotId} {flow : FlowId} (hrole : t.pc.role = .holding slot flow) :
      Case id t s ⟨.silent,
        some { t with pc := if (s.flows flow).active then .advancing slot flow else .stopping slot flow }, none,
        s.deactivate flow⟩
  | drop {event : TaskEvent} {slot : SlotId} {next : Option PacketTask}
      (hrole : t.pc.role = .discarding slot ∨ t.pc.role = .retiring slot)
      (hnext : ∀ t', next = some t' → t'.association = t.association ∧ t'.target = t.target ∧ t'.pc = .lockingFlows) :
      Case id t s ⟨event, next, none, s.removeFlowSlot t.association t.target slot⟩

theorem PacketTask.step_cases {id permits : ℕ} {t : PacketTask} {input : TaskInput} {s : Shared} {r : TaskStep}
    (h : t.step id permits input s = some r) : t.Case id s r := by
  -- a step to a place of the same role
  have quiet : ∀ {event : TaskEvent} {t' : PacketTask} {s' : Shared}, t'.association = t.association →
      t'.target = t.target → t'.pc.role = t.pc.role → t'.pc.advances? = none → s.SameTable s' →
      t.Case id s ⟨event, some t', none, s'⟩ :=
    fun ha ht hrole hadv hs => .quiet ⟨ha, ht, hrole, hadv, hs⟩
  unfold PacketTask.step at h
  dsimp only at h
  split at h
  case h_1 hpc =>
    split at h <;> cases h
    · exact quiet rfl rfl (by rw [hpc]; rfl) rfl (.refl s)
    · exact .leave (.inl (by rw [hpc]; rfl)) (.refl s)
  case h_2 hpc =>
    have hrole : t.pc.role = .idle := by rw [hpc]; rfl
    split at h
    · rename_i slot hslot
      cases h
      exact .take hrole hslot
    · rename_i hnone
      split at h
      · cases h
        exact .leave (.inl hrole) (.refl s)
      · rename_i hsize
        split at h <;> cases h
        · exact .leave (.inl hrole) (.refl s)
        · exact .create hrole hnone (by omega)
  case h_3 slot hpc =>
    have hrole : t.pc.role = .waiting slot := by rw [hpc]; rfl
    split at h
    · rename_i flow hc
      cases h
      exact .see hrole hc
    · rename_i hc
      cases h
      exact .claim hrole hc
    · cases h
  case h_4 hpc =>
    split at h <;> cases h
    · exact quiet rfl rfl (by rw [hpc]; rfl) rfl (.refl s)
    · exact quiet rfl rfl (by rw [hpc]; rfl) rfl (.refl s)
  case h_5 hpc =>
    cases h
    exact quiet rfl rfl (by rw [hpc]; rfl) rfl (.refl s)
  case h_6 hpc =>
    split at h
    · split at h
      · split at h <;> cases h
        · exact quiet rfl rfl (by rw [hpc]; rfl) rfl (.refl s)
        · exact quiet rfl rfl (by rw [hpc]; rfl) rfl (.refl s)
      · cases h
        exact quiet rfl rfl (by rw [hpc]; rfl) rfl (.refl s)
    · cases h
  case h_7 hpc =>
    split at h <;> cases h
    exact quiet rfl rfl (by rw [hpc]; rfl) rfl (.refl s)
  case h_8 hpc =>
    split at h
    · cases h
    · rename_i s' hs'
      cases h
      exact quiet rfl rfl (by rw [hpc]; rfl) rfl (.rememberUdpAddress hs')
  case h_9 hpc =>
    split at h <;> cases h
    exact .spawn (by rw [hpc]; rfl)
  case h_10 hpc =>
    cases h
    exact .complete hpc
  case h_11 hpc =>
    cases h
    exact .drop (.inl (by rw [hpc]; rfl)) (by simp)
  case h_12 hpc =>
    split at h <;> cases h
    · exact quiet rfl rfl (by rw [hpc]; rfl) rfl (.refl s)
    · rename_i hactive
      exact .stale (by rw [hpc]; rfl) (Bool.eq_false_of_not_eq_true hactive)
  case h_13 hpc =>
    split at h <;> cases h
    · exact .drop (.inr (by rw [hpc]; rfl)) (by simp)
    · exact .drop (.inr (by rw [hpc]; rfl)) (by simp)
  case h_14 hpc =>
    split at h <;> cases h
    · exact quiet rfl rfl (by rw [hpc]; rfl) rfl (.refl s)
    · exact .leave (.inr ⟨_, _, by rw [hpc]; rfl⟩) (.refl s)
  case h_15 hpc =>
    cases h
    exact quiet rfl rfl (by rw [hpc]; rfl) rfl (.touch s _)
  case h_16 ok hpc =>
    cases h
    cases ok <;> exact quiet rfl rfl (by rw [hpc]; rfl) rfl (.refl s)
  case h_17 hpc =>
    cases h
    exact .leave (.inr ⟨_, _, by rw [hpc]; rfl⟩) (.touch s _)
  case h_18 hpc =>
    cases h
    exact .deactivate (by rw [hpc]; rfl)
  case h_19 hpc =>
    split at h
    · cases h
    · rename_i s' hs'
      cases h
      exact quiet rfl rfl (by rw [hpc]; rfl) rfl (.advanceUdpAddress hs')
  case h_20 hpc =>
    cases h
    exact quiet rfl rfl (by rw [hpc]; rfl) rfl (.stopFlow s _)
  case h_21 hpc =>
    split at h <;> cases h
    · exact .drop (.inr (by rw [hpc]; rfl)) (by simp)
    · exact .drop (.inr (by rw [hpc]; rfl)) (by simp)
  case h_22 => cases h

end Brume.Server
