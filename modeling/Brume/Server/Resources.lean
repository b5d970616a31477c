import Brume.Lib.Counting
import Brume.Server.Permits

/-!
# Resources

The limits on connections, packet tasks and flows hold in every reachable state,
and so do those on what hangs on them: the registry is no larger than the set of
handlers, and every open socket and every entry of a flow table has a live slot.
-/

namespace Brume.Server
open Lib Session

variable {config : Config} {events : List Event} {s s' : State} {e : Event} {owner owner' : SlotId → FlowKey}

/-! ### Connections -/

/-- A handler leaves when it returns. -/
theorem Connection.step_returned {id : ℕ} {shutdown : Bool} {c : Connection} {input : HandlerInput} {w : World}
    {r : HandlerStep} (h : c.step id shutdown input w = some r) (hnone : r.program = none) : r.event = .returned := by
  unfold Connection.step at h
  split at h
  case h_1 =>
    cases h
    rfl
  case h_2 =>
    split at h
    · split at h <;> cases h
      cases hnone
    · cases h
      cases hnone
  case h_9 =>
    split at h
    · cases h
      cases hnone
    · cases h
      cases hnone
    · cases h
      cases hnone
    · split at h <;> cases h
      cases hnone
  case h_10 =>
    split at h
    · split at h <;> cases h
      cases hnone
    · cases h
  case h_11 => cases h
  all_goals
    cases h
    cases hnone

/-- The handler of an accepted connection is there until it has returned. -/
def Present (events : List Event) (s : State) : Prop :=
  ∀ id peer, .accepted id peer ∈ events → s.handlers.lookup id = none → .handler id .returned ∈ events

theorem Present.step (h : Present events s) {input : Input} (hs : s.step config input = some (e, s')) :
    Present (events ++ [e]) s' := by
  intro id peer hmem hnone
  have hold : s'.handlers = s.handlers → e ≠ .accepted id peer → .handler id .returned ∈ events ++ [e] := by
    intro hsame hne
    have hmem' : .accepted id peer ∈ events := by
      rcases List.mem_append.mp hmem with hmem | hmem
      · exact hmem
      · exact absurd (List.mem_singleton.mp hmem).symm hne
    exact List.mem_append_left _ (h id peer hmem' (hsame ▸ hnone))
  cases input with
  | cancel | tick =>
    cases hs
    exact hold rfl (by simp)
  | accept peer' =>
    simp only [State.step] at hs
    split at hs
    · cases hs
    · split at hs
      · cases hs
      · cases hs
        exact hold rfl (by simp)
      · split at hs <;> cases hs
        · exact hold rfl (by simp)
        · dsimp only at hnone
          rw [Dict.lookup_insert_eq] at hnone
          split at hnone
          · cases hnone
          · rename_i hne
            have hmem' : .accepted id peer ∈ events := by
              rcases List.mem_append.mp hmem with hmem | hmem
              · exact hmem
              · cases List.mem_singleton.mp hmem
                exact absurd rfl hne
            exact List.mem_append_left _ (h id peer hmem' hnone)
  | leaveAccept | stopAssociations | join =>
    simp only [State.step] at hs
    split at hs <;> cases hs
    exact hold rfl (by simp)
  | handler id' input =>
    obtain ⟨c, r, hc, hr, rfl, rfl⟩ := State.step_handler hs
    have hmem' : .accepted id peer ∈ events := by simpa using hmem
    dsimp only at hnone
    rw [Dict.lookup_update_eq] at hnone
    split at hnone
    · rename_i hid
      have hevent := Connection.step_returned hr (Option.map_eq_none_iff.mp hnone)
      rw [hid, hevent]
      exact List.mem_append_right _ (List.mem_singleton_self _)
    · exact List.mem_append_left _ (h id peer hmem' hnone)
  | loop input =>
    obtain ⟨r, -, rfl, rfl⟩ := State.step_loop hs
    exact hold rfl (by simp)
  | task id' input =>
    obtain ⟨t, r, -, -, rfl, rfl⟩ := State.task_moves hs
    exact hold rfl (by simp)
  | receiver flow input =>
    obtain ⟨r, result, -, -, rfl, rfl⟩ := State.step_receiver hs
    exact hold rfl (by simp)

/-- The loop starts a task with a permit only. -/
theorem LoopPc.task_permits {whitelist : Whitelist} {shutdown : Bool} {permits nextTask : ℕ} {pc : LoopPc}
    {input : LoopInput} {w : World} {r : LoopStep} (h : pc.step whitelist shutdown permits nextTask input w = some r)
    {task : PacketTask} (htask : r.task = some task) : permits ≠ 0 := by
  obtain ⟨arc, target, payload, rfl, -⟩ := (LoopPc.step_spec h).task task htask
  cases input with
  | go =>
    simp only [LoopPc.step] at h
    split at h
    · cases h
      cases htask
    · assumption
  | _ => cases h

/-! ### Slots -/

/-- The slots that live. -/
def State.liveSlots (s : State) : ℕ := (List.range s.shared.nextSlot).countP s.slotAlive

/-- Without a permit no slot is made. -/
theorem PacketTask.nextSlot_of_permits {id : ℕ} {t : PacketTask} {input : TaskInput} {sh : Shared} {r : TaskStep}
    (h : t.step id 0 input sh = some r) : r.shared.nextSlot = sh.nextSlot := by
  rcases (PacketTask.step_moves h).nextSlot rfl with hsame | ⟨⟨hpc, hnone⟩, -⟩
  · exact hsame
  · obtain ⟨association, target, payload, attempts, staleRetries, pc⟩ := t
    subst hpc
    cases input with
    | go =>
      simp only [PacketTask.step, hnone] at h
      split at h <;> cases h <;> rfl
    | _ => cases h

namespace State

/-- A step that makes a slot finds a permit for it. -/
theorem flowPermits_of_nextSlot {input : Input} (hs : s.step config input = some (e, s'))
    (hne : s'.shared.nextSlot ≠ s.shared.nextSlot) : s.flowPermits ≠ 0 := by
  rcases nextSlot_step hs with hsame | ⟨id, t, i, rfl, ht, -, -⟩
  · exact absurd hsame hne
  · intro hpermits
    simp only [step, ht, hpermits] at hs
    split at hs
    · cases hs
    · rename_i r hr
      cases hs
      exact hne (PacketTask.nextSlot_of_permits hr)

/-- A step brings no slot back to life. -/
theorem liveSlots_step (h : Tabled owner s) (hev : Evolves owner s owner' s') {input : Input}
    (hs : s.step config input = some (e, s')) :
    s'.liveSlots + s.shared.nextSlot ≤ s.liveSlots + s'.shared.nextSlot := by
  obtain ⟨made, hmade⟩ := Nat.exists_eq_add_of_le hev.nextSlot
  have hnew : ((List.range made).map (s.shared.nextSlot + ·)).countP s'.slotAlive ≤ made :=
    List.countP_le_length.trans_eq (by simp)
  have hold : (List.range s.shared.nextSlot).countP s'.slotAlive ≤ s.liveSlots := by
    refine List.countP_mono_left fun slot hslot => ?_
    rw [h.slotAlive_iff, hev.tabled.slotAlive_iff]
    exact refers_step h hs (List.mem_range.mp hslot)
  have hsplit : s'.liveSlots = (List.range s.shared.nextSlot).countP s'.slotAlive +
      ((List.range made).map (s.shared.nextSlot + ·)).countP s'.slotAlive := by
    unfold liveSlots
    rw [hmade, List.range_add, List.countP_append]
  omega

end State

/-! ### Sockets -/

/-- A socket to a target: of the task that has connected it, or of a flow. -/
inductive Socket where
  | bound (task : ℕ)
  | flow (flow : FlowId)

/-- The task holds a connected socket that has no flow yet. -/
def TaskPc.bound : TaskPc → Bool
  | .remembering _ _ _ | .spawning _ _ _ => true
  | _ => false

/-- Something keeps the socket open: a task, the receiver of its flow, or a cell
of a live slot. -/
def State.Opened (s : State) : Socket → Prop
  | .bound id => ∃ t, s.tasks.lookup id = some t ∧ t.pc.bound = true
  | .flow flow => (∃ id t, s.tasks.lookup id = some t ∧ t.pc.flow? = some flow) ∨
      (∃ r, s.receivers.lookup flow = some r) ∨
      ∃ slot, s.slotAlive slot = true ∧ s.shared.slots slot = .ready (some flow)

/-- The slot that a socket belongs to. -/
def State.SocketOf (s : State) (slot : SlotId) : Socket → Prop
  | .bound id => ∃ t, s.tasks.lookup id = some t ∧ t.pc.role = .filling slot
  | .flow flow => s.FlowOf slot flow

/-- A slot has one socket at most. -/
theorem socketOf_unique (hs : s.table.Sound owner) {slot : SlotId} {socket socket' : Socket}
    (h : s.SocketOf slot socket) (h' : s.SocketOf slot socket') : socket = socket' := by
  have hfilling : ∀ {id t}, s.tasks.lookup id = some t → t.pc.role = .filling slot →
      s.table.cell slot = .filling id := by
    intro id t ht hrole
    have hok := hs.users id _ _ (users_lookup ht)
    rw [hrole] at hok
    exact hok.2.1
  have hdisjoint : ∀ {id t flow}, s.tasks.lookup id = some t → t.pc.role = .filling slot → ¬s.FlowOf slot flow := by
    intro id t flow ht hrole hflow
    have hcell := hfilling ht hrole
    rcases (made_iff hs).mpr hflow with hready | ⟨u, k, hfill, hu⟩
    · rw [hcell] at hready
      cases hready
    · rw [hcell] at hfill
      cases hfill
      have huser := (users_lookup ht).symm.trans hu
      rw [hrole] at huser
      cases huser
  cases socket with
  | bound id =>
    obtain ⟨t, ht, hrole⟩ := h
    cases socket' with
    | bound id' =>
      obtain ⟨t', ht', hrole'⟩ := h'
      have hcell := (hfilling ht hrole).symm.trans (hfilling ht' hrole')
      cases hcell
      rfl
    | flow flow => exact absurd h' (hdisjoint ht hrole)
  | flow flow =>
    cases socket' with
    | bound id =>
      obtain ⟨t, ht, hrole⟩ := h'
      exact absurd h (hdisjoint ht hrole)
    | flow flow' =>
      have hsame := ((made_iff hs).mpr h).unique ((made_iff hs).mpr h')
      rw [hsame]

/-- A cell that is filled stays so. -/
theorem PacketTask.Moves.ready_kept {id permits : ℕ} {t : PacketTask} {pc : TaskPc} {input : TaskInput} {r : TaskStep}
    (h : t.Moves id permits s.shared pc input r) (hs : s.table.Sound owner) (ht : s.tasks.lookup id = some t)
    (hpc : t.pc = pc) {slot : SlotId} (hlt : slot < s.shared.nextSlot) {flow : Option FlowId}
    (hc : s.shared.slots slot = .ready flow) : r.shared.slots slot = .ready flow := by
  by_cases hslot : pc.slot? = some slot
  · have hok := hs.users id _ _ (users_lookup ht)
    rw [hpc] at hok
    cases h with
    | claim hempty =>
      cases hslot
      rw [hc] at hempty
      cases hempty
    | @complete slot' flow' =>
      cases hslot
      have hcell : s.table.cell slot = .filling id := by
        cases flow' with
        | none => exact hok.2.1
        | some flow => exact hok.2.1
      change (s.shared.slots slot).view = .filling id at hcell
      rw [hc] at hcell
      cases flow <;> cases hcell
    | remember h =>
      obtain ⟨_, rfl⟩ := Shared.rememberUdpAddress_eq h
      exact hc
    | advance h =>
      obtain ⟨_, rfl⟩ := Shared.advanceUdpAddress_eq h
      exact hc
    | discard | giveUp | retry | last | again => exact (congrFun (Shared.slots_removeFlowSlot _ _ _ _) slot).trans hc
    | start | dead | take | refused | create => cases hslot
    | _ => exact hc
  · rw [h.slots hslot hlt]
    exact hc

/-- A slot keeps its flow. -/
theorem flowOf_step (h : Tabled owner s) {input : Input} (hs : s.step config input = some (e, s')) {slot : SlotId}
    {flow : FlowId} (hlt : slot < s.shared.nextSlot) (hflow : s.FlowOf slot flow) : s'.FlowOf slot flow := by
  cases input with
  | task id i =>
    rcases hflow with hready | ⟨id', t', ht', hpc'⟩
    · obtain ⟨t, r, ht, hmove, -, rfl⟩ := State.task_moves hs
      exact .inl (hmove.ready_kept h.sound ht rfl hlt hready)
    · by_cases hid : id' = id
      · subst hid
        obtain ⟨t, r, ht, hmove, -, rfl⟩ := State.task_moves hs
        cases ht.symm.trans ht'
        rw [hpc'] at hmove
        cases hmove
        exact .inl (Function.update_self _ _ _)
      · exact .inr ⟨id', t', State.tasks_step h.tasks hs ht' (by rintro i ⟨⟩; exact hid rfl), hpc'⟩
  | receiver flow' i =>
    obtain ⟨r, result, -, hmove, rfl⟩ := State.receiver_moves hs
    rcases hflow with hready | hcompleting
    · exact .inl ((congrFun hmove.slots slot).trans hready)
    · exact .inr hcompleting
  | _ =>
    obtain ⟨world, now, hshared⟩ := State.shared_step hs (by simp) (by simp)
    rcases hflow with hready | ⟨id', t', ht', hpc'⟩
    · exact .inl (by rw [hshared]; exact hready)
    · exact .inr ⟨id', t', State.tasks_step h.tasks hs ht' (by simp), hpc'⟩

/-- The flow that a task holds is that of its slot. -/
def Matched (s : State) : Prop :=
  ∀ id t slot flow, s.tasks.lookup id = some t → t.pc.slot? = some slot → t.pc.flow? = some flow → s.FlowOf slot flow

namespace Matched

theorem taskStep (h : Matched s) (ht : Tabled owner s) {id : ℕ} {input : TaskInput}
    (hs : s.step config (.task id input) = some (e, s')) : Matched s' := by
  have hkept := @flowOf_step _ _ _ _ _ ht _ hs
  obtain ⟨t, r, hlookup, hmove, -, rfl⟩ := State.task_moves hs
  have howned : ∀ {id' t' slot}, s.tasks.lookup id' = some t' → t'.pc.slot? = some slot → slot < s.shared.nextSlot := by
    intro id' t' slot ht' hslot
    exact (ht.sound.owned (users_lookup ht') ((TaskPc.slot?_role t'.pc).trans hslot)).1
  intro id' t' slot flow ht' hslot hflow
  dsimp only at ht'
  rw [Dict.lookup_update_eq] at ht'
  split at ht'
  · rename_i hid
    -- the task keeps its slot and its flow, finds the flow in the cell, or makes it
    have hsame : t.pc.slot? = some slot → t.pc.flow? = some flow → State.FlowOf _ slot flow :=
      fun hslot hflow => hkept (howned hlookup hslot) (h id t slot flow hlookup hslot hflow)
    generalize hpc : t.pc = pc at hmove hsame
    cases hmove with
    | see hready =>
      cases ht'
      cases hslot
      cases hflow
      have hlt : slot < s.shared.nextSlot := howned hlookup (by rw [hpc]; rfl)
      exact hkept hlt (.inl hready)
    | spawn =>
      cases ht'
      cases hslot
      cases hflow
      refine .inr ⟨id, { t with pc := .completing slot (some s.shared.nextFlow) }, ?_, rfl⟩
      dsimp only
      rw [Dict.lookup_update_eq, if_pos rfl]
    | complete | fresh | attempt | touch | advance | stop =>
      cases ht'
      exact hsame hslot hflow
    | send | deactivate =>
      cases ht'
      dsimp only at hslot hflow
      refine hsame ?_ ?_
      · split at hslot <;> exact hslot
      · split at hflow <;> exact hflow
    | bind =>
      cases ht'
      dsimp only at hflow
      split at hflow <;> cases hflow
    | dead | refused | discard | giveUp | abandon | done | last => cases ht'
    | _ =>
      cases ht'
      cases hflow
  · exact hkept (howned ht' hslot) (h id' t' slot flow ht' hslot hflow)

theorem step (h : Matched s) (ht : Tabled owner s) {input : Input} (hs : s.step config input = some (e, s')) :
    Matched s' := by
  have howned : ∀ {id t slot}, s.tasks.lookup id = some t → t.pc.slot? = some slot → slot < s.shared.nextSlot := by
    intro id t slot hlookup hslot
    exact (ht.sound.owned (users_lookup hlookup) ((TaskPc.slot?_role t.pc).trans hslot)).1
  intro id t slot flow hlookup hslot hflow
  have hold : s.tasks.lookup id = some t → s'.FlowOf slot flow :=
    fun hlookup => flowOf_step ht hs (howned hlookup hslot) (h id t slot flow hlookup hslot hflow)
  cases input with
  | task id' i => exact h.taskStep ht hs id t slot flow hlookup hslot hflow
  | receiver flow' i =>
    obtain ⟨r, result, -, -, rfl⟩ := State.receiver_moves hs
    exact hold hlookup
  | _ =>
    rcases (State.sameFlows_step hs (by simp) (by simp)).tasks id t hlookup with hlookup | hstart
    · exact hold hlookup
    · rw [hstart] at hslot
      cases hslot

end Matched

theorem matched_of_reaches (h : System.Reaches (system config) .initial events s) : Matched s := by
  induction h with
  | start => exact fun _ _ _ _ hlookup => nomatch hlookup
  | step hr hi ih =>
    obtain ⟨owner, htabled⟩ := tabled_of_reaches hr
    exact ih.step htabled hi

/-- An open socket belongs to a live slot. -/
theorem slot_of_opened (h : Tabled owner s) (hm : Matched s) {socket : Socket} (hopened : s.Opened socket) :
    ∃ slot, slot < s.shared.nextSlot ∧ s.slotAlive slot = true ∧ s.SocketOf slot socket := by
  have howned : ∀ {slot}, s.slotAlive slot = true → slot < s.shared.nextSlot := by
    intro slot halive
    rcases h.slotAlive_iff.mp halive with ⟨id, t, ht, hslot⟩ | ⟨flow, r, hr, rfl⟩
    · exact (h.sound.owned (users_lookup ht) ((TaskPc.slot?_role t.pc).trans hslot)).1
    · exact (h.sound.guards flow _ (guards_lookup hr)).1.1
  have hheld : ∀ {id t slot}, s.tasks.lookup id = some t → t.pc.slot? = some slot → s.slotAlive slot = true :=
    fun ht hslot => h.slotAlive_iff.mpr (.inl ⟨_, _, ht, hslot⟩)
  cases socket with
  | bound id =>
    obtain ⟨t, ht, hbound⟩ := hopened
    have hrole : ∃ slot, t.pc.slot? = some slot ∧ t.pc.role = .filling slot := by
      cases hpc : t.pc with
      | remembering slot | spawning slot => exact ⟨slot, rfl, rfl⟩
      | _ =>
        rw [hpc] at hbound
        cases hbound
    obtain ⟨slot, hslot, hrole⟩ := hrole
    have halive := hheld ht hslot
    exact ⟨slot, howned halive, halive, t, ht, hrole⟩
  | flow flow =>
    rcases hopened with ⟨id, t, ht, hflow⟩ | ⟨r, hr⟩ | ⟨slot, halive, hready⟩
    · have hslot : ∃ slot, t.pc.slot? = some slot := by
        cases hpc : t.pc with
        | start | lockingFlows =>
          rw [hpc] at hflow
          cases hflow
        | _ => exact ⟨_, rfl⟩
      obtain ⟨slot, hslot⟩ := hslot
      have halive := hheld ht hslot
      exact ⟨slot, howned halive, halive, hm id t slot flow ht hslot hflow⟩
    · have halive : s.slotAlive r.slot = true := h.slotAlive_iff.mpr (.inr ⟨flow, r, hr, rfl⟩)
      have hmade := (h.sound.guards flow _ (guards_lookup hr)).2.1
      exact ⟨r.slot, howned halive, halive, (made_iff h.sound).mp hmade⟩
    · exact ⟨slot, howned halive, halive, .inl hready⟩

/-! ### The limits -/

structure Limited (s : State) : Prop where
  handlers : Dict.size s.handlers ≤ MAX_TCP_CLIENTS
  tasks : Dict.size s.tasks ≤ MAX_UDP_PACKET_TASKS
  slots : s.liveSlots ≤ MAX_UDP_FLOWS

namespace Limited

theorem initial : Limited .initial := ⟨Nat.zero_le _, Nat.zero_le _, Nat.zero_le _⟩

theorem handlersStep (h : Limited s) (hc : Controlled events s) {input : Input}
    (hs : s.step config input = some (e, s')) : Dict.size s'.handlers ≤ MAX_TCP_CLIENTS := by
  have hhandlers := h.handlers
  cases input with
  | cancel | tick =>
    cases hs
    exact hhandlers
  | accept peer =>
    simp only [State.step] at hs
    split at hs
    · cases hs
    · split at hs
      · cases hs
      · cases hs
        exact hhandlers
      · split at hs <;> cases hs
        · exact hhandlers
        · rename_i hroom
          have hnone := (hc.unborn s.nextId (le_refl _)).1
          have hsize := Dict.size_insert_of_none hnone (⟨peer, handleClient config⟩ : Connection)
          dsimp only
          omega
  | leaveAccept | stopAssociations | join =>
    simp only [State.step] at hs
    split at hs <;> cases hs
    exact hhandlers
  | handler id input =>
    obtain ⟨c, r, hlookup, -, -, rfl⟩ := State.step_handler hs
    exact (Dict.size_update_le hlookup _).trans hhandlers
  | loop input =>
    obtain ⟨r, -, -, rfl⟩ := State.step_loop hs
    exact hhandlers
  | task id input =>
    obtain ⟨t, r, -, -, -, rfl⟩ := State.task_moves hs
    exact hhandlers
  | receiver flow input =>
    obtain ⟨r, result, -, -, rfl⟩ := State.receiver_moves hs
    exact hhandlers

theorem tasksStep (h : Limited s) (ht : Tabled owner s) {input : Input}
    (hs : s.step config input = some (e, s')) : Dict.size s'.tasks ≤ MAX_UDP_PACKET_TASKS := by
  have htasks := h.tasks
  cases input with
  | cancel | tick =>
    cases hs
    exact htasks
  | accept peer =>
    simp only [State.step] at hs
    split at hs
    · cases hs
    · split at hs
      · cases hs
      · cases hs
        exact htasks
      · split at hs <;> cases hs <;> exact htasks
  | leaveAccept | stopAssociations | join =>
    simp only [State.step] at hs
    split at hs <;> cases hs
    exact htasks
  | handler id input =>
    obtain ⟨c, r, -, -, -, rfl⟩ := State.step_handler hs
    exact htasks
  | loop input =>
    simp only [State.step] at hs
    split at hs
    · cases hs
    · rename_i r hr
      cases hs
      dsimp only
      cases htask : r.task with
      | none => exact htasks
      | some task =>
        have hpermits := LoopPc.task_permits hr htask
        have hnone : s.tasks.lookup s.nextTask = none := by
          refine Option.eq_none_iff_forall_ne_some.mpr fun t hlookup => ?_
          exact absurd (ht.tasks _ _ hlookup) (lt_irrefl _)
        have hsize := Dict.size_insert_of_none hnone task
        unfold State.packetPermits at hpermits
        dsimp only
        omega
  | task id input =>
    obtain ⟨t, r, hlookup, -, -, rfl⟩ := State.task_moves hs
    exact (Dict.size_update_le hlookup _).trans htasks
  | receiver flow input =>
    obtain ⟨r, result, -, -, rfl⟩ := State.receiver_moves hs
    exact htasks

theorem slotsStep (h : Limited s) (ht : Tabled owner s) (hev : Evolves owner s owner' s') {input : Input}
    (hs : s.step config input = some (e, s')) : s'.liveSlots ≤ MAX_UDP_FLOWS := by
  have hslots := h.slots
  have hlive := State.liveSlots_step ht hev hs
  have hpermits := State.flowPermits_of_nextSlot hs
  have hfree : s.flowPermits = MAX_UDP_FLOWS - s.liveSlots := rfl
  rcases State.nextSlot_step hs with hsame | ⟨-, -, -, -, -, -, hmade⟩
  · rw [hsame] at hlive
    omega
  · have hfound := hpermits (hmade ▸ Nat.succ_ne_self _)
    have hone : s'.liveSlots ≤ s.liveSlots + 1 := by
      rw [hmade, Nat.add_left_comm, Nat.add_comm s'.liveSlots] at hlive
      exact Nat.le_of_add_le_add_left hlive
    omega

end Limited

/-- What one step of the server preserves. -/
theorem Limited.step (h : Limited s) (hc : Controlled events s) (ht : Tabled owner s) (hev : Evolves owner s owner' s')
    {input : Input} (hs : s.step config input = some (e, s')) : Limited s' :=
  ⟨h.handlersStep hc hs, h.tasksStep ht hs, h.slotsStep ht hev hs⟩

theorem limited_of_reaches (h : System.Reaches (system config) .initial events s) : Limited s := by
  induction h with
  | start => exact .initial
  | step hr hi ih =>
    obtain ⟨hc, ht⟩ := traced_of_reaches hr
    obtain ⟨owner, htabled⟩ := tabled_of_reaches hr
    obtain ⟨owner', hev⟩ := htabled.step hc ht hi
    exact ih.step hc htabled hev hi

/-- No more sockets are open than slots live. -/
theorem length_opened_le (h : Tabled owner s) (hm : Matched s) {sockets : List Socket} (hnodup : sockets.Nodup)
    (hopened : ∀ socket ∈ sockets, s.Opened socket) : sockets.length ≤ s.liveSlots := by
  choose! slotOf hlt halive hof using fun socket hmem => slot_of_opened h hm (hopened socket hmem)
  refine length_le_countP slotOf hnodup ?_ fun socket hmem => ⟨hlt socket hmem, halive socket hmem⟩
  intro socket hmem socket' hmem' hsame
  have hof' := hof socket' hmem'
  rw [← hsame] at hof'
  exact socketOf_unique h.sound (hof socket hmem) hof'

end Brume.Server
