import Brume.Server.FlowRuns

/-!
# The lifetime of flows and slots

What the flow tables come to in every run: one active flow for each target of an
association, one call of `advance_udp_address` for each flow, and nothing left of
an association whose packet tasks and receivers have finished.
-/

namespace Brume.Server
open Lib

variable {config : Config} {events : List Event} {s s' : State} {e : Event} {owner : SlotId → FlowKey}

/-! ### Calls of `advance_udp_address` -/

namespace State

/-- The flow whose address this step advances. -/
def advances (s : State) : Input → Option FlowId
  | .task id _ => (s.tasks.lookup id).bind (·.pc.advances?)
  | .receiver flow _ => (s.receivers.lookup flow).bind fun r => if r.pc = .advancing then some flow else none
  | _ => none

/-- A task, or the receiver of the flow, is about to advance its address. -/
def Advancing (s : State) : Option ℕ → FlowId → Prop
  | some id, flow => ∃ t, s.tasks.lookup id = some t ∧ t.pc.advances? = some flow
  | none, flow => ∃ r, s.receivers.lookup flow = some r ∧ r.pc = .advancing

/-- The flow is not there yet, or has not been deactivated. -/
def Live (s : State) (flow : FlowId) : Prop :=
  s.shared.nextFlow ≤ flow ∨ (s.shared.flows flow).active = true

/-- What the steps of the other parts leave alone. -/
structure SameFlows (s s' : State) : Prop where
  flows : s'.shared.flows = s.shared.flows
  nextFlow : s'.shared.nextFlow = s.shared.nextFlow
  receivers : s'.receivers = s.receivers
  tasks : ∀ id t, s'.tasks.lookup id = some t → s.tasks.lookup id = some t ∨ t.pc = .start

theorem SameFlows.of_eq (hflows : s'.shared.flows = s.shared.flows) (hnext : s'.shared.nextFlow = s.shared.nextFlow)
    (hreceivers : s'.receivers = s.receivers) (htasks : s'.tasks = s.tasks) : s.SameFlows s' :=
  ⟨hflows, hnext, hreceivers, fun _ _ h => .inl (htasks ▸ h)⟩

theorem sameFlows_step {input : Input} (hs : s.step config input = some (e, s'))
    (htask : ∀ id i, input ≠ .task id i) (hreceiver : ∀ flow i, input ≠ .receiver flow i) : s.SameFlows s' := by
  cases input with
  | cancel =>
    cases hs
    exact .of_eq rfl rfl rfl rfl
  | tick nanos =>
    cases hs
    exact .of_eq rfl rfl rfl rfl
  | accept peer =>
    simp only [step] at hs
    split at hs
    · cases hs
    · split at hs
      · cases hs
      · cases hs
        exact .of_eq rfl rfl rfl rfl
      · split at hs <;> cases hs <;> exact .of_eq rfl rfl rfl rfl
  | leaveAccept | stopAssociations | join =>
    simp only [step] at hs
    split at hs <;> cases hs
    exact .of_eq rfl rfl rfl rfl
  | handler id input =>
    obtain ⟨c, r, -, -, -, rfl⟩ := step_handler hs
    exact .of_eq rfl rfl rfl rfl
  | loop input =>
    obtain ⟨r, hspec, -, rfl⟩ := step_loop hs
    refine ⟨rfl, rfl, rfl, fun id t ht => ?_⟩
    dsimp only at ht
    cases htask : r.task with
    | none =>
      rw [htask] at ht
      exact .inl ht
    | some task =>
      obtain ⟨arc, target, payload, -, rfl⟩ := hspec.task _ htask
      rw [htask, Dict.lookup_insert_eq] at ht
      split at ht
      · cases ht
        exact .inr rfl
      · exact .inl ht
  | task id i => exact absurd rfl (htask id i)
  | receiver flow i => exact absurd rfl (hreceiver flow i)

end State

/-- A task that is about to advance an address goes on to another place. -/
theorem PacketTask.Case.advances {id : ℕ} {t t' : PacketTask} {sh : Shared} {r : TaskStep} (h : t.Case id sh r)
    {flow : FlowId} (hpc : t.pc.advances? = some flow) (ht' : r.task = some t') : t'.pc.advances? = none := by
  have hrole : ∃ slot, t.pc.role = .retiring slot := by
    cases hpc' : t.pc <;> rw [hpc'] at hpc <;> cases hpc
    exact ⟨_, rfl⟩
  obtain ⟨slot, hrole⟩ := hrole
  cases h with
  | quiet h =>
    cases ht'
    exact h.advances
  | leave => cases ht'
  | drop _ hnext =>
    rw [(hnext t' ht').2.2]
    rfl
  | take h | create h | claim h | see h | spawn h | stale h | deactivate h =>
    rw [hrole] at h
    cases h
  | complete h =>
    rw [h] at hrole
    rename_i slot' flow'
    cases flow' <;> cases hrole

/-- A task takes up an advance when it deactivates the flow. -/
theorem PacketTask.Case.takes {id : ℕ} {t t' : PacketTask} {sh : Shared} {r : TaskStep} (h : t.Case id sh r)
    {flow : FlowId} (ht' : r.task = some t') (hpc : t'.pc.advances? = some flow) :
    (∃ slot, t.pc.role = .holding slot flow) ∧ (sh.flows flow).active = true ∧ r.shared = sh.deactivate flow := by
  cases h with
  | quiet h =>
    cases ht'
    rw [h.advances] at hpc
    cases hpc
  | drop _ hnext =>
    rw [(hnext t' ht').2.2] at hpc
    cases hpc
  | deactivate h =>
    rename_i slot flow'
    cases ht'
    dsimp only at hpc
    split at hpc
    · rename_i hactive
      cases hpc
      exact ⟨⟨slot, h⟩, hactive, rfl⟩
    · cases hpc
  | leave => cases ht'
  | take | create | claim | see | spawn | complete | stale =>
    cases ht'
    cases hpc

theorem Receiver.Case.advances {flow : FlowId} {r r' : Receiver} {sh : Shared} {input : ReceiverInput}
    {result : ReceiverStep} (h : r.Case flow sh input result) (hpc : r.pc = .advancing)
    (hr' : result.receiver = some r') : r'.pc ≠ .advancing := by
  cases h with
  | loop h =>
    have hsource := h.source
    rw [hpc] at hsource
    cases hsource
  | close h | drop h =>
    rw [hpc] at h
    cases h
  | advance =>
    cases hr'
    simp

/-- A receiver takes up an advance when it deactivates the flow. -/
theorem Receiver.Case.takes {flow : FlowId} {r r' : Receiver} {sh : Shared} {input : ReceiverInput}
    {result : ReceiverStep} (h : r.Case flow sh input result) (hr' : result.receiver = some r')
    (hpc : r'.pc = .advancing) : (sh.flows flow).active = true ∧ result.shared = sh.deactivate flow := by
  cases h with
  | loop h =>
    cases hr'
    rcases h.next with hnext | hnext <;> rw [hpc] at hnext <;> cases hnext
  | close =>
    cases hr'
    dsimp only at hpc
    split at hpc
    · rename_i hactive
      exact ⟨(Bool.and_eq_true_iff.mp hactive).1, rfl⟩
    · cases hpc
  | advance =>
    cases hr'
    cases hpc
  | drop => cases hr'

theorem Receiver.Case.live {flow flow' : FlowId} {r : Receiver} {input : ReceiverInput} {result : ReceiverStep}
    (h : r.Case flow s.shared input result)
    (hlive : result.shared.nextFlow ≤ flow' ∨ (result.shared.flows flow').active = true) : s.Live flow' := by
  have deactivated : (s.shared.deactivate flow).nextFlow ≤ flow' ∨
      ((s.shared.deactivate flow).flows flow').active = true → s.Live flow' := by
    simp only [Shared.deactivate, Shared.setFlow, Function.update_apply]
    rintro (hle | hactive)
    · exact .inl hle
    · split at hactive
      · cases hactive
      · exact .inr hactive
  cases h with
  | loop h => rwa [h.table.nextFlow, h.table.active] at hlive
  | close => exact deactivated hlive
  | advance _ h =>
    have hsame := Shared.SameTable.advanceUdpAddress h
    rwa [hsame.nextFlow, hsame.active] at hlive
  | drop =>
    unfold Shared.removeFlowSlot at hlive
    dsimp only at hlive
    split at hlive <;> exact hlive

/-- No flow comes to life again. -/
theorem PacketTask.Case.live {id : ℕ} {t : PacketTask} {r : TaskStep} (h : t.Case id s.shared r) {flow : FlowId}
    (hlive : r.shared.nextFlow ≤ flow ∨ (r.shared.flows flow).active = true) : s.Live flow := by
  cases h with
  | quiet h => rwa [h.table.nextFlow, h.table.active] at hlive
  | leave _ h => rwa [h.nextFlow, h.active] at hlive
  | spawn =>
    simp only [Shared.newFlow, Shared.setFlow, Function.update_apply] at hlive
    rcases hlive with hle | hactive
    · exact .inl (Nat.le_of_succ_le hle)
    · split at hactive
      · rename_i heq
        exact .inl heq.ge
      · exact .inr hactive
  | deactivate =>
    simp only [Shared.deactivate, Shared.setFlow, Function.update_apply] at hlive
    rcases hlive with hle | hactive
    · exact .inl hle
    · split at hactive
      · cases hactive
      · exact .inr hactive
  | drop =>
    unfold Shared.removeFlowSlot at hlive
    dsimp only at hlive
    split at hlive <;> exact hlive
  | _ => exact hlive

/-- The receiver that a task spawns is at its start. -/
theorem PacketTask.Case.receiver_old {id : ℕ} {t : PacketTask} {r : TaskStep} (h : t.Case id s.shared r)
    {flow : FlowId} {receiver : Receiver} (hr : (r.receivers s.receivers).lookup flow = some receiver)
    (hpc : receiver.pc = .advancing) : s.Advancing none flow := by
  cases h with
  | spawn =>
    unfold TaskStep.receivers at hr
    dsimp only at hr
    rw [Dict.lookup_insert_eq] at hr
    split at hr
    · cases hr
      cases hpc
    · exact ⟨receiver, hr, hpc⟩
  | _ => exact ⟨receiver, hr, hpc⟩

/-- `calls` lists the flow of every advance so far; a flow is live, about to be
advanced by one party, or advanced. -/
def Ticketed (calls : List (Option FlowId)) (s : State) : Prop :=
  OneShot s.Live s.Advancing fun flow => calls.count (some flow)

namespace Ticketed
variable {calls : List (Option FlowId)}

theorem initial : Ticketed [] .initial where
  free flow _ := by
    refine ⟨rfl, fun p hp => ?_⟩
    cases p <;> obtain ⟨_, h, -⟩ := hp <;> cases h
  pending _ _ _ := rfl
  unique flow p q hp := by cases p <;> obtain ⟨_, h, -⟩ := hp <;> cases h
  once _ := Nat.zero_le _

theorem count_append (calls : List (Option FlowId)) (call : Option FlowId) (flow : FlowId) :
    (calls ++ [call]).count (some flow) = calls.count (some flow) + if call = some flow then 1 else 0 := by
  rw [List.count_append, List.count_singleton]
  simp only [beq_iff_eq]

/-- A step of another part. -/
theorem other (h : Ticketed calls s) (hs : s.SameFlows s') : Ticketed (calls ++ [none]) s' := by
  refine OneShot.step h none (fun flow hlive => ?_) (fun p flow hp => .inl ?_) fun flow => .inl ?_
  · unfold State.Live at hlive ⊢
    rwa [hs.flows, hs.nextFlow] at hlive
  · cases p with
    | none =>
      obtain ⟨r, hr, hpc⟩ := hp
      exact ⟨r, hs.receivers ▸ hr, hpc⟩
    | some id =>
      obtain ⟨t, ht, hpc⟩ := hp
      rcases hs.tasks id t ht with hold | hstart
      · exact ⟨t, hold, hpc⟩
      · rw [hstart] at hpc
        cases hpc
  · rw [count_append, if_neg (by simp), Nat.add_zero]

theorem taskStep (h : Ticketed calls s) (hsound : s.table.Sound owner) {id : ℕ} {input : TaskInput}
    (hs : s.step config (.task id input) = some (e, s')) : Ticketed (calls ++ [s.advances (.task id input)]) s' := by
  obtain ⟨t, r, ht, hcase, rfl⟩ := State.task_cases hs
  have hadvances : s.advances (.task id input) = t.pc.advances? := by
    rw [State.advances, ht]
    rfl
  have hlive : ∀ flow, (r.shared.nextFlow ≤ flow ∨ (r.shared.flows flow).active = true) → s.Live flow :=
    fun flow => hcase.live
  refine OneShot.step h (some id) hlive (fun p flow hp => ?_) fun flow => ?_
  · cases p with
    | none =>
      obtain ⟨receiver, hr, hpc⟩ := hp
      exact .inl (hcase.receiver_old hr hpc)
    | some id' =>
      obtain ⟨t', ht', hpc⟩ := hp
      dsimp only at ht'
      rw [Dict.lookup_update_eq] at ht'
      split at ht'
      · rename_i hid
        obtain ⟨⟨slot, hrole⟩, hactive, hshared⟩ := hcase.takes ht' hpc
        refine .inr ⟨by rw [hid], .inr hactive, ?_⟩
        have hlt : flow < s.shared.nextFlow := by
          have hok := hsound.users id _ _ (users_lookup ht)
          rw [hrole] at hok
          exact hsound.item_lt hok.1.1 hok.2
        unfold State.Live
        dsimp only
        rw [hshared]
        rintro (hle | hactive')
        · exact absurd hlt (not_lt.mpr hle)
        · simp [Shared.deactivate, Shared.setFlow] at hactive'
      · exact .inl ⟨t', ht', hpc⟩
  · rw [hadvances, count_append]
    split
    · rename_i hpc
      refine .inr ⟨rfl, ⟨t, ht, hpc⟩, ?_⟩
      rintro ⟨t', ht', hpc'⟩
      dsimp only at ht'
      rw [Dict.lookup_update_eq, if_pos rfl] at ht'
      rw [hcase.advances hpc ht'] at hpc'
      cases hpc'
    · exact .inl (Nat.add_zero _)

theorem receiverStep (h : Ticketed calls s) (hsound : s.table.Sound owner) {flow : FlowId} {input : ReceiverInput}
    (hs : s.step config (.receiver flow input) = some (e, s')) :
    Ticketed (calls ++ [s.advances (.receiver flow input)]) s' := by
  obtain ⟨r, result, hr, hcase, rfl⟩ := State.receiver_cases hs
  have hadvances : s.advances (.receiver flow input) = if r.pc = .advancing then some flow else none := by
    rw [State.advances, hr]
    rfl
  have hlt := hsound.guard_lt (guards_lookup hr)
  refine OneShot.step h none (fun flow' => hcase.live) (fun p flow' hp => ?_) fun flow' => ?_
  · cases p with
    | some id => exact .inl hp
    | none =>
      obtain ⟨r', hr', hpc⟩ := hp
      dsimp only at hr'
      rw [Dict.lookup_update_eq] at hr'
      split at hr'
      · rename_i heq
        obtain ⟨hactive, hshared⟩ := hcase.takes hr' hpc
        refine .inr ⟨rfl, .inr (heq ▸ hactive), ?_⟩
        unfold State.Live
        dsimp only
        rw [hshared, heq]
        rintro (hle | hactive')
        · exact absurd hlt (not_lt.mpr hle)
        · simp [Shared.deactivate, Shared.setFlow] at hactive'
      · exact .inl ⟨r', hr', hpc⟩
  · rw [hadvances, count_append]
    by_cases hpc : r.pc = .advancing
    · rw [if_pos hpc]
      split
      · rename_i heq
        cases heq
        refine .inr ⟨rfl, ⟨r, hr, hpc⟩, ?_⟩
        rintro ⟨r', hr', hpc'⟩
        dsimp only at hr'
        rw [Dict.lookup_update_eq, if_pos rfl] at hr'
        exact hcase.advances hpc hr' hpc'
      · exact .inl (Nat.add_zero _)
    · rw [if_neg hpc]
      exact .inl (by simp)

/-- What one step of the server preserves. -/
theorem step (h : Ticketed calls s) (hsound : s.table.Sound owner) {input : Input}
    (hs : s.step config input = some (e, s')) : Ticketed (calls ++ [s.advances input]) s' := by
  cases input with
  | task id input => exact h.taskStep hsound hs
  | receiver flow input => exact h.receiverStep hsound hs
  | _ => exact h.other (State.sameFlows_step hs (by simp) (by simp))

end Ticketed

/-- The server with a record of the flows whose addresses are advanced. -/
def advancing (config : Config) : System State Input (Option FlowId) :=
  (system config).observed State.advances

theorem ticketed_of_reaches {calls : List (Option FlowId)}
    (h : System.Reaches (advancing config) .initial calls s) : Ticketed calls s := by
  induction h with
  | start => exact .initial
  | step hr hi ih =>
    obtain ⟨events, hr⟩ := System.Reaches.of_observed hr
    obtain ⟨owner, htabled⟩ := tabled_of_reaches hr
    obtain ⟨rfl, e, hs⟩ := System.observed_some.mp hi
    exact ih.step htabled.sound hs

/-! ### Flows of a slot -/

/-- The flow that the initialisation of the slot has created, before the cell is
filled and from then on. -/
def State.FlowOf (s : State) (slot : SlotId) (flow : FlowId) : Prop :=
  s.shared.slots slot = .ready (some flow) ∨
    ∃ id t, s.tasks.lookup id = some t ∧ t.pc = .completing slot (some flow)

theorem made_iff {slot : SlotId} {flow : FlowId} (hs : s.table.Sound owner) :
    s.table.Made slot flow ↔ s.FlowOf slot flow := by
  have hcell : s.table.cell slot = .ready flow ↔ s.shared.slots slot = .ready (some flow) := by
    change (s.shared.slots slot).view = .ready flow ↔ _
    cases s.shared.slots slot with
    | ready o => cases o <;> simp [Cell.view]
    | _ => simp [Cell.view]
  unfold OnceTable.Made State.FlowOf
  rw [hcell]
  refine or_congr_right ⟨?_, ?_⟩
  · rintro ⟨id, k, -, hu⟩
    obtain ⟨t, ht, -, hrole⟩ := users_some.mp hu
    refine ⟨id, t, ht, ?_⟩
    cases hpc : t.pc with
    | completing slot' o =>
      rw [hpc] at hrole
      cases o <;> cases hrole
      rfl
    | checking slot' o =>
      rw [hpc] at hrole
      cases o <;> cases hrole
    | _ =>
      rw [hpc] at hrole
      cases hrole
  · rintro ⟨id, t, ht, hpc⟩
    have hu := users_lookup ht
    rw [hpc] at hu
    exact ⟨id, _, (hs.users id _ _ hu).2.1, hu⟩

theorem dead_iff {slot : SlotId} (hs : s.table.Sound owner) (h : s.table.Dead slot) :
    (s.shared.slots slot = .ready none ∨ ∃ flow, s.FlowOf slot flow) ∧
      ∀ flow, s.FlowOf slot flow → (s.shared.flows flow).active = false := by
  rcases h with hfailed | ⟨f, hmade, hinactive⟩
  · have hslot : s.shared.slots slot = .ready none := by
      change (s.shared.slots slot).view = .failed at hfailed
      cases hc : s.shared.slots slot with
      | ready o =>
        rw [hc] at hfailed
        cases o <;> cases hfailed
        rfl
      | _ =>
        rw [hc] at hfailed
        cases hfailed
    refine ⟨.inl hslot, fun flow hflow => ?_⟩
    -- a cell that failed has no flow
    rcases (made_iff hs).mpr hflow with hc | ⟨_, _, hc, -⟩ <;> rw [hfailed] at hc <;> cases hc
  · refine ⟨.inr ⟨f, (made_iff hs).mp hmade⟩, fun flow hflow => ?_⟩
    rw [((made_iff hs).mpr hflow).unique hmade]
    exact hinactive

/-! ### At most one active flow for each target -/

/-- In every run, an active flow belongs to the slot that the table of its
association has under its target; only slots whose initialisation has failed, or
whose flow is no longer active, leave the table; and each flow advances its address once. -/
theorem flows_exclusive (config : Config) {events : List Event} {s : State}
    (h : System.Reaches (system config) .initial events s) :
    (∀ flow, (s.shared.flows flow).active = true → ∃ r, s.receivers.lookup flow = some r ∧
      (s.shared.association r.association).flows.lookup r.target = some r.slot ∧ s.FlowOf r.slot flow) ∧
    (∀ flow flow' r r', (s.shared.flows flow).active = true → (s.shared.flows flow').active = true →
      s.receivers.lookup flow = some r → s.receivers.lookup flow' = some r' →
      r.association = r'.association → r.target = r'.target → flow = flow') ∧
    (∀ input e s' arc target slot, s.step config input = some (e, s') →
      (s.shared.association arc).flows.lookup target = some slot →
      (s'.shared.association arc).flows.lookup target ≠ some slot →
      (s.shared.slots slot = .ready none ∨ ∃ flow, s.FlowOf slot flow) ∧
        ∀ flow, s.FlowOf slot flow → (s.shared.flows flow).active = false) ∧
    (∀ arc, Dict.size (s.shared.association arc).flows ≤ 128 ∧
      Dict.size (s.shared.association arc).preferredAddresses ≤ 128) ∧
    ∀ calls s', System.Reaches (advancing config) .initial calls s' → ∀ flow, calls.count (some flow) ≤ 1 := by
  obtain ⟨owner, htabled⟩ := tabled_of_reaches h
  obtain ⟨hc, ht⟩ := traced_of_reaches h
  have hsound := htabled.sound
  refine ⟨fun flow hactive => ?_, ?_, ?_, htabled.bounded, fun calls s' hrun => (ticketed_of_reaches hrun).once⟩
  · obtain ⟨g, hg, -, hkey⟩ := hsound.items flow hactive
    obtain ⟨r, hr, rfl⟩ := guards_some.mp hg
    exact ⟨r, hr, hkey, (made_iff hsound).mp (hsound.guards flow _ hg).2.1⟩
  · intro flow flow' r r' hactive hactive' hr hr' harc htarget
    exact hsound.active_unique hactive hactive' (guards_lookup hr) (guards_lookup hr')
      (by rw [Receiver.view, Receiver.view, harc, htarget])
  · intro input e s' arc target slot hs hk hgone
    obtain ⟨owner', hstep⟩ := htabled.step hc ht hs
    exact dead_iff hsound ((hstep.kept arc target slot hk).resolve_left hgone)

/-- The flow of a client that waits for a reply. -/
theorem flows_exclusive_reply :
    ∃ events s, (system anonymous).run .initial replyInputs = some (events, s) ∧
      (s.shared.flows 0).active = true ∧ ∃ r, s.receivers.lookup 0 = some r ∧
        (s.shared.association r.association).flows.lookup r.target = some r.slot := by
  obtain ⟨⟨events, s⟩, hrun, hstep⟩ := Option.bind_eq_some_iff.mp run_replyInputs
  obtain ⟨_, -, heq⟩ := Option.map_eq_some_iff.mp hstep
  have hactive := (Prod.mk.inj heq).1
  obtain ⟨r, hr, hlookup, -⟩ := (flows_exclusive anonymous (System.reaches_of_run hrun)).1 0 hactive
  exact ⟨events, s, hrun, hactive, r, hr, hlookup⟩

/-! ### Slots and permits -/

/-- Who refers to a slot of the key `k`. -/
theorem alive_owned {slot : SlotId} (hs : s.table.Sound owner) (h : s.slotAlive slot = true) :
    (∃ target, (s.shared.association (owner slot).1).flows.lookup target = some slot) ∨
      (∃ id t, s.tasks.lookup id = some t ∧ t.association = (owner slot).1) ∨
      ∃ flow r, s.receivers.lookup flow = some r ∧ r.association = (owner slot).1 := by
  unfold State.slotAlive at h
  rw [Bool.or_eq_true, Bool.or_eq_true] at h
  rcases h with (htable | htask) | hreceiver
  · rw [List.any_eq_true] at htable
    obtain ⟨arc, -, htable⟩ := htable
    obtain ⟨⟨target, slot'⟩, hmem, heq⟩ := List.any_eq_true.mp htable
    obtain rfl : slot' = slot := of_decide_eq_true heq
    have hlookup : (s.shared.association arc).flows.lookup target = some slot' := AList.mem_lookup_iff.mpr hmem
    have howner := (hs.keys (arc, target) slot' hlookup).2
    rw [howner]
    exact .inl ⟨target, hlookup⟩
  · obtain ⟨⟨id, t⟩, hmem, heq⟩ := List.any_eq_true.mp htask
    have hlookup : s.tasks.lookup id = some t := AList.mem_lookup_iff.mpr hmem
    have hslot : t.pc.role.slot? = some slot := by
      rw [TaskPc.slot?_role]
      exact of_decide_eq_true heq
    exact .inr (.inl ⟨id, t, hlookup, by rw [(hs.owned (users_lookup hlookup) hslot).2]⟩)
  · obtain ⟨⟨flow, r⟩, hmem, heq⟩ := List.any_eq_true.mp hreceiver
    have hlookup : s.receivers.lookup flow = some r := AList.mem_lookup_iff.mpr hmem
    obtain rfl : r.slot = slot := of_decide_eq_true heq
    have howner : owner r.slot = (r.association, r.target) := (hs.guards flow _ (guards_lookup hlookup)).1.2
    exact .inr (.inr ⟨flow, r, hlookup, by rw [howner]⟩)

/-- In every run, a slot in a flow table is owed by a packet task that has not seen
its cell filled with a flow, or by the receiver of its flow. Behind the last task
and the last receiver of an association its table is empty, and every slot that
was ever in it has given back its permit. -/
theorem slots_returned (config : Config) {events : List Event} {s : State}
    (h : System.Reaches (system config) .initial events s) :
    (∀ arc target slot, (s.shared.association arc).flows.lookup target = some slot →
      (∃ id t, s.tasks.lookup id = some t ∧ t.association = arc ∧ t.target = target ∧ t.pc.role.Owes slot) ∨
        ∃ flow r, s.receivers.lookup flow = some r ∧ r.association = arc ∧ r.target = target ∧ r.slot = slot) ∧
    ∀ arc, (∀ id t, s.tasks.lookup id = some t → t.association ≠ arc) →
      (∀ flow r, s.receivers.lookup flow = some r → r.association ≠ arc) →
      (s.shared.association arc).flows = ∅ ∧
        ∀ before t after target slot, System.Reaches (system config) .initial before t →
          System.Reaches (system config) t after s →
          (t.shared.association arc).flows.lookup target = some slot → s.slotAlive slot = false := by
  obtain ⟨owner, htabled⟩ := tabled_of_reaches h
  have hresponsible : ∀ arc target slot, (s.shared.association arc).flows.lookup target = some slot →
      (∃ id t, s.tasks.lookup id = some t ∧ t.association = arc ∧ t.target = target ∧ t.pc.role.Owes slot) ∨
        ∃ flow r, s.receivers.lookup flow = some r ∧ r.association = arc ∧ r.target = target ∧ r.slot = slot := by
    intro arc target slot hk
    rcases htabled.sound.responsible (k := (arc, target)) hk with ⟨id, role, hu, howes⟩ | ⟨f, g, hg, hkey, hslot, -⟩
    · obtain ⟨t, ht, heq, rfl⟩ := users_some.mp hu
      cases heq
      exact .inl ⟨id, t, ht, rfl, rfl, howes⟩
    · obtain ⟨r, hr, rfl⟩ := guards_some.mp hg
      cases hkey
      exact .inr ⟨f, r, hr, rfl, rfl, hslot⟩
  refine ⟨hresponsible, fun arc htasks hreceivers => ?_⟩
  have hempty : (s.shared.association arc).flows = ∅ := by
    refine Dict.eq_empty fun target => Option.eq_none_iff_forall_ne_some.mpr fun slot hk => ?_
    rcases hresponsible arc target slot hk with ⟨id, t, ht, harc, -⟩ | ⟨flow, r, hr, harc, -⟩
    · exact htasks id t ht harc
    · exact hreceivers flow r hr harc
  refine ⟨hempty, fun before t after target slot hbefore hafter hk => ?_⟩
  obtain ⟨owner₀, htabled₀⟩ := tabled_of_reaches hbefore
  obtain ⟨owner', hagree, -, htabled'⟩ := htabled₀.run hbefore hafter
  obtain ⟨hlt, howner⟩ := htabled₀.sound.keys (arc, target) slot hk
  have howner' : owner' slot = (arc, target) := (hagree slot hlt).trans howner
  refine Bool.eq_false_of_not_eq_true fun halive => ?_
  rcases alive_owned htabled'.sound halive with ⟨target', hk'⟩ | ⟨id, task, ht, harc⟩ | ⟨flow, r, hr, harc⟩
  · rw [howner', hempty] at hk'
    cases hk'
  · exact htasks id task ht (by rw [harc, howner'])
  · exact hreceivers flow r hr (by rw [harc, howner'])

/-- A packet task creates a slot and finds no socket for it. -/
def failingInputs : List Input :=
  [.task 0 .go, .task 0 (.lookedUp (.ok [])), .task 0 .go, .task 0 (.bound false), .task 0 .go, .task 0 .go,
    .task 0 .go]

def openingInputs : List TaskInput :=
  [.go, .go, .go, .lookedUp (.ok []), .go, .bound true, .go, .go, .go, .go, .go, .sent true, .go]

/-- The next datagram for 198.51.100.1:53 opens a flow in a slot of its own. -/
def reopeningInputs : List Input :=
  [.loop (.received clientRelay [0, 0, 0, 1, 198, 51, 100, 1, 0, 53, 4, 5, 6]), .loop .go, .loop .go] ++
    openingInputs.map (.task 1)

/-- A receiver whose socket fails, up to the slot that it gives back. -/
def leavingInputs (target : Target) : List ReceiverInput :=
  [.go, .go, .go, .receiveError, .go, .oldest target, .go]

theorem slots_returned_failing :
    ∃ first t second u third s,
      (system anonymous).run .initial (relayInputs ++ [.task 0 .go, .task 0 .go]) = some (first, t) ∧
      (system anonymous).run t (failingInputs ++ reopeningInputs) = some (second, u) ∧
      (system anonymous).run u
        ((leavingInputs ⟨.ip (.v4 ⟨#v[198, 51, 100, 1]⟩), 53⟩).map (.receiver 0)) = some (third, s) ∧
      (t.shared.association 1).flows.lookup ⟨.ip (.v4 ⟨#v[198, 51, 100, 1]⟩), 53⟩ = some 0 ∧
      (u.shared.association 1).flows.lookup ⟨.ip (.v4 ⟨#v[198, 51, 100, 1]⟩), 53⟩ = some 1 ∧
      (∃ flow r, u.receivers.lookup flow = some r ∧ r.slot = 1) ∧
      (s.shared.association 1).flows = ∅ ∧ s.slotAlive 0 = false ∧ s.slotAlive 1 = false := by
  have hrun : (((system anonymous).run .initial (relayInputs ++ [.task 0 .go, .task 0 .go])).bind fun r =>
      ((system anonymous).run r.2 (failingInputs ++ reopeningInputs)).bind fun r' =>
        ((system anonymous).run r'.2
          ((leavingInputs ⟨.ip (.v4 ⟨#v[198, 51, 100, 1]⟩), 53⟩).map (.receiver 0))).map fun r'' =>
          decide ((r.2.shared.association 1).flows.lookup ⟨.ip (.v4 ⟨#v[198, 51, 100, 1]⟩), 53⟩ = some 0 ∧
            (r'.2.shared.association 1).flows.lookup ⟨.ip (.v4 ⟨#v[198, 51, 100, 1]⟩), 53⟩ = some 1 ∧
            Dict.size r'.2.tasks = 0 ∧ Dict.size r''.2.tasks = 0 ∧ Dict.size r''.2.receivers = 0)) = some true := by
    decide +kernel
  obtain ⟨⟨first, t⟩, hfirst, hrun⟩ := Option.bind_eq_some_iff.mp hrun
  obtain ⟨⟨second, u⟩, hsecond, hrun⟩ := Option.bind_eq_some_iff.mp hrun
  obtain ⟨⟨third, s⟩, hthird, hend⟩ := Option.map_eq_some_iff.mp hrun
  obtain ⟨hslot, hslot', hnone, htasks, hreceivers⟩ := of_decide_eq_true hend
  have hfirst' := System.reaches_of_run hfirst
  have hsecond' := System.reaches_of_run hsecond
  have hthird' := System.reaches_of_run hthird
  have hreceiver : ∃ flow r, u.receivers.lookup flow = some r ∧ r.slot = 1 := by
    rcases (slots_returned anonymous (hfirst'.trans hsecond')).1 1 _ 1 hslot' with
      ⟨id, task, ht, -⟩ | ⟨flow, r, hr, -, -, hr1⟩
    · cases (Dict.size_eq_zero_iff.mp hnone id).symm.trans ht
    · exact ⟨flow, r, hr, hr1⟩
  obtain ⟨hempty, hfreed⟩ := (slots_returned anonymous (hfirst'.trans (hsecond'.trans hthird'))).2 1
    (fun id task ht => nomatch (Dict.size_eq_zero_iff.mp htasks id).symm.trans ht)
    (fun flow r hr => nomatch (Dict.size_eq_zero_iff.mp hreceivers flow).symm.trans hr)
  exact ⟨first, t, second, u, third, s, hfirst, hsecond, hthird, hslot, hslot', hreceiver, hempty,
    hfreed first t _ _ 0 hfirst' (hsecond'.trans hthird') hslot,
    hfreed _ u _ _ 1 (hfirst'.trans hsecond') hthird' hslot'⟩

/-! ### A run with two addresses -/

/-- The domain "a" with port 53, for the first association. -/
def domainKey : FlowKey := (1, ⟨.domain "a", 53⟩)

def domainAddresses : List SocketAddr := [.v4 (.new 198 51 100 1) 53, .v4 (.new 198 51 100 2) 53]

/-- A packet task from an empty table to the spawned receiver of a flow. -/
def spawnInputs : List TaskInput :=
  [.go, .go, .lookedUp (.ok [.v4 (.new 198 51 100 1), .v4 (.new 198 51 100 2)]), .go, .bound true,
    .oldest domainKey.2, .go]

/-- A packet task whose first send fails, up to its second flow. -/
def failoverInputs : List TaskInput :=
  .go :: spawnInputs ++ [.go, .go, .go, .go, .sent false, .go, .oldest domainKey.2, .go, .go] ++ spawnInputs

/-- The client connects, associates and sends three bytes to the domain. -/
def domainInputs : List Input :=
  .accept clientControl :: associateInputs.map (.handler 1) ++
    [.loop (.received clientRelay [0, 0, 0, 3, 1, 97, 0, 53, 1, 2, 3]), .loop .go, .loop .go]

end Brume.Server
