import Brume.Server.FlowLifetime
import Brume.Server.Moves

/-!
# Whose flow a flow is

A flow belongs to one target of one association, in the hands of every task, in
every cell and for its receiver. So what the tasks and receivers of other targets
do leaves it alone.
-/

namespace Brume.Server
open Lib

def PacketTask.key (t : PacketTask) : FlowKey := (t.association, t.target)

def Receiver.key (r : Receiver) : FlowKey := (r.association, r.target)

variable {config : Config} {events : List Event} {s s' : State} {e : Event} {owner owner' : SlotId → FlowKey}

/-! ### Steps as moves -/

namespace State

theorem task_moves {id : ℕ} {input : TaskInput} (h : s.step config (.task id input) = some (e, s')) :
    ∃ t r, s.tasks.lookup id = some t ∧ t.Moves id s.flowPermits s.shared t.pc input r ∧ e = .task id r.event ∧
      s' = { s with
        shared := r.shared
        tasks := Dict.update s.tasks id r.task
        receivers := r.receivers s.receivers } := by
  simp only [step] at h
  split at h
  · cases h
  · rename_i t ht
    split at h
    · cases h
    · rename_i r hr
      cases h
      exact ⟨t, r, ht, PacketTask.step_moves hr, rfl, rfl⟩

theorem receiver_moves {flow : FlowId} {input : ReceiverInput}
    (h : s.step config (.receiver flow input) = some (e, s')) :
    ∃ r result, s.receivers.lookup flow = some r ∧ r.Moves flow s.shared input result ∧
      s' = { s with shared := result.shared, receivers := Dict.update s.receivers flow result.receiver } := by
  simp only [step] at h
  split at h
  · cases h
  · rename_i r hr
    split at h
    · cases h
    · rename_i result hresult
      cases h
      exact ⟨r, result, hr, Receiver.step_moves hresult, rfl⟩

/-- The other parts change the registry and the clock. -/
theorem shared_step {input : Input} (hs : s.step config input = some (e, s')) (htask : ∀ id i, input ≠ .task id i)
    (hreceiver : ∀ flow i, input ≠ .receiver flow i) :
    ∃ world now, s'.shared = { s.shared with world, now } := by
  cases input with
  | cancel | tick =>
    cases hs
    exact ⟨_, _, rfl⟩
  | accept peer =>
    simp only [step] at hs
    split at hs
    · cases hs
    · split at hs
      · cases hs
      · cases hs
        exact ⟨_, _, rfl⟩
      · split at hs <;> cases hs <;> exact ⟨_, _, rfl⟩
  | leaveAccept | stopAssociations | join =>
    simp only [step] at hs
    split at hs <;> cases hs
    exact ⟨_, _, rfl⟩
  | handler id input =>
    obtain ⟨c, r, -, -, -, rfl⟩ := step_handler hs
    exact ⟨_, _, rfl⟩
  | loop input =>
    obtain ⟨r, -, -, rfl⟩ := step_loop hs
    exact ⟨_, _, rfl⟩
  | task id i => exact absurd rfl (htask id i)
  | receiver flow i => exact absurd rfl (hreceiver flow i)

/-- The other parts leave the tables of an association alone once a datagram has
been found for it. -/
theorem tables_step (hc : Controlled events s) {input : Input} (hs : s.step config input = some (e, s'))
    (htask : ∀ id i, input ≠ .task id i) (hreceiver : ∀ flow i, input ≠ .receiver flow i) {arc : Arc}
    (hend : (s.shared.association arc).endpoint ≠ none) :
    (s'.shared.association arc).flows = (s.shared.association arc).flows ∧
      (s'.shared.association arc).preferredAddresses = (s.shared.association arc).preferredAddresses := by
  cases input with
  | cancel | tick =>
    cases hs
    exact ⟨rfl, rfl⟩
  | accept peer =>
    simp only [step] at hs
    split at hs
    · cases hs
    · split at hs
      · cases hs
      · cases hs
        exact ⟨rfl, rfl⟩
      · split at hs <;> cases hs <;> exact ⟨rfl, rfl⟩
  | leaveAccept | join =>
    simp only [step] at hs
    split at hs <;> cases hs
    exact ⟨rfl, rfl⟩
  | stopAssociations =>
    simp only [step] at hs
    split at hs <;> cases hs
    exact World.sameFlows_stopEntries s.shared.world arc
  | handler id input =>
    rcases hc.handler_flows hs with hsame | ⟨a, hnone, -, -, hworld⟩
    · exact hsame arc
    · have harc : arc ≠ id := by
        rintro rfl
        exact hend hnone
      have hheap : s'.shared.association arc = s.shared.association arc := by
        rw [Shared.association, hworld]
        exact (Heap.set_apply _ _ _ _).trans (if_neg harc)
      rw [hheap]
      exact ⟨rfl, rfl⟩
  | loop input =>
    obtain ⟨r, hspec, -, rfl⟩ := step_loop hs
    change (r.world.heap arc).flows = (s.shared.world.heap arc).flows ∧
      (r.world.heap arc).preferredAddresses = (s.shared.world.heap arc).preferredAddresses
    rcases hspec.world with hworld | ⟨source, bytes, target, payload, association, hevent⟩
    · rw [hworld]
      exact ⟨rfl, rfl⟩
    · have hfind := (hspec.found _ _ _ _ _ hevent).2
      have hworld : r.world = (s.shared.world.find source).2 := by rw [hfind]
      rw [hworld]
      exact World.sameFlows_find hc.wellFormed source arc
  | task id i => exact absurd rfl (htask id i)
  | receiver flow i => exact absurd rfl (hreceiver flow i)

/-- The steps of others leave a packet task alone. -/
theorem tasks_step (ht : ∀ id t, s.tasks.lookup id = some t → id < s.nextTask) {input : Input}
    (hs : s.step config input = some (e, s')) {id : ℕ} {t : PacketTask} (h : s.tasks.lookup id = some t)
    (htask : ∀ i, input ≠ .task id i) : s'.tasks.lookup id = some t := by
  cases input with
  | cancel | tick =>
    cases hs
    exact h
  | accept peer =>
    simp only [step] at hs
    split at hs
    · cases hs
    · split at hs
      · cases hs
      · cases hs
        exact h
      · split at hs <;> cases hs <;> exact h
  | leaveAccept | stopAssociations | join =>
    simp only [step] at hs
    split at hs <;> cases hs
    exact h
  | handler id' input =>
    obtain ⟨c, r, -, -, -, rfl⟩ := step_handler hs
    exact h
  | loop input =>
    obtain ⟨r, hspec, -, rfl⟩ := step_loop hs
    dsimp only
    cases r.task with
    | none => exact h
    | some task =>
      have hlt := ht id t h
      dsimp only
      rw [Dict.lookup_insert_eq, if_neg hlt.ne, h]
  | task id' i =>
    obtain ⟨t', r, -, -, -, rfl⟩ := task_moves hs
    have hne : id ≠ id' := by
      rintro rfl
      exact htask i rfl
    dsimp only
    rw [Dict.lookup_update_eq, if_neg hne, h]
  | receiver flow i =>
    obtain ⟨r, result, -, -, rfl⟩ := receiver_moves hs
    exact h

/-- Flows keep their addresses. -/
theorem sameAddress_step {input : Input} (hs : s.step config input = some (e, s')) {flow : FlowId}
    (hlt : flow < s.shared.nextFlow) :
    flow < s'.shared.nextFlow ∧ (s.shared.flows flow).SameAddress (s'.shared.flows flow) := by
  cases input with
  | task id input =>
    obtain ⟨t, r, -, hmove, -, rfl⟩ := task_moves hs
    exact ⟨hlt.trans_le hmove.nextFlow, hmove.sameAddress hlt⟩
  | receiver flow' input =>
    obtain ⟨r, result, -, hmove, rfl⟩ := receiver_moves hs
    exact ⟨hlt.trans_eq hmove.nextFlow.symm, hmove.sameAddress flow⟩
  | _ =>
    obtain ⟨world, now, hshared⟩ := shared_step hs (by simp) (by simp)
    rw [hshared]
    exact ⟨hlt, .of_flows rfl flow⟩

end State

/-- An association that a datagram has been found for stays one. -/
theorem endpoint_kept (h : System.Reaches (system config) .initial events s) {input : Input}
    (hs : s.step config input = some (e, s')) {arc : Arc} (hend : (s.shared.association arc).endpoint ≠ none) :
    (s'.shared.association arc).endpoint ≠ none := by
  obtain ⟨-, ht⟩ := traced_of_reaches h
  obtain ⟨-, ht'⟩ := traced_of_reaches (h.step hs)
  obtain ⟨source, hsource⟩ := Option.ne_none_iff_exists'.mp hend
  obtain ⟨target, hfound⟩ := ht.endpoint arc source hsource
  obtain ⟨b, hb, -⟩ := ht'.bound source target arc (hfound.mono e)
  intro hnone
  rw [Shared.association, hb] at hnone
  cases hnone

/-! ### Keys of flows -/

/-- `key` names the target that every flow so far was made for. -/
structure Keyed (owner : SlotId → FlowKey) (key : FlowId → FlowKey) (s : State) : Prop where
  tasks : ∀ id t flow, s.tasks.lookup id = some t → t.pc.flow? = some flow →
    flow < s.shared.nextFlow ∧ key flow = t.key
  cells : ∀ slot flow, slot < s.shared.nextSlot → s.shared.slots slot = .ready (some flow) →
    flow < s.shared.nextFlow ∧ key flow = owner slot
  receivers : ∀ flow r, s.receivers.lookup flow = some r → flow < s.shared.nextFlow ∧ key flow = r.key

namespace Keyed
variable {key : FlowId → FlowKey}

theorem initial (owner : SlotId → FlowKey) (key : FlowId → FlowKey) : Keyed owner key .initial where
  tasks id t _ ht := absurd ht (State.lookup_initial_tasks id t)
  cells _ _ h := absurd h (Nat.not_lt_zero _)
  receivers flow r hr := absurd hr (State.lookup_initial_receivers flow r)

theorem other (h : Keyed owner key s) {input : Input} (hs : s.step config input = some (e, s'))
    (htask : ∀ id i, input ≠ .task id i) (hreceiver : ∀ flow i, input ≠ .receiver flow i) : Keyed owner key s' := by
  obtain ⟨world, now, hshared⟩ := State.shared_step hs htask hreceiver
  have hsame := State.sameFlows_step hs htask hreceiver
  refine ⟨fun id t flow ht hflow => ?_, fun slot flow hlt hc => ?_, fun flow r hr => ?_⟩
  · rcases hsame.tasks id t ht with hold | hstart
    · rw [hshared]
      exact h.tasks id t flow hold hflow
    · rw [hstart] at hflow
      cases hflow
  · rw [hshared] at hlt hc ⊢
    exact h.cells slot flow hlt hc
  · rw [hshared]
    rw [hsame.receivers] at hr
    exact h.receivers flow r hr

theorem taskStep (h : Keyed owner key s) (ht : Tabled owner s) (hev : Evolves owner s owner' s') {id : ℕ}
    {input : TaskInput} (hs : s.step config (.task id input) = some (e, s')) :
    ∃ key', (∀ flow < s.shared.nextFlow, key' flow = key flow) ∧ Keyed owner' key' s' := by
  obtain ⟨t, r, hlookup, hmove, -, rfl⟩ := State.task_moves hs
  -- the flow that the task holds from now on
  refine ⟨Function.update key s.shared.nextFlow t.key, fun flow hlt => Function.update_of_ne hlt.ne _ _, ?_⟩
  have hlt' : ∀ flow, flow < s.shared.nextFlow → flow < r.shared.nextFlow := fun _ hlt => hlt.trans_le hmove.nextFlow
  have hkept : ∀ flow k, flow < s.shared.nextFlow ∧ key flow = k →
      flow < r.shared.nextFlow ∧ Function.update key s.shared.nextFlow t.key flow = k := by
    rintro flow k ⟨hlt, hkey⟩
    exact ⟨hlt' flow hlt, (Function.update_of_ne hlt.ne _ _).trans hkey⟩
  refine ⟨fun id' t' flow ht' hflow => ?_, fun slot flow hlt hc => ?_, fun flow receiver hr => ?_⟩
  · dsimp only at ht' ⊢
    rw [Dict.lookup_update_eq] at ht'
    split at ht'
    · have hpacket := hmove.packet ht'
      have hkey : t'.key = t.key := by rw [PacketTask.key, PacketTask.key, hpacket.1, hpacket.2.1]
      rw [hkey]
      rcases hmove.flow? ht' hflow with hold | ⟨slot, hpc, hc⟩ | ⟨rfl, hnext⟩
      · exact hkept flow _ (h.tasks id t flow hlookup hold)
      · have howned := ht.sound.users id _ _ (users_lookup hlookup)
        rw [hpc] at howned
        obtain ⟨hlt, howner⟩ : slot < s.shared.nextSlot ∧ owner slot = t.key := howned
        exact hkept flow _ (howner ▸ h.cells slot flow hlt hc)
      · exact ⟨hnext ▸ Nat.lt_succ_self _, Function.update_self _ _ _⟩
    · exact hkept flow _ (h.tasks id' t' flow ht' hflow)
  · rcases hmove.slot_lt hlt with hold | hempty
    · rw [hev.owner slot hold]
      rcases hmove.cell hc with hc | hpc
      · exact hkept flow _ (h.cells slot flow hold hc)
      · -- the task fills the slot it holds with the flow it has made
        have howned := ht.sound.owned (users_lookup hlookup) ((TaskPc.slot?_role t.pc).trans (by rw [hpc]; rfl))
        rw [howned.2]
        exact hkept flow _ (h.tasks id t flow hlookup (by rw [hpc]; rfl))
    · change r.shared.slots slot = _ at hc
      rw [hempty] at hc
      cases hc
  · generalize hpc : t.pc = pc at hmove
    cases hmove with
    | spawn =>
      dsimp only [TaskStep.receivers] at hr
      rw [Dict.lookup_insert_eq] at hr
      split at hr
      · rename_i heq
        cases hr
        rw [heq]
        exact ⟨Nat.lt_succ_self _, Function.update_self _ _ _⟩
      · exact hkept flow _ (h.receivers flow receiver hr)
    | _ => exact hkept flow _ (h.receivers flow receiver hr)

theorem receiverStep (h : Keyed owner key s) {flow : FlowId} {input : ReceiverInput}
    (hs : s.step config (.receiver flow input) = some (e, s')) : Keyed owner key s' := by
  obtain ⟨r, result, hlookup, hmove, rfl⟩ := State.receiver_moves hs
  have hslots := hmove.slots
  have hnextSlot := hmove.nextSlot
  have hnextFlow := hmove.nextFlow
  refine ⟨fun id t flow' ht hflow => ?_, fun slot flow' hlt hc => ?_, fun flow' r' hr' => ?_⟩ <;> dsimp only at *
  · rw [hnextFlow]
    exact h.tasks id t flow' ht hflow
  · rw [hnextSlot] at hlt
    rw [hslots] at hc
    rw [hnextFlow]
    exact h.cells slot flow' hlt hc
  · rw [hnextFlow]
    rw [Dict.lookup_update_eq] at hr'
    split at hr'
    · rename_i heq
      obtain ⟨hassociation, htarget, -⟩ := hmove.packet hr'
      rw [heq, Receiver.key, hassociation, htarget]
      exact h.receivers flow r hlookup
    · exact h.receivers flow' r' hr'

/-- What one step of the server preserves. -/
theorem step (h : Keyed owner key s) (ht : Tabled owner s) (hev : Evolves owner s owner' s') {input : Input}
    (hs : s.step config input = some (e, s')) :
    ∃ key', (∀ flow < s.shared.nextFlow, key' flow = key flow) ∧ Keyed owner' key' s' := by
  have hother : Keyed owner key s' → s'.shared.nextSlot = s.shared.nextSlot →
      ∃ key', (∀ flow < s.shared.nextFlow, key' flow = key flow) ∧ Keyed owner' key' s' := by
    intro h' hnext
    refine ⟨key, fun _ _ => rfl, h'.tasks, fun slot flow hlt hc => ?_, h'.receivers⟩
    rw [hev.owner slot (hlt.trans_eq hnext)]
    exact h'.cells slot flow hlt hc
  cases input with
  | task id input => exact h.taskStep ht hev hs
  | receiver flow input =>
    have h' := h.receiverStep hs
    obtain ⟨r, result, -, hmove, rfl⟩ := State.receiver_moves hs
    exact hother h' hmove.nextSlot
  | _ =>
    obtain ⟨world, now, hshared⟩ := State.shared_step hs (by simp) (by simp)
    exact hother (h.other hs (by simp) (by simp)) (by rw [hshared])

end Keyed

theorem keyed_of_reaches (h : System.Reaches (system config) .initial events s) :
    ∃ owner key, Tabled owner s ∧ Keyed owner key s := by
  induction h with
  | start => exact ⟨fun _ => (0, ⟨.domain "", 0⟩), fun _ => (0, ⟨.domain "", 0⟩), .initial _, .initial _ _⟩
  | step hr hi ih =>
    obtain ⟨owner, key, htabled, hkeyed⟩ := ih
    obtain ⟨hc, ht⟩ := traced_of_reaches hr
    obtain ⟨owner', hev⟩ := htabled.step hc ht hi
    obtain ⟨key', -, hkeyed'⟩ := hkeyed.step htabled hev hi
    exact ⟨owner', key', hev.tabled, hkeyed'⟩

end Brume.Server
