import Brume.Server.FlowTable

/-!
# Flows in every run
-/

namespace Brume.Server
open Lib

variable {config : Config} {events : List Event} {s s' : State} {e : Event} {owner : SlotId → FlowKey}

/-- The receivers behind a step of a task. -/
def TaskStep.receivers (r : TaskStep) (old : Dict FlowId Receiver) : Dict FlowId Receiver :=
  match r.receiver with
  | some (flow, receiver) => old.insert flow receiver
  | none => old

namespace State

theorem task_cases {id : ℕ} {input : TaskInput} (h : s.step config (.task id input) = some (e, s')) :
    ∃ t r, s.tasks.lookup id = some t ∧ t.Case id s.shared r ∧ s' = { s with
      shared := r.shared
      tasks := Dict.update s.tasks id r.task
      receivers := r.receivers s.receivers } := by
  simp only [step] at h
  split at h
  · cases h
  · rename_i t ht
    split at h
    · cases h
    · rename_i r hr
      cases h
      exact ⟨t, r, ht, PacketTask.step_cases hr, rfl⟩

theorem receiver_cases {flow : FlowId} {input : ReceiverInput}
    (h : s.step config (.receiver flow input) = some (e, s')) :
    ∃ r result, s.receivers.lookup flow = some r ∧ r.Case flow s.shared input result ∧
      s' = { s with shared := result.shared, receivers := Dict.update s.receivers flow result.receiver } := by
  simp only [step] at h
  split at h
  · cases h
  · rename_i r hr
    split at h
    · cases h
    · rename_i result hresult
      cases h
      exact ⟨r, result, hr, Receiver.step_cases hresult, rfl⟩

end State

/-- The invariant of the flow tables. `owner` names the key of every slot so far. -/
structure Tabled (owner : SlotId → FlowKey) (s : State) : Prop where
  sound : s.table.Sound owner
  bounded : s.shared.Bounded
  rooted : s.shared.Rooted
  tasks : ∀ id t, s.tasks.lookup id = some t → id < s.nextTask

namespace Tabled

theorem initial (owner : SlotId → FlowKey) : Tabled owner .initial where
  sound := OnceTable.sound_empty owner (fun _ => rfl) (fun _ => rfl) (fun _ => rfl) (fun _ => rfl) rfl
  bounded _ := ⟨Nat.zero_le _, Nat.zero_le _⟩
  rooted _ _ _ := rfl
  tasks id t ht := absurd ht (State.lookup_initial_tasks id t)

end Tabled

/-! ### Steps as operations of the table -/

section
variable {id : ℕ} {t : PacketTask}

theorem users_lookup (ht : s.tasks.lookup id = some t) :
    s.table.user id = some ((t.association, t.target), t.pc.role) :=
  users_some.mpr ⟨t, ht, rfl, rfl⟩

theorem guards_lookup {flow : FlowId} {r : Receiver} (hr : s.receivers.lookup flow = some r) :
    s.table.guard flow = some r.view :=
  guards_some.mpr ⟨r, hr, rfl⟩

/-- A task removes dead slots only. -/
theorem dead_of_role (hs : s.table.Sound owner) (ht : s.tasks.lookup id = some t) {slot : SlotId}
    (hrole : t.pc.role = .discarding slot ∨ t.pc.role = .retiring slot) : s.table.Dead slot := by
  have hok := hs.users id _ _ (users_lookup ht)
  rcases hrole with h | h <;> rw [h] at hok
  · exact .inl hok.2
  · obtain ⟨f, hf, hactive⟩ := hok.2
    exact .inr ⟨f, .inl hf, hactive⟩

/-- A task takes out the slot that it knows to be dead, and starts again or ends. -/
theorem sound_drop (hs : s.table.Sound owner) (ht : s.tasks.lookup id = some t) {slot : SlotId}
    (hrole : t.pc.role = .discarding slot ∨ t.pc.role = .retiring slot) {next : Option PacketTask}
    (hnext : ∀ t', next = some t' →
      t'.association = t.association ∧ t'.target = t.target ∧ t'.pc = .lockingFlows) :
    ((s.shared.removeFlowSlot t.association t.target slot).table
      (Function.update (users s.tasks) id (next.map PacketTask.view)) (guards s.receivers)).Sound owner := by
  have hu := users_lookup ht
  have hdead := dead_of_role hs ht hrole
  have hfree : (s.table.remove (t.association, t.target) slot).Free (t.association, t.target) t.pc.role := by
    rcases hrole with h | h <;> rw [h]
    · exact OnceTable.remove_key s.table _ slot
    · trivial
  have hview : next.map PacketTask.view =
      (next.map fun _ => OnceTable.Role.idle).map ((t.association, t.target), ·) := by
    cases next with
    | none => rfl
    | some t' =>
      obtain ⟨ha, htarget, hpc⟩ := hnext t' rfl
      simp [PacketTask.view, ha, htarget, hpc, TaskPc.role]
  have hsound := (hs.remove hdead).assign ((OnceTable.remove_user s.table _ slot).symm ▸ hu) hfree
    (next.map fun _ => .idle) (by
      intro role' hrole'
      cases next <;> cases hrole'
      trivial)
  rw [← OnceTable.remove_assign] at hsound
  rw [Shared.table_removeFlowSlot, hview]
  exact hsound

/-- The step of a task is an operation of the table. -/
theorem PacketTask.Case.sound {r : TaskStep} (h : t.Case id s.shared r) (hs : s.table.Sound owner)
    (ht : s.tasks.lookup id = some t) :
    ∃ owner', (∀ slot < s.shared.nextSlot, owner' slot = owner slot) ∧
      (r.shared.table (Function.update (users s.tasks) id (r.task.map PacketTask.view))
        (guards (r.receivers s.receivers))).Sound owner' := by
  have hu := users_lookup ht
  have hok := hs.users id _ _ hu
  cases h with
  | create hidle h hsize =>
    rw [hidle] at hu
    refine ⟨Function.update owner s.shared.nextSlot (t.association, t.target), fun slot hlt => ?_, ?_⟩
    · exact Function.update_of_ne hlt.ne _ _
    · have hsound := hs.insert hu h
      rw [State.table, ← s.shared.table_newSlot] at hsound
      exact hsound
  | drop hrole hnext => exact ⟨owner, fun _ _ => rfl, sound_drop hs ht hrole hnext⟩
  | quiet h =>
    rename_i t' s'
    have hview : t'.view = ((t.association, t.target), t.pc.role) := by
      rw [PacketTask.view, h.association, h.target, h.role]
    have hsame : Function.update (users s.tasks) id (some t'.view) = users s.tasks := by
      rw [hview, ← hu]
      exact Function.update_eq_self id _
    refine ⟨owner, fun _ _ => rfl, ?_⟩
    dsimp only [Option.map_some]
    rw [hsame, h.table.table_eq]
    exact hs
  | leave hrole h =>
    have hfree : s.table.Free (t.association, t.target) t.pc.role := by
      rcases hrole with h | ⟨_, _, h⟩ <;> rw [h] <;> trivial
    refine ⟨owner, fun _ _ => rfl, ?_⟩
    rw [h.table_eq]
    exact hs.assign hu hfree none (by simp)
  | take hidle h =>
    rename_i slot
    rw [hidle] at hu
    have howned : s.table.Owned owner (t.association, t.target) slot := hs.keys (t.association, t.target) slot h
    exact ⟨owner, fun _ _ => rfl, hs.assign hu trivial (some (.waiting slot)) (by rintro _ ⟨⟩; exact howned)⟩
  | claim hwait h =>
    rename_i slot
    rw [hwait] at hu
    have hc : s.table.cell slot = .empty := congrArg Cell.view h
    refine ⟨owner, fun _ _ => rfl, ?_⟩
    dsimp only
    rw [Shared.table_setSlot]
    exact hs.claim hu hc
  | see hwait h =>
    rename_i slot flow
    rw [hwait] at hu hok
    have hc : s.table.cell slot = (Cell.ready flow).view := congrArg Cell.view h
    have hfree : s.table.Free (t.association, t.target) (.waiting slot) := by
      change s.table.cell slot ≠ .empty
      rw [hc]
      cases flow <;> simp [Cell.view]
    have hnew : s.table.RoleOk owner id (t.association, t.target) (TaskPc.checking slot flow).role := by
      cases flow <;> exact ⟨hok, hc⟩
    exact ⟨owner, fun _ _ => rfl,
      hs.assign hu hfree (some (TaskPc.checking slot flow).role) (by rintro _ ⟨⟩; exact hnew)⟩
  | spawn hfill =>
    rename_i slot destination index count
    rw [hfill] at hu
    have hsound := hs.make hu
    have hflow : (⟨destination, s.shared.now, true, false, index, count⟩ : Flow).active = true := rfl
    have hguards : guards (s.receivers.insert s.shared.nextFlow (.new t.association slot t.target destination)) =
        Function.update (guards s.receivers) s.shared.nextFlow (some ⟨(t.association, t.target), slot, false⟩) :=
      guards_update s.receivers s.shared.nextFlow (some (.new t.association slot t.target destination))
    rw [State.table, ← s.shared.table_newFlow _ _ hflow] at hsound
    refine ⟨owner, fun _ _ => rfl, ?_⟩
    dsimp only [TaskStep.receivers]
    rw [hguards]
    exact hsound
  | complete hpc =>
    rename_i slot flow
    rw [hpc] at hu
    refine ⟨owner, fun _ _ => rfl, ?_⟩
    dsimp only
    rw [Shared.table_setSlot]
    cases flow with
    | none => exact hs.fail hu
    | some flow => exact hs.publish hu
  | stale hhold h =>
    rename_i slot flow
    rw [hhold] at hu hok
    have hnew : s.table.RoleOk owner id (t.association, t.target) (.retiring slot) := ⟨hok.1, flow, hok.2, h⟩
    exact ⟨owner, fun _ _ => rfl, hs.assign hu trivial (some (.retiring slot)) (by rintro _ ⟨⟩; exact hnew)⟩
  | deactivate hhold =>
    rename_i slot flow
    rw [hhold] at hu hok
    have hrole : (if (s.shared.flows flow).active = true then TaskPc.advancing slot flow
        else TaskPc.stopping slot flow).role = .retiring slot := by
      split <;> rfl
    have hnew : (s.table.deactivate flow).RoleOk owner id (t.association, t.target) (.retiring slot) :=
      ⟨hok.1, flow, hok.2, Function.update_self _ _ _⟩
    have hsound := (hs.deactivate flow).assign hu trivial (some (.retiring slot)) (by rintro _ ⟨⟩; exact hnew)
    refine ⟨owner, fun _ _ => rfl, ?_⟩
    dsimp only [Option.map_some]
    rw [Shared.table_deactivate, PacketTask.view]
    dsimp only
    rw [hrole]
    exact hsound

/-- The slots of the table stay, or are dead. -/
theorem PacketTask.Case.kept {r : TaskStep} (h : t.Case id s.shared r) (hs : s.table.Sound owner)
    (ht : s.tasks.lookup id = some t) {arc : Arc} {target : Target} {slot : SlotId}
    (hk : (s.shared.association arc).flows.lookup target = some slot) :
    (r.shared.association arc).flows.lookup target = some slot ∨ s.table.Dead slot := by
  cases h with
  | quiet h => exact .inl (by rwa [h.table.flows])
  | leave _ h => exact .inl (by rwa [h.flows])
  | create _ hnone => exact .inl (s.shared.newSlot_kept hnone hk)
  | drop hrole =>
    rename_i removed _ _
    rcases s.shared.removeFlowSlot_kept t.association t.target removed hk with hk | rfl
    · exact .inl hk
    · exact .inr (dead_of_role hs ht hrole)
  | _ => exact .inl hk

theorem PacketTask.Case.nextSlot {r : TaskStep} (h : t.Case id s.shared r) :
    s.shared.nextSlot ≤ r.shared.nextSlot := by
  cases h with
  | quiet h => exact h.table.nextSlot.ge
  | leave _ h => exact h.nextSlot.ge
  | create => exact Nat.le_succ _
  | drop =>
    dsimp only
    unfold Shared.removeFlowSlot
    dsimp only
    split <;> exact le_refl _
  | _ => exact le_refl _

end

section
variable {flow : FlowId} {r : Receiver} {input : ReceiverInput} {result : ReceiverStep}

/-- A receiver removes its slot when its flow is no longer active. -/
theorem dead_of_dropping (hs : s.table.Sound owner) (hr : s.receivers.lookup flow = some r) (hpc : r.pc = .dropping) :
    s.table.active flow = false ∧ s.table.Dead r.slot := by
  obtain ⟨-, hmade, hretired⟩ := hs.guards flow _ (guards_lookup hr)
  have hinactive := hretired (by rw [Receiver.view, hpc]; rfl)
  exact ⟨hinactive, .inr ⟨flow, hmade, hinactive⟩⟩

theorem Receiver.Case.kept (h : r.Case flow s.shared input result) (hs : s.table.Sound owner)
    (hr : s.receivers.lookup flow = some r) {arc : Arc} {target : Target} {slot : SlotId}
    (hk : (s.shared.association arc).flows.lookup target = some slot) :
    (result.shared.association arc).flows.lookup target = some slot ∨ s.table.Dead slot := by
  cases h with
  | loop h => exact .inl (by rwa [h.table.flows])
  | close => exact .inl hk
  | advance _ h => exact .inl (by rwa [(Shared.SameTable.advanceUdpAddress h).flows])
  | drop hpc =>
    rcases s.shared.removeFlowSlot_kept r.association r.target r.slot hk with hk | rfl
    · exact .inl hk
    · exact .inr (dead_of_dropping hs hr hpc).2

theorem Receiver.Case.nextSlot (h : r.Case flow s.shared input result) :
    s.shared.nextSlot ≤ result.shared.nextSlot := by
  cases h with
  | loop h => exact h.table.nextSlot.ge
  | close => exact le_refl _
  | advance _ h => exact (Shared.SameTable.advanceUdpAddress h).nextSlot.ge
  | drop =>
    dsimp only
    unfold Shared.removeFlowSlot
    dsimp only
    split <;> exact le_refl _

/-- The step of a receiver is an operation of the table. -/
theorem Receiver.Case.sound (h : r.Case flow s.shared input result) (hs : s.table.Sound owner) (hr : s.receivers.lookup flow = some r) :
    (result.shared.table (users s.tasks) (Function.update (guards s.receivers) flow
      (result.receiver.map Receiver.view))).Sound owner := by
  have hg := guards_lookup hr
  cases h with
  | loop h =>
    rename_i event r' s'
    have hloop : r.pc.retired = false ∧ r'.pc.retired = false := by
      have hsource := h.source
      refine ⟨?_, ?_⟩
      · cases hpc : r.pc <;> rw [hpc] at hsource <;> first | rfl | cases hsource
      · rcases h.next with hnext | hnext
        · cases hpc : r'.pc <;> rw [hpc] at hnext <;> first | rfl | cases hnext
        · rw [hnext]
          rfl
    have hview : r'.view = r.view := by
      rw [Receiver.view, Receiver.view, h.association, h.target, h.slot, hloop.1, hloop.2]
    have hguards : Function.update (guards s.receivers) flow (some r'.view) = guards s.receivers := by
      rw [hview, ← hg]
      exact Function.update_eq_self flow _
    dsimp only [Option.map_some]
    rw [hguards, h.table.table_eq]
    exact hs
  | close hpc =>
    have hnew := (hs.deactivate flow).setGuard (o := some ⟨(r.association, r.target), r.slot, true⟩) hg
      (Function.update_self _ _ _) (by rintro _ ⟨⟩; exact ⟨rfl, rfl⟩) (by simp)
    have hview : Receiver.view { r with pc := if (s.shared.flows flow).active && r.failed then .advancing else .dropping } =
        ⟨(r.association, r.target), r.slot, true⟩ := by
      rw [Receiver.view]
      dsimp only
      split <;> rfl
    dsimp only [Option.map_some]
    rw [hview, Shared.table_deactivate]
    exact hnew
  | advance hpc h =>
    have hview : Receiver.view { r with pc := .dropping } = r.view := by
      rw [Receiver.view, Receiver.view, hpc]
      rfl
    have hguards : Function.update (guards s.receivers) flow (some r.view) = guards s.receivers := by
      rw [← hg]
      exact Function.update_eq_self flow _
    dsimp only [Option.map_some]
    rw [hview, hguards, (Shared.SameTable.advanceUdpAddress h).table_eq]
    exact hs
  | drop hpc =>
    obtain ⟨hinactive, hdead⟩ := dead_of_dropping hs hr hpc
    have hsound := (hs.remove (k := (r.association, r.target)) hdead).setGuard (o := none) ((OnceTable.remove_guard s.table _ _).symm ▸ hg)
      ((OnceTable.remove_active s.table _ _).symm ▸ hinactive) (by simp)
      fun _ => OnceTable.remove_key s.table _ _
    dsimp only [Option.map_none]
    rw [Shared.table_removeFlowSlot]
    rw [← OnceTable.remove_setGuard] at hsound
    exact hsound

end

/-! ### Steps of the other parts -/

/-- The flow tables of all associations are the same. -/
def World.SameFlows (w w' : World) : Prop :=
  ∀ arc, (w'.heap arc).flows = (w.heap arc).flows ∧ (w'.heap arc).preferredAddresses = (w.heap arc).preferredAddresses

namespace World

theorem SameFlows.refl (w : World) : w.SameFlows w := fun _ => ⟨rfl, rfl⟩

theorem SameFlows.set (w : World) {arc : Arc} {a : Association} (hf : a.flows = (w.heap arc).flows)
    (hp : a.preferredAddresses = (w.heap arc).preferredAddresses) (registry : AssociationRegistry) :
    w.SameFlows ⟨w.heap.set arc a, registry⟩ := by
  intro arc'
  simp only [Heap.set_apply]
  split
  · rename_i harc
    rw [harc]
    exact ⟨hf, hp⟩
  · exact ⟨rfl, rfl⟩

theorem sameFlows_find {w : World} (hw : w.WellFormed) (source : SocketAddr) : w.SameFlows (w.find source).2 := by
  rcases hw.find_cases source with ⟨id, -, -, -, h⟩ | ⟨id, -, -, -, -, -, h⟩ | ⟨-, -, h⟩ <;> rw [h]
  · exact .set w (a := (w.heap id).bind source) rfl rfl _
  · exact .set w (a := (w.heap id).bind source) rfl rfl _
  · exact .refl w

theorem sameFlows_stopEntries (w : World) : w.SameFlows (State.stopEntries w) := by
  intro arc
  rcases stopEntries_heap w arc with h | h <;> rw [h] <;> exact ⟨rfl, rfl⟩

end World

/-- A handler leaves the flow tables alone, unless it makes an association, which no
datagram has been found for. -/
theorem Controlled.handler_flows (hc : Controlled events s) {id : ℕ} {input : HandlerInput}
    (hs : s.step config (.handler id input) = some (e, s')) :
    s.shared.world.SameFlows s'.shared.world ∨
      ∃ a, (s.shared.association id).endpoint = none ∧ a.flows = ∅ ∧ a.preferredAddresses = ∅ ∧
        s'.shared.world = s.shared.world.alloc id a := by
  obtain ⟨c, r, hlookup, hr, rfl, rfl⟩ := State.step_handler hs
  obtain ⟨peer, st, hst, -, hrun⟩ := hc.stands id
  obtain ⟨rfl, -, ho⟩ := hrun c hlookup
  obtain ⟨hworld, -, st', hafter, -, -⟩ := Connection.step_spec hr ho
  change _ ∨ ∃ a, _ ∧ _ ∧ _ ∧ r.world = _
  change s.shared.world.SameFlows r.world ∨ _
  have hset : ∀ a, a.flows = (s.shared.world.heap id).flows →
      a.preferredAddresses = (s.shared.world.heap id).preferredAddresses →
      s.shared.world.SameFlows { s.shared.world with heap := s.shared.world.heap.set id a } :=
    fun a hf hp => .set _ hf hp _
  rw [hworld]
  cases hevent : r.event with
  | allocated clientIp requestedPort =>
    rw [hevent] at hafter
    have hfresh : st = .fresh := by cases st <;> first | rfl | cases hafter
    exact .inr ⟨.new clientIp requestedPort, hst.unbound (.inl hfresh), rfl, rfl, rfl⟩
  | deadStored | stopCancelled => exact .inl (hset _ rfl rfl)
  | inserted accepted =>
    refine .inl fun arc => ?_
    rw [HandlerEvent.apply, World.insert_heap]
    exact ⟨rfl, rfl⟩
  | removed =>
    refine .inl fun arc => ?_
    rw [HandlerEvent.apply, World.remove_heap]
    exact ⟨rfl, rfl⟩
  | silent | returned => exact .inl (.refl _)

/-- A step of the tables: slots keep their owners, and leave when they are dead. -/
structure Evolves (owner : SlotId → FlowKey) (s : State) (owner' : SlotId → FlowKey) (s' : State) : Prop where
  owner : ∀ slot < s.shared.nextSlot, owner' slot = owner slot
  nextSlot : s.shared.nextSlot ≤ s'.shared.nextSlot
  kept : ∀ arc target slot, (s.shared.association arc).flows.lookup target = some slot →
    (s'.shared.association arc).flows.lookup target = some slot ∨ s.table.Dead slot
  tabled : Tabled owner' s'

namespace Tabled

/-- A step that leaves the tables, the cells and their users alone. -/
theorem other (h : Tabled owner s) {world : World} {now : ℕ}
    (hflows : ∀ arc target, (world.heap arc).flows.lookup target = (s.shared.association arc).flows.lookup target)
    (hbounded : ∀ arc, Dict.size (world.heap arc).flows ≤ MAX_FLOWS_PER_ASSOCIATION ∧
      Dict.size (world.heap arc).preferredAddresses ≤ MAX_FLOWS_PER_ASSOCIATION)
    (hend : ∀ arc, (world.heap arc).endpoint = none → (s.shared.association arc).endpoint = none)
    (hs : s'.shared = { s.shared with world, now }) (htasks : s'.tasks = s.tasks) (hnext : s'.nextTask = s.nextTask)
    (hreceivers : s'.receivers = s.receivers) : Evolves owner s owner s' where
  owner _ _ := rfl
  nextSlot := by rw [hs]
  kept arc target slot hk := by
    rw [hs]
    exact .inl ((hflows arc target).trans hk)
  tabled := by
    have htable : s'.table = s.table := by
      unfold State.table Shared.table Shared.association
      rw [hs, htasks, hreceivers]
      simp only [hflows]
      rfl
    refine ⟨htable.symm ▸ h.sound, ?_, fun arc harc target => ?_, ?_⟩
    · rw [hs]
      exact hbounded
    · rw [hs] at harc ⊢
      exact (hflows arc target).trans (h.rooted arc (hend arc harc) target)
    · rw [htasks, hnext]
      exact h.tasks

/-- A step that leaves the flow tables of all associations alone. -/
theorem world (h : Tabled owner s) {world : World} {now : ℕ} (hflows : s.shared.world.SameFlows world)
    (hend : ∀ arc, (world.heap arc).endpoint = none → (s.shared.association arc).endpoint = none)
    (hs : s'.shared = { s.shared with world, now }) (htasks : s'.tasks = s.tasks) (hnext : s'.nextTask = s.nextTask)
    (hreceivers : s'.receivers = s.receivers) : Evolves owner s owner s' := by
  refine h.other (fun arc target => ?_) (fun arc => ?_) hend hs htasks hnext hreceivers
  · rw [(hflows arc).1]
    rfl
  · rw [(hflows arc).1, (hflows arc).2]
    exact h.bounded arc

theorem endpoint_none {w w' : World} (h : EndpointStep e w w') (arc : Arc) (harc : (w'.heap arc).endpoint = none) :
    (w.heap arc).endpoint = none := by
  cases hb : (w.heap arc).endpoint with
  | none => rfl
  | some b =>
    obtain ⟨b', hb', -⟩ := h.kept arc b hb
    rw [harc] at hb'
    cases hb'

theorem handlerStep (h : Tabled owner s) (hc : Controlled events s) {id : ℕ} {input : HandlerInput}
    (hs : s.step config (.handler id input) = some (e, s')) : Evolves owner s owner s' := by
  have hsame := hc.handler_flows hs
  obtain ⟨c, r, hlookup, hr, rfl, rfl⟩ := State.step_handler hs
  have hend := endpoint_none (hc.endpointStep_handler hlookup hr)
  rcases hsame with hsame | ⟨a, hnone, hflows, hpreferred, hworld⟩
  · exact h.world hsame hend rfl rfl rfl rfl
  · have hheap : ∀ arc, r.world.heap arc = if arc = id then a else s.shared.world.heap arc := by
      intro arc
      change r.world = _ at hworld
      rw [hworld]
      exact Heap.set_apply _ _ _ _
    refine h.other (fun arc target => ?_) (fun arc => ?_) hend rfl rfl rfl rfl <;> rw [hheap] <;> split
    · rename_i harc
      rw [harc, hflows, h.rooted id hnone target]
      rfl
    · rfl
    · rw [hflows, hpreferred]
      exact ⟨Nat.zero_le _, Nat.zero_le _⟩
    · exact h.bounded arc

theorem loopStep (h : Tabled owner s) (hc : Controlled events s) {input : LoopInput}
    (hs : s.step config (.loop input) = some (e, s')) : Evolves owner s owner s' := by
  obtain ⟨r, hspec, rfl, rfl⟩ := State.step_loop hs
  have hworld : s.shared.world.SameFlows r.world ∧
      ∀ arc, (r.world.heap arc).endpoint = none → (s.shared.association arc).endpoint = none := by
    rcases hspec.world with hworld | ⟨source, bytes, target, payload, association, hevent⟩
    · rw [hworld]
      exact ⟨.refl _, fun _ h => h⟩
    · have hfind := (hspec.found _ _ _ _ _ hevent).2
      have hworld : r.world = (s.shared.world.find source).2 := by rw [hfind]
      rw [hworld]
      exact ⟨World.sameFlows_find hc.wellFormed source,
        endpoint_none (EndpointStep.find hc.wellFormed source bytes payload target)⟩
  have hkept : Evolves owner s owner (s.setWorld r.world) := h.world hworld.1 hworld.2 rfl rfl rfl rfl
  obtain ⟨hsound, hbounded, hrooted, -⟩ := hkept.tabled
  refine ⟨hkept.owner, hkept.nextSlot, hkept.kept, ?_⟩
  cases htask : r.task with
  | none => exact ⟨hsound, hbounded, hrooted, h.tasks⟩
  | some task =>
    obtain ⟨arc, target, payload, -, rfl⟩ := hspec.task _ htask
    have hnew : users s.tasks s.nextTask = none := by
      cases hu : users s.tasks s.nextTask with
      | none => rfl
      | some x =>
        obtain ⟨t, ht, -⟩ := users_some.mp hu
        exact absurd (h.tasks _ _ ht) (lt_irrefl _)
    have husers : users (s.tasks.insert s.nextTask (.new arc target payload)) =
        Function.update (users s.tasks) s.nextTask (some ((arc, target), .idle)) :=
      users_update s.tasks s.nextTask (some (.new arc target payload))
    refine ⟨?_, hbounded, hrooted, fun id t ht => ?_⟩
    · have hsound := hsound.arrive (k := (arc, target)) hnew
      unfold State.table
      dsimp only
      rw [husers]
      exact hsound
    · dsimp only at ht ⊢
      rw [Dict.lookup_insert_eq] at ht
      simp only [Option.isSome_some, if_true]
      split at ht
      · omega
      · exact (h.tasks id t ht).trans (Nat.lt_succ_self _)

/-- Some datagram has been found for the association of a task. -/
theorem bound_of_task (ht : Traced config events s) {id : ℕ} {t : PacketTask} (hlookup : s.tasks.lookup id = some t) :
    (s.shared.association t.association).endpoint ≠ none := by
  obtain ⟨source, hfound⟩ := (ht.tasks id t hlookup).found
  obtain ⟨b, hb, -⟩ := ht.bound source t.target t.association hfound
  intro hnone
  rw [Shared.association, hb] at hnone
  cases hnone

theorem taskStep (h : Tabled owner s) (ht : Traced config events s) {id : ℕ} {input : TaskInput}
    (hs : s.step config (.task id input) = some (e, s')) : ∃ owner', Evolves owner s owner' s' := by
  have hframed : s.shared.Framed s'.shared := by
    obtain ⟨t, r, -, hspec, -, rfl⟩ := State.step_task hs
    exact hspec.framed
  obtain ⟨t, r, hlookup, hcase, rfl⟩ := State.task_cases hs
  obtain ⟨owner', hagree, hsound⟩ := hcase.sound h.sound hlookup
  refine ⟨owner', hagree, hcase.nextSlot, fun _ _ _ => hcase.kept h.sound hlookup, ?_,
    hcase.bounded h.bounded, fun arc harc target => ?_, fun id' t' ht' => ?_⟩
  · unfold State.table
    dsimp only
    rw [users_update]
    exact hsound
  · have hend : (s.shared.association arc).endpoint = none := (hframed.heap arc).2.2.1.symm.trans harc
    refine Option.eq_none_iff_forall_ne_some.mpr fun slot hslot => ?_
    rcases hcase.adds arc target slot hslot with hold | rfl
    · rw [h.rooted arc hend target] at hold
      cases hold
    · exact bound_of_task ht hlookup hend
  · dsimp only at ht'
    rw [Dict.lookup_update_eq] at ht'
    split at ht'
    · rename_i heq
      rw [heq]
      exact h.tasks id t hlookup
    · exact h.tasks id' t' ht'

theorem receiverStep (h : Tabled owner s) {flow : FlowId} {input : ReceiverInput}
    (hs : s.step config (.receiver flow input) = some (e, s')) : Evolves owner s owner s' := by
  have hframed : s.shared.Framed s'.shared := by
    obtain ⟨r, result, -, hspec, -, rfl⟩ := State.step_receiver hs
    exact hspec.framed
  obtain ⟨r, result, hlookup, hcase, rfl⟩ := State.receiver_cases hs
  refine ⟨fun _ _ => rfl, hcase.nextSlot, fun _ _ _ => hcase.kept h.sound hlookup, ?_,
    hcase.bounded h.bounded, fun arc harc target => ?_, h.tasks⟩
  · unfold State.table
    dsimp only
    rw [guards_update]
    exact hcase.sound h.sound hlookup
  · have hend : (s.shared.association arc).endpoint = none := (hframed.heap arc).2.2.1.symm.trans harc
    refine Option.eq_none_iff_forall_ne_some.mpr fun slot hslot => ?_
    have hold := hcase.shrinks arc target slot hslot
    rw [h.rooted arc hend target] at hold
    cases hold

/-- What one step of the server preserves. -/
theorem step (h : Tabled owner s) (hc : Controlled events s) (ht : Traced config events s) {input : Input}
    (hs : s.step config input = some (e, s')) : ∃ owner', Evolves owner s owner' s' := by
  have idle : s'.shared.world = s.shared.world → s'.shared = { s.shared with now := s'.shared.now } →
      s'.tasks = s.tasks → s'.nextTask = s.nextTask → s'.receivers = s.receivers →
      ∃ owner', Evolves owner s owner' s' :=
    fun hw hshared htasks hnext hreceivers =>
      ⟨owner, h.world (.refl _) (fun _ h => h) hshared htasks hnext hreceivers⟩
  cases input with
  | cancel =>
    cases hs
    exact idle rfl rfl rfl rfl rfl
  | tick nanos =>
    cases hs
    exact idle rfl rfl rfl rfl rfl
  | accept peer =>
    simp only [State.step] at hs
    split at hs
    · cases hs
    · split at hs
      · cases hs
      · cases hs
        exact idle rfl rfl rfl rfl rfl
      · split at hs <;> cases hs
        · exact idle rfl rfl rfl rfl rfl
        · exact idle rfl rfl rfl rfl rfl
  | leaveAccept =>
    simp only [State.step] at hs
    split at hs <;> cases hs
    exact idle rfl rfl rfl rfl rfl
  | stopAssociations =>
    simp only [State.step] at hs
    split at hs <;> cases hs
    refine ⟨owner, h.world (World.sameFlows_stopEntries _) (fun arc harc => ?_) rfl rfl rfl rfl⟩
    rwa [(World.stopEntries_sameKey _ arc).2.2] at harc
  | join =>
    simp only [State.step] at hs
    split at hs <;> cases hs
    exact idle rfl rfl rfl rfl rfl
  | handler id input => exact ⟨owner, h.handlerStep hc hs⟩
  | loop input => exact ⟨owner, h.loopStep hc hs⟩
  | task id input => exact h.taskStep ht hs
  | receiver flow input => exact ⟨owner, h.receiverStep hs⟩

end Tabled

theorem tabled_of_reaches (h : System.Reaches (system config) .initial events s) :
    ∃ owner, Tabled owner s := by
  induction h with
  | start => exact ⟨fun _ => (0, ⟨.domain "", 0⟩), .initial _⟩
  | step hr hi ih =>
    obtain ⟨owner, hold⟩ := ih
    obtain ⟨hc, ht⟩ := traced_of_reaches hr
    obtain ⟨owner', hnew⟩ := hold.step hc ht hi
    exact ⟨owner', hnew.tabled⟩

/-- The owners of the slots of a state are the same in every later state. -/
theorem Tabled.run (h : Tabled owner s) {before after : List Event}
    (hs : System.Reaches (system config) .initial before s) (hrun : System.Reaches (system config) s after s') :
    ∃ owner', (∀ slot < s.shared.nextSlot, owner' slot = owner slot) ∧ s.shared.nextSlot ≤ s'.shared.nextSlot ∧
      Tabled owner' s' := by
  induction hrun with
  | start => exact ⟨owner, fun _ _ => rfl, le_refl _, h⟩
  | step hr hi ih =>
    obtain ⟨owner₁, hagree, hle, hold⟩ := ih
    obtain ⟨hc, ht⟩ := traced_of_reaches (hs.trans hr)
    obtain ⟨owner', hnew⟩ := hold.step hc ht hi
    refine ⟨owner', fun slot hslot => ?_, hle.trans hnew.nextSlot, hnew.tabled⟩
    rw [hnew.owner slot (hslot.trans_le hle), hagree slot hslot]

end Brume.Server
