import Brume.Lib.Drain
import Brume.Server.Panics
import Brume.Server.Resources

/-!
# The end of an association

Behind the removal of an association its packet tasks and receivers run on for a
while, and one more task may come from a datagram that the loop has looked up. Each
of their steps leaves less to do, and one of them is possible until all are gone.
-/

namespace Brume.Server
open Lib

variable {config : Config} {events : List Event} {s s' : State} {e : Event} {owner : SlotId → FlowKey}
  {key : FlowId → FlowKey} {N : ℕ} {arc : Arc}

/-! ### The work that is left -/

/-- The steps that a receiver takes once its association is dead. -/
def ReceiverPc.rank : ReceiverPc → ℕ
  | .settingDeadline | .touching _ => 7
  | .checkingDeadline _ | .readingEndpoint _ => 6
  | .selecting _ | .replying _ _ => 5
  | .loopHead | .received _ => 4
  | .closing => 3
  | .advancing => 2
  | .dropping => 1

theorem ReceiverPc.rank_bounds (pc : ReceiverPc) : 0 < pc.rank ∧ pc.rank ≤ 7 := by
  cases pc <;> simp [rank]

/-- Every step of a receiver leaves less to do. -/
theorem Receiver.rank_step {timeout : Duration} {flow : FlowId} {r r' : Receiver} {input : ReceiverInput}
    {sh : Shared} {result : ReceiverStep} (h : r.step timeout flow input sh = some result)
    (hdead : (sh.association r.association).alive = false) (hr' : result.receiver = some r') :
    r'.pc.rank < r.pc.rank := by
  unfold Receiver.step at h
  dsimp only at h
  split at h
  case h_1 hpc =>
    cases h
    cases hr'
    rw [hpc, hdead]
    exact Nat.lt_succ_self 3
  case h_2 hpc | h_3 hpc =>
    rw [hpc]
    split at h <;> cases h <;> cases hr' <;> simp [ReceiverPc.rank]
  case h_4 hpc | h_5 hpc | h_6 hpc =>
    rw [hpc]
    split at h <;> cases h
    cases hr'
    simp [ReceiverPc.rank]
  case h_7 hpc =>
    rw [hpc]
    split at h
    · split at h <;> cases h
      cases hr'
      exact Nat.lt_succ_self 4
    · cases h
  case h_8 hpc =>
    rw [hpc]
    cases h
    cases hr'
    simp [ReceiverPc.rank]
  case h_9 hpc =>
    rw [hdead, if_neg Bool.false_ne_true] at h
    cases h
    cases hr'
    rw [hpc]
    exact Nat.lt_succ_self 3
  case h_10 hpc =>
    rw [hpc]
    cases h
    cases hr'
    exact Nat.lt_succ_self 6
  case h_11 hpc =>
    rw [hpc]
    split at h <;> cases h <;> cases hr' <;> simp [ReceiverPc.rank]
  case h_12 hpc =>
    rw [hpc]
    split at h <;> cases h
    cases hr'
    exact Nat.lt_succ_self 4
  case h_13 hpc =>
    rw [hpc]
    cases h
    cases hr'
    dsimp only
    split <;> simp [ReceiverPc.rank]
  case h_14 hpc =>
    rw [hpc]
    split at h <;> cases h
    cases hr'
    exact Nat.lt_succ_self 1
  case h_15 =>
    cases h
    cases hr'
  case h_16 => cases h

/-- What a task still has to do for the association: a step of a task may start a
receiver, so it counts for more. -/
def PacketTask.work (N : ℕ) (arc : Arc) (t : PacketTask) : ℕ := if t.association = arc then 8 * t.potential N else 0

def Receiver.work (arc : Arc) (r : Receiver) : ℕ := if r.association = arc then r.pc.rank else 0

/-- The task that the loop is about to start. -/
def LoopPc.work (N : ℕ) (arc : Arc) : LoopPc → ℕ
  | .dispatching association _ _ => if association = arc then 8 * limit N + 1 else 0
  | _ => 0

def State.work (N : ℕ) (arc : Arc) (s : State) : ℕ :=
  Dict.weight (fun _ t => t.work N arc) s.tasks + Dict.weight (fun _ r => r.work arc) s.receivers + s.loop.work N arc

/-- The step is one of a task or a receiver of the association, or starts a task for it. -/
def State.concerns (arc : Arc) (s : State) : Input → Bool
  | .task id _ => (s.tasks.lookup id).any fun t => t.association = arc
  | .receiver flow _ => (s.receivers.lookup flow).any fun r => r.association = arc
  | .loop _ =>
    match s.loop with
    | .dispatching association _ _ => association = arc
    | _ => false
  | _ => false

/-- Nothing of the association runs, and its flow table is empty. -/
structure State.Released (s : State) (arc : Arc) : Prop where
  tasks : ∀ id t, s.tasks.lookup id = some t → t.association ≠ arc
  receivers : ∀ flow r, s.receivers.lookup flow = some r → r.association ≠ arc
  loop : ∀ target payload, s.loop ≠ .dispatching arc target payload
  flows : (s.shared.association arc).flows = ∅

/-! ### Steps -/

theorem PacketTask.potential_pos (N : ℕ) (t : PacketTask) : 0 < t.potential N :=
  Nat.add_pos_right _ (TaskPc.rank_pos N t.pc)

/-- A step of a task takes work off its association, with what its receiver adds. -/
theorem State.work_task (hk : Keyed owner key s) (hb : ∀ id t, s.tasks.lookup id = some t → t.Bounded N)
    (hcounts : ∀ flow < s.shared.nextFlow, 0 < (s.shared.flows flow).addressCount ∧ (s.shared.flows flow).addressCount ≤ N)
    {id : ℕ} {input : TaskInput} (hs : s.step config (.task id input) = some (e, s'))
    (hok : Answered N s (.task id input)) :
    s'.work N arc ≤ s.work N arc ∧ (s.concerns arc (.task id input) = true → s'.work N arc < s.work N arc) := by
  obtain ⟨t, r, hlookup, hmove, -, rfl⟩ := State.task_moves hs
  simp only [Answered, hlookup] at hok
  have htasks := Dict.weight_update_of_some (fun _ t => t.work N arc) hlookup r.task
  have hreceivers : Dict.weight (fun _ r => r.work arc) (r.receivers s.receivers) ≤
      Dict.weight (fun _ r => r.work arc) s.receivers + if t.association = arc then 4 else 0 := by
    generalize t.pc = pc at hmove
    cases hmove with
    | @spawn slot addresses index destination =>
      have hnone : s.receivers.lookup s.shared.nextFlow = none := by
        refine Option.eq_none_iff_forall_ne_some.mpr fun receiver hr => ?_
        exact absurd (hk.receivers _ _ hr).1 (lt_irrefl _)
      exact (Dict.weight_insert_of_none (fun _ r => r.work arc) hnone _).le
    | _ => exact Nat.le_add_right _ _
  have hnext : r.task.elim 0 (fun t' => t'.work N arc) + (if t.association = arc then 8 else 0) ≤ t.work N arc := by
    have hpos := t.potential_pos N
    unfold PacketTask.work
    cases htask : r.task with
    | none =>
      dsimp only [Option.elim]
      split <;> omega
    | some t' =>
      obtain ⟨-, hlt⟩ := hmove.descends (hb id t hlookup) hok (fun flow hflow => hcounts flow (hk.tasks id t flow hlookup hflow).1) htask
      dsimp only [Option.elim]
      rw [(hmove.packet htask).1]
      split <;> omega
  unfold State.work State.concerns
  dsimp only
  rw [hlookup]
  by_cases harc : t.association = arc
  · rw [if_pos harc] at hreceivers hnext
    refine ⟨by omega, fun _ => by omega⟩
  · rw [if_neg harc] at hreceivers hnext
    refine ⟨by omega, fun h => ?_⟩
    exact absurd (by simpa using h) harc

/-- A receiver of a dead association takes work off it. -/
theorem State.work_receiver (hdead : (s.shared.association arc).alive = false) {flow : FlowId} {input : ReceiverInput}
    (hs : s.step config (.receiver flow input) = some (e, s')) :
    s'.work N arc ≤ s.work N arc ∧ (s.concerns arc (.receiver flow input) = true → s'.work N arc < s.work N arc) := by
  simp only [State.step] at hs
  split at hs
  · cases hs
  · rename_i r hlookup
    split at hs
    · cases hs
    · rename_i result hresult
      cases hs
      have hreceivers := Dict.weight_update_of_some (fun _ r => r.work arc) hlookup result.receiver
      have hnext : result.receiver.elim 0 (fun r' => r'.work arc) + (if r.association = arc then 1 else 0) ≤ r.work arc := by
        have hpos := r.pc.rank_bounds.1
        have hmove := Receiver.step_moves hresult
        unfold Receiver.work
        cases hr' : result.receiver with
        | none =>
          dsimp only [Option.elim]
          split <;> omega
        | some r' =>
          dsimp only [Option.elim]
          rw [(hmove.packet hr').1]
          split
          · rename_i harc
            exact Receiver.rank_step hresult (harc ▸ hdead) hr'
          · exact le_refl _
      unfold State.work State.concerns
      dsimp only
      rw [hlookup]
      by_cases harc : r.association = arc
      · rw [if_pos harc] at hnext
        refine ⟨by omega, fun _ => by omega⟩
      · rw [if_neg harc] at hnext
        refine ⟨by omega, fun h => ?_⟩
        exact absurd (by simpa using h) harc

/-- The loop hands its work over to a task, and takes up none for an association
that it does not find. -/
theorem LoopPc.work_step {whitelist : Whitelist} {shutdown : Bool} {permits nextTask : ℕ} {pc : LoopPc} {input : LoopInput}
    {w : World} {r : LoopStep} (h : pc.step whitelist shutdown permits nextTask input w = some r)
    (hfound : ∀ source bytes target payload, r.event ≠ .found source bytes target payload (some arc)) :
    r.pc.work N arc + r.task.elim 0 (fun t => t.work N arc) ≤ pc.work N arc ∧
      (∀ target payload, pc = .dispatching arc target payload →
        r.pc.work N arc + r.task.elim 0 (fun t => t.work N arc) < pc.work N arc) := by
  unfold LoopPc.step at h
  split at h
  case h_1 =>
    split at h <;> cases h
    exact ⟨le_refl _, nofun⟩
  case h_2 => split at h <;> cases h <;> exact ⟨le_refl _, nofun⟩
  case h_3 =>
    split at h
    · cases h
    · split at h
      · cases h
      · cases h
        exact ⟨le_refl _, nofun⟩
      · split at h <;> cases h <;> exact ⟨le_refl _, nofun⟩
  case h_4 source bytes target payload =>
    rcases hfind : w.find source with ⟨association, w'⟩
    rw [hfind] at h
    cases h
    refine ⟨?_, nofun⟩
    cases association with
    | none => exact Nat.zero_le 0
    | some association =>
      have hne : association ≠ arc := by
        rintro rfl
        exact hfound source bytes target payload rfl
      simp only [LoopPc.work, if_neg hne]
      exact Nat.zero_le 0
  case h_5 association target payload =>
    have hnew := PacketTask.potential_new N association target payload
    split at h <;> cases h <;> dsimp only [LoopPc.work, Option.elim, PacketTask.work]
    · refine ⟨Nat.zero_le _, fun target' payload' heq => ?_⟩
      cases heq
      rw [if_pos rfl]
      exact Nat.succ_pos _
    · rw [hnew, PacketTask.new]
      dsimp only
      refine ⟨?_, fun target' payload' heq => ?_⟩
      · split <;> omega
      · cases heq
        rw [if_pos rfl, if_pos rfl]
        omega
  case h_6 => cases h

theorem State.work_loop (hc : Controlled events s) (hgone : ¬s.shared.world.Registered arc)
    (htasks : ∀ id t, s.tasks.lookup id = some t → id < s.nextTask) {input : LoopInput}
    (hs : s.step config (.loop input) = some (e, s')) :
    s'.work N arc ≤ s.work N arc ∧ (s.concerns arc (.loop input) = true → s'.work N arc < s.work N arc) := by
  have hfound : ∀ source bytes target payload, e ≠ .loop (.found source bytes target payload (some arc)) := by
    rintro source bytes target payload rfl
    exact hgone (hc.found hs).1
  simp only [State.step] at hs
  split at hs
  · cases hs
  · rename_i r hr
    cases hs
    have hevent : ∀ source bytes target payload, r.event ≠ .found source bytes target payload (some arc) :=
      fun source bytes target payload heq => hfound source bytes target payload (congrArg Event.loop heq)
    obtain ⟨hle, hlt⟩ := @LoopPc.work_step N arc _ _ _ _ _ _ _ _ hr hevent
    have hdispatching : s.concerns arc (.loop input) = true → ∃ target payload, s.loop = .dispatching arc target payload := by
      intro hconcerns
      unfold State.concerns at hconcerns
      cases hpc : s.loop with
      | dispatching association target payload =>
        simp only [hpc, decide_eq_true_eq] at hconcerns
        exact ⟨target, payload, by rw [hconcerns]⟩
      | _ =>
        simp only [hpc] at hconcerns
        cases hconcerns
    unfold State.work
    dsimp only [State.setWorld]
    cases htask : r.task with
    | none =>
      rw [htask] at hle hlt
      dsimp only [Option.elim] at hle hlt ⊢
      refine ⟨by omega, fun hconcerns => ?_⟩
      obtain ⟨target, payload, hpc⟩ := hdispatching hconcerns
      have hless := hlt target payload hpc
      omega
    | some task =>
      have hnone : s.tasks.lookup s.nextTask = none := by
        refine Option.eq_none_iff_forall_ne_some.mpr fun t hlookup => ?_
        exact absurd (htasks _ _ hlookup) (lt_irrefl _)
      have hweight := Dict.weight_insert_of_none (fun _ t => t.work N arc) hnone task
      rw [htask] at hle hlt
      dsimp only [Option.elim] at hle hlt ⊢
      rw [hweight]
      refine ⟨by omega, fun hconcerns => ?_⟩
      obtain ⟨target, payload, hpc⟩ := hdispatching hconcerns
      have hless := hlt target payload hpc
      omega

/-! ### Runs -/

/-- The server in an environment whose resolver gives at most `N` addresses. -/
def answering (config : Config) (N : ℕ) : System State Input Event := (system config).restrict (Answered N)

theorem attempting_of_answering (h : System.Reaches (answering config N) .initial events s) (id : ℕ) :
    ∃ notes, System.Reaches (attempting config N id) .initial notes s := by
  induction h with
  | start => exact ⟨[], .start⟩
  | @step _ t t' i e _ hi ih =>
    obtain ⟨notes, hr⟩ := ih
    obtain ⟨hok, hs⟩ := System.restrict_some.mp hi
    have hobserved : (system config).observed (State.deed id) t i = some (State.deed id t i, t') :=
      System.observed_some.mpr ⟨rfl, e, hs⟩
    exact ⟨_, hr.step (System.restrict_some.mpr ⟨hok, hobserved⟩)⟩

/-- What is known of an association behind its removal. -/
structure Abandoned (config : Config) (N : ℕ) (arc : Arc) (s : State) : Prop where
  removed : ∃ events, System.Reaches (answering config N) .initial events s ∧ .handler arc .removed ∈ events
  dead : (s.shared.association arc).alive = false
  stopped : (s.shared.association arc).stopped = true
  gone : ¬s.shared.world.Registered arc

namespace Abandoned

theorem of_removed (h : System.Reaches (answering config N) .initial events s) (hremoved : .handler arc .removed ∈ events) :
    Abandoned config N arc s := by
  obtain ⟨peer, st, hst, -, -⟩ := (controlled_of_reaches h.of_restrict).stands arc
  have hfinal : st = .removed := by
    rw [← mem_handlerEvents] at hremoved
    exact (Standing.afterAll_mem hst.afterAll).2.2.2.mp hremoved
  refine ⟨⟨events, h, hremoved⟩, hst.dead (.inr (.inr hfinal)), hst.stopped (.inr hfinal), hst.not_registered ?_⟩
  rw [hfinal]
  simp [Standing.Holds]

theorem step (h : Abandoned config N arc s) {input : Input} (hs : answering config N s input = some (e, s')) :
    Abandoned config N arc s' := by
  obtain ⟨events, hr, hremoved⟩ := h.removed
  exact of_removed (hr.step hs) (List.mem_append_left _ hremoved)

/-- The work of an abandoned association only gets less. -/
theorem work_step (h : Abandoned config N arc s) {input : Input} (hs : answering config N s input = some (e, s')) :
    s'.work N arc ≤ s.work N arc ∧ (s.concerns arc input = true → s'.work N arc < s.work N arc) := by
  obtain ⟨events, hr, -⟩ := h.removed
  obtain ⟨hok, hs⟩ := System.restrict_some.mp hs
  obtain ⟨notes, hattempting⟩ := attempting_of_answering hr 0
  obtain ⟨owner, key, htabled, hkeyed, hcounted⟩ := counted_of_reaches hattempting
  have same : s'.tasks = s.tasks → s'.receivers = s.receivers → s'.loop = s.loop → s.concerns arc input = false →
      s'.work N arc ≤ s.work N arc ∧ (s.concerns arc input = true → s'.work N arc < s.work N arc) := by
    intro htasks hreceivers hloop hconcerns
    unfold State.work
    rw [htasks, hreceivers, hloop, hconcerns]
    exact ⟨le_refl _, nofun⟩
  cases input with
  | cancel | tick =>
    cases hs
    exact same rfl rfl rfl rfl
  | accept peer =>
    simp only [system, State.step] at hs
    split at hs
    · cases hs
    · split at hs
      · cases hs
      · cases hs
        exact same rfl rfl rfl rfl
      · split at hs <;> cases hs <;> exact same rfl rfl rfl rfl
  | leaveAccept | stopAssociations | join =>
    simp only [system, State.step] at hs
    split at hs <;> cases hs
    exact same rfl rfl rfl rfl
  | handler id input =>
    obtain ⟨c, r, -, -, -, rfl⟩ := State.step_handler hs
    exact same rfl rfl rfl rfl
  | loop input => exact State.work_loop (controlled_of_reaches hr.of_restrict) h.gone htabled.tasks hs
  | task id input => exact State.work_task hkeyed hcounted.bounded hcounted.counts hs hok
  | receiver flow input => exact State.work_receiver h.dead hs

/-- Something is left of the association while there is work. -/
theorem left_of_work (hne : s.work N arc ≠ 0) :
    (∃ id t, s.tasks.lookup id = some t ∧ t.association = arc) ∨
      (∃ flow r, s.receivers.lookup flow = some r ∧ r.association = arc) ∨
      ∃ target payload, s.loop = .dispatching arc target payload := by
  by_contra hnone
  rw [not_or, not_or] at hnone
  obtain ⟨htasks, hreceivers, hloop⟩ := hnone
  have htask : Dict.weight (fun _ t => PacketTask.work N arc t) s.tasks ≤ Dict.size s.tasks * 0 := by
    refine Dict.weight_le_size 0 fun id t hlookup => ?_
    rw [PacketTask.work, if_neg fun harc => htasks ⟨id, t, hlookup, harc⟩]
  have hreceiver : Dict.weight (fun _ r => Receiver.work arc r) s.receivers ≤ Dict.size s.receivers * 0 := by
    refine Dict.weight_le_size 0 fun flow r hlookup => ?_
    rw [Receiver.work, if_neg fun harc => hreceivers ⟨flow, r, hlookup, harc⟩]
  have hdispatching : s.loop.work N arc = 0 := by
    cases hpc : s.loop with
    | dispatching association target payload =>
      refine if_neg fun harc => hloop ⟨target, payload, ?_⟩
      rw [hpc, harc]
    | _ => rfl
  unfold State.work at hne
  omega

end Abandoned

/-- A resolver that fails gives one address at most. -/
theorem PacketTask.answered_of_error (hN : 1 ≤ N) (t : PacketTask) {input : TaskInput} {error : IoError} {ok : Bool}
    (h : input.Gives (.error error) ok) : t.Answered N input := by
  unfold PacketTask.Answered
  split
  · rename_i slot lookupIp _
    obtain rfl : lookupIp = .error error := h
    split
    · rename_i addresses hlookup
      unfold lookup at hlookup
      cases hhost : t.target.host with
      | ip ip =>
        rw [hhost] at hlookup
        cases hlookup
        exact hN
      | domain name =>
        rw [hhost] at hlookup
        cases hlookup
    · trivial
  · trivial

/-- A task that waits has a task of its own association to wait for. -/
theorem filler_of_association (h : Tabled owner s) {id user : ℕ} {t : PacketTask} {slot : SlotId}
    (hlookup : s.tasks.lookup id = some t) (hpc : t.pc = .awaitingCell slot)
    (hc : s.shared.slots slot = .initializing user) :
    ∃ t', s.tasks.lookup user = some t' ∧ t'.association = t.association ∧ ∀ slot', t'.pc ≠ .awaitingCell slot' := by
  obtain ⟨t', ht', hpc'⟩ := filler_of_cell h hlookup hpc hc
  have hrole := h.sound.users id _ _ (users_lookup hlookup)
  rw [hpc] at hrole
  have hcell := h.sound.cells slot hrole.1
  have hview : s.table.cell slot = .filling user := by
    change (s.shared.slots slot).view = _
    rw [hc]
    rfl
  rw [hview, hrole.2] at hcell
  obtain ⟨role, huser, -⟩ := hcell
  have hsame := Option.some.inj ((users_lookup ht').symm.trans huser)
  exact ⟨t', ht', congrArg (fun view => view.1.1) hsame, hpc'⟩

namespace Abandoned

theorem proceeds (h : Abandoned config N arc s) (hN : 1 ≤ N) (hne : s.work N arc ≠ 0) :
    ∃ input e s', s.concerns arc input = true ∧ answering config N s input = some (e, s') := by
  obtain ⟨events, hr, -⟩ := h.removed
  obtain ⟨notes, hattempting⟩ := attempting_of_answering hr 0
  obtain ⟨owner, key, htabled, -, hcounted⟩ := counted_of_reaches hattempting
  have task : ∀ id t, s.tasks.lookup id = some t → t.association = arc →
      (∀ slot, t.pc = .awaitingCell slot → ∀ user, s.shared.slots slot ≠ .initializing user) →
      ∃ input e s', s.concerns arc input = true ∧ answering config N s input = some (e, s') := by
    intro id t hlookup harc hcell
    obtain ⟨input, r, hgives, hstep⟩ := @PacketTask.proceeds N id t (hcounted.bounded id t hlookup).sized s.flowPermits
      s.shared hcell (.error ⟨.other, ""⟩) true
    obtain ⟨e, s', hs⟩ := @State.step_of_task config s id t input r hlookup hstep
    refine ⟨.task id input, e, s', ?_, System.restrict_some.mpr ⟨?_, hs⟩⟩
    · simp [State.concerns, hlookup, harc]
    · simp only [Answered, hlookup]
      exact t.answered_of_error hN hgives
  rcases left_of_work hne with ⟨id, t, hlookup, harc⟩ | ⟨flow, r, hlookup, harc⟩ | ⟨target, payload, hloop⟩
  · by_cases hwaits : ∃ slot user, t.pc = .awaitingCell slot ∧ s.shared.slots slot = .initializing user
    · obtain ⟨slot, user, hpc, hc⟩ := hwaits
      obtain ⟨t', ht', harc', hpc'⟩ := filler_of_association htabled hlookup hpc hc
      exact task user t' ht' (harc'.trans harc) fun slot' heq => absurd heq (hpc' slot')
    · exact task id t hlookup harc fun slot hpc user hc => hwaits ⟨slot, user, hpc, hc⟩
  · have hfits := fits_of_reaches hr.of_restrict flow r hlookup
    have hawaits : ∃ input, r.Awaits flow s.shared input := by
      by_cases hselecting : ∃ deadline, r.pc = .selecting deadline
      · obtain ⟨deadline, hpc⟩ := hselecting
        refine ⟨.associationStopped, ?_⟩
        unfold Receiver.Awaits
        rw [hpc, harc]
        exact h.stopped
      · exact r.awaits_some flow s.shared
    obtain ⟨input, hawaits⟩ := hawaits
    obtain ⟨result, hresult⟩ := (@Receiver.step_iff config.udpTimeout flow r hfits _ _).mpr hawaits
    refine ⟨.receiver flow input, ?_⟩
    have hs : ∃ e s', s.step config (.receiver flow input) = some (e, s') := by
      simp only [State.step, hlookup, hresult]
      exact ⟨_, _, rfl⟩
    obtain ⟨e, s', hs⟩ := hs
    exact ⟨e, s', by simp [State.concerns, hlookup, harc], System.restrict_some.mpr ⟨trivial, hs⟩⟩
  · have hs : ∃ e s', s.step config (.loop .go) = some (e, s') := by
      simp only [State.step, hloop, LoopPc.step]
      by_cases hpermits : s.packetPermits = 0
      · simp only [if_pos hpermits]
        exact ⟨_, _, rfl⟩
      · simp only [if_neg hpermits]
        exact ⟨_, _, rfl⟩
    obtain ⟨e, s', hs⟩ := hs
    exact ⟨.loop .go, e, s', by simp [State.concerns, hloop], System.restrict_some.mpr ⟨trivial, hs⟩⟩

/-- The parts of an abandoned association drain it. -/
theorem drains (config : Config) (hN : 1 ≤ N) (arc : Arc) :
    System.Drains (answering config N) (State.concerns arc) (State.work N arc) (Abandoned config N arc) where
  kept h hs := h.step hs
  others h hs := (h.work_step hs).1
  descends h hs := (h.work_step hs).2
  proceeds h hne := h.proceeds hN hne

/-- Without work nothing of the association is left. -/
theorem released (h : Abandoned config N arc s) (hzero : s.work N arc = 0) : s.Released arc := by
  obtain ⟨events, hr, -⟩ := h.removed
  obtain ⟨owner, htabled⟩ := tabled_of_reaches hr.of_restrict
  have htasks : ∀ id t, s.tasks.lookup id = some t → t.association ≠ arc := by
    intro id t hlookup harc
    have hle := Dict.le_weight (w := fun _ t => PacketTask.work N arc t) hlookup
    have hpos := t.potential_pos N
    unfold State.work at hzero
    rw [PacketTask.work, if_pos harc] at hle
    omega
  have hreceivers : ∀ flow r, s.receivers.lookup flow = some r → r.association ≠ arc := by
    intro flow r hlookup harc
    have hle := Dict.le_weight (w := fun _ r => Receiver.work arc r) hlookup
    have hpos := r.pc.rank_bounds.1
    unfold State.work at hzero
    rw [Receiver.work, if_pos harc] at hle
    omega
  refine ⟨htasks, hreceivers, fun target payload hloop => ?_, ?_⟩
  · unfold State.work at hzero
    rw [hloop, LoopPc.work, if_pos rfl] at hzero
    omega
  · refine Dict.eq_empty fun target => Option.eq_none_iff_forall_ne_some.mpr fun slot hk => ?_
    rcases htabled.sound.responsible (k := (arc, target)) hk with ⟨id, role, hu, -⟩ | ⟨flow, g, hg, hkey, -⟩
    · obtain ⟨t, hlookup, heq, -⟩ := users_some.mp hu
      exact htasks id t hlookup (congrArg Prod.fst heq)
    · obtain ⟨r, hlookup, rfl⟩ := guards_some.mp hg
      exact hreceivers flow r hlookup (congrArg Prod.fst hkey)

end Abandoned

/-! ### How much work there is -/

/-- Every receiver has a socket of its own. -/
theorem size_receivers_le (h : System.Reaches (system config) .initial events s) :
    Dict.size s.receivers ≤ MAX_UDP_FLOWS := by
  obtain ⟨owner, htabled⟩ := tabled_of_reaches h
  have hnodup : (s.receivers.keys.map Socket.flow).Nodup :=
    s.receivers.keys_nodup.map fun flow flow' heq => Socket.flow.inj heq
  have hopened : ∀ socket ∈ s.receivers.keys.map Socket.flow, s.Opened socket := by
    intro socket hsocket
    obtain ⟨flow, hflow, rfl⟩ := List.mem_map.mp hsocket
    exact .inr (.inl (Dict.mem_iff.mp (AList.mem_keys.mpr hflow)))
  have hlength := length_opened_le htabled (matched_of_reaches h) hnodup hopened
  rw [List.length_map] at hlength
  exact hlength.trans (limited_of_reaches h).slots

theorem work_le (h : System.Reaches (answering config N) .initial events s) (arc : Arc) :
    s.work N arc ≤ 257 * (8 * limit N) + 7 * 1024 + 1 := by
  have htask : Dict.weight (fun _ t => PacketTask.work N arc t) s.tasks ≤ Dict.size s.tasks * (8 * limit N) := by
    refine Dict.weight_le_size _ fun id t hlookup => ?_
    obtain ⟨notes, hattempting⟩ := attempting_of_answering h id
    obtain ⟨owner, key, -, -, hcounted⟩ := counted_of_reaches hattempting
    have hremaining := (hcounted.tally t hlookup).remaining
    unfold PacketTask.work
    split <;> omega
  have hreceiver : Dict.weight (fun _ r => Receiver.work arc r) s.receivers ≤ Dict.size s.receivers * 7 := by
    refine Dict.weight_le_size _ fun flow r hlookup => ?_
    unfold Receiver.work
    split
    · exact r.pc.rank_bounds.2
    · exact Nat.zero_le 7
  have hloop : s.loop.work N arc ≤ 8 * limit N + 1 := by
    unfold LoopPc.work
    split
    · split <;> omega
    · exact Nat.zero_le _
  have htasks := Nat.mul_le_mul_right (8 * limit N) (limited_of_reaches h.of_restrict).tasks
  have hreceivers := Nat.mul_le_mul_right 7 (size_receivers_le h.of_restrict)
  unfold MAX_UDP_PACKET_TASKS at htasks
  unfold MAX_UDP_FLOWS at hreceivers
  unfold State.work
  omega

theorem State.Released.work (h : s.Released arc) (N : ℕ) : s.work N arc = 0 := by
  by_contra hne
  rcases Abandoned.left_of_work hne with ⟨id, t, hlookup, harc⟩ | ⟨flow, r, hlookup, harc⟩ | ⟨target, payload, hloop⟩
  · exact h.tasks id t hlookup harc
  · exact h.receivers flow r hlookup harc
  · exact h.loop target payload hloop

/-- Behind the removal of an association, what is left of it takes a bounded number
of steps in any run, however the rest of the server goes on. It can always go on
until no task, no receiver and no flow of it is left, and then none comes back. -/
theorem association_drains (config : Config) {N : ℕ} (hN : 1 ≤ N) {events : List Event} {s : State}
    (h : System.Reaches (answering config N) .initial events s) {arc : Arc} (hremoved : .handler arc .removed ∈ events) :
    (∀ notes s', System.Reaches ((answering config N).observed (State.concerns arc)) s notes s' →
      notes.count true ≤ 257 * (8 * limit N) + 7 * 1024 + 1 ∧
      ((∀ input, s'.concerns arc input = true → answering config N s' input = none) → s'.Released arc) ∧
      (s.Released arc → s'.Released arc)) ∧
    ∃ notes s', System.Reaches ((answering config N).observed (State.concerns arc)) s notes s' ∧
      (∀ note ∈ notes, note = true) ∧ s'.Released arc := by
  have hdrains := Abandoned.drains config hN arc
  have habandoned := Abandoned.of_removed h hremoved
  have hbound := work_le h arc
  refine ⟨fun notes s' hr => ?_, ?_⟩
  · obtain ⟨habandoned', hcount⟩ := hdrains.run habandoned hr
    refine ⟨by omega, fun hnone => ?_, fun hreleased => ?_⟩
    · exact habandoned'.released (hdrains.zero_of_none habandoned' hnone)
    · have hzero := hreleased.work N
      exact habandoned'.released (by omega)
  · obtain ⟨notes, s', hr, hnotes, hzero⟩ := hdrains.reaches_zero habandoned
    exact ⟨notes, s', hr, hnotes, ((hdrains.run habandoned hr).1).released hzero⟩

/-- A client closes its control connection while a task is about to run for it. -/
theorem association_drains_release :
    ∃ events s, (answering anonymous 1).run .initial (relayInputs ++ releaseInputs) = some (events, s) ∧
      ∃ notes s', System.Reaches ((answering anonymous 1).observed (State.concerns 1)) s notes s' ∧ s'.Released 1 := by
  have hrun : (((answering anonymous 1).run .initial (relayInputs ++ releaseInputs)).map fun r =>
      decide (.handler 1 .removed ∈ r.1)) = some true := by
    decide +kernel
  obtain ⟨⟨events, s⟩, hrun, hmem⟩ := Option.map_eq_some_iff.mp hrun
  have hremoved := of_decide_eq_true hmem
  obtain ⟨-, notes, s', hr, -, hreleased⟩ :=
    association_drains anonymous (le_refl 1) (System.reaches_of_run hrun) hremoved
  exact ⟨events, s, hrun, notes, s', hr, hreleased⟩

end Brume.Server
