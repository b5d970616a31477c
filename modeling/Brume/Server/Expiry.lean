import Brume.Server.FlowKeys

/-!
# Idle flows

The creation of a flow, a send, the end of a send and a reply each store the time
in `last_activity`. A receiver reads it at the head of its loop only, and the
timer that it sets there may be long out of date when it fires; what is stored
between the reading and the check of the clock is not seen either. It gives its
flow up exactly when what it has read is as old as the timeout.
-/

namespace Brume.Server
open Lib

variable {config : Config} {events : List Event} {s s' : State} {e : Event}

/-! ### What is done with `last_activity` -/

inductive Access where
  | stored (flow : FlowId) (time : ℕ)
  | read (flow : FlowId)
  deriving DecidableEq

def PacketTask.access? (t : PacketTask) (sh : Shared) : Option Access :=
  match t.pc with
  | .spawning _ _ _ => some (.stored sh.nextFlow sh.now)
  | .touching _ flow | .sent _ flow => some (.stored flow sh.now)
  | _ => none

def Receiver.access? (timeout : Duration) (flow : FlowId) (r : Receiver) (sh : Shared) : Option Access :=
  match r.pc with
  | .settingDeadline => if timeout.secs = 0 then none else some (.read flow)
  | .touching _ => some (.stored flow sh.now)
  | _ => none

def State.access? (config : Config) (s : State) : Input → Option Access
  | .task id _ => (s.tasks.lookup id).bind (·.access? s.shared)
  | .receiver flow _ => (s.receivers.lookup flow).bind (·.access? config.udpTimeout flow s.shared)
  | _ => none

/-- The server with a record of what is done with the `last_activity` of its flows. -/
def accesses (config : Config) : System State Input (Option Access) :=
  (system config).observed (State.access? config)

/-- The time that was stored for a flow last, and the one that its receiver read last. -/
structure Seen where
  stored : Option ℕ
  read : Option ℕ
  deriving DecidableEq

def Seen.note (flow : FlowId) (seen : Seen) : Option Access → Seen
  | some (.stored flow' time) => if flow' = flow then { seen with stored := some time } else seen
  | some (.read flow') => if flow' = flow then { seen with read := seen.stored } else seen
  | none => seen

def seen (flow : FlowId) (as : List (Option Access)) : Seen := as.foldl (·.note flow ·) ⟨none, none⟩

theorem seen_append (flow : FlowId) (as : List (Option Access)) (a : Option Access) :
    seen flow (as ++ [a]) = (seen flow as).note flow a := by
  simp only [seen, List.foldl_append, List.foldl_cons, List.foldl_nil]

namespace Seen
variable {flow : FlowId} {x : Seen} {a : Option Access}

theorem note_stored (t : ℕ) : (x.note flow (some (.stored flow t))).stored = some t := by
  rw [note, if_pos rfl]

theorem note_read : (x.note flow (some (.read flow))).read = x.stored := by
  rw [note, if_pos rfl]

theorem stored_note (h : ∀ t, a ≠ some (.stored flow t)) : (x.note flow a).stored = x.stored := by
  rcases a with _ | ⟨flow', t⟩ | ⟨flow'⟩
  · rfl
  · rw [note, if_neg]
    rintro rfl
    exact h t rfl
  · rw [note]
    split <;> rfl

theorem read_note (h : a ≠ some (.read flow)) : (x.note flow a).read = x.read := by
  rcases a with _ | ⟨flow', t⟩ | ⟨flow'⟩
  · rfl
  · rw [note]
    split <;> rfl
  · rw [note, if_neg]
    rintro rfl
    exact h rfl

end Seen

/-- What is stored last, or read, has been stored. -/
theorem stored_of_seen {flow : FlowId} {as : List (Option Access)} {t : ℕ}
    (h : (seen flow as).stored = some t ∨ (seen flow as).read = some t) : some (.stored flow t) ∈ as := by
  induction as using List.reverseRecOn generalizing t with
  | nil => rcases h with h | h <;> cases h
  | append_singleton as a ih =>
    rw [seen_append] at h
    have hold : ∀ {t}, (seen flow as).stored = some t ∨ (seen flow as).read = some t →
        some (.stored flow t) ∈ as ++ [a] := fun h => List.mem_append_left _ (ih h)
    by_cases hstored : ∃ t', a = some (.stored flow t')
    · obtain ⟨t', rfl⟩ := hstored
      rcases h with h | h
      · rw [Seen.note_stored] at h
        cases h
        exact List.mem_append_right _ (List.mem_singleton.mpr rfl)
      · rw [Seen.read_note (by simp)] at h
        exact hold (.inr h)
    · have hno : ∀ t', a ≠ some (.stored flow t') := fun t' ht' => hstored ⟨t', ht'⟩
      by_cases hread : a = some (.read flow)
      · subst hread
        rw [Seen.stored_note (by simp), Seen.note_read, or_self] at h
        exact hold (.inl h)
      · rw [Seen.stored_note hno, Seen.read_note hread] at h
        exact hold h

/-- A step that stores what `a` says and nothing else. -/
structure Touches (a : Option Access) (sh sh' : Shared) : Prop where
  nextFlow : sh.nextFlow ≤ sh'.nextFlow
  clock : sh.now ≤ sh'.now
  noted : ∀ flow t, a = some (.stored flow t) → t = sh.now ∧ flow < sh'.nextFlow ∧ (sh'.flows flow).lastActivity = sh.now
  kept : ∀ flow, flow < sh'.nextFlow → (∀ t, a ≠ some (.stored flow t)) →
    flow < sh.nextFlow ∧ (sh'.flows flow).lastActivity = (sh.flows flow).lastActivity

namespace Touches
variable {sh sh' : Shared} {flow : FlowId} {a : Option Access}

theorem quiet (ha : ∀ flow t, a ≠ some (.stored flow t)) (hnext : sh'.nextFlow = sh.nextFlow) (hclock : sh.now ≤ sh'.now)
    (hflows : ∀ flow, (sh'.flows flow).lastActivity = (sh.flows flow).lastActivity) : Touches a sh sh' where
  nextFlow := Nat.le_of_eq hnext.symm
  clock := hclock
  noted flow t h := absurd h (ha flow t)
  kept flow hlt _ := ⟨hlt.trans_eq hnext, hflows flow⟩

theorem same (ha : ∀ flow t, a ≠ some (.stored flow t)) : Touches a sh sh :=
  .quiet ha rfl (Nat.le_refl _) fun _ => rfl

theorem touch (hlt : flow < sh.nextFlow) : Touches (some (.stored flow sh.now)) sh (sh.touch flow) where
  nextFlow := Nat.le_refl _
  clock := Nat.le_refl _
  noted flow' t h := by
    cases h
    have hself : (sh.touch flow).flows flow = { sh.flows flow with lastActivity := sh.now } :=
      Function.update_self _ _ _
    exact ⟨rfl, hlt, congrArg Flow.lastActivity hself⟩
  kept flow' hlt' hother := by
    have hne : flow' ≠ flow := by
      intro heq
      exact hother sh.now (by rw [heq])
    exact ⟨hlt', congrArg Flow.lastActivity (Function.update_of_ne hne _ _)⟩

theorem newFlow {f : Flow} (hf : f.lastActivity = sh.now) :
    Touches (some (.stored sh.nextFlow sh.now)) sh (sh.newFlow f) where
  nextFlow := Nat.le_succ _
  clock := Nat.le_refl _
  noted flow' t h := by
    cases h
    have hself : (sh.newFlow f).flows sh.nextFlow = f := Function.update_self _ _ _
    exact ⟨rfl, Nat.lt_succ_self _, (congrArg Flow.lastActivity hself).trans hf⟩
  kept flow' hlt' hother := by
    have hne : flow' ≠ sh.nextFlow := by
      intro heq
      exact hother sh.now (by rw [heq])
    have hlt : flow' < sh.nextFlow + 1 := hlt'
    exact ⟨lt_of_le_of_ne (Nat.le_of_lt_succ hlt) hne, congrArg Flow.lastActivity (Function.update_of_ne hne _ _)⟩

/-- A flow changes in its other fields. -/
theorem setFlow (f : Flow) (hf : f.lastActivity = (sh.flows flow).lastActivity) : Touches none sh (sh.setFlow flow f) := by
  refine quiet (by simp) rfl (Nat.le_refl _) fun flow' => ?_
  have hset : (sh.setFlow flow f).flows flow' = if flow' = flow then f else sh.flows flow' :=
    Function.update_apply _ _ _ _
  rw [hset]
  split
  · rename_i heq
    rw [heq, hf]
  · rfl

theorem removeFlowSlot (arc : Arc) (target : Target) (slot : SlotId) :
    Touches none sh (sh.removeFlowSlot arc target slot) := by
  have hnow : (sh.removeFlowSlot arc target slot).now = sh.now := by
    unfold Shared.removeFlowSlot
    dsimp only
    split <;> rfl
  have hflows := sh.flows_removeFlowSlot arc target slot
  exact quiet (by simp) (sh.nextFlow_removeFlowSlot _ _ _) (Nat.le_of_eq hnow.symm) fun flow => by rw [hflows]

theorem advanceUdpAddress {arc : Arc} {target oldest : Target}
    (h : sh.advanceUdpAddress arc target flow oldest = some sh') : Touches none sh sh' := by
  obtain ⟨_, rfl⟩ := Shared.advanceUdpAddress_eq h
  exact quiet (by simp) rfl (Nat.le_refl _) fun _ => rfl

end Touches

theorem PacketTask.Moves.touches {id permits : ℕ} {t : PacketTask} {sh : Shared} {input : TaskInput} {r : TaskStep}
    (h : t.Moves id permits sh t.pc input r) (hheld : ∀ flow, t.pc.flow? = some flow → flow < sh.nextFlow) :
    Touches (t.access? sh) sh r.shared := by
  unfold PacketTask.access?
  generalize t.pc = pc at h hheld
  cases h with
  | spawn => exact .newFlow rfl
  | touch | done => exact .touch (hheld _ rfl)
  | deactivate => exact .setFlow { sh.flows _ with active := false } rfl
  | stop => exact .setFlow { sh.flows _ with stopped := true } rfl
  | remember h =>
    obtain ⟨_, rfl⟩ := Shared.rememberUdpAddress_eq h
    exact .quiet (by simp) rfl (Nat.le_refl _) fun _ => rfl
  | advance h => exact .advanceUdpAddress h
  | discard | giveUp | retry | last | again => exact .removeFlowSlot _ _ _
  | _ => exact .quiet (a := none) (by simp) rfl (Nat.le_refl _) fun _ => rfl

theorem Receiver.step_touches {timeout : Duration} {flow : FlowId} {r : Receiver} {input : ReceiverInput} {sh : Shared}
    {result : ReceiverStep} (h : r.step timeout flow input sh = some result) (hlt : flow < sh.nextFlow) :
    Touches (r.access? timeout flow sh) sh result.shared := by
  have hsame : Touches none sh sh := .same (by simp)
  unfold Receiver.access?
  unfold Receiver.step at h
  dsimp only at h
  split at h
  case h_1 hpc | h_3 hpc | h_4 hpc | h_5 hpc | h_6 hpc | h_9 hpc | h_11 hpc | h_12 hpc =>
    rw [hpc]
    split at h <;> cases h <;> exact hsame
  case h_2 hpc =>
    rw [hpc]
    split at h <;> cases h <;> exact .same (by simp)
  case h_7 hpc =>
    rw [hpc]
    split at h
    · split at h <;> cases h
      exact hsame
    · cases h
  case h_8 hpc =>
    rw [hpc]
    cases h
    exact hsame
  case h_10 hpc =>
    rw [hpc]
    cases h
    exact .touch hlt
  case h_13 hpc =>
    rw [hpc]
    cases h
    exact .setFlow { sh.flows flow with active := false } rfl
  case h_14 hpc =>
    rw [hpc]
    split at h
    · cases h
    · rename_i hadvance
      cases h
      exact .advanceUdpAddress hadvance
  case h_15 hpc =>
    rw [hpc]
    cases h
    exact .removeFlowSlot _ _ _
  case h_16 => cases h

/-- Only a `tick` moves the clock. -/
theorem State.clock_step {input : Input} (hs : s.step config input = some (e, s')) (htask : ∀ id i, input ≠ .task id i)
    (hreceiver : ∀ flow i, input ≠ .receiver flow i) : s.shared.now ≤ s'.shared.now := by
  cases input with
  | cancel =>
    cases hs
    exact Nat.le_refl _
  | tick nanos =>
    cases hs
    exact Nat.le_add_right _ _
  | accept peer =>
    simp only [step] at hs
    split at hs
    · cases hs
    · split at hs
      · cases hs
      · cases hs
        exact Nat.le_refl _
      · split at hs <;> cases hs <;> exact Nat.le_refl _
  | leaveAccept | stopAssociations | join =>
    simp only [step] at hs
    split at hs <;> cases hs
    exact Nat.le_refl _
  | handler id input =>
    obtain ⟨c, r, -, -, -, rfl⟩ := step_handler hs
    exact Nat.le_refl _
  | loop input =>
    obtain ⟨r, -, -, rfl⟩ := step_loop hs
    exact Nat.le_refl _
  | task id input => exact absurd rfl (htask id input)
  | receiver flow input => exact absurd rfl (hreceiver flow input)

theorem State.receiver_step {flow : FlowId} {input : ReceiverInput}
    (h : s.step config (.receiver flow input) = some (e, s')) :
    ∃ r result, s.receivers.lookup flow = some r ∧ r.step config.udpTimeout flow input s.shared = some result ∧
      s' = { s with shared := result.shared, receivers := Dict.update s.receivers flow result.receiver } := by
  simp only [step] at h
  split at h
  · cases h
  · rename_i r hr
    split at h
    · cases h
    · rename_i result hresult
      cases h
      exact ⟨r, result, hr, hresult, rfl⟩

/-- What one step of the server stores. -/
theorem touches_step (h : System.Reaches (system config) .initial events s) {input : Input}
    (hs : s.step config input = some (e, s')) : Touches (s.access? config input) s.shared s'.shared := by
  obtain ⟨owner, key, -, hkeyed⟩ := keyed_of_reaches h
  cases input with
  | task id input =>
    obtain ⟨t, r, ht, hmove, -, rfl⟩ := State.task_moves hs
    have haccess : s.access? config (.task id input) = t.access? s.shared := by
      simp only [State.access?, ht, Option.bind_some]
    rw [haccess]
    exact hmove.touches fun flow hflow => (hkeyed.tasks id t flow ht hflow).1
  | receiver flow input =>
    obtain ⟨r, result, hr, hstep, rfl⟩ := State.receiver_step hs
    have haccess : s.access? config (.receiver flow input) = r.access? config.udpTimeout flow s.shared := by
      simp only [State.access?, hr, Option.bind_some]
    rw [haccess]
    exact Receiver.step_touches hstep (hkeyed.receivers flow r hr).1
  | _ =>
    have hsame := State.sameFlows_step hs (by simp) (by simp)
    have hclock := State.clock_step hs (by simp) (by simp)
    exact .quiet (by simp [State.access?]) hsame.nextFlow hclock fun flow => by rw [hsame.flows]

/-- Only the receiver of a flow reads, in front of its check. -/
theorem State.access?_read {flow : FlowId} {input : Input} (h : s.access? config input = some (.read flow)) :
    ∃ i r, input = .receiver flow i ∧ s.receivers.lookup flow = some r ∧ r.pc = .settingDeadline := by
  unfold access? at h
  split at h
  · rename_i id i
    obtain ⟨t, -, ht⟩ := Option.bind_eq_some_iff.mp h
    unfold PacketTask.access? at ht
    split at ht <;> cases ht
  · rename_i flow' i
    obtain ⟨r, hr, hread⟩ := Option.bind_eq_some_iff.mp h
    unfold Receiver.access? at hread
    split at hread
    · rename_i hpc
      split at hread <;> cases hread
      exact ⟨i, r, rfl, hr, hpc⟩
    · cases hread
    · cases hread
  · cases h

/-! ### What the receivers wait for -/

/-- A receiver compares the clock with a sum that it has just taken, and sets its
timer behind a comparison. -/
theorem Receiver.step_timer {timeout : Duration} {flow : FlowId} {r r' : Receiver} {input : ReceiverInput} {sh : Shared}
    {result : ReceiverStep} (h : r.step timeout flow input sh = some result) (hr' : result.receiver = some r') :
    (∀ deadline, r'.pc = .checkingDeadline deadline → r.pc = .settingDeadline ∧ timeout.secs ≠ 0 ∧
      deadline = (sh.flows flow).lastActivity + timeout.nanos) ∧
    ∀ deadline, r'.pc = .selecting deadline →
      deadline = none ∧ timeout.secs = 0 ∨ ∃ d, deadline = some d ∧ r.pc = .checkingDeadline d := by
  unfold Receiver.step at h
  dsimp only at h
  split at h
  case h_1 | h_13 =>
    cases h
    cases hr'
    dsimp only
    split <;> simp
  case h_2 hpc =>
    split at h <;> cases h <;> cases hr' <;> rename_i hzero <;> simp [hpc, hzero]
  case h_3 hpc =>
    split at h <;> cases h <;> cases hr' <;> simp [hpc]
  case h_7 =>
    split at h
    · split at h <;> cases h
      cases hr'
      simp
    · cases h
  case h_4 | h_5 | h_6 | h_9 | h_11 | h_12 | h_14 =>
    split at h <;> cases h <;> cases hr' <;> simp
  case h_8 | h_10 =>
    cases h
    cases hr'
    simp
  case h_15 =>
    cases h
    cases hr'
  case h_16 => cases h

/-- The record holds every time that was stored, and the timers come from it. -/
structure Noted (config : Config) (as : List (Option Access)) (s : State) : Prop where
  past : ∀ flow t, some (.stored flow t) ∈ as → flow < s.shared.nextFlow ∧ t ≤ (s.shared.flows flow).lastActivity
  latest : ∀ flow, flow < s.shared.nextFlow → (seen flow as).stored = some (s.shared.flows flow).lastActivity
  clock : ∀ flow, flow < s.shared.nextFlow → (s.shared.flows flow).lastActivity ≤ s.shared.now
  checks : ∀ flow r deadline, s.receivers.lookup flow = some r → r.pc = .checkingDeadline deadline →
    config.udpTimeout.secs ≠ 0 ∧ ∃ t, (seen flow as).read = some t ∧ deadline = t + config.udpTimeout.nanos
  waits : ∀ flow r deadline, s.receivers.lookup flow = some r → r.pc = .selecting deadline →
    deadline = none ∧ config.udpTimeout.secs = 0 ∨
      config.udpTimeout.secs ≠ 0 ∧ ∃ t, some (.stored flow t) ∈ as ∧ deadline = some (t + config.udpTimeout.nanos)

namespace Noted
variable {as : List (Option Access)}

theorem initial (config : Config) : Noted config [] .initial where
  past _ _ h := by simp at h
  latest _ h := absurd h (Nat.not_lt_zero _)
  clock _ h := absurd h (Nat.not_lt_zero _)
  checks flow r _ hr := absurd hr (State.lookup_initial_receivers flow r)
  waits flow r _ hr := absurd hr (State.lookup_initial_receivers flow r)

/-- A receiver that a step leaves, or moves. -/
theorem receiver_step {input : Input} (hs : s.step config input = some (e, s')) {flow : FlowId} {r' : Receiver}
    (hlookup : s'.receivers.lookup flow = some r') (hpc : r'.pc ≠ .loopHead) :
    (s.receivers.lookup flow = some r' ∧ ∀ i, input ≠ .receiver flow i) ∨
      ∃ i r result, input = .receiver flow i ∧ s.receivers.lookup flow = some r ∧
        r.step config.udpTimeout flow i s.shared = some result ∧ result.receiver = some r' := by
  cases input with
  | task id i =>
    obtain ⟨t, step, -, hmove, -, rfl⟩ := State.task_moves hs
    refine .inl ⟨?_, by simp⟩
    generalize t.pc = pc at hmove
    cases hmove with
    | spawn =>
      dsimp only [TaskStep.receivers] at hlookup
      rw [Dict.lookup_insert_eq] at hlookup
      split at hlookup
      · cases hlookup
        exact absurd rfl hpc
      · exact hlookup
    | _ => exact hlookup
  | receiver flow' i =>
    obtain ⟨r, result, hr, hstep, rfl⟩ := State.receiver_step hs
    dsimp only at hlookup
    rw [Dict.lookup_update_eq] at hlookup
    split at hlookup
    · rename_i heq
      subst heq
      exact .inr ⟨i, r, result, rfl, hr, hstep, hlookup⟩
    · rename_i hne
      refine .inl ⟨hlookup, fun i' heq => ?_⟩
      cases heq
      exact hne rfl
  | _ =>
    have hsame := State.sameFlows_step hs (by simp) (by simp)
    rw [hsame.receivers] at hlookup
    exact .inl ⟨hlookup, by simp⟩

/-- A sum that a step leaves, or takes of what it reads. -/
theorem checks_step (h : Noted config as s) (hr : System.Reaches (system config) .initial events s) {input : Input}
    (hs : s.step config input = some (e, s')) {flow : FlowId} {r' : Receiver} {deadline : ℕ}
    (hlookup : s'.receivers.lookup flow = some r') (hpc : r'.pc = .checkingDeadline deadline) :
    config.udpTimeout.secs ≠ 0 ∧ ∃ t, (seen flow (as ++ [s.access? config input])).read = some t ∧
      deadline = t + config.udpTimeout.nanos := by
  rw [seen_append]
  rcases receiver_step hs hlookup (by simp [hpc]) with ⟨hold, hother⟩ | ⟨i, r, result, rfl, hr', hstep, hresult⟩
  · have hquiet : s.access? config input ≠ some (.read flow) := by
      intro hread
      obtain ⟨i, -, rfl, -, -⟩ := State.access?_read hread
      exact hother i rfl
    rw [Seen.read_note hquiet]
    exact h.checks flow r' deadline hold hpc
  · obtain ⟨hsetting, hpos, rfl⟩ := (Receiver.step_timer hstep hresult).1 deadline hpc
    have haccess : s.access? config (.receiver flow i) = some (.read flow) := by
      simp [State.access?, Receiver.access?, hr', hsetting, hpos]
    obtain ⟨owner, key, -, hkeyed⟩ := keyed_of_reaches hr
    rw [haccess, Seen.note_read]
    exact ⟨hpos, _, h.latest flow (hkeyed.receivers flow r hr').1, rfl⟩

/-- A timer that a step leaves, or sets. -/
theorem waits_step (h : Noted config as s) {input : Input} (hs : s.step config input = some (e, s')) {flow : FlowId}
    {r' : Receiver} {deadline : Option ℕ} (hlookup : s'.receivers.lookup flow = some r')
    (hpc : r'.pc = .selecting deadline) :
    deadline = none ∧ config.udpTimeout.secs = 0 ∨
      config.udpTimeout.secs ≠ 0 ∧ ∃ t, some (.stored flow t) ∈ as ∧
        deadline = some (t + config.udpTimeout.nanos) := by
  rcases receiver_step hs hlookup (by simp [hpc]) with ⟨hold, -⟩ | ⟨i, r, result, rfl, hr', hstep, hresult⟩
  · exact h.waits flow r' deadline hold hpc
  · rcases (Receiver.step_timer hstep hresult).2 deadline hpc with hnone | ⟨d, rfl, hchecking⟩
    · exact .inl hnone
    · obtain ⟨hpos, t, ht, rfl⟩ := h.checks flow r d hr' hchecking
      exact .inr ⟨hpos, t, stored_of_seen (.inr ht), rfl⟩

/-- What one step of the server preserves. -/
theorem step (h : Noted config as s) (hr : System.Reaches (system config) .initial events s) {input : Input}
    (hs : s.step config input = some (e, s')) : Noted config (as ++ [s.access? config input]) s' := by
  have htouches := touches_step hr hs
  have hchecks := @checks_step _ _ _ _ _ _ h hr _ hs
  generalize s.access? config input = a at htouches hchecks
  have hclock := htouches.clock
  -- a flow is the one that the step stores a time for, or it is left as it was
  have hcases : ∀ flow, flow < s'.shared.nextFlow →
      a = some (.stored flow s.shared.now) ∧ (s'.shared.flows flow).lastActivity = s.shared.now ∨
        (∀ t, a ≠ some (.stored flow t)) ∧ flow < s.shared.nextFlow ∧
          (s'.shared.flows flow).lastActivity = (s.shared.flows flow).lastActivity := by
    intro flow hlt
    by_cases hnoted : ∃ t, a = some (.stored flow t)
    · obtain ⟨t, ht⟩ := hnoted
      obtain ⟨rfl, -, hlast⟩ := htouches.noted flow t ht
      exact .inl ⟨ht, hlast⟩
    · have hno : ∀ t, a ≠ some (.stored flow t) := fun t ht => hnoted ⟨t, ht⟩
      exact .inr ⟨hno, htouches.kept flow hlt hno⟩
  constructor
  · intro flow t hmem
    rcases List.mem_append.mp hmem with hold | hnew
    · obtain ⟨hlt, hle⟩ := h.past flow t hold
      have hlt' : flow < s'.shared.nextFlow := hlt.trans_le htouches.nextFlow
      have hnow := h.clock flow hlt
      rcases hcases flow hlt' with ⟨-, hlast⟩ | ⟨-, -, hlast⟩
      · exact ⟨hlt', by omega⟩
      · exact ⟨hlt', by omega⟩
    · have ha : a = some (.stored flow t) := (List.mem_singleton.mp hnew).symm
      obtain ⟨ht, hlt, hlast⟩ := htouches.noted flow t ha
      exact ⟨hlt, by omega⟩
  · intro flow hlt
    rw [seen_append]
    rcases hcases flow hlt with ⟨rfl, hlast⟩ | ⟨hno, hold, hlast⟩
    · rw [hlast, Seen.note_stored]
    · rw [hlast, Seen.stored_note hno]
      exact h.latest flow hold
  · intro flow hlt
    rcases hcases flow hlt with ⟨-, hlast⟩ | ⟨-, hold, hlast⟩
    · omega
    · have hnow := h.clock flow hold
      omega
  · exact fun flow r deadline hlookup hpc => hchecks hlookup hpc
  · intro flow r deadline hlookup hpc
    rcases h.waits_step hs hlookup hpc with hnone | ⟨hpos, t, ht, hdeadline⟩
    · exact .inl hnone
    · exact .inr ⟨hpos, t, List.mem_append_left _ ht, hdeadline⟩

end Noted

theorem noted_of_reaches {as : List (Option Access)} (h : System.Reaches (accesses config) .initial as s) :
    (∃ events, System.Reaches (system config) .initial events s) ∧ Noted config as s := by
  induction h with
  | start => exact ⟨⟨[], .start⟩, .initial config⟩
  | step _ hi ih =>
    obtain ⟨⟨events, hr⟩, hnoted⟩ := ih
    obtain ⟨rfl, e, hs⟩ := System.observed_some.mp hi
    exact ⟨⟨events ++ [e], hr.step hs⟩, hnoted.step hr hs⟩

/-! ### Expiry -/

def State.setReceiver (s : State) (flow : FlowId) (r : Receiver) : State :=
  { s with receivers := Dict.update s.receivers flow (some r) }

theorem State.lookup_setReceiver (s : State) (flow : FlowId) (r : Receiver) :
    (s.setReceiver flow r).receivers.lookup flow = some r := by
  have hlookup := Dict.lookup_update_eq s.receivers flow flow (some r)
  rwa [if_pos rfl] at hlookup

/-- A step of a receiver that others do not see. -/
theorem State.step_silent {flow : FlowId} {r r' : Receiver} {input : ReceiverInput}
    (hr : s.receivers.lookup flow = some r)
    (h : r.step config.udpTimeout flow input s.shared = some ⟨.silent, some r', s.shared⟩) :
    system config s (.receiver flow input) = some (.receiver flow .silent, s.setReceiver flow r') := by
  simp only [system, step, hr, h, setReceiver]

/-- The steps of a receiver from a timer that is due to the check behind a new reading. -/
def wakeInputs (flow : FlowId) : List Input :=
  [.receiver flow .deadlineReached, .receiver flow .go, .receiver flow .go, .receiver flow .go]

/-- A timer that is due takes the receiver to the head of its loop and to a new reading. -/
theorem State.run_wake {flow : FlowId} {r : Receiver} {deadline : ℕ} (hr : s.receivers.lookup flow = some r)
    (hpc : r.pc = .selecting (some deadline)) (hdue : deadline ≤ s.shared.now)
    (halive : (s.shared.association r.association).alive = true) (hpos : config.udpTimeout.secs ≠ 0) :
    ∃ es s', (system config).run s (wakeInputs flow) = some (es, s') ∧
      s'.receivers.lookup flow = some
        (if (s.shared.flows flow).lastActivity + config.udpTimeout.nanos ≤ s.shared.now then
          { r with failed := !r.receivedReply, pc := .closing }
        else { r with pc := .selecting (some ((s.shared.flows flow).lastActivity + config.udpTimeout.nanos)) }) := by
  have hfirst : r.step config.udpTimeout flow .deadlineReached s.shared =
      some ⟨.silent, some { r with pc := .loopHead }, s.shared⟩ := by
    simp only [Receiver.step, hpc, if_pos hdue]
  have hsecond : Receiver.step config.udpTimeout flow { r with pc := .loopHead } .go s.shared =
      some ⟨.silent, some { r with pc := .settingDeadline }, s.shared⟩ := by
    simp only [Receiver.step, halive, if_true]
  have hthird : Receiver.step config.udpTimeout flow { r with pc := .settingDeadline } .go s.shared =
      some ⟨.silent, some
        { r with pc := .checkingDeadline ((s.shared.flows flow).lastActivity + config.udpTimeout.nanos) },
        s.shared⟩ := by
    simp only [Receiver.step, if_neg hpos]
  have hfourth : Receiver.step config.udpTimeout flow
      { r with pc := .checkingDeadline ((s.shared.flows flow).lastActivity + config.udpTimeout.nanos) } .go s.shared =
      some ⟨.silent, some
        (if (s.shared.flows flow).lastActivity + config.udpTimeout.nanos ≤ s.shared.now then
          { r with failed := !r.receivedReply, pc := .closing }
        else { r with pc := .selecting (some ((s.shared.flows flow).lastActivity + config.udpTimeout.nanos)) }),
        s.shared⟩ := by
    simp only [Receiver.step]
    split <;> rfl
  -- each step finds the receiver where the last one has left it
  have hstep : ∀ (t : State) (r₁ r₂ : Receiver),
      Receiver.step config.udpTimeout flow r₁ .go t.shared = some ⟨.silent, some r₂, t.shared⟩ →
      system config (t.setReceiver flow r₁) (.receiver flow .go) =
        some (.receiver flow .silent, (t.setReceiver flow r₁).setReceiver flow r₂) :=
    fun t r₁ r₂ h => State.step_silent (lookup_setReceiver t flow r₁) h
  have hrun := System.run_cons (State.step_silent hr hfirst) (System.run_cons (hstep s _ _ hsecond)
    (System.run_cons (hstep (s.setReceiver flow _) _ _ hthird)
      (System.run_cons (hstep ((s.setReceiver flow _).setReceiver flow _) _ _ hfourth) (System.run_nil _))))
  exact ⟨_, _, hrun, lookup_setReceiver _ _ _⟩

/-- A receiver gives up its flow for its age exactly at a check behind which what it
has read last is as old as the timeout. A timer never goes off behind the time at
which all that was stored is so old, and from a timer that is due four steps of the
receiver alone end or renew its wait by what was stored last. -/
theorem flow_expiry_exact {as : List (Option Access)} (h : System.Reaches (accesses config) .initial as s)
    {flow : FlowId} {r : Receiver} (hr : s.receivers.lookup flow = some r) :
    (∀ input, r.exit? flow input s.shared = some .expired ↔ (∃ deadline, r.pc = .checkingDeadline deadline) ∧
      ∃ t, (seen flow as).read = some t ∧ t + config.udpTimeout.nanos ≤ s.shared.now) ∧
    (∀ t, (seen flow as).read = some t → some (.stored flow t) ∈ as) ∧
    ∀ deadline, r.pc = .selecting deadline →
      (config.udpTimeout.secs ≠ 0 → (∀ t, some (.stored flow t) ∈ as → t + config.udpTimeout.nanos ≤ s.shared.now) →
        ∃ d, deadline = some d ∧ d ≤ s.shared.now) ∧
      ∀ d, deadline = some d → d ≤ s.shared.now → (s.shared.association r.association).alive = true →
        ∃ t es s', (seen flow as).stored = some t ∧ (system config).run s (wakeInputs flow) = some (es, s') ∧
          s'.receivers.lookup flow = some
            (if t + config.udpTimeout.nanos ≤ s.shared.now then { r with failed := !r.receivedReply, pc := .closing }
            else { r with pc := .selecting (some (t + config.udpTimeout.nanos)) }) := by
  obtain ⟨⟨events, hreaches⟩, hnoted⟩ := noted_of_reaches h
  obtain ⟨owner, key, -, hkeyed⟩ := keyed_of_reaches hreaches
  have hlatest := hnoted.latest flow (hkeyed.receivers flow r hr).1
  refine ⟨fun input => ?_, fun t ht => stored_of_seen (.inr ht), fun deadline hpc => ?_⟩
  · cases hpc : r.pc with
    | checkingDeadline deadline =>
      obtain ⟨-, t, ht, rfl⟩ := hnoted.checks flow r deadline hr hpc
      simp [Receiver.exit?, hpc, ht]
    | loopHead | received => simp [Receiver.exit?, hpc]
    | selecting deadline => cases input <;> simp [Receiver.exit?, hpc]
    | _ => simp [Receiver.exit?, hpc]
  · rcases hnoted.waits flow r deadline hr hpc with ⟨rfl, hzero⟩ | ⟨hpos, t, ht, rfl⟩
    · exact ⟨fun hpos => absurd hzero hpos, fun d hnone => (Option.some_ne_none d hnone.symm).elim⟩
    · refine ⟨fun _ hold => ⟨_, rfl, hold t ht⟩, ?_⟩
      rintro d hd hdue halive
      obtain ⟨es, s', hrun, hlookup⟩ := State.run_wake hr (hd ▸ hpc) hdue halive hpos
      exact ⟨_, es, s', hlatest, hrun, hlookup⟩

/-- A flow is opened and its target does not answer. The timer fires after a minute,
and the first datagram goes out between the reading and the check. -/
def lateInputs : List Input :=
  relayInputs ++ [.task 0 .go, .task 0 .go, .task 0 .go, .task 0 (.lookedUp (.ok [])), .task 0 .go,
    .task 0 (.bound true), .task 0 .go, .receiver 0 .go, .receiver 0 .go, .receiver 0 .go, .tick 60000000000,
    .receiver 0 .deadlineReached, .receiver 0 .go, .receiver 0 .go, .task 0 .go, .task 0 .go, .task 0 .go, .task 0 .go]

/-- The receiver gives up the flow although it has just been used. -/
theorem flow_expiry_exact_late : ∃ as s, System.Reaches (accesses anonymous) .initial as s ∧
    (seen 0 as).stored = some s.shared.now ∧
    ∃ t, (seen 0 as).read = some t ∧ t + anonymous.udpTimeout.nanos ≤ s.shared.now := by
  have hrun : (((accesses anonymous).run .initial lateInputs).bind fun r =>
      (r.2.receivers.lookup 0).map fun receiver => decide ((seen 0 r.1).stored = some r.2.shared.now ∧
        receiver.exit? 0 .go r.2.shared = some .expired)) = some true := by
    decide +kernel
  obtain ⟨⟨as, s⟩, hrun, hexit⟩ := Option.bind_eq_some_iff.mp hrun
  obtain ⟨receiver, hreceiver, hexit⟩ := Option.map_eq_some_iff.mp hexit
  obtain ⟨hstored, hexit⟩ := of_decide_eq_true hexit
  have hreaches := System.reaches_of_run hrun
  have hexpires := (flow_expiry_exact hreaches hreceiver).1 .go
  exact ⟨as, s, hreaches, hstored, (hexpires.mp hexit).2⟩

end Brume.Server
