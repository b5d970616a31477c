import Brume.Server.FlowKeys

/-!
# The life of a flow

A run is noted as what happens to its flows: their creation, the datagrams that
come back, the exit of the receiver, the swap that ends the flow and the advance
of the index. What the notes say of a flow decides whether its index is advanced.
-/

namespace Brume.Server
open Lib

variable {config : Config} {s s' : State} {e : Event}

/-! ### Notes -/

/-- The part whose swap turns `active` from true to false. -/
inductive Ender where
  | task
  | receiver
  deriving DecidableEq

inductive Note where
  | other
  | created (key : FlowKey) (flow : FlowId) (index : ℕ)
  | arrived (flow : FlowId)
  | left (flow : FlowId) (exit : Exit)
  | ended (flow : FlowId) (ender : Ender)
  | advanced (flow : FlowId)
  deriving DecidableEq

def PacketTask.note (t : PacketTask) (s : Shared) : Note :=
  match t.pc with
  | .spawning _ _ index => .created t.key s.nextFlow index
  | .deactivating _ flow => if (s.flows flow).active then .ended flow .task else .other
  | .advancing _ flow => .advanced flow
  | _ => .other

def Receiver.note (flow : FlowId) (r : Receiver) (input : ReceiverInput) (s : Shared) : Note :=
  match r.exit? flow input s with
  | some exit => .left flow exit
  | none =>
    match r.pc with
    | .closing => if (s.flows flow).active then .ended flow .receiver else .other
    | .advancing => .advanced flow
    | _ => if r.hears input then .arrived flow else .other

def State.note (s : State) : Input → Note
  | .task id _ => ((s.tasks.lookup id).map fun t => t.note s.shared).getD .other
  | .receiver flow input =>
    ((s.receivers.lookup flow).map fun r => r.note flow input s.shared).getD .other
  | _ => .other

/-- The server with notes on its flows. -/
def noted (config : Config) : System State Input Note := (system config).observed State.note

/-- The flow that a note advances. -/
def Note.advanced? : Note → Option FlowId
  | .advanced flow => some flow
  | _ => none

theorem PacketTask.note_advanced (t : PacketTask) (s : Shared) : (t.note s).advanced? = t.pc.advances? := by
  unfold PacketTask.note
  cases t.pc with
  | deactivating slot flow =>
    dsimp only
    split <;> rfl
  | _ => rfl

theorem Receiver.note_advanced (flow : FlowId) (r : Receiver) (input : ReceiverInput)
    (s : Shared) : (r.note flow input s).advanced? = if r.pc = .advancing then some flow else none := by
  unfold Receiver.note
  cases hexit : r.exit? flow input s with
  | some exit =>
    have hpc : r.pc ≠ .advancing := by
      intro hpc
      simp [exit?, hpc] at hexit
    rw [if_neg hpc]
    rfl
  | none =>
    dsimp only
    cases r.pc with
    | advancing => rfl
    | closing =>
      dsimp only
      split <;> rfl
    | _ =>
      dsimp only
      split <;> rfl

theorem Receiver.note_looping {flow : FlowId} {r : Receiver} {input : ReceiverInput} {s : Shared}
    (h : r.pc.looping = true) (hexit : r.exit? flow input s = none) :
    r.note flow input s = if r.hears input then .arrived flow else .other := by
  rw [Receiver.note, hexit]
  cases hpc : r.pc <;> rw [hpc] at h <;> first | rfl | cases h

theorem State.advances_eq (s : State) (input : Input) : s.advances input = (s.note input).advanced? := by
  cases input with
  | task id input =>
    dsimp only [State.advances, State.note]
    cases s.tasks.lookup id with
    | none => rfl
    | some t => exact (t.note_advanced s.shared).symm
  | receiver flow input =>
    dsimp only [State.advances, State.note]
    cases s.receivers.lookup flow with
    | none => rfl
    | some r => exact (r.note_advanced flow input s.shared).symm
  | _ => rfl

/-! ### Lives -/

/-- What the notes say of one flow. -/
structure Life where
  replied : Bool
  exit : Option Exit
  ender : Option Ender
  advanced : Bool
  deriving DecidableEq

/-- Why a flow has ended: the failed send of a packet task, or the exit of its receiver. -/
inductive Cause where
  | sendFailed
  | left (exit : Exit) (replied : Bool)
  deriving DecidableEq

/-- The causes that the next address is for: a failed send, a receive error, and
the idle expiry of a flow without a reply. -/
def Cause.advances : Cause → Bool
  | .sendFailed | .left .receiveError _ | .left .expired false => true
  | _ => false

theorem Cause.advances_left (exit : Exit) (replied : Bool) :
    (Cause.left exit replied).advances = exit.failed replied := by
  cases exit <;> cases replied <;> rfl

namespace Life

def start : Life := ⟨false, none, none, false⟩

def note (flow : FlowId) (l : Life) : Note → Life
  | .arrived flow' => if flow' = flow ∧ l.exit = none then { l with replied := true } else l
  | .left flow' exit => if flow' = flow ∧ l.exit = none then { l with exit := some exit } else l
  | .ended flow' ender => if flow' = flow ∧ l.ender = none then { l with ender := some ender } else l
  | .advanced flow' => if flow' = flow then { l with advanced := true } else l
  | .other | .created _ _ _ => l

/-- The life of the flow in these notes. -/
def of (flow : FlowId) (notes : List Note) : Life := notes.foldl (note flow) start

def cause (l : Life) : Option Cause :=
  match l.ender with
  | none => none
  | some .task => some .sendFailed
  | some .receiver => l.exit.map (.left · l.replied)

theorem of_append (flow : FlowId) (notes : List Note) (n : Note) : of flow (notes ++ [n]) = (of flow notes).note flow n := by
  unfold of
  rw [List.foldl_append]
  rfl

/-- The cause of an end is settled. -/
theorem cause_note {flow : FlowId} {l : Life} {c : Cause} (h : l.cause = some c) (n : Note) :
    (l.note flow n).cause = some c := by
  obtain ⟨replied, exit, ender, advanced⟩ := l
  cases n with
  | arrived flow' | left flow' exit' =>
    dsimp only [note]
    split
    · rename_i hnew
      obtain rfl : exit = none := hnew.2
      cases ender with
      | none => cases h
      | some ender =>
        cases ender with
        | task => exact h
        | receiver => cases h
    · exact h
  | ended flow' ender' =>
    dsimp only [note]
    split
    · rename_i hnew
      obtain rfl : ender = none := hnew.2
      cases h
    · exact h
  | advanced flow' =>
    dsimp only [note]
    split <;> exact h
  | other | created => exact h

theorem cause_append {flow : FlowId} {notes : List Note} {c : Cause} (h : (of flow notes).cause = some c)
    (more : List Note) : (of flow (notes ++ more)).cause = some c := by
  induction more using List.reverseRecOn with
  | nil => rwa [List.append_nil]
  | append_singleton more n ih =>
    rw [← List.append_assoc, of_append]
    exact cause_note ih n

end Life

/-- The flow that a note is about. -/
def Note.flow? : Note → Option FlowId
  | .other => none
  | .created _ flow _ | .arrived flow | .left flow _ | .ended flow _ | .advanced flow => some flow

theorem Receiver.note_flow {flow flow' : FlowId} (r : Receiver) {input : ReceiverInput}
    {s : Shared} (h : (r.note flow input s).flow? = some flow') : flow = flow' := by
  unfold Receiver.note at h
  split at h
  · exact Option.some.inj h
  · split at h
    · split at h
      · exact Option.some.inj h
      · cases h
    · exact Option.some.inj h
    · split at h
      · exact Option.some.inj h
      · cases h

theorem Life.note_ne {flow : FlowId} (l : Life) {n : Note} (h : n.flow? ≠ some flow) : l.note flow n = l := by
  have hne : ∀ flow' : FlowId, some flow' ≠ some flow → flow' ≠ flow := fun _ h heq => h (congrArg some heq)
  cases n with
  | other | created => rfl
  | arrived | left | ended => exact if_neg fun hand => hne _ h hand.1
  | advanced => exact if_neg (hne _ h)

/-- What a life says of the state: while the receiver is in its loop the life says
so, and a flow that has ended did so for a cause. The index is advanced, or
about to be, as the cause says. -/
structure Lived (flow : FlowId) (l : Life) (s : State) : Prop where
  unborn : s.shared.nextFlow ≤ flow → l = .start
  looping : ∀ r, s.receivers.lookup flow = some r → r.pc.looping = true →
    l.exit = none ∧ r.failed = false ∧ l.replied = r.heard
  closing : ∀ r, s.receivers.lookup flow = some r → r.pc = .closing →
    ∃ exit, l.exit = some exit ∧ r.failed = exit.failed l.replied
  active : (s.shared.flows flow).active = true → l.ender = none ∧ l.advanced = false
  ended : flow < s.shared.nextFlow → (s.shared.flows flow).active = false →
    ∃ cause, l.cause = some cause ∧ (cause.advances = true ↔ (∃ p, s.Advancing p flow) ∨ l.advanced = true)

/-! ### Steps -/

/-- A step that is not about the flow. -/
structure State.KeepsFlow (s s' : State) (flow : FlowId) : Prop where
  born : s'.shared.nextFlow ≤ flow ↔ s.shared.nextFlow ≤ flow
  active : (s'.shared.flows flow).active = (s.shared.flows flow).active
  receiver : s'.receivers.lookup flow = s.receivers.lookup flow
  advancing : ∀ p, s'.Advancing p flow ↔ s.Advancing p flow

namespace Lived
variable {flow : FlowId} {l : Life}

theorem kept (h : Lived flow l s) (hk : s.KeepsFlow s' flow) : Lived flow l s' := by
  refine ⟨fun hle => h.unborn (hk.born.mp hle), ?_, ?_, fun hactive => h.active (hk.active ▸ hactive), fun hlt hinactive => ?_⟩
  · rw [hk.receiver]
    exact h.looping
  · rw [hk.receiver]
    exact h.closing
  · have hborn : flow < s.shared.nextFlow := not_le.mp fun hle => absurd hlt (not_lt.mpr (hk.born.mpr hle))
    obtain ⟨cause, hcause, hadvances⟩ := h.ended hborn (hk.active.symm.trans hinactive)
    exact ⟨cause, hcause, hadvances.trans (or_congr_left (exists_congr fun p => (hk.advancing p).symm))⟩

end Lived

namespace State
variable {flow : FlowId}

theorem keepsFlow_other (ht : ∀ id t, s.tasks.lookup id = some t → id < s.nextTask) {input : Input}
    (hs : s.step config input = some (e, s')) (htask : ∀ id i, input ≠ .task id i)
    (hreceiver : ∀ flow i, input ≠ .receiver flow i) : s.KeepsFlow s' flow := by
  have hsame := sameFlows_step hs htask hreceiver
  refine ⟨by rw [hsame.nextFlow], by rw [hsame.flows], by rw [hsame.receivers], fun p => ?_⟩
  cases p with
  | none =>
    unfold Advancing
    rw [hsame.receivers]
  | some id =>
    constructor
    · rintro ⟨t, hlookup, hpc⟩
      rcases hsame.tasks id t hlookup with hold | hstart
      · exact ⟨t, hold, hpc⟩
      · rw [hstart] at hpc
        cases hpc
    · rintro ⟨t, hlookup, hpc⟩
      exact ⟨t, tasks_step ht hs hlookup (htask id), hpc⟩

theorem keepsFlow_task {id : ℕ} {t : PacketTask} {permits : ℕ} {input : TaskInput} {r : TaskStep}
    (ht : s.tasks.lookup id = some t) (hmove : t.Moves id permits s.shared t.pc input r)
    (hnote : (t.note s.shared).flow? ≠ some flow) (hshared : s'.shared = r.shared)
    (htasks : s'.tasks = Dict.update s.tasks id r.task) (hreceivers : s'.receivers = r.receivers s.receivers) :
    s.KeepsFlow s' flow := by
  have nowhere : (none : Option FlowId) ≠ some flow := (Option.some_ne_none flow).symm
  -- the task neither spends nor takes up an advance of the flow
  have hadvancing : t.pc.advances? ≠ some flow → (∀ t', r.task = some t' → t'.pc.advances? ≠ some flow) →
      s'.receivers.lookup flow = s.receivers.lookup flow → ∀ p, s'.Advancing p flow ↔ s.Advancing p flow := by
    intro hbefore hbehind hsame p
    cases p with
    | none =>
      dsimp only [Advancing]
      rw [hsame]
    | some id' =>
      dsimp only [Advancing]
      simp only [htasks, Dict.lookup_update_eq]
      by_cases hid : id' = id
      · rw [if_pos hid, hid, ht]
        refine iff_of_false ?_ ?_
        · rintro ⟨t', ht', hpc⟩
          exact hbehind t' ht' hpc
        · rintro ⟨t', ht', hpc⟩
          cases ht'
          exact hbefore hpc
      · rw [if_neg hid]
  have quiet : t.pc.advances? = none → r.shared.nextFlow = s.shared.nextFlow →
      (r.shared.flows flow).active = (s.shared.flows flow).active → r.receiver = none →
      (∀ t', r.task = some t' → t'.pc.advances? ≠ some flow) → s.KeepsFlow s' flow := by
    intro hpc hnext hactive hreceiver hbehind
    have hsame : s'.receivers = s.receivers := by
      rw [hreceivers, TaskStep.receivers, hreceiver]
    refine ⟨by rw [hshared, hnext], by rw [hshared, hactive], by rw [hsame], hadvancing ?_ hbehind (by rw [hsame])⟩
    rw [hpc]
    exact nowhere
  generalize hpc : t.pc = pc at hmove
  cases hmove with
  | spawn =>
    have hne : flow ≠ s.shared.nextFlow := by
      rintro rfl
      exact hnote (by simp [PacketTask.note, hpc, Note.flow?])
    have hsame : s'.receivers.lookup flow = s.receivers.lookup flow := by
      rw [hreceivers]
      exact (Dict.lookup_insert_eq _ _ _ _).trans (if_neg hne)
    refine ⟨?_, ?_, hsame, hadvancing (by simp [hpc, TaskPc.advances?]) (fun t' ht' => ?_) hsame⟩
    · rw [hshared]
      exact ⟨Nat.le_of_succ_le, fun hle => Nat.lt_of_le_of_ne hle hne.symm⟩
    · rw [hshared]
      exact congrArg Flow.active (Function.update_of_ne hne _ _)
    · cases ht'
      simp [TaskPc.advances?]
  | @deactivate slot flow' =>
    have hadv : t.pc.advances? = none := by rw [hpc]; rfl
    by_cases hactive : (s.shared.flows flow').active = true
    · have hne : flow ≠ flow' := by
        rintro rfl
        exact hnote (by simp [PacketTask.note, hpc, hactive, Note.flow?])
      refine quiet hadv rfl (congrArg Flow.active (Function.update_of_ne hne _ _)) rfl fun t' ht' => ?_
      cases ht'
      dsimp only
      rw [if_pos hactive]
      exact fun heq => hne (Option.some.inj heq).symm
    · have hinactive : ((s.shared.deactivate flow').flows flow).active = (s.shared.flows flow).active := by
        simp only [Shared.deactivate, Shared.setFlow, Function.update_apply]
        split
        · rename_i heq
          rw [heq, Bool.eq_false_of_not_eq_true hactive]
        · rfl
      refine quiet hadv rfl hinactive rfl fun t' ht' => ?_
      cases ht'
      dsimp only
      rw [if_neg hactive]
      exact nowhere
  | @advance slot flow' oldest s₁ h =>
    have hne : t.pc.advances? ≠ some flow := by
      intro hadv
      rw [hpc] at hadv
      cases hadv
      exact hnote (by simp [PacketTask.note, hpc, Note.flow?])
    have hsame : s'.receivers = s.receivers := hreceivers
    obtain ⟨_, rfl⟩ := Shared.advanceUdpAddress_eq h
    refine ⟨by rw [hshared]; rfl, by rw [hshared]; rfl, by rw [hsame], hadvancing hne (fun t' ht' => ?_) (by rw [hsame])⟩
    cases ht'
    exact nowhere
  | remember h =>
    obtain ⟨_, rfl⟩ := Shared.rememberUdpAddress_eq h
    exact quiet (by rw [hpc]; rfl) rfl rfl rfl (by rintro _ ⟨⟩; exact nowhere)
  | touch =>
    exact quiet (by rw [hpc]; rfl) rfl ((Shared.SameTable.touch s.shared _).active flow) rfl
      (by rintro _ ⟨⟩; exact nowhere)
  | stop =>
    exact quiet (by rw [hpc]; rfl) rfl ((Shared.SameTable.stopFlow s.shared _).active flow) rfl
      (by rintro _ ⟨⟩; exact nowhere)
  | done => exact quiet (by rw [hpc]; rfl) rfl ((Shared.SameTable.touch s.shared _).active flow) rfl (by rintro _ ⟨⟩)
  | discard | giveUp | last =>
    exact quiet (by rw [hpc]; rfl) (s.shared.nextFlow_removeFlowSlot _ _ _)
      (congrArg (fun flows => (flows flow).active) (s.shared.flows_removeFlowSlot _ _ _)) rfl (by rintro _ ⟨⟩)
  | retry | again =>
    exact quiet (by rw [hpc]; rfl) (s.shared.nextFlow_removeFlowSlot _ _ _)
      (congrArg (fun flows => (flows flow).active) (s.shared.flows_removeFlowSlot _ _ _)) rfl
      (by rintro _ ⟨⟩; exact nowhere)
  | bind | send =>
    refine quiet (by rw [hpc]; rfl) rfl rfl rfl fun t' ht' => ?_
    cases ht'
    dsimp only
    split <;> exact nowhere
  | dead | refused | abandon => exact quiet (by rw [hpc]; rfl) rfl rfl rfl (by rintro _ ⟨⟩)
  | _ => exact quiet (by rw [hpc]; rfl) rfl rfl rfl (by rintro _ ⟨⟩; exact nowhere)

theorem keepsFlow_receiver {flow' : FlowId} {input : ReceiverInput} (hne : flow' ≠ flow)
    (hs : s.step config (.receiver flow' input) = some (e, s')) : s.KeepsFlow s' flow := by
  obtain ⟨r, result, hr, hmove, rfl⟩ := receiver_moves hs
  have hsame : (Dict.update s.receivers flow' result.receiver).lookup flow = s.receivers.lookup flow := by
    rw [Dict.lookup_update_eq, if_neg hne.symm]
  refine ⟨by dsimp only; rw [hmove.nextFlow], congrArg Flow.active (hmove.flows hne.symm), hsame, fun p => ?_⟩
  cases p with
  | none =>
    dsimp only [Advancing]
    rw [hsame]
  | some id => exact Iff.rfl

/-- A step of the receiver of the flow, which leaves the tasks alone. -/
structure Received (s s' : State) (flow : FlowId) (r : Receiver) (r' : Option Receiver) : Prop where
  born : flow < s.shared.nextFlow
  next : s'.shared.nextFlow = s.shared.nextFlow
  tasks : s'.tasks = s.tasks
  before : s.receivers.lookup flow = some r
  behind : s'.receivers.lookup flow = r'

theorem Received.advancing {r : Receiver} {r' : Option Receiver} (h : s.Received s' flow r r') (hbefore : r.pc ≠ .advancing)
    (hbehind : ∀ r₁, r' = some r₁ → r₁.pc ≠ .advancing) (p : Option ℕ) : s'.Advancing p flow ↔ s.Advancing p flow := by
  cases p with
  | some id =>
    dsimp only [Advancing]
    rw [h.tasks]
  | none =>
    refine iff_of_false ?_ ?_
    · rintro ⟨r₁, hr₁, hpc⟩
      exact hbehind r₁ (h.behind.symm.trans hr₁) hpc
    · rintro ⟨r₁, hr₁, hpc⟩
      cases h.before.symm.trans hr₁
      exact hbefore hpc

end State

namespace Lived
variable {flow : FlowId} {l : Life} {owner : SlotId → FlowKey} {key : FlowId → FlowKey} {calls : List (Option FlowId)}

/-- The flow starts with its receiver. -/
theorem created {arc : Arc} {slot : SlotId} {target : Target} {destination : SocketAddr}
    (h : Lived s.shared.nextFlow l s) (hnext : s'.shared.nextFlow = s.shared.nextFlow + 1)
    (hactive : (s'.shared.flows s.shared.nextFlow).active = true)
    (hreceiver : s'.receivers.lookup s.shared.nextFlow = some (.new arc slot target destination)) (k : FlowKey)
    (index : ℕ) : Lived s.shared.nextFlow (l.note s.shared.nextFlow (.created k s.shared.nextFlow index)) s' := by
  obtain rfl : l = .start := h.unborn (le_refl _)
  refine ⟨fun hle => ?_, fun r hr _ => ?_, fun r hr hclosing => ?_, fun _ => ⟨rfl, rfl⟩, fun _ hinactive => ?_⟩
  · rw [hnext] at hle
    exact absurd hle (Nat.not_succ_le_self _)
  · cases hreceiver.symm.trans hr
    exact ⟨rfl, rfl, rfl⟩
  · cases hreceiver.symm.trans hr
    cases hclosing
  · rw [hactive] at hinactive
    cases hinactive

/-- A packet task ends the flow, and is about to advance the index. -/
theorem ended_sending {id : ℕ} (h : Lived flow l s) (hborn : flow < s.shared.nextFlow)
    (hactive : (s.shared.flows flow).active = true) (hshared : s'.shared = s.shared.deactivate flow)
    (hreceivers : s'.receivers = s.receivers) (hadvancing : s'.Advancing (some id) flow) :
    Lived flow (l.note flow (.ended flow .task)) s' := by
  have hlife : l.note flow (.ended flow .task) = { l with ender := some .task } := if_pos ⟨rfl, (h.active hactive).1⟩
  rw [hlife]
  refine ⟨fun hle => ?_, ?_, ?_, fun hactive' => ?_,
    fun _ _ => ⟨.sendFailed, rfl, iff_of_true rfl (.inl ⟨some id, hadvancing⟩)⟩⟩
  · rw [hshared] at hle
    exact absurd hborn (not_lt.mpr hle)
  · rw [hreceivers]
    exact h.looping
  · rw [hreceivers]
    exact h.closing
  · rw [hshared] at hactive'
    simp [Shared.deactivate, Shared.setFlow] at hactive'

/-- The party that has ended the flow advances the index. -/
theorem spent {p : Option ℕ} (h : Lived flow l s) (hticket : Ticketed calls s) (hadvancing : s.Advancing p flow)
    (hborn : flow < s.shared.nextFlow) (hnext : s'.shared.nextFlow = s.shared.nextFlow)
    (hflows : s'.shared.flows = s.shared.flows)
    (hreceivers : ∀ r, s'.receivers.lookup flow = some r → s.receivers.lookup flow = some r ∨ r.pc = .dropping) :
    Lived flow (l.note flow (.advanced flow)) s' := by
  have hlife : l.note flow (.advanced flow) = { l with advanced := true } := if_pos rfl
  rw [hlife]
  refine ⟨fun hle => absurd hborn (not_lt.mpr (hnext.ge.trans hle)), fun r hr hloop => ?_, fun r hr hclosing => ?_,
    fun hactive => ?_, fun _ hinactive => ?_⟩
  · rcases hreceivers r hr with hold | hpc
    · exact h.looping r hold hloop
    · rw [hpc] at hloop
      cases hloop
  · rcases hreceivers r hr with hold | hpc
    · exact h.closing r hold hclosing
    · cases hpc.symm.trans hclosing
  · rw [hflows] at hactive
    exact absurd hadvancing ((hticket.free flow (.inr hactive)).2 p)
  · rw [hflows] at hinactive
    obtain ⟨cause, hcause, hadvances⟩ := h.ended hborn hinactive
    exact ⟨cause, hcause, iff_of_true (hadvances.mpr (.inl ⟨p, hadvancing⟩)) (.inr rfl)⟩

/-- The flow that a step is about is there, except for the one it makes. -/
theorem taskStep (h : Lived flow l s) (hkeyed : Keyed owner key s) (hticket : Ticketed calls s) {id : ℕ}
    {input : TaskInput} (hs : s.step config (.task id input) = some (e, s')) :
    Lived flow (l.note flow (s.note (.task id input))) s' := by
  obtain ⟨t, r, hlookup, hmove, -, rfl⟩ := State.task_moves hs
  have hnote : s.note (.task id input) = t.note s.shared := by
    rw [State.note, hlookup]
    rfl
  rw [hnote]
  by_cases habout : (t.note s.shared).flow? = some flow
  swap
  · rw [l.note_ne habout]
    exact h.kept (State.keepsFlow_task hlookup hmove habout rfl rfl rfl)
  generalize hpc : t.pc = pc at hmove
  cases pc with
  | spawning slot addresses index =>
    have hnote : t.note s.shared = .created t.key s.shared.nextFlow index := by rw [PacketTask.note, hpc]
    rw [hnote] at habout ⊢
    obtain rfl : s.shared.nextFlow = flow := Option.some.inj habout
    cases hmove
    refine h.created rfl ?_ (AList.lookup_insert _) _ _
    change ((Function.update s.shared.flows s.shared.nextFlow _) s.shared.nextFlow).active = true
    rw [Function.update_self]
  | deactivating slot flow' =>
    rw [PacketTask.note, hpc] at habout ⊢
    dsimp only at habout ⊢
    by_cases hactive : (s.shared.flows flow').active = true
    · rw [if_pos hactive] at habout ⊢
      obtain rfl : flow' = flow := Option.some.inj habout
      have hborn := (hkeyed.tasks id t flow' hlookup (by rw [hpc]; rfl)).1
      cases hmove
      refine @ended_sending _ _ _ _ id h hborn hactive rfl rfl ⟨{ t with pc := .advancing slot flow' }, ?_, rfl⟩
      dsimp only [PacketTask.goes]
      rw [if_pos hactive, Dict.lookup_update_eq, if_pos rfl]
    · rw [if_neg hactive] at habout
      cases habout
  | advancing slot flow' =>
    have hnote : t.note s.shared = .advanced flow' := by rw [PacketTask.note, hpc]
    rw [hnote] at habout ⊢
    obtain rfl : flow' = flow := Option.some.inj habout
    have hborn := (hkeyed.tasks id t flow' hlookup (by rw [hpc]; rfl)).1
    have hadvancing : s.Advancing (some id) flow' := ⟨t, hlookup, by rw [hpc]; rfl⟩
    cases hmove with
    | advance hs' =>
      obtain ⟨_, rfl⟩ := Shared.advanceUdpAddress_eq hs'
      exact h.spent hticket hadvancing hborn rfl rfl fun _ hr => .inl hr
  | _ =>
    rw [PacketTask.note, hpc] at habout
    cases habout

section
variable {r r' : Receiver} {input : ReceiverInput} {after : Option Receiver}

/-- The receiver neither ends the flow nor advances the index. -/
theorem quiet {l' : Life} (h : Lived flow l s) (hr : s.Received s' flow r after)
    (hactive : (s'.shared.flows flow).active = (s.shared.flows flow).active) (hbefore : r.pc ≠ .advancing)
    (hbehind : ∀ r₁, after = some r₁ → r₁.pc ≠ .advancing) (hcause : ∀ c, l.cause = some c → l'.cause = some c)
    (hender : l'.ender = l.ender) (hadvanced : l'.advanced = l.advanced)
    (hlooping : ∀ r₁, after = some r₁ → r₁.pc.looping = true →
      l'.exit = none ∧ r₁.failed = false ∧ l'.replied = r₁.heard)
    (hclosing : ∀ r₁, after = some r₁ → r₁.pc = .closing →
      ∃ exit, l'.exit = some exit ∧ r₁.failed = exit.failed l'.replied) : Lived flow l' s' := by
  refine ⟨fun hle => absurd hr.born (not_lt.mpr (hr.next.ge.trans hle)),
    fun r₁ hr₁ => hlooping r₁ (hr.behind.symm.trans hr₁), fun r₁ hr₁ => hclosing r₁ (hr.behind.symm.trans hr₁),
    fun hactive' => ?_, fun _ hinactive => ?_⟩
  · rw [hender, hadvanced]
    exact h.active (hactive.symm.trans hactive')
  · obtain ⟨cause, hcause', hadvances⟩ := h.ended hr.born (hactive.symm.trans hinactive)
    have hadvancing := fun p => (hr.advancing hbefore hbehind p).symm
    rw [hadvanced]
    exact ⟨cause, hcause cause hcause', hadvances.trans (or_congr_left (exists_congr hadvancing))⟩

theorem stayed (h : Lived flow l s) (hr : s.Received s' flow r (some r')) (hexit : r.exit? flow input s.shared = none)
    (hstay : r.Stays flow r' input s.shared s'.shared) : Lived flow (l.note flow (r.note flow input s.shared)) s' := by
  obtain ⟨hexit₀, hfailed, hreplied⟩ := h.looping r hr.before hstay.source
  have hlife : l.note flow (r.note flow input s.shared) = { l with replied := l.replied || r.hears input } := by
    rw [Receiver.note_looping hstay.source hexit]
    split
    · rename_i hhears
      rw [hhears, Bool.or_true]
      exact if_pos ⟨rfl, hexit₀⟩
    · rename_i hhears
      rw [Bool.eq_false_of_not_eq_true hhears, Bool.or_false]
      rfl
  have hactive : (s'.shared.flows flow).active = (s.shared.flows flow).active := by
    rcases hstay.shared with heq | heq
    · rw [heq]
    · rw [heq]
      exact (Shared.SameTable.touch s.shared flow).active flow
  have hloops : ∀ {pc : ReceiverPc}, pc.looping = true → pc ≠ .advancing ∧ pc ≠ .closing := by
    rintro pc hpc
    constructor <;> rintro rfl <;> cases hpc
  have hcauses := fun c (hc : l.cause = some c) => @Life.cause_note flow l c hc (r.note flow input s.shared)
  rw [hlife] at hcauses ⊢
  refine h.quiet hr hactive (hloops hstay.source).1 ?_ hcauses rfl rfl ?_ ?_
  · rintro _ ⟨⟩
    exact (hloops hstay.next).1
  · rintro _ ⟨⟩ -
    exact ⟨hexit₀, hstay.failed.trans hfailed, by rw [hstay.heard, hreplied]⟩
  · rintro _ ⟨⟩ hpc
    exact absurd hpc (hloops hstay.next).2

theorem left {exit : Exit} {failed : Bool} (h : Lived flow l s)
    (hr : s.Received s' flow r (some { r with failed, pc := .closing })) (hshared : s'.shared = s.shared)
    (hpc : r.pc.looping = true) (hexit : r.exit? flow input s.shared = some exit)
    (hfailed : r.failed = false → failed = exit.failed r.heard) :
    Lived flow (l.note flow (r.note flow input s.shared)) s' := by
  obtain ⟨hexit₀, hfailed₀, hreplied⟩ := h.looping r hr.before hpc
  have hlife : l.note flow (r.note flow input s.shared) = { l with exit := some exit } := by
    rw [Receiver.note, hexit]
    exact if_pos ⟨rfl, hexit₀⟩
  have hbefore : r.pc ≠ .advancing := by
    intro hadvancing
    rw [hadvancing] at hpc
    cases hpc
  have hcauses := fun c (hc : l.cause = some c) => @Life.cause_note flow l c hc (r.note flow input s.shared)
  rw [hlife] at hcauses ⊢
  refine h.quiet hr (by rw [hshared]) hbefore ?_ hcauses rfl rfl ?_ ?_
  · rintro _ ⟨⟩
    simp
  · rintro _ ⟨⟩ hloop
    cases hloop
  · rintro _ ⟨⟩ -
    exact ⟨exit, rfl, (hfailed hfailed₀).trans (by rw [hreplied])⟩

theorem close_note (hpc : r.pc = .closing) :
    r.note flow .go s.shared = if (s.shared.flows flow).active then .ended flow .receiver else .other := by
  simp [Receiver.note, Receiver.exit?, hpc]

/-- The receiver ends the flow, and is about to advance the index where it has failed. -/
theorem ended_closing (h : Lived flow l s) (hticket : Ticketed calls s)
    (hr : s.Received s' flow r (some { r with pc := if r.failed then .advancing else .dropping }))
    (hshared : s'.shared = s.shared.deactivate flow) (hpc : r.pc = .closing)
    (hactive : (s.shared.flows flow).active = true) : Lived flow (l.note flow (r.note flow .go s.shared)) s' := by
  obtain ⟨exit, hexit, hfailed⟩ := h.closing r hr.before hpc
  obtain ⟨hender, hadvanced⟩ := h.active hactive
  have hlife : l.note flow (r.note flow .go s.shared) = { l with ender := some .receiver } := by
    rw [close_note hpc, if_pos hactive]
    exact if_pos ⟨rfl, hender⟩
  have hpcs : ∀ r₁, some { r with pc := if r.failed then .advancing else .dropping } = some r₁ →
      (r₁.pc = .advancing ↔ r.failed = true) ∧ r₁.pc.looping = false ∧ r₁.pc ≠ .closing := by
    rintro _ ⟨⟩
    cases r.failed <;> simp [ReceiverPc.looping]
  rw [hlife]
  refine ⟨fun hle => absurd hr.born (not_lt.mpr (hr.next.ge.trans hle)), fun r₁ hr₁ hloop => ?_,
    fun r₁ hr₁ hclosing => ?_, fun hactive' => ?_, fun _ _ => ⟨.left exit l.replied, by simp [Life.cause, hexit], ?_⟩⟩
  · rw [(hpcs r₁ (hr.behind.symm.trans hr₁)).2.1] at hloop
    cases hloop
  · exact absurd hclosing (hpcs r₁ (hr.behind.symm.trans hr₁)).2.2
  · rw [hshared] at hactive'
    simp [Shared.deactivate, Shared.setFlow] at hactive'
  · rw [Cause.advances_left, ← hfailed]
    constructor
    · exact fun hfail => .inl ⟨none, _, hr.behind, (hpcs _ rfl).1.mpr hfail⟩
    · rintro (⟨p, hp⟩ | hp)
      · cases p with
        | none =>
          obtain ⟨r₁, hr₁, hadvancing⟩ := hp
          exact (hpcs r₁ (hr.behind.symm.trans hr₁)).1.mp hadvancing
        | some id =>
          dsimp only [State.Advancing] at hp
          rw [hr.tasks] at hp
          exact absurd hp ((hticket.free flow (.inr hactive)).2 (some id))
      · rw [hadvanced] at hp
        cases hp

/-- A packet task has ended the flow before. -/
theorem inactive_closing (h : Lived flow l s) (hr : s.Received s' flow r (some { r with pc := .dropping }))
    (hshared : s'.shared = s.shared.deactivate flow) (hpc : r.pc = .closing)
    (hactive : (s.shared.flows flow).active = false) : Lived flow (l.note flow (r.note flow .go s.shared)) s' := by
  have hlife : l.note flow (r.note flow .go s.shared) = l := by
    rw [close_note hpc, hactive]
    rfl
  have hinactive : (s'.shared.flows flow).active = (s.shared.flows flow).active := by
    rw [hshared, hactive]
    simp [Shared.deactivate, Shared.setFlow]
  rw [hlife]
  refine h.quiet hr hinactive (by rw [hpc]; simp) ?_ (fun _ hc => hc) rfl rfl ?_ ?_
  · rintro _ ⟨⟩
    simp
  · rintro _ ⟨⟩ hloop
    cases hloop
  · rintro _ ⟨⟩ hclosing
    cases hclosing

theorem closed (h : Lived flow l s) (hticket : Ticketed calls s)
    (hr : s.Received s' flow r
      (some { r with pc := if (s.shared.flows flow).active && r.failed then .advancing else .dropping }))
    (hshared : s'.shared = s.shared.deactivate flow) (hpc : r.pc = .closing) :
    Lived flow (l.note flow (r.note flow .go s.shared)) s' := by
  cases hactive : (s.shared.flows flow).active with
  | true =>
    rw [hactive, Bool.true_and] at hr
    exact h.ended_closing hticket hr hshared hpc hactive
  | false =>
    rw [hactive, Bool.false_and] at hr
    exact h.inactive_closing hr hshared hpc hactive

theorem advanced {oldest : Target} {shared : Shared} (h : Lived flow l s) (hticket : Ticketed calls s)
    (hr : s.Received s' flow r (some { r with pc := .dropping })) (hpc : r.pc = .advancing)
    (hadvance : s.shared.advanceUdpAddress r.association r.target flow oldest = some shared) (hshared : s'.shared = shared) :
    Lived flow (l.note flow (r.note flow (.oldest oldest) s.shared)) s' := by
  have hnote : r.note flow (.oldest oldest) s.shared = .advanced flow := by simp [Receiver.note, Receiver.exit?, hpc]
  have hadvancing : s.Advancing none flow := ⟨r, hr.before, hpc⟩
  obtain ⟨_, rfl⟩ := Shared.advanceUdpAddress_eq hadvance
  rw [hnote]
  have hflows : s'.shared.flows = s.shared.flows := by
    rw [hshared]
    rfl
  refine h.spent hticket hadvancing hr.born hr.next hflows fun r₁ hr₁ => .inr ?_
  cases hr.behind.symm.trans hr₁
  rfl

theorem dropped (h : Lived flow l s) (hr : s.Received s' flow r none) (hpc : r.pc = .dropping)
    (hshared : s'.shared = s.shared.removeFlowSlot r.association r.target r.slot) :
    Lived flow (l.note flow (r.note flow .go s.shared)) s' := by
  have hlife : l.note flow (r.note flow .go s.shared) = l := by
    have hnotes : r.note flow .go s.shared = .other := by simp [Receiver.note, Receiver.exit?, Receiver.hears, hpc]
    rw [hnotes]
    rfl
  rw [hlife]
  have hgone {P : Receiver → Prop} : ∀ r₁, none = some r₁ → P r₁ := fun _ h => (Option.some_ne_none _ h.symm).elim
  refine h.quiet hr ?_ (by rw [hpc]; simp) hgone (fun _ hc => hc) rfl rfl hgone hgone
  rw [hshared, s.shared.flows_removeFlowSlot]

end

/-- One case for each move of the receiver. -/
theorem receiverStep (h : Lived flow l s) (hkeyed : Keyed owner key s) (hticket : Ticketed calls s)
    {flow' : FlowId} {input : ReceiverInput} (hs : s.step config (.receiver flow' input) = some (e, s')) :
    Lived flow (l.note flow (s.note (.receiver flow' input))) s' := by
  have hkept := @State.keepsFlow_receiver config s s' e flow flow' input
  obtain ⟨r, result, hr, hmove, hs'⟩ := State.receiver_moves hs
  have hnote : s.note (.receiver flow' input) = r.note flow' input s.shared := by
    rw [State.note, hr]
    rfl
  rw [hnote]
  by_cases hne : flow' = flow
  swap
  · have hother : (r.note flow' input s.shared).flow? ≠ some flow := fun heq =>
      hne (r.note_flow heq)
    rw [l.note_ne hother]
    exact h.kept (hkept hne hs)
  subst hne hs'
  have hreceived : s.Received { s with
      shared := result.shared
      receivers := Dict.update s.receivers flow' result.receiver } flow' r result.receiver :=
    ⟨(hkeyed.receivers flow' r hr).1, hmove.nextFlow, rfl, hr, by rw [Dict.lookup_update_eq, if_pos rfl]⟩
  cases hmove with
  | stay hexit hstay => exact h.stayed hreceived hexit hstay
  | leave hpc hexit _ hfailed => exact h.left hreceived rfl hpc hexit hfailed
  | close hpc => exact h.closed hticket hreceived rfl hpc
  | advance hpc hadvance => exact h.advanced hticket hreceived hpc hadvance rfl
  | drop hpc => exact h.dropped hreceived hpc rfl

theorem initial (flow : FlowId) : Lived flow .start .initial where
  unborn _ := rfl
  looping r hr := absurd hr (State.lookup_initial_receivers flow r)
  closing r hr := absurd hr (State.lookup_initial_receivers flow r)
  active := nofun
  ended h := absurd h (Nat.not_lt_zero _)

/-- What one step of the server preserves. -/
theorem step (h : Lived flow l s) (htasks : ∀ id t, s.tasks.lookup id = some t → id < s.nextTask)
    (hkeyed : Keyed owner key s) (hticket : Ticketed calls s) {input : Input}
    (hs : s.step config input = some (e, s')) : Lived flow (l.note flow (s.note input)) s' := by
  cases input with
  | task id input => exact h.taskStep hkeyed hticket hs
  | receiver flow' input => exact h.receiverStep hkeyed hticket hs
  | _ => exact h.kept (State.keepsFlow_other htasks hs (by simp) (by simp))

end Lived

/-! ### Runs -/

/-- What holds in every run of the server, with the notes so far. -/
structure Followed (config : Config) (owner : SlotId → FlowKey) (key : FlowId → FlowKey) (notes : List Note)
    (s : State) : Prop where
  reached : ∃ events, System.Reaches (system config) .initial events s
  tabled : Tabled owner s
  keyed : Keyed owner key s
  ticketed : Ticketed (notes.map Note.advanced?) s
  lived : ∀ flow, Lived flow (.of flow notes) s

namespace Followed
variable {owner : SlotId → FlowKey} {key : FlowId → FlowKey} {notes : List Note}

theorem initial (owner : SlotId → FlowKey) (key : FlowId → FlowKey) : Followed config owner key [] .initial where
  reached := ⟨[], .start⟩
  tabled := .initial owner
  keyed := .initial owner key
  ticketed := .initial
  lived := .initial

/-- What one step of the server preserves: slots and flows keep their targets. -/
theorem step (h : Followed config owner key notes s) {input : Input} (hs : s.step config input = some (e, s')) :
    ∃ owner' key', Evolves owner s owner' s' ∧ (∀ flow < s.shared.nextFlow, key' flow = key flow) ∧
      Followed config owner' key' (notes ++ [s.note input]) s' := by
  obtain ⟨events, hreached⟩ := h.reached
  obtain ⟨hc, ht⟩ := traced_of_reaches hreached
  obtain ⟨owner', hev⟩ := h.tabled.step hc ht hs
  obtain ⟨key', hkey', hkeyed'⟩ := h.keyed.step h.tabled hev hs
  refine ⟨owner', key', hev, hkey', ⟨_, hreached.step hs⟩, hev.tabled, hkeyed', ?_, fun flow => ?_⟩
  · rw [List.map_append, List.map_singleton, ← State.advances_eq]
    exact h.ticketed.step h.tabled.sound hs
  · rw [Life.of_append]
    exact (h.lived flow).step h.tabled.tasks h.keyed h.ticketed hs

end Followed

end Brume.Server
