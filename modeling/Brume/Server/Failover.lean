import Brume.Server.Attempts
import Brume.Server.Permits
import Mathlib.Data.List.Rotate

/-!
# Failover

A packet task that has its association to itself, and a network in which the target
keeps its addresses and each of them keeps to what it does. The task goes around
the addresses from the preferred one on, past those that cannot be bound, until one
accepts the payload.
-/

namespace Brume.Server
open Lib

/-! ### The network -/

/-- The addresses of a target, those that can be bound and connected, and those that
accept what is sent to them. -/
structure Network where
  addresses : List SocketAddr
  bindable : SocketAddr → Bool
  accepting : SocketAddr → Bool

namespace Network
variable {net : Network} {start q : ℕ} {payload : Bytes} {sent : List Send} {a : SocketAddr}

def usable (net : Network) (a : SocketAddr) : Bool := net.bindable a && net.accepting a

/-- The address with number `j` in cyclic order from `start`. -/
def visit (net : Network) (start j : ℕ) : Option SocketAddr := net.addresses[(start + j) % net.addresses.length]?

/-- The bindable ones of the first `q` addresses have got the payload and not accepted it. -/
def Tried (net : Network) (start : ℕ) (payload : Bytes) (sent : List Send) (q : ℕ) : Prop :=
  ∀ j < q, ∀ a, net.visit start j = some a → net.bindable a = true →
    net.accepting a = false ∧ ⟨a, payload, false⟩ ∈ sent

/-- What is to become of the payload: one successful send, to the first usable address
in cyclic order; or none, and a send to every bindable address. -/
def Outcome (net : Network) (start : ℕ) (payload : Bytes) (sent : List Send) : Prop :=
  match (net.addresses.rotate start).find? net.usable with
  | some a => sent.filter Send.ok = [⟨a, payload, true⟩]
  | none => sent.filter Send.ok = [] ∧
      ∀ a ∈ net.addresses, net.bindable a = true → ⟨a, payload, false⟩ ∈ sent

theorem visit_mod (net : Network) (start j : ℕ) :
    net.visit start (j % net.addresses.length) = net.visit start j := by
  rw [visit, visit, Nat.add_mod_mod]

theorem getElem?_rotate (net : Network) (start : ℕ) {j : ℕ} (h : j < net.addresses.length) :
    (net.addresses.rotate start)[j]? = net.visit start j := by
  rw [List.getElem?_rotate h, visit, Nat.add_comm]

theorem exists_visit (h : a ∈ net.addresses) (start : ℕ) : ∃ j < net.addresses.length, net.visit start j = some a := by
  obtain ⟨j, hj⟩ := List.mem_iff_getElem?.mp (List.mem_rotate.mpr h : a ∈ net.addresses.rotate start)
  have hlt : j < net.addresses.length := by
    rw [← List.length_rotate net.addresses start]
    exact (List.getElem?_eq_some_iff.mp hj).1
  exact ⟨j, hlt, (net.getElem?_rotate start hlt).symm.trans hj⟩

namespace Tried

theorem zero (net : Network) (start : ℕ) (payload : Bytes) (sent : List Send) : net.Tried start payload sent 0 :=
  fun _ h => absurd h (Nat.not_lt_zero _)

theorem mono (h : net.Tried start payload sent q) (more : List Send) : net.Tried start payload (sent ++ more) q := by
  intro j hj a hvisit hbindable
  obtain ⟨haccepting, hmem⟩ := h j hj a hvisit hbindable
  exact ⟨haccepting, List.mem_append_left _ hmem⟩

theorem succ (h : net.Tried start payload sent q)
    (hq : ∀ a, net.visit start q = some a → net.bindable a = true →
      net.accepting a = false ∧ ⟨a, payload, false⟩ ∈ sent) : net.Tried start payload sent (q + 1) := by
  intro j hj a hvisit hbindable
  rcases Nat.lt_succ_iff_lt_or_eq.mp hj with hlt | rfl
  · exact h j hlt a hvisit hbindable
  · exact hq a hvisit hbindable

/-- Once around, every address has been tried. -/
theorem all (h : net.Tried start payload sent q) (hq : net.addresses.length ≤ q) (ha : a ∈ net.addresses)
    (hbindable : net.bindable a = true) : net.accepting a = false ∧ ⟨a, payload, false⟩ ∈ sent := by
  obtain ⟨j, hj, hvisit⟩ := exists_visit ha start
  exact h j (hj.trans_le hq) a hvisit hbindable

/-- Nothing was delivered, and nothing could be. -/
theorem outcome (h : net.Tried start payload sent q) (hq : net.addresses.length ≤ q)
    (hsilent : sent.filter Send.ok = []) : net.Outcome start payload sent := by
  have hnone : (net.addresses.rotate start).find? net.usable = none := by
    rw [List.find?_eq_none]
    intro a ha husable
    obtain ⟨hbindable, haccepting⟩ := Bool.and_eq_true_iff.mp husable
    have hrefused := (h.all hq (List.mem_rotate.mp ha) hbindable).1
    rw [haccepting] at hrefused
    cases hrefused
  unfold Outcome
  rw [hnone]
  exact ⟨hsilent, fun a ha hbindable => (h.all hq ha hbindable).2⟩

/-- The first usable address is the first one that accepts. -/
theorem find (h : net.Tried start payload sent q) (hvisit : net.visit start q = some a)
    (hbindable : net.bindable a = true) (haccepting : net.accepting a = true) :
    (net.addresses.rotate start).find? net.usable = some a := by
  have hpos : 0 < net.addresses.length := by
    obtain ⟨hlt, -⟩ := List.getElem?_eq_some_iff.mp hvisit
    omega
  -- an address behind the last one is one of those before
  have hq : q < net.addresses.length := by
    by_contra hle
    have hmod : q % net.addresses.length < q := (Nat.mod_lt q hpos).trans_le (not_lt.mp hle)
    have hrefused := (h _ hmod a ((net.visit_mod start q).trans hvisit) hbindable).1
    rw [haccepting] at hrefused
    cases hrefused
  have hlength := List.length_rotate net.addresses start
  have hget : ∀ j (hj : j < (net.addresses.rotate start).length),
      net.visit start j = some (net.addresses.rotate start)[j] := fun j hj => by
    rw [← net.getElem?_rotate start (hlength ▸ hj), List.getElem?_eq_getElem hj]
  rw [List.find?_eq_some_iff_getElem]
  refine ⟨Bool.and_eq_true_iff.mpr ⟨hbindable, haccepting⟩, q, hlength.symm ▸ hq, ?_, fun j hj => ?_⟩
  · exact Option.some.inj ((hget q _).symm.trans hvisit)
  · have hrefused := h j hj _ (hget j (hlength.symm ▸ hj.trans hq))
    cases hb : net.bindable (net.addresses.rotate start)[j] with
    | false =>
      rw [usable, hb]
      rfl
    | true =>
      rw [usable, (hrefused hb).1, Bool.and_false]
      rfl

end Tried

end Network

variable {config : Config} {events : List Event} {s s' : State} {e : Event} {owner owner' : SlotId → FlowKey}
  {key : FlowId → FlowKey} {net : Network} {id : ℕ}

/-! ### The environment -/

/-- The resolver and the sockets answer the task as the network does. -/
def Network.Answers (net : Network) (t : PacketTask) (input : TaskInput) (sh : Shared) : Prop :=
  match t.pc, input with
  | .resolving _, .lookedUp lookupIp =>
    match (lookup (fun _ => lookupIp) t.target : Except IoError (List SocketAddr)) with
    | .ok addresses => addresses = net.addresses
    | .error _ => False
  | .binding _ addresses first offset, .bound ok =>
    addresses[(first + offset) % addresses.length]?.map net.bindable = some ok
  | .sending _ flow, .sent ok => net.accepting (sh.flows flow).socket = ok
  | _, _ => True

instance (net : Network) (t : PacketTask) (input : TaskInput) (sh : Shared) : Decidable (net.Answers t input sh) := by
  unfold Network.Answers
  generalize t.pc = pc
  induction pc using TaskPc.casesOn with
  | resolving slot =>
    induction input using TaskInput.casesOn with
    | lookedUp lookupIp =>
      dsimp only
      generalize (lookup (fun _ => lookupIp) t.target : Except IoError (List SocketAddr)) = answer
      induction answer using Except.casesOn <;> infer_instance
    | _ => exact .isTrue trivial
  | binding slot addresses first offset =>
    induction input using TaskInput.casesOn with
    | bound ok => exact inferInstanceAs (Decidable (_ = _))
    | _ => exact .isTrue trivial
  | sending slot flow =>
    induction input using TaskInput.casesOn with
    | sent ok => exact inferInstanceAs (Decidable (_ = _))
    | _ => exact .isTrue trivial
  | _ => exact .isTrue trivial

theorem Network.Answers.answered {t : PacketTask} {input : TaskInput} {sh : Shared} (h : net.Answers t input sh) :
    t.Answered net.addresses.length input := by
  unfold Network.Answers at h
  unfold PacketTask.Answered
  cases hpc : t.pc with
  | resolving slot =>
    rw [hpc] at h
    cases input with
    | lookedUp lookupIp =>
      dsimp only at h ⊢
      cases hlookup : (lookup (fun _ => lookupIp) t.target : Except IoError (List SocketAddr)) with
      | ok addresses =>
        rw [hlookup] at h
        exact (congrArg List.length h).le
      | error error => trivial
    | _ => trivial
  | _ => trivial

/-- The task has a slot that no attempt is counted for yet. -/
def TaskPc.held : TaskPc → ℕ
  | .awaitingCell _ | .resolving _ | .choosing _ _ | .binding _ _ _ _ | .remembering _ _ _ | .spawning _ _ _
  | .completing _ _ | .checking _ _ | .droppingStale _ | .checkingAlive _ _ => 1
  | _ => 0

/-- The permits that the slots of a task have taken, one for each attempt. -/
def PacketTask.taken (t : PacketTask) : ℕ := t.attempts + t.pc.held

/-- Task `id` meets the network, in an association that is alive and that no other
packet task steps in; the receivers see neither an error nor an expiry; and the
tasks of other associations leave as many permits as there are addresses. -/
def Undisturbed (net : Network) (id : ℕ) (s : State) (input : Input) : Prop :=
  match s.tasks.lookup id with
  | none => True
  | some t => (s.shared.association t.association).alive = true ∧
    match input with
    | .task id' input =>
      if id' = id then net.Answers t input s.shared
      else ∀ t' ∈ s.tasks.lookup id', t'.association ≠ t.association ∧
        (t'.Acquires s.shared → net.addresses.length < s.flowPermits + t.taken)
    | .receiver flow input => ∀ r ∈ s.receivers.lookup flow, r.association = t.association →
        r.exit? flow input s.shared ≠ some .expired ∧
          r.exit? flow input s.shared ≠ some .receiveError
    | _ => True

instance (net : Network) (id : ℕ) (s : State) (input : Input) :
    Decidable (Undisturbed net id s input) := by
  unfold Undisturbed
  generalize s.tasks.lookup id = task
  induction task using Option.casesOn with
  | none => exact .isTrue trivial
  | some t =>
    refine @instDecidableAnd _ _ _ ?_
    induction input using Input.casesOn with
    | task id' input => dsimp only; infer_instance
    | receiver flow input => dsimp only; infer_instance
    | _ => exact .isTrue trivial

/-- The server in that environment, with the deeds of task `id`. -/
def failingOver (config : Config) (net : Network) (id : ℕ) : System State Input (Option Deed) :=
  ((system config).observed (State.deed id)).restrict (Undisturbed net id)

/-! ### The course of the task -/

/-- Nobody has ended the flow. -/
structure State.Open (s : State) (flow : FlowId) : Prop where
  active : (s.shared.flows flow).active = true
  unstopped : (s.shared.flows flow).stopped = false
  looping : ∀ r, s.receivers.lookup flow = some r → r.pc.looping = true

/-- The receiver has not failed, so it leaves the index alone. -/
def Receiver.Calm (r : Receiver) : Prop := r.failed = false ∧ r.pc ≠ .advancing

/-- The flow is on the address with number `q`. -/
structure Network.Serves (net : Network) (start q : ℕ) (f : Flow) : Prop where
  count : f.addressCount = net.addresses.length
  index : f.addressIndex = (start + q) % net.addresses.length
  socket : net.visit start q = some f.socket
  bindable : net.bindable f.socket = true

theorem Network.Serves.same {start q : ℕ} {f f' : Flow} (h : net.Serves start q f) (hsame : f.SameAddress f') :
    net.Serves start q f' := by
  obtain ⟨hsocket, hindex, hcount⟩ := hsame
  exact ⟨hcount.trans h.count, hindex.trans h.index, hsocket ▸ h.socket, hsocket ▸ h.bindable⟩

/-- A payload for a target, in the hands of task `id`. -/
structure Errand where
  net : Network
  id : ℕ
  key : FlowKey
  payload : Bytes
  start : ℕ

namespace Errand

/-- The next flow starts with the address with number `q`. -/
def Heads (c : Errand) (sh : Shared) (q : ℕ) : Prop :=
  (sh.preferred c.key).getD 0 % c.net.addresses.length = (c.start + q) % c.net.addresses.length

/-- What the sends so far and the flow at hand come to, at each place of the loop. -/
def Stage (c : Errand) (sent : List Send) (s : State) (q : ℕ) : TaskPc → Prop
  | .start | .lockingFlows | .resolving _ => c.Heads s.shared q ∧ c.net.Tried c.start c.payload sent q
  | .awaitingCell slot => s.shared.slots slot = .empty ∧ c.Heads s.shared q ∧ c.net.Tried c.start c.payload sent q
  | .choosing _ addresses =>
    addresses = c.net.addresses ∧ c.Heads s.shared q ∧ c.net.Tried c.start c.payload sent q
  | .binding _ addresses first offset =>
    addresses = c.net.addresses ∧ offset ≤ q ∧
      (first + offset) % c.net.addresses.length = (c.start + q) % c.net.addresses.length ∧
      c.net.Tried c.start c.payload sent q
  | .remembering _ addresses index | .spawning _ addresses index =>
    addresses = c.net.addresses ∧ index = (c.start + q) % c.net.addresses.length ∧
      (∃ a, c.net.visit c.start q = some a ∧ c.net.bindable a = true) ∧ c.net.Tried c.start c.payload sent q
  | .completing _ none | .checking _ none =>
    c.net.addresses.length ≤ q ∧ c.net.Tried c.start c.payload sent q
  | .completing _ (some flow) | .checking _ (some flow) | .checkingAlive _ flow | .touching _ flow
  | .sending _ flow =>
    c.net.Serves c.start q (s.shared.flows flow) ∧ s.Open flow ∧ c.net.Tried c.start c.payload sent q
  | .droppingStale _ => False
  | .sent _ flow =>
    (s.shared.flows flow).addressCount = c.net.addresses.length ∧ c.net.Outcome c.start c.payload sent
  | .deactivating _ flow =>
    c.net.Serves c.start q (s.shared.flows flow) ∧ s.Open flow ∧ c.net.Tried c.start c.payload sent (q + 1)
  | .advancing _ flow =>
    c.net.Serves c.start q (s.shared.flows flow) ∧ c.net.Tried c.start c.payload sent (q + 1)
  | .stopping _ flow | .dropping _ flow =>
    (s.shared.flows flow).addressCount = c.net.addresses.length ∧ c.Heads s.shared (q + 1) ∧
      c.net.Tried c.start c.payload sent (q + 1)

/-- The task is on its errand: `sent` is what it has sent so far. -/
structure Holds (c : Errand) (notes : List (Option Deed)) (s : State) (t : PacketTask) : Prop where
  lookup : s.tasks.lookup c.id = some t
  key : t.key = c.key
  payload : t.payload = c.payload
  bounded : t.Bounded c.net.addresses.length
  tally : Tally c.net.addresses.length notes t
  alone : ∀ slot, (s.shared.association c.key.1).flows.lookup c.key.2 = some slot → t.pc.slot? = some slot
  room : (s.shared.association c.key.1).flows.lookup c.key.2 = none →
    Dict.size (s.shared.association c.key.1).flows < MAX_FLOWS_PER_ASSOCIATION
  permits : c.net.addresses.length ≤ s.flowPermits + t.taken
  calm : ∀ flow r, s.receivers.lookup flow = some r → r.association = c.key.1 → r.Calm
  silent : t.pc.delivered = 0 → (sends notes).filter Send.ok = []
  stage : ∃ q, t.attempts ≤ q + (if t.pc.attempted then 1 else 0) ∧ c.Stage (sends notes) s q t.pc

end Errand

/-! ### Steps of others -/

/-- What the steps of others leave to the task. -/
structure State.Spares (s s' : State) (t : PacketTask) : Prop where
  lookup : ∀ id, s.tasks.lookup id = some t → s'.tasks.lookup id = some t
  table : ∀ slot, (s'.shared.association t.association).flows.lookup t.target = some slot →
    (s.shared.association t.association).flows.lookup t.target = some slot
  room : ((s.shared.association t.association).flows.lookup t.target = none →
      Dict.size (s.shared.association t.association).flows < MAX_FLOWS_PER_ASSOCIATION) →
    (s'.shared.association t.association).flows.lookup t.target = none →
      Dict.size (s'.shared.association t.association).flows < MAX_FLOWS_PER_ASSOCIATION
  preferred : s'.shared.preferred t.key = s.shared.preferred t.key
  cell : ∀ slot, t.pc = .awaitingCell slot → s'.shared.slots slot = s.shared.slots slot
  address : ∀ flow, t.pc.flow? = some flow → (s.shared.flows flow).SameAddress (s'.shared.flows flow)
  flow : ∀ flow, t.pc.flow? = some flow → s.Open flow → s'.Open flow
  receivers : (∀ flow r, s.receivers.lookup flow = some r → r.association = t.association → r.Calm) →
    ∀ flow r, s'.receivers.lookup flow = some r → r.association = t.association → r.Calm

/-- A table with room for a target has it after a removal. -/
theorem Shared.room_removeFlowSlot {sh : Shared} (hb : sh.Bounded) (arc : Arc) (target : Target) (slot : SlotId)
    {arc' : Arc} {target' : Target}
    (h : (sh.association arc').flows.lookup target' = none →
      Dict.size (sh.association arc').flows < MAX_FLOWS_PER_ASSOCIATION)
    (hnone : ((sh.removeFlowSlot arc target slot).association arc').flows.lookup target' = none) :
    Dict.size ((sh.removeFlowSlot arc target slot).association arc').flows < MAX_FLOWS_PER_ASSOCIATION := by
  unfold removeFlowSlot at hnone ⊢
  dsimp only at hnone ⊢
  split at hnone
  · rename_i hslot
    rw [if_pos hslot]
    rw [association_setAssociation] at hnone ⊢
    split at hnone
    · rename_i harc
      rw [if_pos harc]
      have hsize := Dict.size_erase_of_some hslot
      have hle := (hb arc).1
      dsimp only
      omega
    · rename_i harc
      rw [if_neg harc]
      exact h hnone
  · rename_i hslot
    rw [if_neg hslot]
    exact h hnone

/-- A touch changes the time of a flow only. -/
theorem Shared.flags_touch (sh : Shared) (flow : FlowId) :
    ((sh.touch flow).flows flow).active = (sh.flows flow).active ∧
      ((sh.touch flow).flows flow).stopped = (sh.flows flow).stopped := by
  rw [touch, setFlow]
  dsimp only
  rw [Function.update_self]
  exact ⟨rfl, rfl⟩

namespace State
variable {t : PacketTask}

/-- A step that leaves the association of the task alone. -/
theorem Spares.of_association (hassociation : s'.shared.association t.association = s.shared.association t.association)
    (hlookup : ∀ id, s.tasks.lookup id = some t → s'.tasks.lookup id = some t)
    (hcell : ∀ slot, t.pc = .awaitingCell slot → s'.shared.slots slot = s.shared.slots slot)
    (haddress : ∀ flow, t.pc.flow? = some flow → (s.shared.flows flow).SameAddress (s'.shared.flows flow))
    (hflow : ∀ flow, t.pc.flow? = some flow → s.Open flow → s'.Open flow)
    (hreceivers : ∀ flow r, s'.receivers.lookup flow = some r → r.association = t.association →
      s.receivers.lookup flow = some r) : s.Spares s' t := by
  refine ⟨hlookup, fun slot hk => ?_, fun hroom => ?_, ?_, hcell, haddress, hflow,
    fun hcalm flow r hr harc => hcalm flow r (hreceivers flow r hr harc) harc⟩
  · rwa [hassociation] at hk
  · rwa [hassociation]
  · exact congrArg (fun a : Association => a.preferredAddresses.lookup t.target) hassociation

theorem spares_other (hc : Controlled events s) (ht : Traced config events s) (htabled : Tabled owner s)
    (hlookup : s.tasks.lookup id = some t) {input : Input} (hs : s.step config input = some (e, s'))
    (htask : ∀ id i, input ≠ .task id i) (hreceiver : ∀ flow i, input ≠ .receiver flow i) : s.Spares s' t := by
  have hsame := sameFlows_step hs htask hreceiver
  obtain ⟨world, now, hshared⟩ := shared_step hs htask hreceiver
  obtain ⟨hflows, hpreferred⟩ := tables_step hc hs htask hreceiver (Tabled.bound_of_task ht hlookup)
  refine ⟨fun id' h => tasks_step htabled.tasks hs h (htask id'), fun slot hk => hflows ▸ hk, fun hroom => ?_, ?_,
    fun slot _ => by rw [hshared], fun flow _ => .of_flows hsame.flows flow, fun flow _ hopen => ?_, fun hcalm => ?_⟩
  · rwa [hflows]
  · exact congrArg (AList.lookup t.target) hpreferred
  · refine ⟨?_, ?_, ?_⟩
    · rw [hsame.flows]
      exact hopen.active
    · rw [hsame.flows]
      exact hopen.unstopped
    · rw [hsame.receivers]
      exact hopen.looping
  · rw [hsame.receivers]
    exact hcalm

/-- A receiver leaves its loop for a stopped flow only, while its association is alive
and it sees neither an error nor an expiry. -/
theorem exit_of_quiet (ho : s.shared.world.Orderly) {flow : FlowId} {r : Receiver} {input : ReceiverInput} {exit : Exit}
    (halive : (s.shared.association r.association).alive = true)
    (hquiet : r.exit? flow input s.shared ≠ some .expired ∧
      r.exit? flow input s.shared ≠ some .receiveError)
    (hexit : r.exit? flow input s.shared = some exit) :
    (s.shared.flows flow).stopped = true ∧ exit.failed r.heard = false := by
  refine ⟨?_, ?_⟩
  · rcases Receiver.exit?_cause hexit with rfl | rfl | hdead | hstopped | hstopped
    · exact absurd hexit hquiet.1
    · exact absurd hexit hquiet.2
    · rw [halive] at hdead
      cases hdead
    · have hdead : (s.shared.association r.association).alive = false := ho r.association hstopped
      rw [halive] at hdead
      cases hdead
    · exact hstopped
  · cases exit with
    | expired => exact absurd hexit hquiet.1
    | receiveError => exact absurd hexit hquiet.2
    | dead | associationStopped | flowStopped => rfl

theorem calm_receiver {flow : FlowId} {r r' : Receiver} {sh : Shared} {input : ReceiverInput}
    {result : ReceiverStep} (hmove : r.Moves flow sh input result) (hcalm : r.Calm)
    (hexits : ∀ exit, r.exit? flow input sh = some exit → exit.failed r.heard = false)
    (hr' : result.receiver = some r') : r'.Calm := by
  obtain ⟨hfailed, hadvancing⟩ := hcalm
  cases hmove with
  | stay _ hstay =>
    cases hr'
    refine ⟨hstay.failed.trans hfailed, fun hpc => ?_⟩
    have hnext := hstay.next
    rw [hpc] at hnext
    cases hnext
  | leave _ hexit _ hleaves =>
    cases hr'
    exact ⟨(hleaves hfailed).trans (hexits _ hexit), nofun⟩
  | close hpc =>
    cases hr'
    refine ⟨hfailed, ?_⟩
    dsimp only
    rw [hfailed, Bool.and_false]
    exact nofun
  | advance hpc => exact absurd hpc hadvancing
  | drop => cases hr'

/-- A flow stays open while its receiver does not leave its loop. -/
theorem Open.own {flow : FlowId} {r : Receiver} {input : ReceiverInput} {result : ReceiverStep}
    (h : s.Open flow) (hr : s.receivers.lookup flow = some r) (hmove : r.Moves flow s.shared input result)
    (hexits : ∀ exit, r.exit? flow input s.shared = some exit → (s.shared.flows flow).stopped = true) :
    State.Open { s with shared := result.shared, receivers := Dict.update s.receivers flow result.receiver } flow := by
  have hlooping := h.looping r hr
  cases hmove with
  | @stay _ _ r' s₁ _ hstay =>
    have hflows : (s₁.flows flow).active = (s.shared.flows flow).active ∧
        (s₁.flows flow).stopped = (s.shared.flows flow).stopped := by
      rcases hstay.shared with rfl | rfl
      · exact ⟨rfl, rfl⟩
      · exact s.shared.flags_touch flow
    refine ⟨hflows.1.trans h.active, hflows.2.trans h.unstopped, fun r₁ hr₁ => ?_⟩
    dsimp only at hr₁
    rw [Dict.lookup_update_eq, if_pos rfl] at hr₁
    cases hr₁
    exact hstay.next
  | leave _ hexit =>
    have hstopped := hexits _ hexit
    rw [h.unstopped] at hstopped
    cases hstopped
  | close hpc | advance hpc | drop hpc =>
    rw [hpc] at hlooping
    cases hlooping

/-- The receiver of another flow. -/
theorem Open.far {flow flow' : FlowId} {r : Receiver} {input : ReceiverInput}
    {result : ReceiverStep} (h : s.Open flow) (hmove : r.Moves flow' s.shared input result)
    (hne : flow ≠ flow') :
    State.Open { s with shared := result.shared, receivers := Dict.update s.receivers flow' result.receiver } flow := by
  refine ⟨?_, ?_, fun r' hr' => ?_⟩
  · exact (congrArg Flow.active (hmove.flows hne)).trans h.active
  · exact (congrArg Flow.stopped (hmove.flows hne)).trans h.unstopped
  · dsimp only at hr'
    rw [Dict.lookup_update_eq, if_neg hne] at hr'
    exact h.looping r' hr'

/-- What a calm receiver does to its association: it takes its slot out of the table. -/
theorem calm_association {flow : FlowId} {r : Receiver} {sh : Shared} {input : ReceiverInput}
    {result : ReceiverStep} (hmove : r.Moves flow sh input result) (hcalm : r.Calm) (arc : Arc) :
    result.shared.association arc = sh.association arc ∨
      result.shared = sh.removeFlowSlot r.association r.target r.slot := by
  cases hmove with
  | stay _ hstay => rcases hstay.shared with rfl | rfl <;> exact .inl rfl
  | leave | close => exact .inl rfl
  | advance hpc => exact absurd hpc hcalm.2
  | drop => exact .inr rfl

/-- The receivers of the association keep to their loops, or clean up behind their flows. -/
theorem spares_receiver (hk : Keyed owner key s) (hb : s.shared.Bounded) (ho : s.shared.world.Orderly)
    (hlookup : s.tasks.lookup id = some t) (halive : (s.shared.association t.association).alive = true)
    (hcalm : ∀ flow r, s.receivers.lookup flow = some r → r.association = t.association → r.Calm)
    {flow' : FlowId} {input : ReceiverInput}
    (hquiet : ∀ r ∈ s.receivers.lookup flow', r.association = t.association →
      r.exit? flow' input s.shared ≠ some .expired ∧
        r.exit? flow' input s.shared ≠ some .receiveError)
    (hs : s.step config (.receiver flow' input) = some (e, s')) : s.Spares s' t := by
  obtain ⟨r, result, hr, hmove, rfl⟩ := receiver_moves hs
  have haddress : ∀ flow, t.pc.flow? = some flow → (s.shared.flows flow).SameAddress (result.shared.flows flow) :=
    fun flow _ => hmove.sameAddress flow
  have hcell : ∀ slot, t.pc = .awaitingCell slot → result.shared.slots slot = s.shared.slots slot :=
    fun slot _ => congrFun hmove.slots slot
  by_cases harc : r.association = t.association
  · have hcalm' := hcalm flow' r hr harc
    have hexits := fun exit =>
      @exit_of_quiet s ho flow' r input exit (harc ▸ halive) (hquiet r hr harc)
    have hflow : ∀ flow, t.pc.flow? = some flow → s.Open flow →
        State.Open { s with shared := result.shared, receivers := Dict.update s.receivers flow' result.receiver } flow := by
      intro flow _ hopen
      by_cases heq : flow = flow'
      · subst heq
        exact hopen.own hr hmove fun exit hexit => (hexits exit hexit).1
      · exact hopen.far hmove heq
    have hreceivers : ∀ flow r', (Dict.update s.receivers flow' result.receiver).lookup flow = some r' →
        r'.association = t.association → r'.Calm := by
      intro flow r' hr' harc'
      rw [Dict.lookup_update_eq] at hr'
      split at hr'
      · exact calm_receiver hmove hcalm' (fun exit hexit => (hexits exit hexit).2) hr'
      · exact hcalm flow r' hr' harc'
    rcases calm_association hmove hcalm' t.association with hassociation | hremoved
    · refine ⟨fun _ h => h, fun slot hslot => ?_, fun hroom => ?_, ?_, hcell, haddress, hflow, fun _ => hreceivers⟩
      · dsimp only at hslot
        rwa [hassociation] at hslot
      · dsimp only
        rwa [hassociation]
      · exact congrArg (fun a : Association => a.preferredAddresses.lookup t.target) hassociation
    · refine ⟨fun _ h => h, fun slot hslot => ?_, fun hroom => ?_, ?_, hcell, haddress, hflow, fun _ => hreceivers⟩
      · dsimp only at hslot
        rw [hremoved] at hslot
        exact s.shared.shrinks_removeFlowSlot _ _ _ _ _ slot hslot
      · dsimp only
        rw [hremoved]
        exact Shared.room_removeFlowSlot hb _ _ _ hroom
      · dsimp only
        rw [hremoved]
        exact Shared.preferred_removeFlowSlot _
  · -- the flow of the task has another receiver
    have hne : ∀ flow, t.pc.flow? = some flow → flow ≠ flow' := by
      rintro flow hflow rfl
      have htask := (hk.tasks id t flow hlookup hflow).2
      have hreceiver := (hk.receivers flow r hr).2
      exact harc (congrArg Prod.fst (hreceiver.symm.trans htask))
    refine .of_association (hmove.association (Ne.symm harc)) (fun _ h => h) hcell haddress
      (fun flow hflow hopen => hopen.far hmove (hne flow hflow)) fun flow r' hr' harc' => ?_
    dsimp only at hr'
    rw [Dict.lookup_update_eq] at hr'
    split at hr'
    · exact absurd ((hmove.packet hr').1.symm.trans harc') harc
    · exact hr'

/-- A packet task of another association. -/
theorem spares_task (hk : Keyed owner key s) (htabled : Tabled owner s) (hlookup : s.tasks.lookup id = some t)
    {id' : ℕ} {input : TaskInput} (harc : ∀ t' ∈ s.tasks.lookup id', t'.association ≠ t.association)
    (hs : s.step config (.task id' input) = some (e, s')) : s.Spares s' t := by
  obtain ⟨t', r, hlookup', hmove, -, rfl⟩ := task_moves hs
  have harc := harc t' hlookup'
  have hfar : ∀ flow, t.pc.flow? = some flow → flow < s.shared.nextFlow ∧ t'.pc.flow? ≠ some flow := by
    intro flow hflow
    obtain ⟨hlt, hkey⟩ := hk.tasks id t flow hlookup hflow
    refine ⟨hlt, fun hflow' => harc ?_⟩
    exact congrArg Prod.fst ((hk.tasks id' t' flow hlookup' hflow').2.symm.trans hkey)
  refine .of_association (hmove.association (Ne.symm harc)) (fun id'' h => ?_) (fun slot hpc => ?_)
    (fun flow hflow => hmove.sameAddress (hfar flow hflow).1) (fun flow hflow hopen => ?_) (fun flow r' hr' harc' => ?_)
  · dsimp only
    rw [Dict.lookup_update_eq, if_neg, h]
    rintro rfl
    rw [hlookup'] at h
    cases h
    exact harc rfl
  · have hrole := htabled.sound.users id _ _ (users_lookup hlookup)
    rw [hpc] at hrole
    obtain ⟨hlt, howner⟩ : slot < s.shared.nextSlot ∧ owner slot = (t.association, t.target) := hrole
    refine hmove.slots (fun hslot => harc ?_) hlt
    have howned := htabled.sound.owned (users_lookup hlookup') ((TaskPc.slot?_role t'.pc).trans hslot)
    exact congrArg Prod.fst (howned.2.symm.trans howner)
  · obtain ⟨hlt, hne⟩ := hfar flow hflow
    refine ⟨?_, ?_, fun r' hr' => ?_⟩
    · exact (congrArg Flow.active (hmove.flows hne hlt)).trans hopen.active
    · exact (congrArg Flow.stopped (hmove.flows hne hlt)).trans hopen.unstopped
    · rcases hmove.receiver hr' with hold | ⟨-, heq, -⟩
      · exact hopen.looping r' hold
      · exact absurd heq hlt.ne
  · rcases hmove.receiver hr' with hold | ⟨-, -, destination, heq⟩
    · exact hold
    · rw [heq] at harc'
      exact absurd harc' harc

end State

namespace Errand
variable {c : Errand} {notes : List (Option Deed)} {t : PacketTask}

theorem Stage.spared {sent : List Send} {q : ℕ} (hkey : t.key = c.key) (h : c.Stage sent s q t.pc)
    (hs : s.Spares s' t) : c.Stage sent s' q t.pc := by
  have hheads : ∀ q, c.Heads s.shared q → c.Heads s'.shared q := by
    intro q hheads
    unfold Heads at hheads ⊢
    rwa [← hkey, hs.preferred, hkey]
  have haddress := hs.address
  have hflow := hs.flow
  have hcell := hs.cell
  cases hpc : t.pc with
  | start | lockingFlows | resolving =>
    rw [hpc] at h
    exact ⟨hheads q h.1, h.2⟩
  | awaitingCell slot =>
    rw [hpc] at h
    exact ⟨(hcell slot hpc).trans h.1, hheads q h.2.1, h.2.2⟩
  | choosing slot addresses =>
    rw [hpc] at h
    exact ⟨h.1, hheads q h.2.1, h.2.2⟩
  | completing slot flow | checking slot flow =>
    rw [hpc] at h haddress hflow
    cases flow with
    | none => exact h
    | some flow => exact ⟨h.1.same (haddress flow rfl), hflow flow rfl h.2.1, h.2.2⟩
  | checkingAlive slot flow | touching slot flow | sending slot flow | deactivating slot flow =>
    rw [hpc] at h haddress hflow
    exact ⟨h.1.same (haddress flow rfl), hflow flow rfl h.2.1, h.2.2⟩
  | sent slot flow =>
    rw [hpc] at h haddress
    exact ⟨(haddress flow rfl).2.2.trans h.1, h.2⟩
  | advancing slot flow =>
    rw [hpc] at h haddress
    exact ⟨h.1.same (haddress flow rfl), h.2⟩
  | stopping slot flow | dropping slot flow =>
    rw [hpc] at h haddress
    exact ⟨(haddress flow rfl).2.2.trans h.1, hheads (q + 1) h.2.1, h.2.2⟩
  | binding | remembering | spawning | droppingStale =>
    rw [hpc] at h
    exact h

theorem Holds.spared (h : c.Holds notes s t) (hs : s.Spares s' t)
    (hpermits : c.net.addresses.length ≤ s'.flowPermits + t.taken) : c.Holds (notes ++ [none]) s' t := by
  obtain ⟨harc, htarget⟩ : t.association = c.key.1 ∧ t.target = c.key.2 := by
    rw [← h.key]
    exact ⟨rfl, rfl⟩
  have hsends : sends (notes ++ [none]) = sends notes := sends_silent notes rfl
  have htable := hs.table
  have hroom := hs.room
  have hreceivers := hs.receivers
  rw [harc, htarget] at htable hroom
  rw [harc] at hreceivers
  obtain ⟨q, hattempts, hstage⟩ := h.stage
  refine ⟨hs.lookup c.id h.lookup, h.key, h.payload, h.bounded, h.tally.other, fun slot hk => h.alone slot (htable slot hk),
    hroom h.room, hpermits, hreceivers h.calm, ?_, q, hattempts, ?_⟩
  · rw [hsends]
    exact h.silent
  · rw [hsends]
    exact hstage.spared h.key hs

end Errand

/-! ### Steps of the task -/

namespace Shared
variable {sh sh' : Shared} {arc : Arc} {target oldest : Target}

/-- Whatever is removed to make room, the target has its index. -/
theorem preferred_rememberUdpAddress_self {index : ℕ}
    (h : sh.rememberUdpAddress arc target index oldest = some sh') : sh'.preferred (arc, target) = some index := by
  have hset : ∀ preferredAddresses : Dict Target ℕ, preferredAddresses.lookup target = some index →
      (sh.setAssociation arc { sh.association arc with preferredAddresses }).preferred (arc, target) = some index :=
    fun _ hlookup => (preferred_setAssociation _).trans ((if_pos rfl).trans hlookup)
  unfold rememberUdpAddress at h
  dsimp only at h
  split at h
  · split at h <;> cases h
    exact hset _ ((Dict.lookup_insert_eq _ _ _ _).trans (if_pos rfl))
  · cases h
    exact hset _ ((Dict.lookup_insert_eq _ _ _ _).trans (if_pos rfl))

/-- A removal takes out the slot that it names. -/
theorem lookup_removeFlowSlot {slot slot' : SlotId} (h : ∀ slot', (sh.association arc).flows.lookup target = some slot' → slot' = slot) :
    ((sh.removeFlowSlot arc target slot).association arc).flows.lookup target ≠ some slot' := by
  intro hk
  have hold := sh.shrinks_removeFlowSlot arc target slot arc target slot' hk
  obtain rfl := h slot' hold
  unfold removeFlowSlot at hk
  dsimp only at hk
  rw [if_pos hold, association_setAssociation, if_pos rfl, Dict.lookup_erase_eq, if_pos rfl] at hk
  cases hk

end Shared

namespace PacketTask.Moves
variable {permits : ℕ} {t t' : PacketTask} {sh : Shared} {input : TaskInput} {r : TaskStep}

/-- A permit that is taken counts, until the task starts again. -/
theorem taken (h : t.Moves id permits sh t.pc input r) (hstale : ∀ slot, t.pc ≠ .droppingStale slot)
    (ht' : r.task = some t') : t.taken + r.shared.nextSlot ≤ t'.taken + sh.nextSlot := by
  unfold PacketTask.taken
  generalize hpc : t.pc = pc at h
  cases h with
  | create =>
    cases ht'
    exact (Nat.add_right_comm t.attempts 1 sh.nextSlot).ge
  | take =>
    cases ht'
    exact Nat.add_le_add_right (Nat.le_succ _) _
  | retry => exact absurd hpc (hstale _)
  | again =>
    cases ht'
    exact Nat.add_le_add_left (sh.nextSlot_removeFlowSlot _ _ _).le _
  | bind | send | deactivate =>
    cases ht'
    dsimp only [goes]
    split <;> exact Nat.le_refl _
  | remember h =>
    cases ht'
    obtain ⟨_, rfl⟩ := Shared.rememberUdpAddress_eq h
    exact le_refl _
  | advance h =>
    cases ht'
    obtain ⟨_, rfl⟩ := Shared.advanceUdpAddress_eq h
    exact le_refl _
  | dead | refused | discard | giveUp | abandon | done | last => cases ht'
  | _ =>
    cases ht'
    exact le_refl _

/-- The only slot under the target is the one that the task holds. -/
theorem alone (h : t.Moves id permits sh t.pc input r) (ht' : r.task = some t')
    (halone : ∀ slot, (sh.association t.association).flows.lookup t.target = some slot → t.pc.slot? = some slot)
    {slot : SlotId} (hk : (r.shared.association t.association).flows.lookup t.target = some slot) :
    t'.pc.slot? = some slot := by
  generalize hpc : t.pc = pc at h
  rw [hpc] at halone
  cases h with
  | start =>
    cases ht'
    cases halone slot hk
  | take htable => cases halone _ htable
  | create =>
    cases ht'
    have hinsert : ((sh.newSlot t.association t.target).association t.association).flows.lookup t.target =
        some sh.nextSlot := by
      have heq : (sh.newSlot t.association t.target).association t.association =
          { sh.association t.association with
            flows := (sh.association t.association).flows.insert t.target sh.nextSlot } :=
        (Heap.set_apply _ _ _ _).trans (if_pos rfl)
      rw [heq]
      exact (Dict.lookup_insert_eq _ _ _ _).trans (if_pos rfl)
    exact hinsert.symm.trans hk
  | remember h =>
    cases ht'
    obtain ⟨_, rfl⟩ := Shared.rememberUdpAddress_eq h
    dsimp only [goes] at hk
    rw [Shared.association_setAssociation, if_pos rfl] at hk
    exact halone slot hk
  | advance h =>
    cases ht'
    obtain ⟨_, rfl⟩ := Shared.advanceUdpAddress_eq h
    dsimp only [goes] at hk
    rw [Shared.association_setAssociation, if_pos rfl] at hk
    exact halone slot hk
  | retry | again =>
    exact absurd hk (Shared.lookup_removeFlowSlot fun slot' h => (Option.some.inj (halone slot' h)).symm)
  | bind | send | deactivate =>
    cases ht'
    dsimp only
    split <;> exact halone slot hk
  | dead | refused | discard | giveUp | abandon | done | last => cases ht'
  | _ =>
    cases ht'
    exact halone slot hk

theorem room (h : t.Moves id permits sh t.pc input r) (ht' : r.task = some t') (hb : sh.Bounded)
    (hroom : (sh.association t.association).flows.lookup t.target = none →
      Dict.size (sh.association t.association).flows < MAX_FLOWS_PER_ASSOCIATION)
    (hnone : (r.shared.association t.association).flows.lookup t.target = none) :
    Dict.size (r.shared.association t.association).flows < MAX_FLOWS_PER_ASSOCIATION := by
  generalize hpc : t.pc = pc at h
  cases h with
  | create =>
    have heq : (sh.newSlot t.association t.target).association t.association =
        { sh.association t.association with
          flows := (sh.association t.association).flows.insert t.target sh.nextSlot } :=
      (Heap.set_apply _ _ _ _).trans (if_pos rfl)
    dsimp only [goes] at hnone
    rw [heq] at hnone
    dsimp only at hnone
    rw [Dict.lookup_insert_eq, if_pos rfl] at hnone
    cases hnone
  | remember h =>
    obtain ⟨_, rfl⟩ := Shared.rememberUdpAddress_eq h
    dsimp only [goes] at hnone ⊢
    rw [Shared.association_setAssociation, if_pos rfl] at hnone ⊢
    exact hroom hnone
  | advance h =>
    obtain ⟨_, rfl⟩ := Shared.advanceUdpAddress_eq h
    dsimp only [goes] at hnone ⊢
    rw [Shared.association_setAssociation, if_pos rfl] at hnone ⊢
    exact hroom hnone
  | retry | again => exact Shared.room_removeFlowSlot hb _ _ _ hroom hnone
  | dead | refused | discard | giveUp | abandon | done | last => cases ht'
  | _ => exact hroom hnone

end PacketTask.Moves

theorem PacketTask.deed_quiet {t : PacketTask} {input : TaskInput} {sh : Shared}
    (h : ∀ slot flow, t.pc ≠ .sending slot flow) : (t.deed input sh).send? = none := by
  unfold PacketTask.deed
  split
  · rename_i hpc
    exact absurd hpc (h _ _)
  · split <;> rfl
  · rfl

theorem sends_deed (notes : List (Option Deed)) (d : Deed) :
    sends (notes ++ [some d]) = sends notes ++ d.send?.toList := by
  rw [sends_append]
  cases d <;> rfl

namespace Errand
variable {c : Errand} {notes : List (Option Deed)} {t t' : PacketTask} {permits q : ℕ} {sent : List Send}
  {input : TaskInput} {r : TaskStep}

theorem Heads.congr {sh sh' : Shared} (h : c.Heads sh q) (hsame : sh'.preferred c.key = sh.preferred c.key) :
    c.Heads sh' q := by
  unfold Heads
  rwa [hsame]

/-- An index that is remembered is the one to start with. -/
theorem Heads.of_preferred {sh : Shared} {index : ℕ} (h : sh.preferred c.key = some index)
    (hindex : index % c.net.addresses.length = (c.start + q) % c.net.addresses.length) : c.Heads sh q := by
  unfold Heads
  rw [h]
  exact hindex

/-- The index that a failed flow leaves. -/
theorem Heads.advance {sh sh' : Shared} {flow : FlowId} {oldest : Target}
    (hserves : c.net.Serves c.start q (sh.flows flow))
    (h : sh.advanceUdpAddress c.key.1 c.key.2 flow oldest = some sh') : c.Heads sh' (q + 1) := by
  unfold Shared.advanceUdpAddress at h
  dsimp only at h
  rw [hserves.count, hserves.index] at h
  split at h
  · refine .of_preferred (Shared.preferred_rememberUdpAddress_self h) ?_
    rw [Nat.mod_mod, Nat.mod_add_mod]
    rfl
  · -- a single address is always the first one
    rename_i hsingle
    have hpos : 0 < c.net.addresses.length := by
      obtain ⟨hlt, -⟩ := List.getElem?_eq_some_iff.mp hserves.socket
      omega
    have hone : c.net.addresses.length = 1 := by omega
    unfold Heads
    rw [hone, Nat.mod_one, Nat.mod_one]

theorem Stage.resolved {slot : SlotId} {addresses : List SocketAddr} {lookupIp : Except IoError (List IpAddr)}
    (h : c.Stage sent s q (.resolving slot)) (hpc : t.pc = .resolving slot)
    (hanswers : c.net.Answers t (.lookedUp lookupIp) s.shared)
    (hlookup : lookup (fun _ => lookupIp) t.target = .ok addresses) : c.Stage sent s q (.choosing slot addresses) := by
  unfold Network.Answers at hanswers
  rw [hpc] at hanswers
  simp only [hlookup] at hanswers
  exact ⟨hanswers, h⟩

/-- The flow starts at the preferred address. -/
theorem Stage.chosen {slot : SlotId} {addresses : List SocketAddr} (hkey : t.key = c.key)
    (h : c.Stage sent s q (.choosing slot addresses)) :
    c.Stage sent s q (.binding slot addresses
      (((s.shared.association t.association).preferredAddresses.lookup t.target).getD 0 % addresses.length) 0) := by
  have hpreferred : s.shared.preferred c.key =
      (s.shared.association t.association).preferredAddresses.lookup t.target := by
    rw [← hkey]
    rfl
  obtain ⟨rfl, hheads, htried⟩ := h
  refine ⟨rfl, Nat.zero_le _, ?_, htried⟩
  rw [Nat.add_zero, Nat.mod_mod, ← hpreferred]
  exact hheads

/-- The address in turn is the one that the next socket is for. -/
theorem Stage.visits {slot : SlotId} {addresses : List SocketAddr} {first offset : ℕ} {ok : Bool}
    (h : c.Stage sent s q (.binding slot addresses first offset)) (hpc : t.pc = .binding slot addresses first offset)
    (hanswers : c.net.Answers t (.bound ok) s.shared) :
    ∃ a, c.net.visit c.start q = some a ∧ c.net.bindable a = ok := by
  unfold Network.Answers at hanswers
  rw [hpc] at hanswers
  obtain ⟨rfl, -, hindex, -⟩ := h
  obtain ⟨a, hvisit, hbindable⟩ := Option.map_eq_some_iff.mp hanswers
  rw [hindex] at hvisit
  exact ⟨a, hvisit, hbindable⟩

theorem Stage.bound {slot : SlotId} {addresses : List SocketAddr} {first offset : ℕ}
    (h : c.Stage sent s q (.binding slot addresses first offset)) (hpc : t.pc = .binding slot addresses first offset)
    (hanswers : c.net.Answers t (.bound true) s.shared) (tasks : Dict ℕ PacketTask) :
    c.Stage sent { s with tasks } q (if 1 < addresses.length then .remembering slot addresses ((first + offset) % addresses.length)
      else .spawning slot addresses ((first + offset) % addresses.length)) := by
  have hvisits := h.visits hpc hanswers
  obtain ⟨rfl, -, hindex, htried⟩ := h
  split <;> exact ⟨rfl, hindex, hvisits, htried⟩

theorem Stage.unbindable {slot : SlotId} {addresses : List SocketAddr} {first offset : ℕ}
    (h : c.Stage sent s q (.binding slot addresses first offset)) (hpc : t.pc = .binding slot addresses first offset)
    (hanswers : c.net.Answers t (.bound false) s.shared) :
    c.Stage sent s (q + 1) (.binding slot addresses first (offset + 1)) := by
  obtain ⟨a, hvisit, hbindable⟩ := h.visits hpc hanswers
  obtain ⟨rfl, hoffset, hindex, htried⟩ := h
  refine ⟨rfl, Nat.succ_le_succ hoffset, Nat.add_mod_eq_add_mod_right 1 hindex,
    htried.succ fun a' hvisit' hbindable' => ?_⟩
  rw [Option.some.inj (hvisit.symm.trans hvisit')] at hbindable
  rw [hbindable] at hbindable'
  cases hbindable'

/-- The new flow is on the address in turn, and nobody has ended it. -/
theorem Stage.spawned {slot : SlotId} {addresses : List SocketAddr} {index : ℕ} {destination : SocketAddr}
    {receiver : Receiver} (h : c.Stage sent s q (.spawning slot addresses index))
    (hdestination : addresses[index]? = some destination) (hlooping : receiver.pc.looping = true)
    (tasks : Dict ℕ PacketTask) :
    c.Stage sent
      { s with
        shared := s.shared.newFlow ⟨destination, s.shared.now, true, false, index, addresses.length⟩
        tasks
        receivers := s.receivers.insert s.shared.nextFlow receiver } q (.completing slot (some s.shared.nextFlow)) := by
  obtain ⟨rfl, rfl, ⟨a, hvisit, hbindable⟩, htried⟩ := h
  have ha : a = destination := Option.some.inj (hvisit.symm.trans hdestination)
  have hflow : ∀ f, ((s.shared.newFlow f).flows s.shared.nextFlow) = f := fun f => Function.update_self _ _ _
  refine ⟨?_, ⟨?_, ?_, fun r hr => ?_⟩, htried⟩
  · dsimp only
    rw [hflow]
    exact ⟨rfl, rfl, hdestination, ha ▸ hbindable⟩
  · dsimp only
    rw [hflow]
  · dsimp only
    rw [hflow]
  · dsimp only at hr
    rw [Dict.lookup_insert_eq, if_pos rfl] at hr
    cases hr
    exact hlooping

/-- The flow at hand stays there while others of its entries change. -/
theorem Stage.atHand {flow : FlowId} {shared : Shared} {tasks : Dict ℕ PacketTask}
    (h : c.net.Serves c.start q (s.shared.flows flow) ∧ s.Open flow ∧ c.net.Tried c.start c.payload sent q)
    (hsame : (s.shared.flows flow).SameAddress (shared.flows flow))
    (hactive : (shared.flows flow).active = (s.shared.flows flow).active)
    (hstopped : (shared.flows flow).stopped = (s.shared.flows flow).stopped) :
    c.net.Serves c.start q (shared.flows flow) ∧ State.Open { s with shared, tasks } flow ∧
      c.net.Tried c.start c.payload sent q :=
  ⟨h.1.same hsame, ⟨hactive.trans h.2.1.active, hstopped.trans h.2.1.unstopped, h.2.1.looping⟩, h.2.2⟩

/-- A payload on its way, or one more address tried. -/
theorem Stage.sending {slot : SlotId} {flow : FlowId} {ok : Bool} (hpayload : t.payload = c.payload)
    (h : c.Stage sent s q (.sending slot flow)) (hpc : t.pc = .sending slot flow)
    (hsilent : sent.filter Send.ok = []) (hanswers : c.net.Answers t (.sent ok) s.shared) (tasks : Dict ℕ PacketTask) :
    c.Stage (sent ++ (t.deed (.sent ok) s.shared).send?.toList) { s with tasks } q
      (if ok then .sent slot flow else .deactivating slot flow) := by
  obtain ⟨hserves, hopen, htried⟩ := h
  have hdeed : (t.deed (.sent ok) s.shared).send? = some ⟨(s.shared.flows flow).socket, c.payload, ok⟩ := by
    rw [← hpayload]
    simp [PacketTask.deed, hpc, Deed.send?]
  unfold Network.Answers at hanswers
  rw [hpc] at hanswers
  rw [hdeed]
  cases ok with
  | true =>
    refine ⟨hserves.count, ?_⟩
    unfold Network.Outcome
    rw [htried.find hserves.socket hserves.bindable hanswers]
    dsimp only
    rw [List.filter_append, hsilent]
    rfl
  | false =>
    refine ⟨hserves, ⟨hopen.active, hopen.unstopped, hopen.looping⟩, (htried.mono _).succ fun a hvisit _ => ?_⟩
    rw [Option.some.inj (hvisit.symm.trans hserves.socket)]
    exact ⟨hanswers, List.mem_append_right _ (List.mem_singleton_self _)⟩

/-- The steps that send nothing. -/
theorem Stage.move (hkey : t.key = c.key) (hmove : t.Moves id permits s.shared t.pc input r) (ht' : r.task = some t')
    (h : c.Stage sent s q t.pc) (hattempts : t.attempts ≤ q + if t.pc.attempted then 1 else 0)
    (hlock : t.pc = .lockingFlows → (s.shared.association t.association).flows.lookup t.target = none)
    (hanswers : c.net.Answers t input s.shared) (hquiet : ∀ slot flow, t.pc ≠ .sending slot flow)
    (tasks : Dict ℕ PacketTask) :
    ∃ q', (t'.attempts ≤ q' + if t'.pc.attempted then 1 else 0) ∧
      c.Stage sent { s with shared := r.shared, tasks, receivers := r.receivers s.receivers } q' t'.pc := by
  generalize hpc : t.pc = pc at hmove
  rw [hpc] at h hattempts hlock
  cases hmove with
  | start | remember =>
    cases ht'
    exact ⟨q, hattempts, h⟩
  | take htable =>
    rw [hlock rfl] at htable
    cases htable
  | create =>
    cases ht'
    exact ⟨q, hattempts, Function.update_self _ _ _, h.1.congr Shared.preferred_newSlot, h.2⟩
  | see hc =>
    rw [h.1] at hc
    cases hc
  | claim =>
    cases ht'
    exact ⟨q, hattempts, h.2⟩
  | unresolved hlookup =>
    unfold Network.Answers at hanswers
    rw [hpc] at hanswers
    simp only [hlookup] at hanswers
  | resolve hlookup =>
    cases ht'
    exact ⟨q, hattempts, h.resolved hpc hanswers hlookup⟩
  | choose =>
    cases ht'
    exact ⟨q, hattempts, h.chosen hkey⟩
  | bind =>
    cases ht'
    refine ⟨q, ?_, h.bound hpc hanswers tasks⟩
    dsimp only
    split <;> exact hattempts
  | unbindable =>
    cases ht'
    exact ⟨q + 1, Nat.le_succ_of_le hattempts, h.unbindable hpc hanswers⟩
  | exhausted hlength =>
    cases ht'
    obtain ⟨rfl, hoffset, -, htried⟩ := h
    exact ⟨q, hattempts, hlength.trans hoffset, htried⟩
  | spawn hdestination =>
    cases ht'
    exact ⟨q, hattempts, h.spawned hdestination rfl tasks⟩
  | @complete slot flow =>
    cases ht'
    cases flow with
    | none => exact ⟨q, hattempts, h⟩
    | some flow => exact ⟨q, hattempts, Stage.atHand h ⟨rfl, rfl, rfl⟩ rfl rfl⟩
  | fresh =>
    cases ht'
    exact ⟨q, hattempts, Stage.atHand h ⟨rfl, rfl, rfl⟩ rfl rfl⟩
  | stale hinactive =>
    rw [h.2.1.active] at hinactive
    cases hinactive
  | retry => exact h.elim
  | attempt =>
    cases ht'
    exact ⟨q, Nat.succ_le_succ hattempts, Stage.atHand h ⟨rfl, rfl, rfl⟩ rfl rfl⟩
  | @touch slot flow =>
    cases ht'
    have hflags := s.shared.flags_touch flow
    exact ⟨q, hattempts, Stage.atHand h (.touch s.shared flow flow) hflags.1 hflags.2⟩
  | send => exact absurd hpc (hquiet _ _)
  | @deactivate slot flow =>
    cases ht'
    dsimp only
    rw [if_pos h.2.1.active]
    exact ⟨q, hattempts, h.1.same (.deactivate s.shared flow flow), h.2.2⟩
  | @advance slot flow oldest s₁ hadvance =>
    cases ht'
    have hkey' : t.association = c.key.1 ∧ t.target = c.key.2 := by
      rw [← hkey]
      exact ⟨rfl, rfl⟩
    rw [hkey'.1, hkey'.2] at hadvance
    exact ⟨q, hattempts, (Flow.SameAddress.advanceUdpAddress hadvance flow).2.2.trans h.1.count,
      .advance h.1 hadvance, h.2⟩
  | @stop slot flow =>
    cases ht'
    exact ⟨q, hattempts, (Flow.SameAddress.stopFlow s.shared flow flow).2.2.trans h.1, h.2⟩
  | again hcount =>
    cases ht'
    exact ⟨q + 1, hattempts, h.2.1.congr (Shared.preferred_removeFlowSlot _), h.2.2⟩
  | dead | refused | discard | giveUp | abandon | done | last => cases ht'

/-- A step of the task takes it from stage to stage. -/
theorem Stage.step (hkey : t.key = c.key) (hpayload : t.payload = c.payload)
    (hmove : t.Moves id permits s.shared t.pc input r) (ht' : r.task = some t') (h : c.Stage sent s q t.pc)
    (hattempts : t.attempts ≤ q + if t.pc.attempted then 1 else 0)
    (hlock : t.pc = .lockingFlows → (s.shared.association t.association).flows.lookup t.target = none)
    (hsilent : t.pc.delivered = 0 → sent.filter Send.ok = []) (hanswers : c.net.Answers t input s.shared)
    (tasks : Dict ℕ PacketTask) :
    ∃ q', (t'.attempts ≤ q' + if t'.pc.attempted then 1 else 0) ∧
      c.Stage (sent ++ (t.deed input s.shared).send?.toList)
        { s with shared := r.shared, tasks, receivers := r.receivers s.receivers } q' t'.pc := by
  by_cases hsending : ∃ slot flow, t.pc = .sending slot flow
  · obtain ⟨slot, flow, hpc⟩ := hsending
    rw [hpc] at hmove h hattempts hsilent
    cases hmove with
    | @send _ _ ok =>
      cases ht'
      refine ⟨q, ?_, h.sending hpayload hpc (hsilent rfl) hanswers tasks⟩
      cases ok <;> exact hattempts
  · have hquiet : ∀ slot flow, t.pc ≠ .sending slot flow := fun slot flow hpc => hsending ⟨slot, flow, hpc⟩
    obtain ⟨q', hattempts', hstage⟩ := h.move hkey hmove ht' hattempts hlock hanswers hquiet tasks
    rw [PacketTask.deed_quiet hquiet]
    exact ⟨q', hattempts', (List.append_nil sent).symm ▸ hstage⟩

/-- The task ends with the payload delivered, or with every address tried. -/
theorem Stage.finish (hmove : t.Moves id permits s.shared t.pc input r) (htask : r.task = none)
    (h : c.Stage sent s q t.pc) (hattempts : t.attempts ≤ q + if t.pc.attempted then 1 else 0)
    (halive : (s.shared.association t.association).alive = true)
    (hlock : t.pc = .lockingFlows → permits ≠ 0 ∧
      Dict.size (s.shared.association t.association).flows < MAX_FLOWS_PER_ASSOCIATION)
    (hsilent : t.pc.delivered = 0 → sent.filter Send.ok = []) :
    c.net.Outcome c.start c.payload (sent ++ (t.deed input s.shared).send?.toList) := by
  have quiet : (t.deed input s.shared).send? = none → c.net.Outcome c.start c.payload sent →
      c.net.Outcome c.start c.payload (sent ++ (t.deed input s.shared).send?.toList) := by
    intro hdeed hstage
    rw [hdeed]
    exact (List.append_nil sent).symm ▸ hstage
  generalize hpc : t.pc = pc at hmove
  rw [hpc] at h hattempts hsilent hlock
  cases hmove with
  | dead hdead =>
    rw [halive] at hdead
    cases hdead
  | refused _ hlimit =>
    obtain ⟨hpermits, hsize⟩ := hlock rfl
    rcases hlimit with hfull | hzero
    · exact absurd hsize (not_lt.mpr hfull)
    · exact absurd hzero hpermits
  | discard => exact quiet (by simp [PacketTask.deed, hpc, Deed.send?]) (h.2.outcome h.1 (hsilent rfl))
  | giveUp => exact h.elim
  | abandon hdead =>
    rw [halive] at hdead
    cases hdead
  | done => exact quiet (by simp [PacketTask.deed, hpc, Deed.send?]) h.2
  | last hcount =>
    rw [h.1] at hcount
    exact quiet (by simp [PacketTask.deed, hpc, Deed.send?]) (h.2.2.outcome (hcount.trans hattempts) (hsilent rfl))
  | _ => cases htask

/-- The flow at hand has the addresses of the network. -/
theorem Stage.count {pc : TaskPc} (h : c.Stage sent s q pc) {flow : FlowId} (hflow : pc.flow? = some flow) :
    (s.shared.flows flow).addressCount = c.net.addresses.length := by
  cases pc with
  | completing slot o | checking slot o =>
    cases o <;> cases hflow
    exact h.1.count
  | checkingAlive | touching | sending | deactivating | advancing =>
    cases hflow
    exact h.1.count
  | sent | stopping | dropping =>
    cases hflow
    exact h.1
  | _ => cases hflow

/-- What the task has sent after a step, as long as it goes on. -/
theorem silent_step (hmove : t.Moves id permits s.shared t.pc input r) (ht' : r.task = some t')
    (hsilent : t.pc.delivered = 0 → sent.filter Send.ok = []) (hdelivered : t'.pc.delivered = 0) :
    (sent ++ (t.deed input s.shared).send?.toList).filter Send.ok = [] := by
  have quiet : (t.deed input s.shared).send? = none → t.pc.delivered = 0 →
      (sent ++ (t.deed input s.shared).send?.toList).filter Send.ok = [] := by
    intro hdeed hpc
    rw [hdeed]
    exact (congrArg _ (List.append_nil sent)).trans (hsilent hpc)
  generalize hpc : t.pc = pc at hmove
  cases hmove with
  | @send slot flow ok =>
    cases ht'
    cases ok with
    | true => cases hdelivered
    | false =>
      have hdeed : (t.deed (.sent false) s.shared).send? = some ⟨(s.shared.flows flow).socket, t.payload, false⟩ := by
        simp [PacketTask.deed, hpc, Deed.send?]
      rw [hdeed, List.filter_append, hsilent (by rw [hpc]; rfl)]
      rfl
  | @fresh slot flow hactive => exact quiet (by simp [PacketTask.deed, hpc, hactive, Deed.send?]) (by rw [hpc]; rfl)
  | @stale slot flow hinactive =>
    exact quiet (by simp [PacketTask.deed, hpc, hinactive, Deed.send?]) (by rw [hpc]; rfl)
  | dead | refused | discard | giveUp | abandon | done | last => cases ht'
  | _ => exact quiet (by simp [PacketTask.deed, hpc, Deed.send?]) (by rw [hpc]; rfl)

/-- The errand is under way, or done with. -/
def Course (c : Errand) (notes : List (Option Deed)) (s : State) : Prop :=
  (∃ t, c.Holds notes s t) ∨
    c.id < s.nextTask ∧ s.tasks.lookup c.id = none ∧ steps notes ≤ limit c.net.addresses.length ∧
      c.net.Outcome c.start c.payload (sends notes)

/-- A step of the task itself. -/
theorem Holds.own (h : c.Holds notes s t) (hpos : 0 < c.net.addresses.length) (htabled : Tabled owner s)
    (hev : Evolves owner s owner' s') {input : TaskInput} (hs : s.step config (.task c.id input) = some (e, s'))
    (halive : (s.shared.association t.association).alive = true) (hanswers : c.net.Answers t input s.shared) :
    c.Course (notes ++ [s.deed c.id (.task c.id input)]) s' := by
  have hpermits := State.permits_step htabled hev hs
  obtain ⟨t₀, r, hlookup, hmove, -, rfl⟩ := State.task_moves hs
  cases h.lookup.symm.trans hlookup
  obtain ⟨harc, htarget⟩ : t.association = c.key.1 ∧ t.target = c.key.2 := by
    rw [← h.key]
    exact ⟨rfl, rfl⟩
  have halone := h.alone
  have hroom := h.room
  rw [← harc, ← htarget] at halone hroom
  obtain ⟨q, hattempts, hstage⟩ := h.stage
  have hnone : t.pc = .lockingFlows → (s.shared.association t.association).flows.lookup t.target = none := by
    intro hpc
    refine Option.eq_none_iff_forall_ne_some.mpr fun slot hk => ?_
    have hslot := halone slot hk
    rw [hpc] at hslot
    cases hslot
  have hanswered := hanswers.answered
  rw [State.deed_task h.lookup]
  cases htask : r.task with
  | none =>
    refine .inr ⟨htabled.tasks c.id t h.lookup, ?_, (h.tally.finish h.bounded hmove htask).steps_le, ?_⟩
    · dsimp only
      rw [Dict.lookup_update_eq, if_pos rfl]
    · rw [sends_deed]
      refine hstage.finish hmove htask hattempts halive (fun hpc => ⟨?_, hroom (hnone hpc)⟩) h.silent
      -- the attempts so far have not taken all the permits
      have htaken := h.permits
      have hbound := h.bounded.attempts
      rw [PacketTask.taken, hpc] at htaken
      rw [hpc] at hbound
      simp only [TaskPc.held, TaskPc.attempted, Bool.false_eq_true, if_false] at htaken hbound
      omega
  | some t' =>
    obtain ⟨hassociation', htarget', hpayload'⟩ := hmove.packet htask
    obtain ⟨hbounded', hlt⟩ := hmove.descends h.bounded hanswered
      (fun flow hflow => ⟨(hstage.count hflow).symm ▸ hpos, (hstage.count hflow).le⟩) htask
    have hstale : ∀ slot, t.pc ≠ .droppingStale slot := by
      intro slot hpc
      rw [hpc] at hstage
      exact hstage
    refine .inl ⟨t', ?_, ?_, hpayload'.trans h.payload, hbounded', h.tally.step hmove htask hlt, ?_, ?_, ?_, ?_, ?_, ?_⟩
    · dsimp only
      rw [Dict.lookup_update_eq, if_pos rfl]
    · rw [PacketTask.key, hassociation', htarget']
      exact h.key
    · rw [← harc, ← htarget]
      exact fun slot hk => hmove.alone htask halone hk
    · rw [← harc, ← htarget]
      exact hmove.room htask htabled.bounded hroom
    · have htaken := hmove.taken hstale htask
      have hbefore := h.permits
      rw [htask] at hpermits
      dsimp only at hpermits ⊢
      generalize r.shared.nextSlot = made at hpermits htaken
      generalize s.shared.nextSlot = old at hpermits htaken
      have hsum := Nat.add_le_add hpermits htaken
      omega
    · intro flow receiver hr harc'
      rcases hmove.receiver hr with hold | ⟨-, -, destination, hnew⟩
      · exact h.calm flow receiver hold harc'
      · rw [hnew]
        exact ⟨rfl, fun heq => by cases heq⟩
    · rw [sends_deed]
      exact silent_step hmove htask h.silent
    · rw [sends_deed]
      exact hstage.step h.key h.payload hmove htask hattempts hnone h.silent hanswers _

/-- A step of another part of the server. -/
theorem Holds.other (h : c.Holds notes s t) (hc : Controlled events s) (ht : Traced config events s)
    (ho : s.shared.world.Orderly) (htabled : Tabled owner s) (hkeyed : Keyed owner key s)
    (hev : Evolves owner s owner' s') {input : Input} (hs : s.step config input = some (e, s'))
    (htask : ∀ i, input ≠ .task c.id i) (hok : Undisturbed c.net c.id s input) :
    c.Course (notes ++ [s.deed c.id input]) s' := by
  have hpermits := State.permits_step htabled hev hs
  have harc : t.association = c.key.1 := by
    rw [← h.key]
    rfl
  unfold Undisturbed at hok
  simp only [h.lookup] at hok
  obtain ⟨halive, hok⟩ := hok
  rw [State.deed_other htask]
  have hspares : s.Spares s' t := by
    cases input with
    | task id' input =>
      dsimp only at hok
      rw [if_neg (by rintro rfl; exact htask input rfl)] at hok
      exact State.spares_task hkeyed htabled h.lookup (fun t' ht' => (hok t' ht').1) hs
    | receiver flow input =>
      exact State.spares_receiver hkeyed htabled.bounded ho h.lookup halive (harc ▸ h.calm) hok hs
    | _ => exact State.spares_other hc ht htabled h.lookup hs (by simp) (by simp)
  refine .inl ⟨t, h.spared hspares ?_⟩
  have hbefore := h.permits
  rcases State.nextSlot_step hs with heq | ⟨id', t', i, rfl, hlookup', hacquires, heq⟩
  · rw [heq] at hpermits
    exact hbefore.trans (Nat.add_le_add_right (Nat.le_of_add_le_add_right hpermits) _)
  · -- another task takes a permit, and leaves enough
    dsimp only at hok
    rw [if_neg (by rintro rfl; exact htask i rfl)] at hok
    have hleft := (hok t' hlookup').2 hacquires
    rw [heq, ← Nat.add_assoc, Nat.add_right_comm] at hpermits
    have hle := Nat.le_of_add_le_add_right hpermits
    omega

/-- What one step of the server preserves. -/
theorem Course.step (h : c.Course notes s) (hpos : 0 < c.net.addresses.length) (hc : Controlled events s)
    (ht : Traced config events s) (ho : s.shared.world.Orderly) (htabled : Tabled owner s) (hkeyed : Keyed owner key s)
    (hev : Evolves owner s owner' s') {input : Input} (hs : s.step config input = some (e, s'))
    (hok : Undisturbed c.net c.id s input) : c.Course (notes ++ [s.deed c.id input]) s' := by
  rcases h with ⟨t, h⟩ | ⟨hlt, hnone, hsteps, houtcome⟩
  · by_cases htask : ∃ i, input = .task c.id i
    · obtain ⟨i, rfl⟩ := htask
      unfold Undisturbed at hok
      simp only [h.lookup, if_true] at hok
      exact h.own hpos htabled hev hs hok.1 hok.2
    · exact h.other hc ht ho htabled hkeyed hev hs (fun i heq => htask ⟨i, heq⟩) hok
  · have htask : ∀ i, input ≠ .task c.id i := by
      rintro i rfl
      obtain ⟨t, r, hlookup, -⟩ := State.task_moves hs
      rw [hnone] at hlookup
      cases hlookup
    obtain ⟨hnext, hkept⟩ : s.nextTask ≤ s'.nextTask ∧ s'.tasks.lookup c.id = none := by
      by_cases hother : ∃ id' i, input = .task id' i
      · obtain ⟨id', i, rfl⟩ := hother
        obtain ⟨t, r, -, -, -, rfl⟩ := State.task_moves hs
        refine ⟨le_refl _, ?_⟩
        dsimp only
        rw [Dict.lookup_update_eq, if_neg (by rintro rfl; exact htask i rfl)]
        exact hnone
      · obtain ⟨hnext, hstarted⟩ := State.tasks_started hs fun id' i heq => hother ⟨id', i, heq⟩
        refine ⟨hnext, Option.eq_none_iff_forall_ne_some.mpr fun t hlookup => ?_⟩
        rcases hstarted c.id t hlookup with hold | ⟨heq, -⟩
        · rw [hnone] at hold
          cases hold
        · exact absurd heq hlt.ne
    rw [State.deed_other htask]
    refine .inr ⟨hlt.trans_le hnext, hkept, ?_, ?_⟩
    · rw [steps_append]
      exact hsteps
    · rw [sends_silent notes rfl]
      exact houtcome

end Errand

/-! ### Runs -/

/-- A receiver that is about to advance the index has failed. -/
theorem failed_of_advancing (h : System.Reaches (system config) .initial events s) :
    ∀ flow r, s.receivers.lookup flow = some r → r.pc = .advancing → r.failed = true := by
  induction h with
  | start => exact fun flow r hr => absurd hr (State.lookup_initial_receivers flow r)
  | @step _ s₀ s₁ input e _ hs ih =>
    intro flow r hr hpc
    change s₀.step config input = some (e, s₁) at hs
    cases input with
    | task id input =>
      obtain ⟨t, result, -, hmove, -, rfl⟩ := State.task_moves hs
      rcases hmove.receiver hr with hold | ⟨-, -, destination, hnew⟩
      · exact ih flow r hold hpc
      · rw [hnew] at hpc
        cases hpc
    | receiver flow' input =>
      obtain ⟨r₀, result, hlookup, hmove, rfl⟩ := State.receiver_moves hs
      dsimp only at hr
      rw [Dict.lookup_update_eq] at hr
      split at hr
      · cases hmove with
        | stay _ hstay =>
          cases hr
          have hnext := hstay.next
          rw [hpc] at hnext
          cases hnext
        | close =>
          cases hr
          dsimp only at hpc ⊢
          split at hpc
          · rename_i hadvances
            exact (Bool.and_eq_true_iff.mp hadvances).2
          · cases hpc
        | leave | advance =>
          cases hr
          cases hpc
        | drop => cases hr
      · exact ih flow r hr hpc
    | _ =>
      rw [(State.sameFlows_step hs (by simp) (by simp)).receivers] at hr
      exact ih flow r hr hpc

namespace Errand
variable {c : Errand} {notes : List (Option Deed)} {t : PacketTask}

/-- The errand of a task that has just been spawned. -/
theorem holds_new {arc : Arc} {target : Target} {payload : Bytes} (hreach : System.Reaches (system config) .initial events s)
    (hlookup : s.tasks.lookup id = some (.new arc target payload))
    (hnone : (s.shared.association arc).flows.lookup target = none)
    (hroom : Dict.size (s.shared.association arc).flows < MAX_FLOWS_PER_ASSOCIATION)
    (hpermits : net.addresses.length ≤ s.flowPermits)
    (hcalm : ∀ flow r, s.receivers.lookup flow = some r → r.association = arc → r.failed = false) :
    Holds ⟨net, id, (arc, target), payload, (s.shared.preferred (arc, target)).getD 0 % net.addresses.length⟩ [] s
      (.new arc target payload) where
  lookup := hlookup
  key := rfl
  payload := rfl
  bounded := PacketTask.bounded_new _ arc target payload
  tally := .start (fun _ h => absurd h List.not_mem_nil) arc target payload
  alone slot hk := by
    rw [hnone] at hk
    cases hk
  room _ := hroom
  permits := hpermits
  calm flow r hr harc := by
    refine ⟨hcalm flow r hr harc, fun hpc => ?_⟩
    have hfailed := failed_of_advancing hreach flow r hr hpc
    rw [hcalm flow r hr harc] at hfailed
    cases hfailed
  silent _ := rfl
  stage := by
    refine ⟨0, Nat.zero_le _, ?_, .zero _ _ _ _⟩
    unfold Heads
    dsimp only
    rw [Nat.add_zero, Nat.mod_mod]

theorem course_of_reaches (hpos : 0 < c.net.addresses.length) {s₀ : State}
    (hreach : System.Reaches (system config) .initial events s₀) (hstart : ∃ t, c.Holds [] s₀ t)
    (h : System.Reaches (failingOver config c.net c.id) s₀ notes s) : c.Course notes s := by
  have hall : ∃ events owner key, System.Reaches (system config) .initial events s ∧ Tabled owner s ∧
      Keyed owner key s ∧ c.Course notes s := by
    induction h with
    | start =>
      obtain ⟨owner, key, htabled, hkeyed⟩ := keyed_of_reaches hreach
      exact ⟨events, owner, key, hreach, htabled, hkeyed, .inl hstart⟩
    | step _ hi ih =>
      obtain ⟨events, owner, key, hr, htabled, hkeyed, hcourse⟩ := ih
      obtain ⟨hok, hi⟩ := System.restrict_some.mp hi
      obtain ⟨rfl, e, hs⟩ := System.observed_some.mp hi
      obtain ⟨hc, ht⟩ := traced_of_reaches hr
      obtain ⟨owner', hev⟩ := htabled.step hc ht hs
      obtain ⟨key', -, hkeyed'⟩ := hkeyed.step htabled hev hs
      exact ⟨_, owner', key', hr.step hs, hev.tabled, hkeyed',
        hcourse.step hpos hc ht (orderly_of_reaches hr) htabled hkeyed hev hs hok⟩
  obtain ⟨-, -, -, -, -, -, hcourse⟩ := hall
  exact hcourse

/-- The task can take its next step, with an answer of the network. -/
theorem Holds.proceeds (h : c.Holds notes s t) {answer : Except IoError (List IpAddr)}
    (hanswer : (Brume.lookup (fun _ => answer) t.target : Except IoError (List SocketAddr)) = .ok c.net.addresses)
    (halive : (s.shared.association t.association).alive = true) :
    ∃ input d s', failingOver config c.net c.id s (.task c.id input) = some (d, s') := by
  obtain ⟨q, -, hstage⟩ := h.stage
  have hsized := h.bounded.sized
  have hcell : ∀ slot, t.pc = .awaitingCell slot → ∀ user, s.shared.slots slot ≠ .initializing user := by
    intro slot hpc user hc
    rw [hpc] at hstage
    rw [hstage.1] at hc
    cases hc
  -- what the sockets answer to the next step
  obtain ⟨ok, hok⟩ : ∃ ok, ∀ input : TaskInput, input.Gives answer ok → c.net.Answers t input s.shared := by
    cases hpc : t.pc with
    | resolving slot =>
      refine ⟨true, fun input hgives => ?_⟩
      unfold Network.Answers
      rw [hpc]
      cases input with
      | lookedUp lookupIp =>
        cases hgives
        simp only [hanswer]
      | _ => trivial
    | binding slot addresses first offset =>
      rw [hpc] at hsized
      have hlt := Nat.mod_lt (first + offset) hsized.1
      refine ⟨c.net.bindable addresses[(first + offset) % addresses.length], fun input hgives => ?_⟩
      unfold Network.Answers
      rw [hpc]
      cases input with
      | bound ok =>
        cases hgives
        simp only [List.getElem?_eq_getElem hlt, Option.map_some]
      | _ => trivial
    | sending slot flow =>
      refine ⟨c.net.accepting (s.shared.flows flow).socket, fun input hgives => ?_⟩
      unfold Network.Answers
      rw [hpc]
      cases input with
      | sent ok => exact hgives.symm
      | _ => trivial
    | _ =>
      refine ⟨true, fun input _ => ?_⟩
      unfold Network.Answers
      rw [hpc]
      trivial
  obtain ⟨input, r, hgives, hr⟩ := PacketTask.proceeds hsized s.flowPermits s.shared hcell answer ok
  obtain ⟨e, s', hs⟩ := State.step_of_task h.lookup hr
  refine ⟨input, _, s', System.restrict_some.mpr ⟨?_, System.observed_some.mpr ⟨rfl, e, hs⟩⟩⟩
  unfold Undisturbed
  simp only [h.lookup, if_true]
  exact ⟨halive, hok input hgives⟩

end Errand

/-- Whatever the resolver, the sockets and the other tasks do, a packet task makes at
most one send for each of the addresses it is given, one of them with success, finds
three flows inactive at most, reduces no index modulo zero and comes to its end; and
where its association is left to it and the target keeps its addresses, it delivers
the payload once, to the first usable address from the preferred one on, or has
sent it in vain to all that can be bound. -/
theorem udp_failover (config : Config) (id : ℕ) :
    (∀ N notes s, System.Reaches (attempting config N id) .initial notes s →
      (sends notes).length ≤ N ∧ (sends notes).countP Send.ok ≤ 1 ∧ notes.count (some .inactive) ≤ 3 ∧
        steps notes ≤ limit N ∧
        ∀ t, s.tasks.lookup id = some t →
          (∀ n, t.pc.divisor? s.shared = some n → n ≠ 0) ∧
          ∃ id', (id' = id ∨ ∃ slot, t.pc = .awaitingCell slot ∧ s.shared.slots slot = .initializing id') ∧
            ∃ input e s', s.step config (.task id' input) = some (e, s')) ∧
    ∀ (net : Network) arc target payload answer events s, System.Reaches (system config) .initial events s →
      s.tasks.lookup id = some (.new arc target payload) →
      lookup (fun _ => answer) target = (.ok net.addresses : Except IoError (List SocketAddr)) →
      (s.shared.association arc).flows.lookup target = none →
      Dict.size (s.shared.association arc).flows < MAX_FLOWS_PER_ASSOCIATION →
      net.addresses.length ≤ s.flowPermits →
      (∀ flow r, s.receivers.lookup flow = some r → r.association = arc → r.failed = false) →
      ∀ notes s', System.Reaches (failingOver config net id) s notes s' →
        steps notes ≤ limit net.addresses.length ∧
        (∀ t, s'.tasks.lookup id = some t → (s'.shared.association arc).alive = true →
          ∃ input d s'', failingOver config net id s' (.task id input) = some (d, s'')) ∧
        (s'.tasks.lookup id = none →
          net.Outcome ((s.shared.preferred (arc, target)).getD 0 % net.addresses.length) payload (sends notes)) := by
  refine ⟨fun N notes s h => ?_, ?_⟩
  · obtain ⟨owner, key, htabled, hkeyed, hcounted⟩ := counted_of_reaches h
    obtain ⟨hattempts, hdelivered, hinactive, hsteps⟩ := hcounted.within
    exact ⟨hattempts, hdelivered, hinactive, hsteps, fun t hlookup =>
      ⟨fun n hn => divisor_ne_zero hkeyed hcounted hlookup hn, task_proceeds htabled hcounted.bounded hlookup⟩⟩
  · intro net arc target payload answer events s hreach hlookup hanswer hnone hroom hpermits hcalm notes s' h
    have hpos := List.length_pos_iff.mpr (lookup_ne_nil hanswer)
    have hstart := Errand.holds_new hreach hlookup hnone hroom hpermits hcalm
    rcases Errand.course_of_reaches (c := ⟨net, id, (arc, target), payload, _⟩) hpos hreach ⟨_, hstart⟩ h with
      ⟨t, ht⟩ | ⟨-, hfinished, hsteps, houtcome⟩
    · refine ⟨(ht.tally.within ht.bounded).steps_le, fun t' ht' halive => ?_, fun hfinished => ?_⟩
      · cases ht.lookup.symm.trans ht'
        have harc : t.association = arc := congrArg Prod.fst ht.key
        have htarget : t.target = target := congrArg Prod.snd ht.key
        exact ht.proceeds (htarget.symm ▸ hanswer) (harc.symm ▸ halive)
      · cases ht.lookup.symm.trans hfinished
    · refine ⟨hsteps, fun t' ht' => ?_, fun _ => houtcome⟩
      cases hfinished.symm.trans ht'

/-- The domain has two addresses, and only the second one accepts what is sent. -/
def secondAccepts : Network where
  addresses := domainAddresses
  bindable _ := true
  accepting a := a = .v4 (.new 198 51 100 2) 53

/-- A packet task that fails over to the second address. -/
def deliveringInputs : List TaskInput := failoverInputs ++ [.go, .go, .go, .go, .sent true, .go]

theorem udp_failover_second :
    (∃ notes s, System.Reaches (attempting anonymous 2 0) .initial notes s ∧ (sends notes).length = 2 ∧
      (sends notes).length ≤ 2) ∧
    ∃ events s notes s', System.Reaches (system anonymous) .initial events s ∧
      System.Reaches (failingOver anonymous secondAccepts 0) s notes s' ∧ s'.tasks.lookup 0 = none ∧
      (sends notes).filter Send.ok = [⟨.v4 (.new 198 51 100 2) 53, [1, 2, 3], true⟩] := by
  have hattempts : (((attempting anonymous 2 0).run .initial (domainInputs ++ deliveringInputs.map (.task 0))).map
      fun r => decide ((sends r.1).length = 2)) = some true := by
    decide +kernel
  obtain ⟨⟨notes, s⟩, hrun, hlength⟩ := Option.map_eq_some_iff.mp hattempts
  have hreach := System.reaches_of_run hrun
  refine ⟨⟨notes, s, hreach, of_decide_eq_true hlength, ((udp_failover anonymous 0).1 2 notes s hreach).1⟩, ?_⟩
  have hrun : (((system anonymous).run .initial domainInputs).bind fun r =>
      ((failingOver anonymous secondAccepts 0).run r.2 (deliveringInputs.map (.task 0))).map fun r' =>
        decide (r.2.tasks.lookup 0 = some (.new 1 domainKey.2 [1, 2, 3]) ∧
          (r.2.shared.association 1).flows.lookup domainKey.2 = none ∧
          Dict.size (r.2.shared.association 1).flows < MAX_FLOWS_PER_ASSOCIATION ∧ 2 ≤ r.2.flowPermits ∧
          r.2.receivers.keys = [] ∧ r.2.shared.preferred domainKey = none ∧ r'.2.tasks.lookup 0 = none)) =
      some true := by
    decide +kernel
  obtain ⟨⟨events, s⟩, hbefore, hrun⟩ := Option.bind_eq_some_iff.mp hrun
  obtain ⟨⟨notes, s'⟩, hafter, hend⟩ := Option.map_eq_some_iff.mp hrun
  obtain ⟨hlookup, hnone, hroom, hpermits, hreceivers, hpreferred, hfinished⟩ := of_decide_eq_true hend
  have hreach := System.reaches_of_run hbefore
  have hover := System.reaches_of_run hafter
  have houtcome := ((udp_failover anonymous 0).2 secondAccepts 1 domainKey.2 [1, 2, 3]
    (.ok [.v4 (.new 198 51 100 1), .v4 (.new 198 51 100 2)]) events s hreach hlookup (by decide) hnone hroom
    hpermits (fun flow r hr => by
      have hmem : flow ∈ s.receivers.keys := Dict.mem_iff.mpr ⟨r, hr⟩
      rw [hreceivers] at hmem
      cases hmem) notes s' hover).2.2 hfinished
  have hfirst : (s.shared.preferred (1, domainKey.2)).getD 0 % secondAccepts.addresses.length = 0 := by
    change (s.shared.preferred domainKey).getD 0 % 2 = 0
    rw [hpreferred]
    rfl
  rw [hfirst] at houtcome
  exact ⟨events, s, notes, s', hreach, hover, hfinished, houtcome⟩

end Brume.Server
