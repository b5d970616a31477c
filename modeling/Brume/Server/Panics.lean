import Brume.Server.Attempts
import Brume.Server.Deadline
import Brume.Server.Expiry
import Brume.Server.Permits
import Brume.Server.ReplyHeader
import Brume.Server.Transparency

/-!
# No part panics, and none is stuck

What each part of the server waits for is said without its code: its turn, the end
of a wait, or an answer of the resolver, the network or the timer. In every
reachable state the code takes exactly these, so no index, slice or prefix leaves
its range, and every part that is not at its end waits for something that can come.
Where the timeouts leave room for it on the clock, no sum of a deadline panics either.
-/

namespace Brume.Server
open Lib Session

variable {config : Config} {events : List Event} {s s' : State} {e : Event}

/-! ### What the parts wait for -/

/-- The entry can make room for one of the target, if it has to. -/
def Shared.Evictable (sh : Shared) (arc : Arc) (target oldest : Target) : Prop :=
  MAX_FLOWS_PER_ASSOCIATION ≤ Dict.size (sh.association arc).preferredAddresses →
    target ∉ (sh.association arc).preferredAddresses → oldest ∈ (sh.association arc).preferredAddresses

def Connection.Awaits (c : Connection) (shutdown : Bool) (input : HandlerInput) : Prop :=
  match c.program, input with
  | .done _, .go => True
  | .read n _, .readResult r => ∀ bytes, r = .ok bytes → bytes.length = n
  | .write _ _, .writeResult _ => True
  | .ask q _, .go => ¬q.external ∧ q ≠ .holdControl
  | .ask q _, .control event => q = .holdControl ∧ (event = .shutdown → shutdown = true)
  | .ask q _, .answer q' a => q' = q ∧ q.external ∧ Allowed c.peer shutdown q' a
  | _, _ => False

def LoopPc.Awaits (shutdown : Bool) : LoopPc → LoopInput → Prop
  | .waiting, .shutdown => shutdown = true
  | .waiting, .receiveError _ => True
  | .waiting, .received _ bytes => bytes.length ≤ UDP_BUFFER_SIZE
  | .finding _ _ _ _, .go | .dispatching _ _ _, .go => True
  | _, _ => False

def PacketTask.Awaits (t : PacketTask) (sh : Shared) (input : TaskInput) : Prop :=
  match t.pc, input with
  | .awaitingCell slot, .go => ∀ user, sh.slots slot ≠ .initializing user
  | .resolving _, .lookedUp _ => True
  | .binding _ addresses _ offset, .bound _ => offset < addresses.length
  | .binding _ addresses _ offset, .go => addresses.length ≤ offset
  | .remembering _ _ _, .oldest oldest => sh.Evictable t.association t.target oldest
  | .sending _ _, .sent _ => True
  | .advancing _ flow, .oldest oldest =>
    1 < (sh.flows flow).addressCount → sh.Evictable t.association t.target oldest
  | .resolving _, .go | .remembering _ _ _, .go | .sending _ _, .go | .advancing _ _, .go => False
  | _, .go => True
  | _, _ => False

/-- The system cuts a datagram off where the buffer behind the header ends. -/
def Receiver.Awaits (r : Receiver) (flow : FlowId) (sh : Shared) (input : ReceiverInput) : Prop :=
  match r.pc, input with
  | .selecting _, .associationStopped => (sh.association r.association).stopped = true
  | .selecting _, .flowStopped => (sh.flows flow).stopped = true
  | .selecting (some deadline), .deadlineReached => deadline ≤ sh.now
  | .selecting _, .datagram sender payload =>
    sender = (sh.flows flow).socket ∧ 22 + payload.length ≤ UDP_BUFFER_SIZE
  | .selecting _, .receiveError => True
  | .advancing, .oldest oldest =>
    1 < (sh.flows flow).addressCount → sh.Evictable r.association r.target oldest
  | .selecting _, .go | .advancing, .go => False
  | _, .go => True
  | _, _ => False

def State.Awaits (s : State) : Input → Prop
  | .cancel | .tick _ => True
  | .accept _ | .leaveAccept => s.phase = .accepting
  | .stopAssociations => s.phase = .stopping
  | .join => s.phase = .joining ∧ s.loop = .ended
  | .handler id input => ∃ c, s.handlers.lookup id = some c ∧ c.Awaits s.shutdown input
  | .loop input => s.loop.Awaits s.shutdown input
  | .task id input => ∃ t, s.tasks.lookup id = some t ∧ t.Awaits s.shared input
  | .receiver flow input => ∃ r, s.receivers.lookup flow = some r ∧ r.Awaits flow s.shared input

/-! ### Handlers -/

theorem Connection.step_iff {id : ℕ} {shutdown : Bool} {c : Connection} {input : HandlerInput} {w : World} :
    (∃ r, c.step id shutdown input w = some r) ↔ c.Awaits shutdown input := by
  obtain ⟨peer, program⟩ := c
  unfold Connection.step Connection.Awaits
  cases program with
  | done a => cases input <;> simp
  | read n k =>
    cases input with
    | readResult r =>
      cases r with
      | error error => simp
      | ok bytes => simp
    | _ => simp
  | write bytes k => cases input <;> simp
  | ask q k =>
    cases input with
    | go => cases q <;> simp [Query.external]
    | control event =>
      cases q with
      | holdControl => cases event <;> simp
      | _ => simp
    | answer q' a =>
      by_cases hq : q' = q
      · subst hq
        cases q' <;> simp [Query.external]
      · cases q <;> simp [hq]
    | _ => cases q <;> simp

/-! ### The UDP loop -/

/-- A list in range decides every address. -/
theorem allows_isSome {w : Whitelist} (hw : w.WellFormed) (address : IpAddr) :
    ∃ allowed, w.allows address = some allowed := by
  cases address with
  | v4 x =>
    obtain ⟨allowed, hallowed, -⟩ := Whitelist.allows_v4_spec hw x
    exact ⟨allowed, hallowed⟩
  | v6 a =>
    obtain ⟨allowed, hallowed, -⟩ := Whitelist.allows_spec hw a
    exact ⟨allowed, hallowed⟩

theorem LoopPc.step_iff {whitelist : Whitelist} (hw : whitelist.WellFormed) {shutdown : Bool} {permits nextTask : ℕ}
    {pc : LoopPc} {input : LoopInput} {w : World} :
    (∃ r, pc.step whitelist shutdown permits nextTask input w = some r) ↔ pc.Awaits shutdown input := by
  cases pc with
  | waiting =>
    cases input with
    | received source bytes =>
      obtain ⟨allowed, hallowed⟩ := allows_isSome hw source.ip
      unfold LoopPc.step LoopPc.Awaits
      dsimp only
      rw [hallowed]
      by_cases hlen : UDP_BUFFER_SIZE < bytes.length
      · simp [hlen]
      · have hle : bytes.length ≤ UDP_BUFFER_SIZE := not_lt.mp hlen
        rw [if_neg hlen]
        refine iff_of_true ?_ hle
        cases allowed with
        | false => exact ⟨_, rfl⟩
        | true =>
          dsimp only
          split <;> exact ⟨_, rfl⟩
    | receiveError kind =>
      refine iff_of_true ?_ trivial
      unfold LoopPc.step
      dsimp only
      split <;> exact ⟨_, rfl⟩
    | shutdown => cases shutdown <;> simp [LoopPc.step, LoopPc.Awaits]
    | go => simp [LoopPc.step, LoopPc.Awaits]
  | finding source bytes target payload => cases input <;> simp [LoopPc.step, LoopPc.Awaits]
  | dispatching arc target payload =>
    cases input with
    | go =>
      refine iff_of_true ?_ trivial
      unfold LoopPc.step
      dsimp only
      split <;> exact ⟨_, rfl⟩
    | _ => simp [LoopPc.step, LoopPc.Awaits]
  | ended => cases input <;> simp [LoopPc.step, LoopPc.Awaits]

/-! ### Packet tasks -/

theorem Shared.rememberUdpAddress_iff {sh : Shared} {arc : Arc} {target oldest : Target} {index : ℕ} :
    (∃ sh', sh.rememberUdpAddress arc target index oldest = some sh') ↔ sh.Evictable arc target oldest := by
  unfold Shared.rememberUdpAddress Shared.Evictable
  dsimp only
  by_cases hfull : MAX_FLOWS_PER_ASSOCIATION ≤ Dict.size (sh.association arc).preferredAddresses ∧
      target ∉ (sh.association arc).preferredAddresses
  · rw [if_pos hfull]
    obtain ⟨hsize, hmem⟩ := hfull
    by_cases holdest : oldest ∈ (sh.association arc).preferredAddresses
    · simp [holdest]
    · simp [holdest, hsize, hmem]
  · rw [if_neg hfull]
    refine iff_of_true ⟨_, rfl⟩ fun hsize hmem => absurd ⟨hsize, hmem⟩ hfull

theorem Shared.advanceUdpAddress_iff {sh : Shared} {arc : Arc} {target oldest : Target} {flow : FlowId} :
    (∃ sh', sh.advanceUdpAddress arc target flow oldest = some sh') ↔
      (1 < (sh.flows flow).addressCount → sh.Evictable arc target oldest) := by
  unfold Shared.advanceUdpAddress
  dsimp only
  split
  · rename_i hmany
    rw [Shared.rememberUdpAddress_iff]
    exact ⟨fun h _ => h, fun h => h hmany⟩
  · rename_i hone
    exact iff_of_true ⟨_, rfl⟩ fun hmany => absurd hmany hone

/-- A task whose addresses are in order takes what it waits for. -/
theorem PacketTask.step_iff {id permits N : ℕ} {t : PacketTask} (hsized : t.pc.Sized N) {input : TaskInput} {sh : Shared} :
    (∃ r, t.step id permits input sh = some r) ↔ t.Awaits sh input := by
  obtain ⟨association, target, payload, attempts, staleRetries, pc⟩ := t
  cases pc with
  | start | lockingFlows | checkingAlive | droppingStale | dropping =>
    cases input with
    | go =>
      refine iff_of_true ?_ trivial
      unfold PacketTask.step
      dsimp only
      repeat' split
      all_goals exact ⟨_, rfl⟩
    | _ => simp [PacketTask.step, PacketTask.Awaits]
  | awaitingCell slot =>
    cases input with
    | go =>
      unfold PacketTask.step PacketTask.Awaits
      dsimp only
      cases sh.slots slot <;> simp
    | _ => simp [PacketTask.step, PacketTask.Awaits]
  | resolving slot =>
    cases input with
    | lookedUp lookupIp =>
      refine iff_of_true ?_ trivial
      unfold PacketTask.step
      dsimp only
      split <;> exact ⟨_, rfl⟩
    | _ => simp [PacketTask.step, PacketTask.Awaits]
  | binding slot addresses start offset =>
    unfold PacketTask.step PacketTask.Awaits
    by_cases hlt : offset < addresses.length
    · have hle : ¬addresses.length ≤ offset := not_le.mpr hlt
      cases input with
      | bound ok =>
        refine iff_of_true ?_ hlt
        dsimp only
        rw [if_pos hlt]
        repeat' split
        all_goals exact ⟨_, rfl⟩
      | _ => simp [hlt]
    · have hle : addresses.length ≤ offset := not_lt.mp hlt
      cases input <;> simp [hle]
  | remembering slot addresses index =>
    cases input with
    | oldest oldest =>
      have hiff := @Shared.rememberUdpAddress_iff sh association target oldest index
      unfold PacketTask.step PacketTask.Awaits
      dsimp only
      rw [← hiff]
      cases sh.rememberUdpAddress association target index oldest <;> simp
    | _ => simp [PacketTask.step, PacketTask.Awaits]
  | spawning slot addresses index =>
    cases input with
    | go =>
      refine iff_of_true ?_ trivial
      have hlt : index < addresses.length := hsized.1
      have hindex : addresses[index]? = some addresses[index] := List.getElem?_eq_getElem hlt
      unfold PacketTask.step
      dsimp only
      rw [hindex]
      exact ⟨_, rfl⟩
    | _ => simp [PacketTask.step, PacketTask.Awaits]
  | checking slot flow =>
    cases input with
    | go =>
      refine iff_of_true ?_ trivial
      unfold PacketTask.step
      cases flow with
      | none => exact ⟨_, rfl⟩
      | some flow =>
        dsimp only
        split <;> exact ⟨_, rfl⟩
    | _ => simp [PacketTask.step, PacketTask.Awaits]
  | advancing slot flow =>
    cases input with
    | oldest oldest =>
      have hiff := @Shared.advanceUdpAddress_iff sh association target oldest flow
      unfold PacketTask.step PacketTask.Awaits
      dsimp only
      rw [← hiff]
      cases sh.advanceUdpAddress association target flow oldest <;> simp
    | _ => simp [PacketTask.step, PacketTask.Awaits]
  | _ => cases input <;> simp [PacketTask.step, PacketTask.Awaits]

/-! ### Receivers -/

/-- The buffer has its size, and the datagram lies in it. -/
def Receiver.Fits (r : Receiver) : Prop :=
  r.buffer.length = UDP_BUFFER_SIZE ∧ ∀ length, r.pc.length? = some length → 22 + length ≤ UDP_BUFFER_SIZE

namespace Receiver

theorem fits_new (arc : Arc) (slot : SlotId) (target : Target) (destination : SocketAddr) :
    (Receiver.new arc slot target destination).Fits := by
  refine ⟨List.length_replicate .., fun length h => ?_⟩
  cases h

theorem Fits.step {flow : FlowId} {r r' : Receiver} {input : ReceiverInput} {sh : Shared} {result : ReceiverStep}
    (h : r.Fits) (hcase : r.Case flow sh input result) (hr' : result.receiver = some r') : r'.Fits := by
  obtain ⟨hsize, hlength⟩ := h
  cases hcase with
  | loop h =>
    cases hr'
    refine ⟨h.size.trans hsize, fun n hn => ?_⟩
    rcases h.length n hn with hold | hfit
    · exact hlength n hold
    · rwa [hsize] at hfit
  | close =>
    cases hr'
    refine ⟨hsize, fun n hn => ?_⟩
    dsimp only at hn
    split at hn <;> cases hn
  | advance =>
    cases hr'
    refine ⟨hsize, fun n hn => ?_⟩
    cases hn
  | drop => cases hr'

/-- A receiver with its buffer in order takes what it waits for. -/
theorem step_iff {timeout : Duration} {flow : FlowId} {r : Receiver} (h : r.Fits) {input : ReceiverInput} {sh : Shared} :
    (∃ result, r.step timeout flow input sh = some result) ↔ r.Awaits flow sh input := by
  obtain ⟨hsize, hlength⟩ := h
  obtain ⟨association, slot, target, destination, buffer, receivedReply, failed, pc⟩ := r
  dsimp only at hsize hlength
  unfold Receiver.step Receiver.Awaits
  cases pc with
  | selecting deadline =>
    cases input with
    | datagram sender payload =>
      by_cases hsender : sender = (sh.flows flow).socket
      · have hcopy : (∃ buffer', copyInto buffer 22 (22 + payload.length) payload = some buffer') ↔
            22 + payload.length ≤ UDP_BUFFER_SIZE := by
          rw [← hsize]
          unfold copyInto
          split
          · rename_i hfit
            exact iff_of_true ⟨_, rfl⟩ hfit.2.1
          · rename_i hfit
            refine iff_of_false (by simp) fun hle => hfit ⟨by omega, hle, by omega⟩
        dsimp only
        rw [if_pos hsender, ← hcopy]
        cases copyInto buffer 22 (22 + payload.length) payload <;> simp [hsender]
      · simp [hsender]
    | _ => cases deadline <;> simp
  | replying length source =>
    cases input with
    | go =>
      have hfit : 22 + length ≤ buffer.length := by
        rw [hsize]
        exact hlength length rfl
      refine iff_of_true ?_ trivial
      dsimp only
      rw [frame_eq destination hfit]
      exact ⟨_, rfl⟩
    | _ => simp
  | settingDeadline | checkingDeadline deadline | received length | readingEndpoint length =>
    cases input with
    | go =>
      refine iff_of_true ?_ trivial
      dsimp only
      repeat' split
      all_goals exact ⟨_, rfl⟩
    | _ => simp
  | advancing =>
    cases input with
    | oldest oldest =>
      have hiff := @Shared.advanceUdpAddress_iff sh association target oldest flow
      dsimp only
      rw [← hiff]
      cases sh.advanceUdpAddress association target flow oldest <;> simp
    | _ => simp
  | _ => cases input <;> simp

end Receiver

/-! ### Runs -/

/-- The buffers of the receivers are in order. -/
def State.Fits (s : State) : Prop := ∀ flow r, s.receivers.lookup flow = some r → r.Fits

theorem State.Fits.step (h : s.Fits) {input : Input} (hs : s.step config input = some (e, s')) : s'.Fits := by
  intro flow r hr
  cases input with
  | task id i =>
    obtain ⟨t, result, -, hmove, -, rfl⟩ := State.task_moves hs
    rcases hmove.receiver hr with hold | ⟨-, -, destination, hnew⟩
    · exact h flow r hold
    · rw [hnew]
      exact Receiver.fits_new _ _ _ _
  | receiver flow' i =>
    obtain ⟨r', result, hlookup, hcase, rfl⟩ := State.receiver_cases hs
    dsimp only at hr
    rw [Dict.lookup_update_eq] at hr
    split at hr
    · exact (h flow' r' hlookup).step hcase hr
    · exact h flow r hr
  | _ =>
    rw [(State.sameFlows_step hs (by simp) (by simp)).receivers] at hr
    exact h flow r hr

theorem fits_of_reaches (h : System.Reaches (system config) .initial events s) : s.Fits :=
  h.invariant (fun _ s => s.Fits) (fun flow r hr => absurd hr (State.lookup_initial_receivers flow r))
    fun _ _ _ _ _ hf hs => hf.step hs

theorem PacketTask.Answered.mono {N N' : ℕ} {t : PacketTask} {input : TaskInput} (h : t.Answered N input) (hle : N ≤ N') :
    t.Answered N' input := by
  revert h
  unfold PacketTask.Answered
  split
  · split
    · exact fun h => h.trans hle
    · exact fun h => h
  · exact fun h => h

theorem PacketTask.exists_answered (t : PacketTask) (input : TaskInput) : ∃ N, t.Answered N input := by
  unfold PacketTask.Answered
  split
  · split
    · rename_i addresses _
      exact ⟨addresses.length, le_refl _⟩
    · exact ⟨0, trivial⟩
  · exact ⟨0, trivial⟩

/-- A run gets finitely many answers, so there is a limit to their addresses. -/
theorem attempting_of_reaches (h : System.Reaches (system config) .initial events s) (id : ℕ) :
    ∃ N, ∀ N' ≥ N, ∃ notes, System.Reaches (attempting config N' id) .initial notes s := by
  induction h with
  | start => exact ⟨0, fun _ _ => ⟨[], .start⟩⟩
  | @step _ t t' i e _ hi ih =>
    obtain ⟨N, hN⟩ := ih
    have hanswered : ∃ N₁, ∀ N' ≥ N₁, Answered N' t i := by
      cases i with
      | task id' input =>
        unfold Answered
        dsimp only
        cases t.tasks.lookup id' with
        | none => exact ⟨0, fun _ _ => trivial⟩
        | some task =>
          obtain ⟨N₁, h₁⟩ := task.exists_answered input
          exact ⟨N₁, fun N' hle => h₁.mono hle⟩
      | _ => exact ⟨0, fun _ _ => trivial⟩
    obtain ⟨N₁, h₁⟩ := hanswered
    refine ⟨max N N₁, fun N' hle => ?_⟩
    obtain ⟨notes, hr⟩ := hN N' ((le_max_left N N₁).trans hle)
    have hobserved : (system config).observed (State.deed id) t i = some (State.deed id t i, t') :=
      System.observed_some.mpr ⟨rfl, e, hi⟩
    exact ⟨_, hr.step (System.restrict_some.mpr ⟨h₁ N' ((le_max_right N N₁).trans hle), hobserved⟩)⟩

/-- What one part of the server takes, in a state whose tasks and buffers are in order. -/
theorem State.step_iff {N : ℕ} (hw : config.whitelist.WellFormed) (hfits : s.Fits)
    (hsized : ∀ id t, s.tasks.lookup id = some t → t.pc.Sized N) (input : Input) :
    s.Awaits input ↔ ∃ e s', s.step config input = some (e, s') := by
  cases input with
  | cancel | tick => exact iff_of_true trivial ⟨_, _, rfl⟩
  | accept peer =>
    obtain ⟨allowed, hallowed⟩ := allows_isSome hw peer.ip
    simp only [Awaits, step, hallowed]
    by_cases hphase : s.phase = .accepting
    · refine iff_of_true hphase ?_
      rw [if_neg (not_not.mpr hphase)]
      cases allowed with
      | false => exact ⟨_, _, rfl⟩
      | true =>
        dsimp only
        split <;> exact ⟨_, _, rfl⟩
    · simp [hphase]
  | leaveAccept | stopAssociations | join =>
    simp only [Awaits, step]
    split
    · rename_i hphase
      exact iff_of_true hphase ⟨_, _, rfl⟩
    · rename_i hphase
      exact iff_of_false hphase (by simp)
  | handler id input =>
    simp only [Awaits, step]
    cases s.handlers.lookup id with
    | none => simp
    | some c =>
      have hiff := @Connection.step_iff id s.shutdown c input s.shared.world
      simp only [Option.some.injEq, exists_eq_left']
      rw [← hiff]
      cases c.step id s.shutdown input s.shared.world <;> simp
  | loop input =>
    simp only [Awaits, step]
    have hiff := @LoopPc.step_iff _ hw s.shutdown s.packetPermits s.nextTask s.loop input s.shared.world
    rw [← hiff]
    cases s.loop.step config.whitelist s.shutdown s.packetPermits s.nextTask input s.shared.world <;> simp
  | task id input =>
    simp only [Awaits, step]
    cases hlookup : s.tasks.lookup id with
    | none => simp
    | some t =>
      have hiff := @PacketTask.step_iff id s.flowPermits N t (hsized id t hlookup) input s.shared
      simp only [Option.some.injEq, exists_eq_left']
      rw [← hiff]
      cases t.step id s.flowPermits input s.shared <;> simp
  | receiver flow input =>
    simp only [Awaits, step]
    cases hlookup : s.receivers.lookup flow with
    | none => simp
    | some r =>
      have hiff := @Receiver.step_iff config.udpTimeout flow r (hfits flow r hlookup) input s.shared
      simp only [Option.some.injEq, exists_eq_left']
      rw [← hiff]
      cases r.step config.udpTimeout flow input s.shared <;> simp

/-! ### Parts that are not at their end -/

theorem Connection.awaits_some (c : Connection) (shutdown : Bool) : ∃ input, c.Awaits shutdown input := by
  obtain ⟨peer, program⟩ := c
  cases program with
  | done a => exact ⟨.go, trivial⟩
  | read n k => exact ⟨.readResult (.error ⟨.unexpectedEof, ""⟩), fun _ h => nomatch h⟩
  | write bytes k => exact ⟨.writeResult (.ok ()), trivial⟩
  | ask q k =>
    have hexternal : ∀ a : Answer q, q.external → Allowed peer shutdown q a →
        ∃ input, Connection.Awaits ⟨peer, .ask q k⟩ shutdown input := fun a hq ha => ⟨.answer q a, rfl, hq, ha⟩
    cases q with
    | setNodelay | remoteSetNodelay | forwardBidirectional | happyEyeballsConnect =>
      exact hexternal (.ok ()) trivial trivial
    | peerAddr => exact hexternal (.ok peer) trivial rfl
    | localAddr | udpLocalAddr | remoteLocalAddr => exact hexternal (.ok peer) trivial trivial
    | elapsed | cancelled => exact hexternal none trivial trivial
    | lookupIp => exact hexternal (.ok []) trivial trivial
    | holdControl => exact ⟨.control .eof, rfl, nofun⟩
    | newAssociation | insert | storeDead | cancelStopped | remove => exact ⟨.go, fun h => h, nofun⟩

theorem LoopPc.awaits_some (shutdown : Bool) {pc : LoopPc} (h : pc ≠ .ended) : ∃ input, pc.Awaits shutdown input := by
  cases pc with
  | waiting => exact ⟨.receiveError .other, trivial⟩
  | finding | dispatching => exact ⟨.go, trivial⟩
  | ended => exact absurd rfl h

theorem Receiver.awaits_some (r : Receiver) (flow : FlowId) (sh : Shared) : ∃ input, r.Awaits flow sh input := by
  obtain ⟨association, slot, target, destination, buffer, receivedReply, failed, pc⟩ := r
  cases pc with
  | selecting deadline => exact ⟨.receiveError, by cases deadline <;> trivial⟩
  | advancing =>
    obtain ⟨oldest, hadvance⟩ := sh.advanceUdpAddress_total association target flow
    exact ⟨.oldest oldest, Shared.advanceUdpAddress_iff.mp hadvance⟩
  | _ => exact ⟨.go, trivial⟩

/-! ### Deadlines -/

/-- The sum that a receiver takes next is that of its machine. -/
theorem receiver_deadline (h : System.Reaches (system config) .initial events s) {origin : ℤ} {clock : Instant}
    (hclock : clock.At origin s.shared.now) (hfits : receiverDeadline config.udpTimeout clock ≠ .panicked)
    {flow : FlowId} (hlt : flow < s.shared.nextFlow) {last : Instant}
    (hlast : last.At origin (s.shared.flows flow).lastActivity) :
    receiverDeadline config.udpTimeout last = .unlimited ∧ config.udpTimeout.secs = 0 ∨
      config.udpTimeout.secs ≠ 0 ∧ ∃ t, receiverDeadline config.udpTimeout last = .sleepUntil t ∧
        t.At origin ((s.shared.flows flow).lastActivity + config.udpTimeout.nanos) := by
  obtain ⟨as, has⟩ := h.observe (State.access? config)
  have hle := (noted_of_reaches has).2.clock flow hlt
  unfold receiverDeadline at hfits ⊢
  by_cases hzero : config.udpTimeout.secs = 0
  · exact .inl ⟨if_pos hzero, hzero⟩
  · rw [if_neg hzero] at hfits ⊢
    exact .inr ⟨hzero, deadlineOf_of_le hlast hclock hle hfits⟩

/-- The sum that a relay takes next is that of its machine. -/
theorem relay_deadline {idleTimeout : Duration} (htimeout : config.tcpTimeout = some idleTimeout) {now : ℕ}
    {client remote : Bytes} {es : List ForwardEvent} {f : Forward}
    (h : System.Reaches (forward idleTimeout) (.start idleTimeout now client remote) es f) {origin : ℤ} {clock : Instant}
    (hclock : clock.At origin f.now) (hfits : forwardDeadline config.tcpTimeout clock ≠ .panicked) {last : Instant}
    (hlast : last.At origin f.activity) :
    ∃ t, forwardDeadline config.tcpTimeout last = .sleepUntil t ∧ t.At origin (f.rearm idleTimeout).deadline := by
  rw [htimeout] at hfits ⊢
  exact deadlineOf_of_le hlast hclock (Forward.relays_of_reaches h).recorded hfits

/-- In every run, each part of the server takes exactly what it waits for, so that
no code panics, and reduces no index modulo zero. Every handler, receiver and task
that is there and a loop that has not ended wait for something, a task perhaps for
another one that fills the cell of its slot and waits for no cell. As long as the
timeouts leave room for it on the clock, the sums of the receivers and the relays
do not panic: they are those of the machines. -/
theorem never_stuck (config : Config) {text : Text} (hparse : Whitelist.parse text = .ok config.whitelist)
    {events : List Event} {s : State} (h : System.Reaches (system config) .initial events s) {origin : ℤ}
    {clock : Instant} (hclock : clock.At origin s.shared.now) (hdeadlines : DeadlinesRepresentable config clock) :
    (∀ input, s.Awaits input ↔ ∃ e s', s.step config input = some (e, s')) ∧
    (∀ id t n, s.tasks.lookup id = some t → t.pc.divisor? s.shared = some n → n ≠ 0) ∧
    (∀ id c, s.handlers.lookup id = some c → ∃ input, s.Awaits (.handler id input)) ∧
    (s.loop ≠ .ended → ∃ input, s.Awaits (.loop input)) ∧
    (∀ flow r, s.receivers.lookup flow = some r → ∃ input, s.Awaits (.receiver flow input)) ∧
    (∀ id t, s.tasks.lookup id = some t → ∃ id', (id' = id ∨ ∃ slot, t.pc = .awaitingCell slot ∧
      s.shared.slots slot = .initializing id') ∧ ∃ input, s.Awaits (.task id' input)) ∧
    (∀ flow r last, s.receivers.lookup flow = some r → last.At origin (s.shared.flows flow).lastActivity →
      receiverDeadline config.udpTimeout last = .unlimited ∧ config.udpTimeout.secs = 0 ∨
        config.udpTimeout.secs ≠ 0 ∧ ∃ t, receiverDeadline config.udpTimeout last = .sleepUntil t ∧
          t.At origin ((s.shared.flows flow).lastActivity + config.udpTimeout.nanos)) ∧
    ∀ idleTimeout now client remote es f last, config.tcpTimeout = some idleTimeout →
      System.Reaches (forward idleTimeout) (.start idleTimeout now client remote) es f → f.now = s.shared.now →
      last.At origin f.activity →
      ∃ t, forwardDeadline config.tcpTimeout last = .sleepUntil t ∧ t.At origin (f.rearm idleTimeout).deadline := by
  have hw : config.whitelist.WellFormed :=
    (Whitelist.addEntries_spec (by simp [Whitelist.WellFormed]) (Whitelist.parse_ok hparse).1).1
  obtain ⟨N, hN⟩ := attempting_of_reaches h 0
  obtain ⟨notes, hattempting⟩ := hN N (le_refl N)
  obtain ⟨owner, key, htabled, hkeyed, hcounted⟩ := counted_of_reaches hattempting
  have hiff := State.step_iff hw (fits_of_reaches h) fun id t ht => (hcounted.bounded id t ht).sized
  refine ⟨hiff, fun id t n hlookup hn => ?_, fun id c hlookup => ?_, fun hended => ?_, fun flow r hlookup => ?_,
    fun id t hlookup => ?_, fun flow r last hlookup hlast => ?_, ?_⟩
  · obtain ⟨N', hN'⟩ := attempting_of_reaches h id
    obtain ⟨notes', hattempting'⟩ := hN' N' (le_refl N')
    obtain ⟨owner', key', -, hkeyed', hcounted'⟩ := counted_of_reaches hattempting'
    exact divisor_ne_zero hkeyed' hcounted' hlookup hn
  · obtain ⟨input, hawaits⟩ := c.awaits_some s.shutdown
    exact ⟨input, c, hlookup, hawaits⟩
  · exact LoopPc.awaits_some s.shutdown hended
  · obtain ⟨input, hawaits⟩ := r.awaits_some flow s.shared
    exact ⟨input, r, hlookup, hawaits⟩
  · obtain ⟨id', hid, input, hstep⟩ := task_proceeds htabled hcounted.bounded hlookup
    exact ⟨id', hid, input, (hiff _).mpr hstep⟩
  · exact receiver_deadline h hclock hdeadlines.2 (hkeyed.receivers flow r hlookup).1 hlast
  · intro idleTimeout now client remote es f last htimeout hrelay hnow hlast
    exact relay_deadline htimeout hrelay (hnow ▸ hclock) hdeadlines.1 hlast

/-- A server without a whitelist while a client waits for a reply, on a machine that
has been up for a day. -/
theorem never_stuck_reply :
    ∃ events s, (system anonymous).run .initial replyInputs = some (events, s) ∧
      (∀ input, s.Awaits input ↔ ∃ e s', s.step anonymous input = some (e, s')) ∧
      ∃ origin, Instant.At origin s.shared.now ⟨86400, 0, by decide⟩ ∧
        ∀ last, last.At origin (s.shared.flows 0).lastActivity →
          ∃ t, receiverDeadline anonymous.udpTimeout last = .sleepUntil t := by
  obtain ⟨⟨events, s⟩, hrun, hstep⟩ := Option.bind_eq_some_iff.mp run_replyInputs
  obtain ⟨⟨e, s'⟩, hstep, -⟩ := Option.map_eq_some_iff.mp hstep
  obtain ⟨r, result, hlookup, -, -⟩ := State.receiver_step hstep
  have hparse : Whitelist.parse [] = .ok anonymous.whitelist := by decide
  have hclock : Instant.At ((⟨86400, 0, by decide⟩ : Instant).total - s.shared.now) s.shared.now ⟨86400, 0, by decide⟩ :=
    (sub_add_cancel _ _).symm
  have hdeadlines : DeadlinesRepresentable anonymous ⟨86400, 0, by decide⟩ :=
    (deadlinesRepresentable_iff _ _).mpr ⟨nofun, by decide⟩
  obtain ⟨hiff, -, -, -, -, -, hsums, -⟩ :=
    never_stuck anonymous hparse (System.reaches_of_run hrun) hclock hdeadlines
  refine ⟨events, s, hrun, hiff, _, hclock, fun last hlast => ?_⟩
  rcases hsums 0 r last hlookup hlast with ⟨-, hzero⟩ | ⟨-, t, ht, -⟩
  · cases hzero
  · exact ⟨t, ht⟩

end Brume.Server
