import Brume.Server.Discipline
import Brume.Server.Effects

/-!
# The lifetime of an association

The events of a handler determine its `Standing`, and the standing determines
what the registry holds for it, in any interleaving with other handlers, the UDP
loop, packet tasks and receivers.
-/

namespace Brume.Server
open Lib Session

/-! ### The events of one handler -/

def handlerEvents (id : ℕ) (events : List Event) : List HandlerEvent :=
  events.filterMap fun event =>
    match event with
    | .handler id' event => if id' = id then some event else none
    | _ => none

theorem mem_handlerEvents {id : ℕ} {events : List Event} {event : HandlerEvent} :
    event ∈ handlerEvents id events ↔ .handler id event ∈ events := by
  unfold handlerEvents
  rw [List.mem_filterMap]
  constructor
  · rintro ⟨e, he, heq⟩
    cases e with
    | handler id' e' =>
      dsimp only at heq
      split at heq
      · rename_i hid
        cases heq
        rwa [← hid]
      · cases heq
    | _ => cases heq
  · exact fun h => ⟨_, h, if_pos rfl⟩

theorem handlerEvents_append (id : ℕ) (events : List Event) (event : HandlerEvent) :
    handlerEvents id (events ++ [.handler id event]) = handlerEvents id events ++ [event] := by
  simp [handlerEvents, List.filterMap_append]

/-- The events of others do not show. -/
theorem handlerEvents_other {id : ℕ} (events : List Event) {e : Event} (h : ∀ event, e ≠ .handler id event) :
    handlerEvents id (events ++ [e]) = handlerEvents id events := by
  cases e with
  | handler id' event =>
    have hne : id' ≠ id := fun heq => h event (by rw [heq])
    simp [handlerEvents, List.filterMap_append, hne]
  | _ => simp [handlerEvents, List.filterMap_append]

namespace Standing

/-- Where a handler is behind an event of its own. -/
def after (peer : SocketAddr) : Standing → HandlerEvent → Option Standing
  | .fresh, .allocated clientIp _ => if clientIp = peer.ip then some .created else none
  | .created, .inserted accepted => some (if accepted then .inserted else .refused)
  | .inserted, .deadStored => some .dead
  | .dead, .stopCancelled => some .cancelled
  | .cancelled, .removed => some .removed
  | st, .silent | st, .returned => some st
  | _, _ => none

/-- Where a handler is behind all its events. -/
def afterAll (peer : SocketAddr) (events : List HandlerEvent) : Option Standing :=
  events.foldlM (after peer) .fresh

theorem afterAll_append {peer : SocketAddr} {events : List HandlerEvent} {event : HandlerEvent} {st : Standing} :
    afterAll peer (events ++ [event]) = some st ↔
      ∃ st₀, afterAll peer events = some st₀ ∧ st₀.after peer event = some st := by
  simp [afterAll, List.foldlM_append, Option.bind_eq_some_iff]

/-- What the events of a handler say about its standing. -/
theorem afterAll_mem {peer : SocketAddr} {events : List HandlerEvent} {st : Standing}
    (h : afterAll peer events = some st) :
    (.inserted true ∈ events ↔ st.HasInserted) ∧ (.inserted false ∈ events ↔ st = .refused) ∧
      (.deadStored ∈ events ↔ st.HasEnded) ∧ (.removed ∈ events ↔ st = .removed) := by
  induction events using List.reverseRecOn generalizing st with
  | nil =>
    cases h
    simp [HasInserted, HasEnded]
  | append_singleton events event ih =>
    obtain ⟨st₀, h₀, h₁⟩ := afterAll_append.mp h
    obtain ⟨hi, hr, hd, hm⟩ := ih h₀
    simp only [List.mem_append, List.mem_singleton, hi, hr, hd, hm]
    unfold after at h₁
    split at h₁
    case h_1 =>
      split at h₁ <;> cases h₁
      simp [HasInserted, HasEnded]
    case h_2 accepted =>
      cases h₁
      cases accepted <;> simp [HasInserted, HasEnded]
    case h_8 => cases h₁
    all_goals
      cases h₁
      simp [HasInserted, HasEnded]

end Standing

/-! ### One step of a handler -/

/-- What an event of handler `id` does to the world. -/
def HandlerEvent.apply (id : ℕ) (event : HandlerEvent) (w : World) : World :=
  match event with
  | .allocated clientIp requestedPort => w.alloc id (.new clientIp requestedPort)
  | .inserted _ => (w.insert id id).2
  | .deadStored => w.storeDead id
  | .stopCancelled => w.cancelStopped id
  | .removed => w.remove id
  | .silent | .returned => w

/-- A handler leaves the associations of the others alone. -/
theorem HandlerEvent.apply_other (event : HandlerEvent) {id other : ℕ} (w : World) (h : other ≠ id) :
    (event.apply id w).heap other = w.heap other ∧
      (event.apply id w).registry.entries.lookup other = w.registry.entries.lookup other := by
  have set : ∀ a, w.heap.set id a other = w.heap other := fun a => by rw [Heap.set_apply, if_neg h]
  cases event with
  | allocated clientIp requestedPort => exact ⟨set _, rfl⟩
  | inserted accepted => exact ⟨congrFun (World.insert_heap w id id) other, World.insert_entries h⟩
  | deadStored => exact ⟨set _, rfl⟩
  | stopCancelled => exact ⟨set _, rfl⟩
  | removed => exact ⟨congrFun (World.remove_heap w id) other, World.remove_entries h⟩
  | silent => exact ⟨rfl, rfl⟩
  | returned => exact ⟨rfl, rfl⟩

/-- The event that an answered query leaves. -/
def HandlerEvent.of : (q : Query) → Answer q → HandlerEvent
  | .newAssociation clientIp requestedPort, _ => .allocated clientIp requestedPort
  | .insert, accepted => .inserted accepted
  | .storeDead, _ => .deadStored
  | .cancelStopped, _ => .stopCancelled
  | .remove, _ => .removed
  | _, _ => .silent

theorem Standing.next_eq_after (peer : SocketAddr) (st : Standing) (q : Query) (a : Answer q) :
    st.next peer q a = st.after peer (.of q a) := by
  cases st <;> cases q <;> rfl

theorem Standing.after_silent (peer : SocketAddr) (st : Standing) : st.after peer .silent = some st := by
  cases st <;> rfl

theorem Standing.after_returned (peer : SocketAddr) (st : Standing) : st.after peer .returned = some st := by
  cases st <;> rfl

theorem Allowed.of_shutdown {peer : SocketAddr} {shutdown : Bool} {q : Query} {a : Answer q}
    (h : Allowed peer shutdown q a) : Allowed peer true q a := by
  unfold Allowed at h ⊢
  split
  · exact h
  · rfl
  · trivial

/-- What a step of a handler in standing `st` comes to. -/
structure Connection.Spec (id : ℕ) (peer : SocketAddr) (st : Standing) (w : World) (r : HandlerStep) : Prop where
  world : r.world = r.event.apply id w
  inserted : ∀ accepted, r.event = .inserted accepted → accepted = (w.insert id id).1
  after : ∃ st', st.after peer r.event = some st' ∧
    (r.event = .returned → r.program = none ∧ st'.Final) ∧
    ∀ p, r.program = some p → r.event ≠ .returned ∧ Obeys peer p st'

/-- A handler that obeys the order moves its standing along with its events, and
returns only where it may. -/
theorem Connection.step_spec {id : ℕ} {shutdown : Bool} {c : Connection} {input : HandlerInput} {w : World}
    {r : HandlerStep} {st : Standing} (h : c.step id shutdown input w = some r)
    (ho : Obeys c.peer c.program st) : Spec id c.peer st w r := by
  obtain ⟨peer, program⟩ := c
  -- a step that the events do not show
  have silent : ∀ p, Obeys peer p st → Spec id peer st w ⟨.silent, some p, w⟩ := by
    intro p hp
    refine ⟨rfl, (by simp), st, Standing.after_silent peer st, (by simp), fun _ h => ?_⟩
    cases h
    exact ⟨(by simp), hp⟩
  -- an answered query
  have answered : ∀ (q : Query) (a : Answer q) (k : Answer q → Handler Unit) (w' : World),
      Obeys peer (.ask q k) st → Allowed peer true q a → w' = (HandlerEvent.of q a).apply id w →
      (∀ accepted, HandlerEvent.of q a = .inserted accepted → accepted = (w.insert id id).1) →
      Spec id peer st w ⟨HandlerEvent.of q a, some (k a), w'⟩ := by
    intro q a k w' hask ha hw hins
    obtain ⟨st', hst, hk⟩ := hask a ha
    rw [Standing.next_eq_after] at hst
    have hne : HandlerEvent.of q a ≠ .returned := by cases q <;> simp [HandlerEvent.of]
    refine ⟨hw, hins, st', hst, fun h => absurd h hne, fun _ h => ?_⟩
    cases h
    exact ⟨hne, hk⟩
  unfold Connection.step at h
  dsimp only at h ho ⊢
  split at h
  case h_1 =>
    cases h
    exact ⟨rfl, (by simp), st, Standing.after_returned peer st, fun _ => ⟨rfl, ho⟩, (by simp)⟩
  case h_2 =>
    split at h
    · split at h <;> cases h
      exact silent _ (ho _)
    · cases h
      exact silent _ (ho _)
  case h_3 =>
    cases h
    exact silent _ (ho _)
  case h_4 =>
    cases h
    exact answered _ () _ _ ho trivial rfl (by simp [HandlerEvent.of])
  case h_5 =>
    cases h
    exact answered .insert _ _ _ ho trivial rfl fun accepted h => by cases h; rfl
  case h_6 =>
    cases h
    exact answered .storeDead () _ _ ho trivial rfl (by simp [HandlerEvent.of])
  case h_7 =>
    cases h
    exact answered .cancelStopped () _ _ ho trivial rfl (by simp [HandlerEvent.of])
  case h_8 =>
    cases h
    exact answered .remove () _ _ ho trivial rfl (by simp [HandlerEvent.of])
  case h_9 =>
    split at h
    · cases h
      exact silent _ ho
    · cases h
      exact answered .holdControl () _ _ ho trivial rfl (by simp [HandlerEvent.of])
    · cases h
      exact answered .holdControl () _ _ ho trivial rfl (by simp [HandlerEvent.of])
    · split at h <;> cases h
      exact answered .holdControl () _ _ ho trivial rfl (by simp [HandlerEvent.of])
  case h_10 q k q' a =>
    split at h
    · rename_i hq
      subst hq
      split at h
      · rename_i hext
        cases h
        obtain ⟨st', hst, hk⟩ := ho a hext.2.of_shutdown
        have hneutral : q'.neutral := by
          cases q' <;> first | trivial | exact hext.1.elim
        rw [Standing.next_neutral peer q' hneutral st a] at hst
        cases hst
        exact silent _ hk
      · cases h
    · cases h
  case h_11 => cases h

/-! ### Where a handler stands -/

/-- The events of handler `id` lead to the standing `st`, and the world agrees. -/
structure Stands (events : List Event) (w : World) (id : ℕ) (peer : SocketAddr) (st : Standing) : Prop where
  accepted : st ≠ .fresh → .accepted id peer ∈ events
  allocated : st ≠ .fresh → ∃ port, .handler id (.allocated peer.ip port) ∈ events ∧
    (w.heap id).clientIp = peer.ip ∧ (w.heap id).requestedPort = port
  afterAll : Standing.afterAll peer (handlerEvents id events) = some st
  registered : w.Registered id ↔ st.Holds
  unbound : st = .fresh ∨ st = .created → (w.heap id).endpoint = none
  dead : st.HasEnded → (w.heap id).alive = false
  stopped : st = .cancelled ∨ st = .removed → (w.heap id).stopped = true

namespace Stands
variable {events : List Event} {w w' : World} {id : ℕ} {peer : SocketAddr} {st st' : Standing}

/-- A step of another part of the server. -/
theorem other (h : Stands events w id peer st) {e : Event} (he : ∀ event, e ≠ .handler id event)
    (hk : w.Keeps w' id) : Stands (events ++ [e]) w' id peer st where
  accepted hst := List.mem_append_left _ (h.accepted hst)
  allocated hst := by
    obtain ⟨port, hmem, hip, hport⟩ := h.allocated hst
    exact ⟨port, List.mem_append_left _ hmem, hk.clientIp.trans hip, hk.requestedPort.trans hport⟩
  afterAll := by
    rw [handlerEvents_other events he]
    exact h.afterAll
  registered := hk.registered.trans h.registered
  unbound hst := by
    have hreg : ¬w.Registered id := by
      rw [h.registered]
      rcases hst with rfl | rfl <;> simp [Standing.Holds]
    exact (hk.unbound hreg).trans (h.unbound hst)
  dead hst := hk.dead (h.dead hst)
  stopped hst := hk.stopped (h.stopped hst)

/-- A step of the handler itself that allocates nothing. -/
theorem move (h : Stands events w id peer st) {event : HandlerEvent} (hst : st.after peer event = some st')
    (hfresh : st' ≠ .fresh → st ≠ .fresh)
    (hfields : (w'.heap id).clientIp = (w.heap id).clientIp ∧
      (w'.heap id).requestedPort = (w.heap id).requestedPort)
    (hreg : w'.Registered id ↔ st'.Holds)
    (hunbound : st' = .fresh ∨ st' = .created → (w'.heap id).endpoint = none)
    (hdead : st'.HasEnded → (w'.heap id).alive = false)
    (hstopped : st' = .cancelled ∨ st' = .removed → (w'.heap id).stopped = true) :
    Stands (events ++ [.handler id event]) w' id peer st' where
  accepted hne := List.mem_append_left _ (h.accepted (hfresh hne))
  allocated hne := by
    obtain ⟨port, hmem, hip, hport⟩ := h.allocated (hfresh hne)
    exact ⟨port, List.mem_append_left _ hmem, hfields.1.trans hip, hfields.2.trans hport⟩
  afterAll := by
    rw [handlerEvents_append]
    exact Standing.afterAll_append.mpr ⟨st, h.afterAll, hst⟩
  registered := hreg
  unbound := hunbound
  dead := hdead
  stopped := hstopped

theorem not_registered (h : Stands events w id peer st) (hst : ¬st.Holds) : ¬w.Registered id :=
  fun hreg => hst (h.registered.mp hreg)

theorem alloc (h : Stands events w id peer .fresh) (hacc : .accepted id peer ∈ events) (port : UInt16) :
    Stands (events ++ [.handler id (.allocated peer.ip port)]) (w.alloc id (.new peer.ip port)) id peer
      .created := by
  have hnot := h.not_registered (by simp [Standing.Holds])
  refine ⟨fun _ => List.mem_append_left _ hacc, fun _ => ⟨port, by simp, ?_⟩, ?_,
    iff_of_false hnot (by simp [Standing.Holds]), fun _ => ?_, nofun, nofun⟩
  · simp [World.alloc, Association.new]
  · rw [handlerEvents_append]
    exact Standing.afterAll_append.mpr ⟨.fresh, h.afterAll, if_pos rfl⟩
  · simp [World.alloc, Association.new]

theorem insert (h : Stands events w id peer .created) :
    Stands (events ++ [.handler id (.inserted (w.insert id id).1)]) (w.insert id id).2 id peer
      (if (w.insert id id).1 then .inserted else .refused) := by
  have hnot := h.not_registered (by simp [Standing.Holds])
  rcases World.WellFormed.insert_cases (h.unbound (.inr rfl)) with hi | ⟨-, -, hi⟩ | ⟨k, -, -, hi⟩ <;> rw [hi]
  · exact h.move rfl (by simp) ⟨rfl, rfl⟩ (iff_of_false hnot (by simp [Standing.Holds])) (by simp)
      (by simp [Standing.HasEnded]) (by simp)
  · refine h.move rfl (by simp) ⟨rfl, rfl⟩ (iff_of_true ?_ (.inl rfl)) (by simp)
      (by simp [Standing.HasEnded]) (by simp)
    rw [World.Registered, Dict.lookup_insert_eq, if_pos rfl]
  · refine h.move rfl (by simp) ⟨rfl, rfl⟩ (iff_of_true ?_ (.inl rfl)) (by simp)
      (by simp [Standing.HasEnded]) (by simp)
    rw [World.Registered, Dict.lookup_insert_eq, if_pos rfl]

theorem storeDead (h : Stands events w id peer .inserted) :
    Stands (events ++ [.handler id .deadStored]) (w.storeDead id) id peer .dead := by
  have hreg := h.registered.mpr (.inl rfl)
  refine h.move rfl nofun ?_ (iff_of_true hreg (.inr (.inl rfl))) nofun ?_ nofun <;> simp [World.storeDead]

theorem cancelStopped (h : Stands events w id peer .dead) :
    Stands (events ++ [.handler id .stopCancelled]) (w.cancelStopped id) id peer .cancelled := by
  have hreg := h.registered.mpr (.inr (.inl rfl))
  have hdead := h.dead (.inl rfl)
  refine h.move rfl nofun ?_ (iff_of_true hreg (.inr (.inr rfl))) nofun ?_ ?_ <;> simp [World.cancelStopped, hdead]

theorem remove (h : Stands events w id peer .cancelled) (hw : w.WellFormed) :
    Stands (events ++ [.handler id .removed]) (w.remove id) id peer .removed := by
  have hheap := w.remove_heap id
  have hnot : ¬(w.remove id).Registered id := by
    rcases hw.remove_cases id with ⟨hn, hr⟩ | ⟨-, k, -, -, hr⟩ | ⟨-, -, -, hr⟩ <;> rw [hr]
    · exact hn
    · simp [World.Registered]
    · simp [World.Registered]
  refine h.move rfl (by simp) (by rw [hheap]; exact ⟨rfl, rfl⟩) (iff_of_false hnot (by simp [Standing.Holds]))
    (by simp) (fun _ => ?_) fun _ => ?_
  · rw [hheap]
    exact h.dead (.inr (.inl rfl))
  · rw [hheap]
    exact h.stopped (.inl rfl)

/-- A step of the handler itself. -/
theorem own (h : Stands events w id peer st) (hw : w.WellFormed) (hacc : .accepted id peer ∈ events)
    {event : HandlerEvent} (hins : ∀ accepted, event = .inserted accepted → accepted = (w.insert id id).1)
    (hst : st.after peer event = some st') :
    Stands (events ++ [.handler id event]) (event.apply id w) id peer st' ∧ (event.apply id w).WellFormed := by
  have same : event.apply id w = w → st' = st →
      Stands (events ++ [.handler id event]) (event.apply id w) id peer st' ∧ (event.apply id w).WellFormed := by
    rintro hw' rfl
    rw [hw']
    exact ⟨h.move hst (fun h => h) ⟨rfl, rfl⟩ h.registered h.unbound h.dead h.stopped, hw⟩
  unfold Standing.after at hst
  split at hst
  case h_1 clientIp port =>
    split at hst <;> cases hst
    rename_i hip
    subst hip
    have hnot := h.not_registered (by simp [Standing.Holds])
    exact ⟨h.alloc hacc port, hw.alloc hnot (Association.endpointOk_new _ _)⟩
  case h_2 accepted =>
    cases hst
    obtain rfl := hins accepted rfl
    have hentry := (hw.lookup_entries rfl).resolve_right (h.not_registered (by simp [Standing.Holds]))
    exact ⟨h.insert, hw.insert hentry (h.unbound (.inr rfl))⟩
  case h_3 =>
    cases hst
    exact ⟨h.storeDead, hw.storeDead id⟩
  case h_4 =>
    cases hst
    exact ⟨h.cancelStopped, hw.cancelStopped id⟩
  case h_5 =>
    cases hst
    exact ⟨h.remove hw, hw.remove id⟩
  case h_6 => exact same rfl (Option.some.inj hst).symm
  case h_7 => exact same rfl (Option.some.inj hst).symm
  case h_8 => cases hst

end Stands

/-! ### Every run -/

/-- What holds of the registry and the handlers after the events of a run. -/
structure Controlled (events : List Event) (s : State) : Prop where
  wellFormed : s.shared.world.WellFormed
  stands : ∀ id, ∃ peer st, Stands events s.shared.world id peer st ∧
    (.handler id .returned ∈ events → s.handlers.lookup id = none ∧ st.Final) ∧
    ∀ c, s.handlers.lookup id = some c →
      c.peer = peer ∧ Event.accepted id peer ∈ events ∧ Obeys peer c.program st
  unborn : ∀ id, s.nextId ≤ id → s.handlers.lookup id = none ∧ handlerEvents id events = []

namespace Controlled
variable {events : List Event} {s s' : State} {config : Config}

theorem initial : Controlled [] .initial where
  wellFormed := World.wellFormed_initial
  stands id := by
    refine ⟨.v4 ⟨Vector.replicate 4 0⟩ 0, .fresh, ⟨nofun, nofun, rfl, ?_, ?_, nofun, nofun⟩, nofun, ?_⟩
    · exact iff_of_false nofun nofun
    · exact fun _ => rfl
    · exact nofun
  unborn id _ := ⟨rfl, rfl⟩

/-- A step that is not one of a handler, and starts none. -/
theorem other (h : Controlled events s) {e : Event} (he : ∀ id event, e ≠ .handler id event)
    (hhandlers : s'.handlers = s.handlers) (hid : s'.nextId = s.nextId)
    (hw : s'.shared.world.WellFormed) (hk : ∀ id, s.shared.world.Keeps s'.shared.world id) :
    Controlled (events ++ [e]) s' where
  wellFormed := hw
  stands id := by
    obtain ⟨peer, st, hst, hret, hrun⟩ := h.stands id
    refine ⟨peer, st, hst.other (he id) (hk id), fun hmem => ?_, fun c hc => ?_⟩
    · rw [hhandlers]
      rcases List.mem_append.mp hmem with hmem | hmem
      · exact hret hmem
      · exact absurd (List.mem_singleton.mp hmem).symm (he id _)
    · rw [hhandlers] at hc
      obtain ⟨hpeer, hacc, ho⟩ := hrun c hc
      exact ⟨hpeer, List.mem_append_left _ hacc, ho⟩
  unborn id hle := by
    obtain ⟨hnone, hev⟩ := h.unborn id (hid ▸ hle)
    rw [hhandlers, handlerEvents_other events (he id)]
    exact ⟨hnone, hev⟩

theorem accept (h : Controlled events s) (peer : SocketAddr) :
    Controlled (events ++ [.accepted s.nextId peer]) { s with
      nextId := s.nextId + 1
      handlers := s.handlers.insert s.nextId ⟨peer, handleClient config⟩ } where
  wellFormed := h.wellFormed
  stands id := by
    obtain ⟨peer₀, st, hst, hret, hrun⟩ := h.stands id
    have hother : ∀ event, Event.accepted s.nextId peer ≠ .handler id event := nofun
    have hst' := hst.other hother (.refl _ id)
    by_cases hid : id = s.nextId
    · subst hid
      obtain ⟨-, hev⟩ := h.unborn s.nextId (le_refl _)
      have hevents := hst.afterAll
      rw [hev] at hevents
      cases hevents
      have hret' : .handler s.nextId .returned ∉ events ++ [.accepted s.nextId peer] := by
        rw [← mem_handlerEvents, handlerEvents_other events hother, hev]
        exact List.not_mem_nil
      refine ⟨peer, .fresh, { hst' with accepted := nofun, allocated := nofun, afterAll := ?_ },
        fun hmem => absurd hmem hret', fun c hc => ?_⟩
      · rw [handlerEvents_other events hother, hev]
        rfl
      · rw [Dict.lookup_insert_eq, if_pos rfl] at hc
        cases hc
        exact ⟨rfl, by simp, handleClient_obeys config⟩
    · refine ⟨peer₀, st, hst', fun hmem => ?_, fun c hc => ?_⟩
      · rw [Dict.lookup_insert_eq, if_neg hid]
        exact hret (by simpa using hmem)
      · rw [Dict.lookup_insert_eq, if_neg hid] at hc
        obtain ⟨hpeer, hacc, ho⟩ := hrun c hc
        exact ⟨hpeer, List.mem_append_left _ hacc, ho⟩
  unborn id hle := by
    obtain ⟨hnone, hev⟩ := h.unborn id (Nat.le_of_succ_le hle)
    have hother : ∀ event, Event.accepted s.nextId peer ≠ .handler id event := nofun
    rw [Dict.lookup_insert_eq, if_neg (Nat.ne_of_gt hle), handlerEvents_other events hother]
    exact ⟨hnone, hev⟩

theorem handler (h : Controlled events s) {id : ℕ} {c : Connection} {input : HandlerInput} {r : HandlerStep}
    (hc : s.handlers.lookup id = some c) (hr : c.step id s.shutdown input s.shared.world = some r) :
    Controlled (events ++ [.handler id r.event]) { s.setWorld r.world with
      handlers := Dict.update s.handlers id (r.program.map (⟨c.peer, ·⟩)) } := by
  obtain ⟨peer, st, hst, hret, hrun⟩ := h.stands id
  obtain ⟨hpeer, hacc, ho⟩ := hrun c hc
  subst hpeer
  obtain ⟨hworld, hins, st', hafter, hreturned, hprogram⟩ := Connection.step_spec hr ho
  obtain ⟨hst', hw'⟩ := hst.own h.wellFormed hacc hins hafter
  refine ⟨by simpa only [State.setWorld, hworld] using hw', fun other => ?_, fun other hle => ?_⟩
  · by_cases hne : other = id
    · subst hne
      refine ⟨c.peer, st', by simpa only [State.setWorld, hworld] using hst', fun hmem => ?_, fun c' hc' => ?_⟩
      · rw [Dict.lookup_update_eq, if_pos rfl]
        rcases List.mem_append.mp hmem with hmem | hmem
        · rw [(hret hmem).1] at hc
          cases hc
        · have hevent : r.event = .returned := by simpa [eq_comm] using hmem
          obtain ⟨hnone, hfinal⟩ := hreturned hevent
          exact ⟨by rw [hnone]; rfl, hfinal⟩
      · rw [Dict.lookup_update_eq, if_pos rfl] at hc'
        obtain ⟨p, hp, rfl⟩ := Option.map_eq_some_iff.mp hc'
        exact ⟨rfl, List.mem_append_left _ hacc, (hprogram p hp).2⟩
    · obtain ⟨peer', st'', hother, hret', hrun'⟩ := h.stands other
      obtain ⟨hheap, hentry⟩ := r.event.apply_other s.shared.world hne
      have hkeeps : s.shared.world.Keeps r.world other := by
        rw [hworld]
        exact .of_same hentry (hheap ▸ .refl _)
      refine ⟨peer', st'', hother.other (fun event heq => hne (by cases heq; rfl)) hkeeps, fun hmem => ?_,
        fun c' hc' => ?_⟩
      · rw [Dict.lookup_update_eq, if_neg hne]
        refine hret' ((List.mem_append.mp hmem).resolve_right fun hmem => hne ?_)
        exact (Event.handler.inj (List.mem_singleton.mp hmem)).1
      · rw [Dict.lookup_update_eq, if_neg hne] at hc'
        obtain ⟨hpeer', hacc', ho'⟩ := hrun' c' hc'
        exact ⟨hpeer', List.mem_append_left _ hacc', ho'⟩
  · obtain ⟨hnone, hev⟩ := h.unborn other hle
    have hne : other ≠ id := by
      rintro rfl
      rw [hnone] at hc
      cases hc
    rw [Dict.lookup_update_eq, if_neg hne, handlerEvents_other events fun event heq => hne (by cases heq; rfl)]
    exact ⟨hnone, hev⟩

/-- What one step of the server preserves. -/
theorem step (h : Controlled events s) {input : Input} {e : Event}
    (hs : s.step config input = some (e, s')) : Controlled (events ++ [e]) s' := by
  have hkeep : ∀ id, s.shared.world.Keeps s.shared.world id := fun id => .refl _ id
  cases input with
  | cancel =>
    cases hs
    exact h.other (by simp) rfl rfl h.wellFormed hkeep
  | tick nanos =>
    cases hs
    exact h.other (by simp) rfl rfl h.wellFormed hkeep
  | accept peer =>
    simp only [State.step] at hs
    split at hs
    · cases hs
    · split at hs
      · cases hs
      · cases hs
        exact h.other (by simp) rfl rfl h.wellFormed hkeep
      · split at hs <;> cases hs
        · exact h.other (by simp) rfl rfl h.wellFormed hkeep
        · exact h.accept peer
  | leaveAccept =>
    simp only [State.step] at hs
    split at hs <;> cases hs
    exact h.other (by simp) rfl rfl h.wellFormed hkeep
  | stopAssociations =>
    simp only [State.step] at hs
    split at hs <;> cases hs
    exact h.other (by simp) rfl rfl h.wellFormed.stopEntries fun id => World.keeps_stopEntries _ id
  | join =>
    simp only [State.step] at hs
    split at hs <;> cases hs
    exact h.other (by simp) rfl rfl h.wellFormed hkeep
  | handler id input =>
    obtain ⟨c, r, hc, hr, rfl, rfl⟩ := State.step_handler hs
    exact h.handler hc hr
  | loop input =>
    obtain ⟨r, hspec, rfl, rfl⟩ := State.step_loop hs
    rcases hspec.world with hworld | ⟨source, bytes, target, payload, association, hevent⟩
    · exact h.other (by simp) rfl rfl (hworld.symm ▸ h.wellFormed) fun id => hworld.symm ▸ hkeep id
    · have hfind := (hspec.found _ _ _ _ _ hevent).2
      have hworld : r.world = (s.shared.world.find source).2 := by rw [hfind]
      refine h.other (by simp) rfl rfl ?_ fun id => ?_
      · exact hworld.symm ▸ h.wellFormed.find source
      · exact hworld.symm ▸ World.keeps_find h.wellFormed source id
  | task id input =>
    obtain ⟨t, r, -, hspec, rfl, rfl⟩ := State.step_task hs
    exact h.other (by simp) rfl rfl (hspec.framed.wellFormed h.wellFormed) hspec.framed.keeps
  | receiver flow input =>
    obtain ⟨r, result, -, hspec, rfl, rfl⟩ := State.step_receiver hs
    exact h.other (by simp) rfl rfl (hspec.framed.wellFormed h.wellFormed) hspec.framed.keeps

end Controlled

theorem controlled_of_reaches {config : Config} {events : List Event} {s : State}
    (h : System.Reaches (system config) .initial events s) : Controlled events s :=
  h.invariant Controlled .initial fun _ _ _ _ _ hc hs => hc.step hs

namespace Controlled
variable {events : List Event} {s s' : State} {config : Config}

theorem mem_entries (h : Controlled events s) (id : ℕ) :
    id ∈ s.shared.world.registry.entries ↔
      .handler id (.inserted true) ∈ events ∧ .handler id .removed ∉ events := by
  obtain ⟨peer, st, hst, -, -⟩ := h.stands id
  obtain ⟨hinserted, -, -, hremoved⟩ := Standing.afterAll_mem hst.afterAll
  rw [mem_handlerEvents] at hinserted hremoved
  have hmem : id ∈ s.shared.world.registry.entries ↔ s.shared.world.Registered id := by
    rw [Dict.mem_iff]
    exact ⟨fun ⟨arc, harc⟩ => by rw [World.Registered, harc, h.wellFormed.arc id arc harc], fun hreg => ⟨id, hreg⟩⟩
  rw [hmem, hst.registered, hinserted, hremoved]
  cases st <;> simp [Standing.Holds, Standing.HasInserted]

/-- An association that is registered and alive is between insert and `alive = false`. -/
theorem alive (h : Controlled events s) {id : ℕ} (hreg : s.shared.world.Registered id)
    (halive : (s.shared.world.heap id).alive = true) :
    .handler id (.inserted true) ∈ events ∧ .handler id .deadStored ∉ events := by
  obtain ⟨peer, st, hst, -, -⟩ := h.stands id
  obtain ⟨hinserted, -, hdead, -⟩ := Standing.afterAll_mem hst.afterAll
  rw [mem_handlerEvents] at hinserted hdead
  rw [hinserted, hdead]
  have hholds := hst.registered.mp hreg
  refine ⟨?_, fun hended => ?_⟩
  · rcases hholds with h | h | h <;> simp [h, Standing.HasInserted]
  · rw [hst.dead hended] at halive
    cases halive

/-- A lookup finds live registered associations only. -/
theorem found (h : Controlled events s) {input : Input} {source : SocketAddr} {bytes payload : Bytes}
    {target : Target} {id : ℕ}
    (hs : s.step config input = some (.loop (.found source bytes target payload (some id)), s')) :
    s.shared.world.Registered id ∧ (s.shared.world.heap id).alive = true := by
  have hfind : (s.shared.world.find source).1 = some id := by
    have hleaves := State.step_leaves hs
    cases input with
    | loop input =>
      obtain ⟨r, hspec, hevent, -⟩ := State.step_loop hs
      rw [(hspec.found _ _ _ _ _ (Event.loop.inj hevent).symm).2]
    | _ => exact hleaves.elim
  rcases h.wellFormed.find_cases source with ⟨x, hx, ha, -, hf⟩ | ⟨x, hx, ha, -, -, -, hf⟩ | ⟨-, -, hf⟩
    <;> rw [hf] at hfind <;> cases hfind
  · exact ⟨hx, ha⟩
  · exact ⟨hx, ha⟩

/-- What a step of a handler leaves alone. -/
theorem handler_step (h : Controlled events s) {input : HandlerInput} {event : HandlerEvent} {id : ℕ}
    (hs : s.step config (.handler id input) = some (.handler id event, s')) :
    (∀ other, other ≠ id → s'.shared.world.heap other = s.shared.world.heap other ∧
      s'.shared.world.registry.entries.lookup other = s.shared.world.registry.entries.lookup other) ∧
    (event = .inserted false ∨ .handler id (.inserted false) ∈ events →
      s'.shared.world = s.shared.world) := by
  obtain ⟨c, r, hc, hr, he, rfl⟩ := State.step_handler hs
  cases he
  obtain ⟨peer, st, hst, -, hrun⟩ := h.stands id
  obtain ⟨rfl, -, ho⟩ := hrun c hc
  obtain ⟨hworld, hins, st', hafter, -, -⟩ := Connection.step_spec hr ho
  simp only [State.setWorld, hworld]
  refine ⟨fun other hne => r.event.apply_other _ hne, fun hrefused => ?_⟩
  rcases hrefused with hevent | hmem
  · rw [hevent]
    exact World.insert_refused (hins false hevent).symm
  · rw [← mem_handlerEvents, (Standing.afterAll_mem hst.afterAll).2.1] at hmem
    subst hmem
    cases hevent : r.event <;> rw [hevent] at hafter <;> first | rfl | cases hafter

/-- Nothing is left of an association whose handler has returned. -/
theorem returned (h : Controlled events s) {id : ℕ} (hret : .handler id .returned ∈ events) :
    ¬s.shared.world.Registered id ∧ (.handler id (.inserted true) ∈ events →
      (s.shared.world.heap id).alive = false ∧ (s.shared.world.heap id).stopped = true) := by
  obtain ⟨peer, st, hst, hfinal, -⟩ := h.stands id
  obtain ⟨-, hfinal⟩ := hfinal hret
  refine ⟨hst.not_registered fun hholds => ?_, fun hmem => ?_⟩
  · rcases hfinal with rfl | rfl | rfl <;> simp [Standing.Holds] at hholds
  · rw [← mem_handlerEvents, (Standing.afterAll_mem hst.afterAll).1] at hmem
    have hremoved : st = .removed := by
      rcases hfinal with rfl | rfl | rfl <;> simp [Standing.HasInserted] at hmem ⊢
    exact ⟨hst.dead (.inr (.inr hremoved)), hst.stopped (.inr hremoved)⟩

end Controlled

/-- The index entries of an association are a matter of its own state. -/
theorem World.WellFormed.index_other {w w' : World} (hw : w.WellFormed) (hw' : w'.WellFormed) {id : ℕ}
    (hheap : w'.heap id = w.heap id)
    (hentry : w'.registry.entries.lookup id = w.registry.entries.lookup id) :
    (∀ k, w'.registry.endpoints.lookup k = some id ↔ w.registry.endpoints.lookup k = some id) ∧
      ∀ ip, w'.registry.pending.lookup ip = some id ↔ w.registry.pending.lookup ip = some id := by
  have hreg : w'.Registered id ↔ w.Registered id := by rw [Registered, hentry, Registered]
  refine ⟨fun k => ?_, fun ip => ?_⟩
  · rw [hw.endpoints, hw'.endpoints, hreg, hheap]
  · rw [hw.pending, hw'.pending, hreg, hheap]

/-- Without an entry there is no index entry. -/
theorem World.WellFormed.not_indexed {w : World} (hw : w.WellFormed) {id : ℕ} (h : ¬w.Registered id) :
    (∀ k, w.registry.endpoints.lookup k ≠ some id) ∧ ∀ ip, w.registry.pending.lookup ip ≠ some id :=
  ⟨fun k hk => h ((hw.endpoints k id).mp hk).1, fun ip hip => h ((hw.pending ip id).mp hip).1⟩

theorem World.WellFormed.eq_default {w : World} (hw : w.WellFormed) (h : ∀ id, ¬w.Registered id) :
    w.registry = .default := by
  have hentries : w.registry.entries = ∅ := Dict.eq_empty fun id => (hw.lookup_entries rfl).resolve_right (h id)
  have hendpoints : w.registry.endpoints = ∅ := Dict.eq_empty fun k =>
    Option.eq_none_iff_forall_ne_some.mpr fun id hid => h id ((hw.endpoints k id).mp hid).1
  have hpending : w.registry.pending = ∅ := Dict.eq_empty fun ip =>
    Option.eq_none_iff_forall_ne_some.mpr fun id hid => h id ((hw.pending ip id).mp hid).1
  calc w.registry = ⟨w.registry.entries, w.registry.endpoints, w.registry.pending⟩ := rfl
    _ = .default := by rw [hentries, hendpoints, hpending, AssociationRegistry.default]

/-- UDP is accepted only while the control connection is held, whatever exit the
handlers take and however they interleave with the lookups. -/
theorem association_lifetime (config : Config) {events : List Event} {s : State}
    (h : System.Reaches (system config) .initial events s) :
    (∀ id, id ∈ s.shared.world.registry.entries ↔
      .handler id (.inserted true) ∈ events ∧ .handler id .removed ∉ events) ∧
    (∀ id input event s', s.step config (.handler id input) = some (.handler id event, s') →
      (∀ other, other ≠ id → s'.shared.world.heap other = s.shared.world.heap other ∧
        s'.shared.world.registry.entries.lookup other = s.shared.world.registry.entries.lookup other ∧
        (∀ k, s'.shared.world.registry.endpoints.lookup k = some other ↔
          s.shared.world.registry.endpoints.lookup k = some other) ∧
        ∀ ip, s'.shared.world.registry.pending.lookup ip = some other ↔
          s.shared.world.registry.pending.lookup ip = some other) ∧
      (event = .inserted false ∨ .handler id (.inserted false) ∈ events →
        s'.shared.world = s.shared.world)) ∧
    (∀ before after source bytes target payload id,
      events = before ++ .loop (.found source bytes target payload (some id)) :: after →
      .handler id (.inserted true) ∈ before ∧ .handler id .deadStored ∉ before) ∧
    (∀ id, .handler id (.inserted true) ∈ events → .handler id .returned ∈ events →
      (s.shared.world.heap id).alive = false ∧ (s.shared.world.heap id).stopped = true ∧
        id ∉ s.shared.world.registry.entries ∧
        (∀ k, s.shared.world.registry.endpoints.lookup k ≠ some id) ∧
        ∀ ip, s.shared.world.registry.pending.lookup ip ≠ some id) ∧
    ((∀ id peer, .accepted id peer ∈ events → .handler id .returned ∈ events) →
      s.shared.world.registry = .default) := by
  have hc := controlled_of_reaches h
  refine ⟨hc.mem_entries, fun id input event s' hs => ?_, ?_, fun id hins hret => ?_, fun hall => ?_⟩
  · obtain ⟨hother, hrefused⟩ := hc.handler_step hs
    have hw' := (hc.step hs).wellFormed
    refine ⟨fun other hne => ?_, hrefused⟩
    obtain ⟨hheap, hentry⟩ := hother other hne
    exact ⟨hheap, hentry, hc.wellFormed.index_other hw' hheap hentry⟩
  · rintro before after source bytes target payload id rfl
    obtain ⟨t, i, t', hbefore, hi, -⟩ := h.split
    have hc₀ := controlled_of_reaches hbefore
    obtain ⟨hreg, halive⟩ := hc₀.found hi
    exact hc₀.alive hreg halive
  · obtain ⟨hnot, hcell⟩ := hc.returned hret
    obtain ⟨hdead, hstopped⟩ := hcell hins
    refine ⟨hdead, hstopped, fun hmem => ?_, hc.wellFormed.not_indexed hnot⟩
    obtain ⟨arc, harc⟩ := Dict.mem_iff.mp hmem
    exact hnot (by rw [World.Registered, harc, hc.wellFormed.arc id arc harc])
  · refine hc.wellFormed.eq_default fun id hreg => ?_
    obtain ⟨peer, st, hst, -, -⟩ := hc.stands id
    by_cases hfresh : st = .fresh
    · rw [hfresh] at hst
      exact hst.not_registered (by simp [Standing.Holds]) hreg
    · exact (hc.returned (hall id peer (hst.accepted hfresh))).1 hreg

/-- The token of an association is cancelled once its flag is down. -/
def World.Orderly (w : World) : Prop := ∀ arc, (w.heap arc).stopped = true → (w.heap arc).alive = false

theorem Controlled.orderly_step {config : Config} {events : List Event} {s s' : State} {e : Event}
    (hc : Controlled events s) (h : s.shared.world.Orderly) {input : Input}
    (hs : s.step config input = some (e, s')) : s'.shared.world.Orderly := by
  have same : (∀ arc, (s'.shared.world.heap arc).stopped = (s.shared.world.heap arc).stopped ∧
      (s'.shared.world.heap arc).alive = (s.shared.world.heap arc).alive) → s'.shared.world.Orderly := by
    intro heq arc hstopped
    rw [(heq arc).2]
    exact h arc ((heq arc).1 ▸ hstopped)
  cases input with
  | cancel | tick =>
    cases hs
    exact h
  | accept peer =>
    simp only [State.step] at hs
    split at hs
    · cases hs
    · split at hs
      · cases hs
      · cases hs
        exact h
      · split at hs <;> cases hs <;> exact h
  | leaveAccept | join =>
    simp only [State.step] at hs
    split at hs <;> cases hs
    exact h
  | stopAssociations =>
    simp only [State.step] at hs
    split at hs <;> cases hs
    intro arc
    change ((State.stopEntries s.shared.world).heap arc).stopped = true →
      ((State.stopEntries s.shared.world).heap arc).alive = false
    rcases World.stopEntries_heap s.shared.world arc with heq | heq <;> rw [heq]
    · exact h arc
    · exact fun _ => rfl
  | handler id input =>
    obtain ⟨c, r, hlookup, hr, rfl, rfl⟩ := State.step_handler hs
    obtain ⟨peer, st, hst, -, hrun⟩ := hc.stands id
    obtain ⟨rfl, -, ho⟩ := hrun c hlookup
    obtain ⟨hworld, -, st', hafter, -, -⟩ := Connection.step_spec hr ho
    change r.world.Orderly
    intro arc
    rw [hworld]
    by_cases harc : arc = id
    · rw [harc]
      cases hevent : r.event with
      | stopCancelled =>
        -- the flag is down when the token is cancelled
        rw [hevent] at hafter
        have hdead : st = .dead := by cases st <;> first | rfl | cases hafter
        have halive := hst.dead (.inl hdead)
        simp [HandlerEvent.apply, World.cancelStopped, halive]
      | allocated => simp [HandlerEvent.apply, World.alloc, Association.new]
      | deadStored => simp [HandlerEvent.apply, World.storeDead]
      | inserted accepted =>
        rw [HandlerEvent.apply, World.insert_heap]
        exact h id
      | removed =>
        rw [HandlerEvent.apply, World.remove_heap]
        exact h id
      | silent | returned => exact h id
    · rw [(r.event.apply_other s.shared.world harc).1]
      exact h arc
  | loop input =>
    obtain ⟨r, hspec, -, rfl⟩ := State.step_loop hs
    change r.world.Orderly
    rcases hspec.world with hworld | ⟨source, bytes, target, payload, association, hevent⟩
    · rw [hworld]
      exact h
    · have hfind := (hspec.found _ _ _ _ _ hevent).2
      have hworld : r.world = (s.shared.world.find source).2 := by rw [hfind]
      rw [hworld]
      intro arc
      rcases hc.wellFormed.find_cases source with ⟨x, -, -, -, heq⟩ | ⟨x, -, -, -, -, -, heq⟩ | ⟨-, -, heq⟩ <;> rw [heq]
      · by_cases hx : arc = x <;> simp only [Heap.set_apply, hx, if_true, if_false] <;> exact h _
      · by_cases hx : arc = x <;> simp only [Heap.set_apply, hx, if_true, if_false] <;> exact h _
      · exact h arc
  | task id input =>
    obtain ⟨t, r, -, hspec, -, rfl⟩ := State.step_task hs
    refine same fun arc => ?_
    obtain ⟨-, -, -, halive, hstopped⟩ := hspec.framed.heap arc
    exact ⟨hstopped, halive⟩
  | receiver flow input =>
    obtain ⟨r, result, -, hspec, -, rfl⟩ := State.step_receiver hs
    refine same fun arc => ?_
    obtain ⟨-, -, -, halive, hstopped⟩ := hspec.framed.heap arc
    exact ⟨hstopped, halive⟩

theorem orderly_of_reaches {config : Config} {events : List Event} {s : State}
    (h : System.Reaches (system config) .initial events s) : s.shared.world.Orderly := by
  induction h with
  | start => exact fun _ => nofun
  | step hr hi ih => exact (controlled_of_reaches hr).orderly_step ih hi

/-! ### A run with one association -/

def anonymous : Config := ⟨1080, "", "", ⟨[], []⟩, none, ⟨60⟩, []⟩

def clientControl : SocketAddr := .v4 ⟨#v[192, 0, 2, 1]⟩ 40000

def clientRelay : SocketAddr := .v4 ⟨#v[192, 0, 2, 1]⟩ 5353

def relayAddress : SocketAddr := .v4 ⟨#v[192, 0, 2, 9]⟩ 1080

/-- A handler from its start to an accepted UDP ASSOCIATE with port 0. -/
def associateInputs : List HandlerInput :=
  [.answer .setNodelay (.ok ()), .answer (.elapsed .negotiate 0) none, .readResult (.ok [5, 1]),
    .answer (.elapsed .negotiate 1) none, .readResult (.ok [0]), .answer (.elapsed .negotiate 2) none,
    .writeResult (.ok ()), .answer (.elapsed .request 0) none, .readResult (.ok [5, 3, 0, 1]),
    .answer (.elapsed .request 1) none, .readResult (.ok [0, 0, 0, 0]), .answer (.elapsed .request 2) none,
    .readResult (.ok [0, 0]), .answer .peerAddr (.ok clientControl), .answer .localAddr (.ok relayAddress),
    .answer .udpLocalAddr (.ok relayAddress), .go, .go, .writeResult (.ok ())]

/-- The client connects, associates and sends three bytes to 198.51.100.1:53. -/
def relayInputs : List Input :=
  .accept clientControl :: associateInputs.map (.handler 1) ++
    [.loop (.received clientRelay [0, 0, 0, 1, 198, 51, 100, 1, 0, 53, 1, 2, 3]), .loop .go, .loop .go]

/-- The client closes the control connection. -/
def releaseInputs : List Input := [.control .eof, .go, .go, .go, .go].map (.handler 1)

theorem association_lifetime_released :
    ∃ events s, (system anonymous).run .initial (relayInputs ++ releaseInputs) = some (events, s) ∧
      .handler 1 (.inserted true) ∈ events ∧ .handler 1 .returned ∈ events ∧
      (s.shared.world.heap 1).alive = false ∧ (s.shared.world.heap 1).stopped = true ∧
      1 ∉ s.shared.world.registry.entries := by
  have hrun : (((system anonymous).run .initial (relayInputs ++ releaseInputs)).map fun r =>
      decide (.handler 1 (.inserted true) ∈ r.1 ∧ .handler 1 .returned ∈ r.1)) = some true := by
    decide +kernel
  obtain ⟨⟨events, s⟩, hrun, hmem⟩ := Option.map_eq_some_iff.mp hrun
  obtain ⟨hins, hret⟩ := of_decide_eq_true hmem
  obtain ⟨hdead, hstopped, hnot, -⟩ :=
    (association_lifetime anonymous (System.reaches_of_run hrun)).2.2.2.1 1 hins hret
  exact ⟨events, s, hrun, hins, hret, hdead, hstopped, hnot⟩

end Brume.Server
