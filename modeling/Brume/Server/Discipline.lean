import Brume.Lib.Typestate
import Brume.Server.System

/-!
# What a handler does to the registry

Whatever path a connection takes, its accesses to the registry come in one order:
allocate, insert, and behind an accepted insert store `alive = false`, cancel
`stopped` and remove. `Standing` is where in this order a handler is.
-/

namespace Brume.Server
open Lib Session Protocol

inductive Standing where
  | fresh
  | created
  | refused
  | inserted
  | dead
  | cancelled
  | removed
  deriving DecidableEq

namespace Standing

/-- The insert was accepted. -/
def HasInserted (st : Standing) : Prop := st = .inserted ∨ st = .dead ∨ st = .cancelled ∨ st = .removed

/-- Between the accepted insert and the remove. -/
def Holds (st : Standing) : Prop := st = .inserted ∨ st = .dead ∨ st = .cancelled

/-- `alive` has been set to false. -/
def HasEnded (st : Standing) : Prop := st = .dead ∨ st = .cancelled ∨ st = .removed

/-- A handler may return here. -/
def Final (st : Standing) : Prop := st = .fresh ∨ st = .refused ∨ st = .removed

/-- The order of the accesses; `none` is a violation. -/
def next (peer : SocketAddr) : Standing → (q : Query) → Answer q → Option Standing
  | .fresh, .newAssociation clientIp _, _ => if clientIp = peer.ip then some .created else none
  | .created, .insert, accepted => some (if accepted then .inserted else .refused)
  | .inserted, .storeDead, _ => some .dead
  | .dead, .cancelStopped, _ => some .cancelled
  | .cancelled, .remove, _ => some .removed
  | st, q, _ =>
    match q with
    | .newAssociation _ _ | .insert | .storeDead | .cancelStopped | .remove => none
    | _ => some st

end Standing

/-- The query is no access to an association or to the registry. -/
def Query.neutral : Query → Prop
  | .newAssociation _ _ | .insert | .storeDead | .cancelStopped | .remove => False
  | _ => True

theorem Standing.next_neutral (peer : SocketAddr) (q : Query) (hq : q.neutral) (st : Standing)
    (a : Answer q) : st.next peer q a = some st := by
  cases q <;> first | exact hq.elim | (cases st <;> rfl)

/-- A program that goes through the order and stops where a handler may return. -/
abbrev Obeys (peer : SocketAddr) (p : Handler Unit) (st : Standing) : Prop :=
  Follows (Standing.next peer) (fun q a => Allowed peer true q a) p st fun st _ => st.Final

/-! ### The parts that leave the registry alone -/

section
variable {α : Type}

abbrev Neutral (p : Handler α) : Prop := AsksOnly Query.neutral p

theorem neutral_ask {q : Query} (h : q.neutral) : Neutral (ask q) := AsksOnly.perform h

theorem readTarget_readsOnly {Q : Type} {A : Q → Type} (atyp : UInt8) :
    ReadsOnly (readTarget atyp : Session Q A Target) := by
  refine .bind ?_ fun host => .bind (.readExact 2) fun _ => .pure _
  refine .ite (.bind (.readExact 4) fun _ => .pure _) (.ite ?_
    (.ite (.bind (.readExact 16) fun _ => .pure _) (.throw _)))
  refine .bind (.readExact 1) fun length => .ite (.throw _) (.bind (.readExact _) fun name => ?_)
  split
  · exact .pure _
  · exact .throw _

theorem readRequestAsync_readsOnly {Q : Type} {A : Q → Type} :
    ReadsOnly (readRequestAsync : Session Q A (UInt8 × Target)) := by
  refine .bind (.readExact 4) fun header => .ite (.throw _) (.bind ?_ fun _ => .pure _)
  rw [readTargetAsync_eq]
  exact readTarget_readsOnly _

theorem negotiate_asksOnly {Q : Type} {A : Q → Type} (P : Q → Prop) (config : Config) :
    AsksOnly P (negotiate config : Session Q A Unit) := by
  refine .bind (.readExact 2) fun header => .ite (.throw _) (.bind (.readExact _) fun methods => ?_)
  refine .ite (.bind (.writeAll _) fun _ => .throw _) (.bind (.writeAll _) fun _ => .ite ?_ (.pure _))
  refine .bind (.readExact 2) fun header => .ite (.throw _) (.bind (.readExact _) fun username => ?_)
  refine .bind (.readExact 1) fun plen => .ite (.bind (.writeAll _) fun _ => .throw _) ?_
  refine .bind (.readExact _) fun password => .bind (.writeAll _) fun _ => ?_
  exact .ite (.pure _) (.throw _)

theorem localAddr_neutral (f : SocketAddr → Handler α) (hf : ∀ a, Neutral (f a)) :
    Neutral (ask .localAddr >>= fun r => ofExcept r >>= f) :=
  .bind (neutral_ask trivial) fun r => .bind (.ofExcept r) hf

theorem timeout_neutral (stage : Stage) {p : Handler α} (hp : Neutral p) : Neutral (timeout stage p) := by
  refine hp.race ?_ 0
  exact fun _ => trivial

theorem handshake_neutral (config : Config) : Neutral (handshake config) := by
  refine .bind (neutral_ask trivial) fun r => .bind (.ofExcept r) fun _ => .bind ?_ fun negotiated => ?_
  · exact timeout_neutral _ (negotiate_asksOnly _ config)
  · cases negotiated with
    | none => exact .throw _
    | some r => exact .ofExcept r

theorem readClientRequest_neutral : Neutral readClientRequest := by
  refine .bind (timeout_neutral _ (readRequestAsync_readsOnly.asksOnly _)) fun r => ?_
  rcases r with _ | ⟨error | request⟩
  · exact .throw _
  · refine .ite (localAddr_neutral _ fun address => .bind ?_ fun _ => .throw _) (.throw _)
    exact .recover (.writeAll _) fun _ => .pure _
  · exact .pure _

theorem connect_neutral (timeout : Option Duration) (target : Target) : Neutral (connect timeout target) := by
  refine .bind (AsksOnly.race ?_ (fun _ => trivial) 0) fun r => ?_
  · refine localAddr_neutral _ fun address => .bind (.recover ?_ fun error => ?_) fun addresses => ?_
    · refine .bind ?_ fun addresses => .ite (.throw _) (.pure _)
      cases target.host with
      | ip ip => exact .pure _
      | domain name =>
        exact .bind (.bind (neutral_ask trivial) fun r => .ofExcept r) fun ips => .pure _
    · exact .bind (.writeAll _) fun _ => .throw _
    · refine .bind (neutral_ask trivial) fun r => ?_
      cases r with
      | error error => exact .bind (.writeAll _) fun _ => .throw _
      | ok _ =>
        refine .bind (neutral_ask trivial) fun r => .bind (.ofExcept r) fun _ => ?_
        refine .bind (neutral_ask trivial) fun r => .bind (.ofExcept r) fun address => ?_
        refine .bind (.writeAll _) fun _ => ?_
        exact .bind (neutral_ask trivial) fun r => .ofExcept r
  · cases r with
    | none => exact .pure _
    | some r => exact .ofExcept r

end

/-! ### The parts that use the registry -/

section
variable {peer : SocketAddr}

theorem obeys_neutral {p : Handler Unit} (hp : Neutral p) {st : Standing} (hst : st.Final) : Obeys peer p st :=
  Follows.of_asksOnly (Standing.next_neutral peer) hp fun _ => hst

theorem holdAssociation_obeys (requestedPort : UInt16) (relay : SocketAddr) :
    Obeys peer (holdAssociation peer.ip requestedPort relay) .fresh := by
  intro _ _
  refine ⟨.created, if_pos rfl, fun accepted _ => ?_⟩
  cases accepted with
  | false =>
    refine ⟨.refused, rfl, obeys_neutral ?_ (.inr (.inl rfl))⟩
    exact localAddr_neutral _ fun address => .bind (.writeAll _) fun _ => .throw _
  | true =>
    refine ⟨.inserted, rfl, fun written => ?_⟩
    cases written with
    | error e =>
      -- the reply could not be written: the handler cleans up at once
      exact fun _ _ => ⟨.dead, rfl, fun _ _ => ⟨.cancelled, rfl, fun _ _ => ⟨.removed, rfl, .inr (.inr rfl)⟩⟩⟩
    | ok _ =>
      exact fun _ _ => ⟨.inserted, rfl, fun _ _ => ⟨.dead, rfl, fun _ _ => ⟨.cancelled, rfl,
        fun _ _ => ⟨.removed, rfl, .inr (.inr rfl)⟩⟩⟩⟩

theorem associate_obeys (target : Target) : Obeys peer (associate target) .fresh := by
  intro address haddress
  refine ⟨.fresh, rfl, ?_⟩
  cases address with
  | error e => exact .inl rfl
  | ok address =>
    obtain rfl : address = peer := haddress
    dsimp only [ofExcept, bind_eq, Session.bind, Session.pure_bind]
    split
    · refine obeys_neutral ?_ (.inl rfl)
      exact localAddr_neutral _ fun a => .bind (.writeAll _) fun _ => .throw _
    · refine .bind_asksOnly (Standing.next_neutral address) (neutral_ask trivial) (fun local_ => ?_)
        fun _ => .inl rfl
      refine .bind_asksOnly (Standing.next_neutral address) (.ofExcept local_) (fun local_ => ?_)
        fun _ => .inl rfl
      refine .bind_asksOnly (Standing.next_neutral address) (neutral_ask trivial) (fun udp => ?_)
        fun _ => .inl rfl
      refine .bind_asksOnly (Standing.next_neutral address) (.ofExcept udp) (fun udp => ?_)
        fun _ => .inl rfl
      exact holdAssociation_obeys _ _

/-- Every path of a handler goes through the order and cleans up. -/
theorem handleClient_obeys (config : Config) : Obeys peer (handleClient config) .fresh := by
  refine .bind_asksOnly (Standing.next_neutral peer) (handshake_neutral config) (fun _ => ?_) fun _ => .inl rfl
  refine .bind_asksOnly (Standing.next_neutral peer) readClientRequest_neutral (fun request => ?_)
    fun _ => .inl rfl
  obtain ⟨command, target⟩ := request
  show Obeys peer (if command = CONNECT then connect config.tcpTimeout target
    else if command = UDP_ASSOCIATE then associate target
    else _) .fresh
  split
  · exact obeys_neutral (connect_neutral _ target) (.inl rfl)
  · split
    · exact associate_obeys target
    · refine obeys_neutral ?_ (.inl rfl)
      exact localAddr_neutral _ fun address => .writeAll _

end

end Brume.Server
