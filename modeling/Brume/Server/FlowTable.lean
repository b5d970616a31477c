import Brume.Server.Isolation
import Brume.Server.Steps

/-!
# The flow tables in every interleaving

The flow tables of all associations are one table of cells that are filled once:
packet tasks are its users, flows its items and receivers the guards of the items.
Every step of the server is an operation of that table, or none.
-/

namespace Brume.Server
open Lib

/-! ### The table -/

abbrev FlowKey := Arc × Target

def Cell.view : Cell → OnceTable.Cell
  | .empty => .empty
  | .initializing task => .filling task
  | .ready none => .failed
  | .ready (some flow) => .ready flow

/-- The receiver has taken the active flag. -/
def ReceiverPc.retired : ReceiverPc → Bool
  | .advancing | .dropping => true
  | _ => false

def PacketTask.view (t : PacketTask) : FlowKey × OnceTable.Role := ((t.association, t.target), t.pc.role)

def Receiver.view (r : Receiver) : OnceTable.Guard FlowKey := ⟨(r.association, r.target), r.slot, r.pc.retired⟩

def users (tasks : Dict ℕ PacketTask) (id : ℕ) : Option (FlowKey × OnceTable.Role) :=
  (tasks.lookup id).map PacketTask.view

def guards (receivers : Dict FlowId Receiver) (flow : FlowId) : Option (OnceTable.Guard FlowKey) :=
  (receivers.lookup flow).map Receiver.view

def Shared.table (s : Shared) (user : ℕ → Option (FlowKey × OnceTable.Role))
    (guard : FlowId → Option (OnceTable.Guard FlowKey)) : OnceTable FlowKey where
  key k := (s.association k.1).flows.lookup k.2
  cell slot := (s.slots slot).view
  active flow := (s.flows flow).active
  user
  guard
  nextSlot := s.nextSlot
  nextItem := s.nextFlow

def State.table (s : State) : OnceTable FlowKey := s.shared.table (users s.tasks) (guards s.receivers)

theorem users_update (tasks : Dict ℕ PacketTask) (id : ℕ) (o : Option PacketTask) :
    users (Dict.update tasks id o) = Function.update (users tasks) id (o.map PacketTask.view) := by
  funext id'
  rw [users, Dict.lookup_update_eq, Function.update_apply]
  split <;> rfl

theorem guards_update (receivers : Dict FlowId Receiver) (flow : FlowId) (o : Option Receiver) :
    guards (Dict.update receivers flow o) = Function.update (guards receivers) flow (o.map Receiver.view) := by
  funext flow'
  rw [guards, Dict.lookup_update_eq, Function.update_apply]
  split <;> rfl

theorem users_some {tasks : Dict ℕ PacketTask} {id : ℕ} {k : FlowKey} {role : OnceTable.Role} :
    users tasks id = some (k, role) ↔
      ∃ t, tasks.lookup id = some t ∧ (t.association, t.target) = k ∧ t.pc.role = role := by
  simp only [users, Option.map_eq_some_iff, PacketTask.view, Prod.mk.injEq]

theorem guards_some {receivers : Dict FlowId Receiver} {flow : FlowId} {g : OnceTable.Guard FlowKey} :
    guards receivers flow = some g ↔ ∃ r, receivers.lookup flow = some r ∧ r.view = g := by
  simp only [guards, Option.map_eq_some_iff]

/-! ### What the operations on the shared state do to it -/

namespace Shared
variable (s : Shared) (user : ℕ → Option (FlowKey × OnceTable.Role))
  (guard : FlowId → Option (OnceTable.Guard FlowKey))

theorem SameTable.table_eq {s s' : Shared} (h : s.SameTable s') : s'.table user guard = s.table user guard := by
  obtain ⟨hflows, hslots, hactive, hnextSlot, hnextFlow, -⟩ := h
  simp only [Shared.table, hflows, hslots, hactive, hnextSlot, hnextFlow]

theorem table_setSlot (slot : SlotId) (c : Cell) :
    (s.setSlot slot c).table user guard =
      { s.table user guard with cell := Function.update (s.table user guard).cell slot c.view } := by
  have hcell : (fun slot' => (Function.update s.slots slot c slot').view) =
      Function.update (fun slot' => (s.slots slot').view) slot c.view := by
    funext slot'
    simp only [Function.update_apply]
    split <;> rfl
  unfold Shared.table setSlot
  dsimp only
  rw [hcell]
  rfl

/-- The tables when those of one association are replaced. -/
theorem table_setFlows (arc : Arc) (flows : Dict Target SlotId) :
    (s.setAssociation arc { s.association arc with flows }).table user guard =
      { s.table user guard with key := fun k => if k.1 = arc then flows.lookup k.2 else (s.table user guard).key k } := by
  have hkey : (fun k : FlowKey =>
      ((s.setAssociation arc { s.association arc with flows }).association k.1).flows.lookup k.2) =
      fun k => if k.1 = arc then flows.lookup k.2 else (s.association k.1).flows.lookup k.2 := by
    funext k
    simp only [setAssociation, association, Heap.set_apply]
    split <;> rfl
  unfold Shared.table
  dsimp only
  rw [hkey]
  rfl

theorem table_removeFlowSlot (arc : Arc) (target : Target) (slot : SlotId) :
    (s.removeFlowSlot arc target slot).table user guard = (s.table user guard).remove (arc, target) slot := by
  have hkey : (s.table user guard).key (arc, target) = (s.association arc).flows.lookup target := rfl
  have herase : (fun k => if k.1 = arc then ((s.association arc).flows.erase target).lookup k.2
      else (s.table user guard).key k) = Function.update (s.table user guard).key (arc, target) none := by
    funext k
    obtain ⟨arc', target'⟩ := k
    simp only [Dict.lookup_erase_eq, Function.update_apply, Prod.mk.injEq]
    by_cases harc : arc' = arc
    · subst harc
      by_cases htarget : target' = target <;> simp [htarget, Shared.table]
    · simp [harc]
  unfold removeFlowSlot OnceTable.remove
  dsimp only
  rw [hkey]
  split
  · rw [table_setFlows, herase]
  · rfl

theorem table_newSlot (arc : Arc) (target : Target) (u : ℕ) :
    (s.newSlot arc target).table (Function.update user u (some ((arc, target), .waiting s.nextSlot))) guard =
      (s.table user guard).insert u (arc, target) := by
  have hcell : (fun slot => (Function.update s.slots s.nextSlot .empty slot).view) =
      Function.update (fun slot => (s.slots slot).view) s.nextSlot .empty := by
    funext slot
    simp only [Function.update_apply]
    split <;> rfl
  have hkey : (fun k : FlowKey => ((s.newSlot arc target).association k.1).flows.lookup k.2) =
      Function.update (fun k => (s.association k.1).flows.lookup k.2) (arc, target) (some s.nextSlot) := by
    funext k
    obtain ⟨arc', target'⟩ := k
    simp only [newSlot, setAssociation, setSlot, association, Heap.set_apply, Function.update_apply, Prod.mk.injEq]
    by_cases harc : arc' = arc
    · subst harc
      simp only [true_and, if_true, Dict.lookup_insert_eq]
    · simp [harc]
  unfold Shared.table OnceTable.insert
  dsimp only
  rw [hkey]
  unfold newSlot setAssociation setSlot
  dsimp only
  rw [hcell]

theorem table_newFlow {f : Flow} (hactive : f.active = true) (u : ℕ) (k : FlowKey) (slot : SlotId) :
    (s.newFlow f).table (Function.update user u (some (k, .publishing slot s.nextFlow)))
        (Function.update guard s.nextFlow (some ⟨k, slot, false⟩)) =
      (s.table user guard).make u k slot := by
  have hflow : (fun flow => (Function.update s.flows s.nextFlow f flow).active) =
      Function.update (fun flow => (s.flows flow).active) s.nextFlow true := by
    funext flow
    simp only [Function.update_apply]
    split
    · exact hactive
    · rfl
  unfold Shared.table OnceTable.make newFlow setFlow
  dsimp only
  rw [hflow]
  rfl

theorem table_deactivate (flow : FlowId) :
    (s.deactivate flow).table user guard = (s.table user guard).deactivate flow := by
  have hactive : (fun flow' => (Function.update s.flows flow { s.flows flow with active := false } flow').active) =
      Function.update (fun flow' => (s.flows flow').active) flow false := by
    funext flow'
    simp only [Function.update_apply]
    split <;> rfl
  unfold Shared.table deactivate setFlow
  dsimp only
  rw [hactive]
  rfl

end Shared

/-! ### What a step does to the tables -/

namespace Shared

/-- The tables are within their bounds. -/
def Bounded (s : Shared) : Prop :=
  ∀ arc, Dict.size (s.association arc).flows ≤ MAX_FLOWS_PER_ASSOCIATION ∧
    Dict.size (s.association arc).preferredAddresses ≤ MAX_FLOWS_PER_ASSOCIATION

/-- An association that no datagram has been found for has no flows. -/
def Rooted (s : Shared) : Prop :=
  ∀ arc, (s.association arc).endpoint = none → ∀ target, (s.association arc).flows.lookup target = none

/-- No slot comes under a key. -/
def Shrinks (s s' : Shared) : Prop :=
  ∀ arc target slot, (s'.association arc).flows.lookup target = some slot →
    (s.association arc).flows.lookup target = some slot

variable {s s' : Shared}

theorem association_setAssociation (s : Shared) (arc arc' : Arc) (a : Association) :
    (s.setAssociation arc a).association arc' = if arc' = arc then a else s.association arc' :=
  Heap.set_apply s.world.heap arc arc' a

theorem SameTable.bounded (h : s.SameTable s') (hs : s.Bounded) : s'.Bounded := by
  intro arc
  rw [h.flows arc]
  exact ⟨(hs arc).1, h.preferred arc (hs arc).2⟩

theorem SameTable.shrinks (h : s.SameTable s') : s.Shrinks s' := by
  intro arc target slot hk
  rwa [h.flows arc] at hk

theorem Bounded.setFlows (h : s.Bounded) (arc : Arc) {flows : Dict Target SlotId}
    (hsize : Dict.size flows ≤ MAX_FLOWS_PER_ASSOCIATION) :
    (s.setAssociation arc { s.association arc with flows }).Bounded := by
  intro arc'
  rw [association_setAssociation]
  split
  · exact ⟨hsize, (h arc).2⟩
  · exact h arc'

theorem Bounded.removeFlowSlot (h : s.Bounded) (arc : Arc) (target : Target) (slot : SlotId) :
    (s.removeFlowSlot arc target slot).Bounded := by
  unfold Shared.removeFlowSlot
  dsimp only
  split
  · rename_i hk
    apply h.setFlows
    have hsize := Dict.size_erase_of_some hk
    have hle := (h arc).1
    omega
  · exact h

theorem Bounded.newSlot (h : s.Bounded) {arc : Arc} {target : Target}
    (hk : (s.association arc).flows.lookup target = none)
    (hsize : Dict.size (s.association arc).flows < MAX_FLOWS_PER_ASSOCIATION) : (s.newSlot arc target).Bounded := by
  have hle : Dict.size ((s.association arc).flows.insert target s.nextSlot) ≤ MAX_FLOWS_PER_ASSOCIATION := by
    rw [Dict.size_insert_of_none hk]
    omega
  exact h.setFlows arc hle

theorem shrinks_removeFlowSlot (s : Shared) (arc : Arc) (target : Target) (slot : SlotId) :
    s.Shrinks (s.removeFlowSlot arc target slot) := by
  intro arc' target' slot' hk
  unfold Shared.removeFlowSlot at hk
  dsimp only at hk
  split at hk
  · rw [association_setAssociation] at hk
    split at hk
    · rename_i harc
      subst harc
      rw [Dict.lookup_erase_eq] at hk
      split at hk
      · cases hk
      · exact hk
    · exact hk
  · exact hk

/-- A slot that a removal takes out is the one it names. -/
theorem removeFlowSlot_kept (s : Shared) (arc : Arc) (target : Target) (slot : SlotId) {arc' : Arc}
    {target' : Target} {slot' : SlotId} (hk : (s.association arc').flows.lookup target' = some slot') :
    ((s.removeFlowSlot arc target slot).association arc').flows.lookup target' = some slot' ∨ slot' = slot := by
  unfold Shared.removeFlowSlot
  dsimp only
  split
  · rename_i hslot
    rw [association_setAssociation]
    split
    · rename_i harc
      subst harc
      rw [Dict.lookup_erase_eq]
      split
      · rename_i htarget
        subst htarget
        rw [hslot] at hk
        exact .inr (Option.some.inj hk).symm
      · exact .inl hk
    · exact .inl hk
  · exact .inl hk

theorem newSlot_kept (s : Shared) {arc arc' : Arc} {target target' : Target} {slot : SlotId}
    (hnone : (s.association arc).flows.lookup target = none)
    (hk : (s.association arc').flows.lookup target' = some slot) :
    ((s.newSlot arc target).association arc').flows.lookup target' = some slot := by
  have heq : (s.newSlot arc target).association arc' =
      if arc' = arc then { s.association arc with flows := (s.association arc).flows.insert target s.nextSlot }
      else s.association arc' := Heap.set_apply s.world.heap arc arc' _
  rw [heq]
  split
  · rename_i harc
    subst harc
    rw [Dict.lookup_insert_eq]
    split
    · rename_i htarget
      rw [htarget, hnone] at hk
      cases hk
    · exact hk
  · exact hk

theorem adds_newSlot (s : Shared) (arc : Arc) (target : Target) (arc' : Arc) (target' : Target) (slot : SlotId)
    (hk : ((s.newSlot arc target).association arc').flows.lookup target' = some slot) :
    (s.association arc').flows.lookup target' = some slot ∨ arc' = arc := by
  have heq : (s.newSlot arc target).association arc' =
      if arc' = arc then { s.association arc with flows := (s.association arc).flows.insert target s.nextSlot }
      else s.association arc' := Heap.set_apply s.world.heap arc arc' _
  rw [heq] at hk
  split at hk
  · rename_i harc
    exact .inr harc
  · exact .inl hk

end Shared

theorem PacketTask.Case.bounded {id : ℕ} {t : PacketTask} {s : Shared} {r : TaskStep} (h : t.Case id s r)
    (hs : s.Bounded) : r.shared.Bounded := by
  cases h with
  | quiet h => exact h.table.bounded hs
  | leave _ h => exact h.bounded hs
  | create _ hnone hsize => exact hs.newSlot hnone hsize
  | drop => exact hs.removeFlowSlot _ _ _
  | _ => exact hs

/-- A task adds to the table of its own association only. -/
theorem PacketTask.Case.adds {id : ℕ} {t : PacketTask} {s : Shared} {r : TaskStep} (h : t.Case id s r)
    (arc : Arc) (target : Target) (slot : SlotId) (hk : (r.shared.association arc).flows.lookup target = some slot) :
    (s.association arc).flows.lookup target = some slot ∨ arc = t.association := by
  cases h with
  | quiet h => exact .inl (h.table.shrinks arc target slot hk)
  | leave _ h => exact .inl (h.shrinks arc target slot hk)
  | create => exact s.adds_newSlot _ _ arc target slot hk
  | drop => exact .inl (s.shrinks_removeFlowSlot _ _ _ arc target slot hk)
  | _ => exact .inl hk

theorem Receiver.Case.bounded {flow : FlowId} {r : Receiver} {s : Shared} {input : ReceiverInput}
    {result : ReceiverStep} (h : r.Case flow s input result) (hs : s.Bounded) : result.shared.Bounded := by
  cases h with
  | loop h => exact h.table.bounded hs
  | close => exact hs
  | advance _ h => exact (Shared.SameTable.advanceUdpAddress h).bounded hs
  | drop => exact hs.removeFlowSlot _ _ _

theorem Receiver.Case.shrinks {flow : FlowId} {r : Receiver} {s : Shared} {input : ReceiverInput}
    {result : ReceiverStep} (h : r.Case flow s input result) : s.Shrinks result.shared := by
  cases h with
  | loop h => exact h.table.shrinks
  | close => exact (Shared.SameTable.refl s).shrinks
  | advance _ h => exact (Shared.SameTable.advanceUdpAddress h).shrinks
  | drop => exact s.shrinks_removeFlowSlot _ _ _

end Brume.Server
