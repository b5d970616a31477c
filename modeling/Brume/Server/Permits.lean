import Brume.Server.FlowKeys

/-!
# Flow permits

The flow semaphore counts the slots that live. A slot lives while a packet task or
a receiver refers to it, nothing brings it back, and only a task that finds no
slot for its target takes a permit.
-/

namespace Brume.Server
open Lib

variable {config : Config} {s s' : State} {e : Event} {owner owner' : SlotId → FlowKey} {slot : SlotId}

/-! ### References to slots -/

/-- Some packet task or receiver refers to the slot. -/
def State.Refers (s : State) (slot : SlotId) : Prop :=
  (∃ id t, s.tasks.lookup id = some t ∧ t.pc.slot? = some slot) ∨
    ∃ flow r, s.receivers.lookup flow = some r ∧ r.slot = slot

theorem Role.slot?_of_owes {role : OnceTable.Role} (h : role.Owes slot) : role.slot? = some slot := by
  rcases h with rfl | hfills | rfl
  · rfl
  · cases role <;> cases hfills <;> rfl
  · rfl

namespace Tabled

/-- A slot in a flow table is owed by a task or by a receiver. -/
theorem refers_of_lookup (h : Tabled owner s) {arc : Arc} {target : Target}
    (hk : (s.shared.association arc).flows.lookup target = some slot) : s.Refers slot := by
  rcases h.sound.responsible (k := (arc, target)) hk with ⟨id, role, hu, howes⟩ | ⟨flow, g, hg, -, hslot, -⟩
  · obtain ⟨t, ht, -, rfl⟩ := users_some.mp hu
    exact .inl ⟨id, t, ht, (TaskPc.slot?_role t.pc).symm.trans (Role.slot?_of_owes howes)⟩
  · obtain ⟨r, hr, rfl⟩ := guards_some.mp hg
    exact .inr ⟨flow, r, hr, hslot⟩

theorem slotAlive_iff (h : Tabled owner s) : s.slotAlive slot = true ↔ s.Refers slot := by
  unfold State.slotAlive
  rw [Bool.or_eq_true, Bool.or_eq_true]
  constructor
  · rintro ((htable | htask) | hreceiver)
    · obtain ⟨arc, -, htable⟩ := List.any_eq_true.mp htable
      obtain ⟨⟨target, slot'⟩, hmem, heq⟩ := List.any_eq_true.mp htable
      obtain rfl : slot' = slot := of_decide_eq_true heq
      exact h.refers_of_lookup (AList.mem_lookup_iff.mpr hmem)
    · obtain ⟨⟨id, t⟩, hmem, heq⟩ := List.any_eq_true.mp htask
      exact .inl ⟨id, t, AList.mem_lookup_iff.mpr hmem, of_decide_eq_true heq⟩
    · obtain ⟨⟨flow, r⟩, hmem, heq⟩ := List.any_eq_true.mp hreceiver
      exact .inr ⟨flow, r, AList.mem_lookup_iff.mpr hmem, of_decide_eq_true heq⟩
  · rintro (⟨id, t, ht, hslot⟩ | ⟨flow, r, hr, hslot⟩)
    · exact .inl (.inr (List.any_eq_true.mpr ⟨⟨id, t⟩, AList.mem_lookup_iff.mp ht, decide_eq_true hslot⟩))
    · exact .inr (List.any_eq_true.mpr ⟨⟨flow, r⟩, AList.mem_lookup_iff.mp hr, decide_eq_true hslot⟩)

end Tabled

/-! ### Steps -/

/-- The task is about to take a permit, if there is one. -/
def PacketTask.Acquires (t : PacketTask) (sh : Shared) : Prop :=
  t.pc = .lockingFlows ∧ (sh.association t.association).flows.lookup t.target = none

instance (t : PacketTask) (sh : Shared) : Decidable (t.Acquires sh) := inferInstanceAs (Decidable (_ ∧ _))

namespace PacketTask.Moves
variable {id permits : ℕ} {t t' : PacketTask} {sh : Shared} {pc : TaskPc} {input : TaskInput} {r : TaskStep}

/-- A task gets its slot from the table, or makes it. -/
theorem slot? (h : t.Moves id permits sh pc input r) (ht' : r.task = some t') (hslot : t'.pc.slot? = some slot) :
    pc.slot? = some slot ∨ (sh.association t.association).flows.lookup t.target = some slot ∨
      slot = sh.nextSlot := by
  cases h with
  | take htable =>
    cases ht'
    cases hslot
    exact .inr (.inl htable)
  | create =>
    cases ht'
    cases hslot
    exact .inr (.inr rfl)
  | bind | send | deactivate =>
    cases ht'
    dsimp only at hslot
    split at hslot <;> exact .inl hslot
  | retry | again =>
    cases ht'
    cases hslot
  | dead | refused | discard | giveUp | abandon | done | last => cases ht'
  | _ =>
    cases ht'
    exact .inl hslot

/-- The receiver of a new flow holds the slot of its task. -/
theorem receiver (h : t.Moves id permits sh pc input r) {old : Dict FlowId Receiver} {flow : FlowId}
    {receiver : Receiver} (hr : (r.receivers old).lookup flow = some receiver) :
    old.lookup flow = some receiver ∨ pc.slot? = some receiver.slot ∧
      flow = sh.nextFlow ∧ ∃ destination, receiver = .new t.association receiver.slot t.target destination := by
  cases h with
  | @spawn slot addresses index destination =>
    dsimp only [TaskStep.receivers] at hr
    rw [Dict.lookup_insert_eq] at hr
    split at hr
    · rename_i heq
      cases hr
      exact .inr ⟨rfl, heq, destination, rfl⟩
    · exact .inl hr
  | _ => exact .inl hr

/-- A slot is made where a permit is taken. -/
theorem nextSlot (h : t.Moves id permits sh pc input r) (hpc : t.pc = pc) :
    r.shared.nextSlot = sh.nextSlot ∨ t.Acquires sh ∧ r.shared.nextSlot = sh.nextSlot + 1 := by
  cases h with
  | create hnone => exact .inr ⟨⟨hpc, hnone⟩, rfl⟩
  | remember h =>
    obtain ⟨_, rfl⟩ := Shared.rememberUdpAddress_eq h
    exact .inl rfl
  | advance h =>
    obtain ⟨_, rfl⟩ := Shared.advanceUdpAddress_eq h
    exact .inl rfl
  | discard | giveUp | retry | last | again => exact .inl (sh.nextSlot_removeFlowSlot _ _ _)
  | _ => exact .inl rfl

end PacketTask.Moves

namespace State

/-- What a slot is referred to by has referred to it before, unless the slot is new. -/
theorem refers_step (h : Tabled owner s) {input : Input} (hs : s.step config input = some (e, s'))
    (hlt : slot < s.shared.nextSlot) (hrefers : s'.Refers slot) : s.Refers slot := by
  cases input with
  | task id input =>
    obtain ⟨t, r, hlookup, hmove, -, rfl⟩ := task_moves hs
    rcases hrefers with ⟨id', t', ht', hslot⟩ | ⟨flow, receiver, hr, hslot⟩
    · dsimp only at ht'
      rw [Dict.lookup_update_eq] at ht'
      split at ht'
      · rcases hmove.slot? ht' hslot with hold | htable | heq
        · exact .inl ⟨id, t, hlookup, hold⟩
        · exact h.refers_of_lookup htable
        · exact absurd (heq ▸ hlt) (lt_irrefl _)
      · exact .inl ⟨id', t', ht', hslot⟩
    · rcases hmove.receiver hr with hold | ⟨hpc, -⟩
      · exact .inr ⟨flow, receiver, hold, hslot⟩
      · exact .inl ⟨id, t, hlookup, hpc.trans (congrArg some hslot)⟩
  | receiver flow input =>
    obtain ⟨r, result, hlookup, hmove, rfl⟩ := receiver_moves hs
    rcases hrefers with hold | ⟨flow', r', hr', hslot⟩
    · exact .inl hold
    · dsimp only at hr'
      rw [Dict.lookup_update_eq] at hr'
      split at hr'
      · exact .inr ⟨flow, r, hlookup, (hmove.packet hr').2.2.symm.trans hslot⟩
      · exact .inr ⟨flow', r', hr', hslot⟩
  | _ =>
    have hsame := sameFlows_step hs (by simp) (by simp)
    rcases hrefers with ⟨id, t, ht, hslot⟩ | ⟨flow, r, hr, hslot⟩
    · rcases hsame.tasks id t ht with hold | hstart
      · exact .inl ⟨id, t, hold, hslot⟩
      · rw [hstart] at hslot
        cases hslot
    · exact .inr ⟨flow, r, hsame.receivers ▸ hr, hslot⟩

/-- A step takes a permit for a new slot only. -/
theorem permits_step (h : Tabled owner s) (hev : Evolves owner s owner' s') {input : Input}
    (hs : s.step config input = some (e, s')) :
    s.flowPermits + s.shared.nextSlot ≤ s'.flowPermits + s'.shared.nextSlot := by
  obtain ⟨made, hmade⟩ := Nat.exists_eq_add_of_le hev.nextSlot
  have halive : (List.range s'.shared.nextSlot).countP s'.slotAlive ≤
      (List.range s.shared.nextSlot).countP s.slotAlive + made := by
    rw [hmade, List.range_add, List.countP_append]
    refine Nat.add_le_add ?_ (List.countP_le_length.trans_eq (by simp))
    refine List.countP_mono_left fun slot hslot => ?_
    rw [h.slotAlive_iff, hev.tabled.slotAlive_iff]
    exact refers_step h hs (List.mem_range.mp hslot)
  unfold flowPermits
  omega

/-- The step takes no permit, unless it is one of a task that finds no slot. -/
theorem nextSlot_step {input : Input} (hs : s.step config input = some (e, s')) :
    s'.shared.nextSlot = s.shared.nextSlot ∨ ∃ id t i, input = .task id i ∧ s.tasks.lookup id = some t ∧
      t.Acquires s.shared ∧ s'.shared.nextSlot = s.shared.nextSlot + 1 := by
  cases input with
  | task id input =>
    obtain ⟨t, r, hlookup, hmove, -, rfl⟩ := task_moves hs
    exact (hmove.nextSlot rfl).imp_right fun hacquires => ⟨id, t, input, rfl, hlookup, hacquires⟩
  | receiver flow input =>
    obtain ⟨r, result, -, hmove, rfl⟩ := receiver_moves hs
    exact .inl hmove.nextSlot
  | _ =>
    obtain ⟨world, now, hshared⟩ := shared_step hs (by simp) (by simp)
    exact .inl (by rw [hshared])

end State

end Brume.Server
