import Brume.Server.FlowLife

/-!
# The rotation of addresses

Which address the flows of a target use, one after the other. The target resolves
to the same bindable addresses each time; its packet tasks and receivers run
interleaved with everything else the server does.
-/

namespace Brume.Server
open Lib

variable {config : Config} {s s' : State} {e : Event} {k : FlowKey} {addresses : List SocketAddr}

/-! ### The environment -/

/-- Nobody is about to advance the index of the target. -/
def State.Settled (s : State) (k : FlowKey) : Prop :=
  (∀ entry ∈ s.tasks.entries, entry.2.key = k → entry.2.pc.advances? = none) ∧
    ∀ entry ∈ s.receivers.entries, entry.2.key = k → entry.2.pc ≠ .advancing

instance (s : State) (k : FlowKey) : Decidable (s.Settled k) := inferInstanceAs (Decidable (_ ∧ _))

/-- The steps of a packet task. If its target is `k`, the answers are the addresses
and every socket can be bound; and the index for the next flow is read after the
update of the index for the one before. -/
def PacketTask.Steady (k : FlowKey) (addresses : List SocketAddr) (t : PacketTask) (input : TaskInput) (s : State) :
    Prop :=
  match t.pc, input with
  | .resolving _, .lookedUp lookupIp =>
    match (lookup (fun _ => lookupIp) t.target : Except IoError (List SocketAddr)) with
    | .ok answer => t.key = k → answer = addresses
    | .error _ => True
  | .choosing _ _, _ => t.key = k → s.Settled k
  | .binding _ _ _ _, .bound ok => t.key = k → ok = true
  | pc, _ => pc.writes = true → t.association = k.1 → s.shared.Room t.association t.target

instance (k : FlowKey) (addresses : List SocketAddr) (t : PacketTask) (input : TaskInput) (s : State) :
    Decidable (t.Steady k addresses input s) := by
  unfold PacketTask.Steady
  generalize t.pc = pc
  induction pc using TaskPc.casesOn with
  | resolving slot =>
    induction input using TaskInput.casesOn with
    | lookedUp lookupIp =>
      dsimp only
      generalize (lookup (fun _ => lookupIp) t.target : Except IoError (List SocketAddr)) = answer
      induction answer using Except.casesOn <;> infer_instance
    | _ => dsimp only; infer_instance
  | binding slot addresses first offset => induction input using TaskInput.casesOn <;> dsimp only <;> infer_instance
  | _ => dsimp only; infer_instance

theorem PacketTask.Steady.room {t : PacketTask} {input : TaskInput} (h : t.Steady k addresses input s)
    (hwrites : t.pc.writes = true) (ha : t.association = k.1) : s.shared.Room t.association t.target := by
  unfold PacketTask.Steady at h
  cases hpc : t.pc with
  | remembering | advancing =>
    rw [hpc] at h
    exact h rfl ha
  | _ =>
    rw [hpc] at hwrites
    cases hwrites

/-- The target `k` always resolves to `addresses`, and the preferred addresses of
its association have room for all its targets. -/
def Steady (k : FlowKey) (addresses : List SocketAddr) (s : State) : Input → Prop
  | .task id input =>
    match s.tasks.lookup id with
    | none => True
    | some t => t.Steady k addresses input s
  | .receiver flow _ =>
    match s.receivers.lookup flow with
    | none => True
    | some r => r.pc = .advancing → r.association = k.1 → s.shared.Room r.association r.target
  | _ => True

instance (k : FlowKey) (addresses : List SocketAddr) (s : State) (input : Input) :
    Decidable (Steady k addresses s input) := by
  unfold Steady
  induction input using Input.casesOn with
  | task id input =>
    dsimp only
    generalize s.tasks.lookup id = task
    induction task using Option.casesOn <;> infer_instance
  | receiver flow input =>
    dsimp only
    generalize s.receivers.lookup flow = receiver
    induction receiver using Option.casesOn <;> infer_instance
  | _ => exact .isTrue trivial

/-- The server with notes, in that environment. -/
def rotating (config : Config) (k : FlowKey) (addresses : List SocketAddr) : System State Input Note :=
  (noted config).restrict (Steady k addresses)

/-- The flow that a note makes for the target `k`, with the index of its address. -/
def Note.created? (k : FlowKey) : Note → Option (FlowId × ℕ)
  | .created k' flow index => if k' = k then some (flow, index) else none
  | _ => none

def created (k : FlowKey) (notes : List Note) : List (FlowId × ℕ) := notes.filterMap (Note.created? k)

/-- The index behind a flow at this index, as far as the notes tell. -/
def Life.next (l : Life) (index count : ℕ) : ℕ := if l.advanced then (index + 1) % count else index

/-! ### Pending flows -/

/-- A flow is pending while it is active or its index is about to be advanced. -/
def State.Pending (s : State) (flow : FlowId) : Prop :=
  (s.shared.flows flow).active = true ∨ ∃ p, s.Advancing p flow

/-- No flow becomes pending but a new one. -/
theorem pending_step {input : Input} (hs : s.step config input = some (e, s')) {flow : FlowId}
    (hlt : flow < s.shared.nextFlow) (h : s'.Pending flow) : s.Pending flow := by
  have hlive : s.Live flow → s.Pending flow := fun h => .inl (h.resolve_left (not_le.mpr hlt))
  have hother : (∀ id i, input ≠ .task id i) → (∀ flow i, input ≠ .receiver flow i) → s.Pending flow := by
    intro htask hreceiver
    have hsame := State.sameFlows_step hs htask hreceiver
    rcases h with hactive | ⟨p, hp⟩
    · exact .inl (hsame.flows ▸ hactive)
    · cases p with
      | none =>
        obtain ⟨r, hr, hpc⟩ := hp
        exact .inr ⟨none, r, hsame.receivers ▸ hr, hpc⟩
      | some id =>
        obtain ⟨t, ht, hpc⟩ := hp
        rcases hsame.tasks id t ht with hold | hstart
        · exact .inr ⟨some id, t, hold, hpc⟩
        · rw [hstart] at hpc
          cases hpc
  cases input with
  | task id input =>
    obtain ⟨t, r, ht, hcase, rfl⟩ := State.task_cases hs
    rcases h with hactive | ⟨p, hp⟩
    · exact hlive (hcase.live (.inr hactive))
    · cases p with
      | none =>
        obtain ⟨receiver, hr, hpc⟩ := hp
        exact .inr ⟨none, hcase.receiver_old hr hpc⟩
      | some id' =>
        obtain ⟨t', ht', hpc⟩ := hp
        dsimp only at ht'
        rw [Dict.lookup_update_eq] at ht'
        split at ht'
        · exact .inl (hcase.takes ht' hpc).2.1
        · exact .inr ⟨some id', t', ht', hpc⟩
  | receiver flow' input =>
    obtain ⟨r, result, hr, hcase, rfl⟩ := State.receiver_cases hs
    rcases h with hactive | ⟨p, hp⟩
    · exact hlive (hcase.live (.inr hactive))
    · cases p with
      | some id => exact .inr ⟨some id, hp⟩
      | none =>
        obtain ⟨r', hr', hpc⟩ := hp
        dsimp only at hr'
        rw [Dict.lookup_update_eq] at hr'
        split at hr'
        · rename_i heq
          rw [heq]
          exact .inl (hcase.takes hr' hpc).1
        · exact .inr ⟨none, r', hr', hpc⟩
  | _ => exact hother (by simp) (by simp)

/-! ### Flows in the making -/

section
variable {owner : SlotId → FlowKey} {id id' : ℕ} {t t' : PacketTask} {slot slot' : SlotId}

/-- One task at a time fills the slot of a target. -/
theorem filling_unique (hs : s.table.Sound owner) (ht : s.tasks.lookup id = some t)
    (ht' : s.tasks.lookup id' = some t') (hkey : t.key = t'.key) (hrole : t.pc.role = .filling slot)
    (hrole' : t'.pc.role = .filling slot') : id = id' := by
  have hok := hs.users id _ _ (users_lookup ht)
  have hok' := hs.users id' _ _ (users_lookup ht')
  rw [hrole] at hok
  rw [hrole'] at hok'
  obtain ⟨-, hcell, hslot⟩ := hok
  obtain ⟨-, hcell', hslot'⟩ := hok'
  rw [← PacketTask.key, hkey, PacketTask.key, hslot'] at hslot
  cases hslot
  rw [hcell] at hcell'
  cases hcell'
  rfl

/-- A flow of the target is not active while a task makes the next one. -/
theorem inactive_of_filling (hs : s.table.Sound owner) (ht : s.tasks.lookup id = some t)
    (hrole : t.pc.role = .filling slot) {flow : FlowId} {r : Receiver} (hr : s.receivers.lookup flow = some r)
    (hkey : r.key = t.key) : (s.shared.flows flow).active = false := by
  by_contra hactive
  obtain ⟨g, hg, -, hslot'⟩ := hs.items flow (Bool.eq_true_of_not_eq_false hactive)
  have hmade := (hs.guards flow g hg).2.1
  obtain rfl : r.view = g := Option.some.inj ((guards_lookup hr).symm.trans hg)
  have hu := users_lookup ht
  have hok := hs.users id _ _ hu
  rw [hrole] at hok hu
  obtain ⟨-, hcell, hslot⟩ := hok
  have hsame : some r.slot = some slot := hslot'.symm.trans (by rw [← hslot]; exact congrArg s.table.key hkey)
  obtain rfl : r.slot = slot := Option.some.inj hsame
  rcases hmade with hready | ⟨u, k', hfill, hu'⟩
  · exact absurd (hcell.symm.trans hready) nofun
  · cases hcell.symm.trans hfill
    exact absurd (hu.symm.trans hu') (by simp)

end

/-! ### The invariant -/

/-- No flow of the target is pending. -/
def State.Calm (s : State) (key : FlowId → FlowKey) (k : FlowKey) : Prop :=
  ∀ flow < s.shared.nextFlow, key flow = k → ¬s.Pending flow

/-- A task that makes a flow uses the preferred index. -/
def TaskPc.Creates (addresses : List SocketAddr) (preferred : Option ℕ) (calm : Prop) : TaskPc → Prop
  | .choosing _ answer => answer = addresses
  | .binding _ answer first offset =>
    answer = addresses ∧ offset = 0 ∧ first = preferred.getD 0 % addresses.length ∧ calm
  | .remembering _ answer index => answer = addresses ∧ index = preferred.getD 0 % addresses.length ∧ calm
  | .spawning _ answer index => answer = addresses ∧ index < addresses.length ∧ preferred = some index ∧ calm
  | _ => True

/-- The last flow made for the target is the only pending one, and what the notes
say of it gives the preferred index. -/
structure Rotation (k : FlowKey) (addresses : List SocketAddr) (key : FlowId → FlowKey) (notes : List Note)
    (s : State) : Prop where
  made : ∀ flow index, (flow, index) ∈ created k notes →
    flow < s.shared.nextFlow ∧ key flow = k ∧ index < addresses.length ∧
      addresses[index]? = some (s.shared.flows flow).socket ∧ (s.shared.flows flow).addressIndex = index ∧
      (s.shared.flows flow).addressCount = addresses.length
  pending : ∀ flow < s.shared.nextFlow, key flow = k → s.Pending flow →
    ∃ index, (created k notes).getLast? = some (flow, index)
  preferred : ∀ flow index, (created k notes).getLast? = some (flow, index) →
    s.shared.preferred k = some ((Life.of flow notes).next index addresses.length)
  bound : created k notes ≠ [] → (s.shared.association k.1).endpoint ≠ none
  tasks : ∀ id t, s.tasks.lookup id = some t → t.key = k →
    t.pc.Creates addresses (s.shared.preferred k) (s.Calm key k)

theorem created_append (k : FlowKey) (notes : List Note) (n : Note) :
    created k (notes ++ [n]) = created k notes ++ (n.created? k).toList := by
  unfold created
  rw [List.filterMap_append]
  cases h : n.created? k <;> simp [h]

theorem created_other {notes : List Note} {n : Note} (h : ∀ flow index, n ≠ .created k flow index) :
    created k (notes ++ [n]) = created k notes := by
  have hnone : n.created? k = none := by
    cases n with
    | created k' flow index =>
      have hne : k' ≠ k := by
        rintro rfl
        exact h flow index rfl
      exact if_neg hne
    | _ => rfl
  rw [created_append, hnone]
  exact List.append_nil _

theorem created_new (k : FlowKey) (notes : List Note) (flow : FlowId) (index : ℕ) :
    created k (notes ++ [.created k flow index]) = created k notes ++ [(flow, index)] := by
  have hsome : (Note.created k flow index).created? k = some (flow, index) := if_pos rfl
  rw [created_append, hsome]
  rfl

theorem Life.next_lt {l : Life} {index count : ℕ} (h : index < count) : l.next index count < count := by
  unfold next
  split
  · exact Nat.mod_lt _ (by omega)
  · exact h

theorem Life.next_congr {l l' : Life} (h : l'.advanced = l.advanced) (index count : ℕ) :
    l'.next index count = l.next index count := by
  unfold next
  rw [h]

theorem Receiver.note_ne_created {flow flow' : FlowId} {index : ℕ} (r : Receiver)
    {input : ReceiverInput} {s : Shared} : r.note flow input s ≠ .created k flow' index := by
  unfold Receiver.note
  split
  · exact nofun
  · split
    · split <;> exact nofun
    · exact nofun
    · split <;> exact nofun

theorem Life.advanced_note {flow : FlowId} (l : Life) {n : Note} (h : n ≠ .advanced flow) :
    (l.note flow n).advanced = l.advanced := by
  cases n with
  | arrived | left | ended =>
    dsimp only [note]
    split <;> rfl
  | advanced flow' =>
    have hne : flow' ≠ flow := by
      rintro rfl
      exact h rfl
    dsimp only [note]
    rw [if_neg hne]
  | other | created => rfl

theorem Life.next_append {flow : FlowId} {notes : List Note} {n : Note} (h : n ≠ .advanced flow) (index count : ℕ) :
    (Life.of flow (notes ++ [n])).next index count = (Life.of flow notes).next index count := by
  rw [Life.of_append]
  exact Life.next_congr (Life.advanced_note _ h) index count

namespace Rotation
variable {key key' : FlowId → FlowKey} {owner : SlotId → FlowKey} {notes : List Note}

theorem initial : Rotation k addresses key [] .initial where
  made := nofun
  pending _ h := absurd h (Nat.not_lt_zero _)
  preferred := nofun
  bound h := absurd rfl h
  tasks := nofun

/-- A step that makes no flow for the target. -/
theorem kept (h : Rotation k addresses key notes s) {input : Input} (hs : s.step config input = some (e, s'))
    {n : Note} (hkey : ∀ flow < s.shared.nextFlow, key' flow = key flow)
    (hnew : ∀ flow < s'.shared.nextFlow, key' flow = k → flow < s.shared.nextFlow)
    (hnote : ∀ flow index, n ≠ .created k flow index)
    (hbound : (s.shared.association k.1).endpoint ≠ none → (s'.shared.association k.1).endpoint ≠ none)
    (hpreferred : ∀ flow index, (created k notes).getLast? = some (flow, index) →
      s'.shared.preferred k = some ((Life.of flow (notes ++ [n])).next index addresses.length))
    (htasks : (s.Calm key k → s'.Calm key' k) → ∀ id t, s'.tasks.lookup id = some t → t.key = k →
      t.pc.Creates addresses (s'.shared.preferred k) (s'.Calm key' k)) :
    Rotation k addresses key' (notes ++ [n]) s' := by
  have hcalm : s.Calm key k → s'.Calm key' k := by
    intro hcalm flow hlt hflow hpending
    have hold := hnew flow hlt hflow
    exact hcalm flow hold ((hkey flow hold).symm.trans hflow) (pending_step hs hold hpending)
  have hcreated : created k (notes ++ [n]) = created k notes := created_other hnote
  refine ⟨fun flow index hmem => ?_, fun flow hlt hflow hpending => ?_, fun flow index hlast => ?_, fun hne => ?_,
    htasks hcalm⟩
  · rw [hcreated] at hmem
    obtain ⟨hlt, hflow, hindex, hsocket, haddress, hcount⟩ := h.made flow index hmem
    obtain ⟨hlt', hsame⟩ := State.sameAddress_step hs hlt
    exact ⟨hlt', (hkey flow hlt).trans hflow, hindex, hsame.1 ▸ hsocket, hsame.2.1.trans haddress,
      hsame.2.2.trans hcount⟩
  · have hold := hnew flow hlt hflow
    rw [hcreated]
    exact h.pending flow hold ((hkey flow hold).symm.trans hflow) (pending_step hs hold hpending)
  · rw [hcreated] at hlast
    exact hpreferred flow index hlast
  · rw [hcreated] at hne
    exact hbound (h.bound hne)

/-- The clause for a task that makes no flow. -/
theorem creates_idle {pc : TaskPc} (h : ∀ slot, pc.role ≠ .filling slot) (preferred : Option ℕ) (calm : Prop) :
    pc.Creates addresses preferred calm := by
  cases pc with
  | binding slot | remembering slot | spawning slot | choosing slot => exact absurd rfl (h slot)
  | _ => trivial

/-- The clause for a task that is left where it is. -/
theorem creates_kept {s' : State} {pc : TaskPc} (h : pc.Creates addresses (s.shared.preferred k) (s.Calm key k))
    (hcalm : s.Calm key k → s'.Calm key' k)
    (hpreferred : s'.shared.preferred k = s.shared.preferred k ∨ ¬s.Calm key k) :
    pc.Creates addresses (s'.shared.preferred k) (s'.Calm key' k) := by
  rcases hpreferred with heq | hbusy
  · rw [heq]
    cases pc with
    | binding => exact ⟨h.1, h.2.1, h.2.2.1, hcalm h.2.2.2⟩
    | remembering => exact ⟨h.1, h.2.1, hcalm h.2.2⟩
    | spawning => exact ⟨h.1, h.2.1, h.2.2.1, hcalm h.2.2.2⟩
    | choosing => exact h
    | _ => trivial
  · cases pc with
    | binding => exact absurd h.2.2.2 hbusy
    | remembering => exact absurd h.2.2 hbusy
    | spawning => exact absurd h.2.2.2 hbusy
    | choosing => exact h
    | _ => trivial

/-- The last flow of the target, when a pending flow of the target is known. -/
theorem last_of_pending (h : Rotation k addresses key notes s) {flow : FlowId} (hlt : flow < s.shared.nextFlow)
    (hflow : key flow = k) (hpending : s.Pending flow) {last : FlowId} {index : ℕ}
    (hlast : (created k notes).getLast? = some (last, index)) : last = flow := by
  obtain ⟨index', hlast'⟩ := h.pending flow hlt hflow hpending
  rw [hlast] at hlast'
  cases hlast'
  rfl

/-- The index behind the last flow, once it is advanced. -/
theorem advanced_last (h : Rotation k addresses key notes s) (hn : 2 ≤ addresses.length) {last : FlowId} {index : ℕ}
    (hlast : (created k notes).getLast? = some (last, index)) :
    (s.shared.flows last).advanced?.or (s.shared.preferred k) =
      some ((Life.of last (notes ++ [.advanced last])).next index addresses.length) := by
  obtain ⟨-, -, -, -, haddress, hcount⟩ := h.made last index (List.mem_of_getLast? hlast)
  have hadvanced : ((Life.of last notes).note last (.advanced last)).advanced = true := by
    dsimp only [Life.note]
    rw [if_pos rfl]
  rw [Life.of_append, Life.next, if_pos hadvanced, Flow.advanced?, haddress, hcount, if_pos (by omega)]
  rfl

theorem other (h : Rotation k addresses key notes s) (hf : Followed config owner key notes s) {input : Input}
    (hs : s.step config input = some (e, s')) (htask : ∀ id i, input ≠ .task id i)
    (hreceiver : ∀ flow i, input ≠ .receiver flow i) (hkey : ∀ flow < s.shared.nextFlow, key' flow = key flow) :
    Rotation k addresses key' (notes ++ [.other]) s' := by
  obtain ⟨events, hreached⟩ := hf.reached
  obtain ⟨hc, ht⟩ := traced_of_reaches hreached
  have hsame := State.sameFlows_step hs htask hreceiver
  have hpreferred : (s.shared.association k.1).endpoint ≠ none → s'.shared.preferred k = s.shared.preferred k :=
    fun hend => by rw [Shared.preferred, (State.tables_step hc hs htask hreceiver hend).2, Shared.preferred]
  refine h.kept hs hkey (fun flow hlt _ => hsame.nextFlow ▸ hlt) (by simp) (endpoint_kept hreached hs)
    (fun flow index hlast => ?_) fun hcalm id t hlookup hflow => ?_
  · have hne : created k notes ≠ [] := by
      intro hnil
      rw [hnil] at hlast
      cases hlast
    rw [hpreferred (h.bound hne), h.preferred flow index hlast, Life.of_append]
    rfl
  · rcases hsame.tasks id t hlookup with hold | hstart
    · have hend : (s.shared.association k.1).endpoint ≠ none := by
        have hbound := Tabled.bound_of_task ht hold
        rwa [← hflow]
      exact creates_kept (h.tasks id t hold hflow) hcalm (.inl (hpreferred hend))
    · rw [hstart]
      trivial

theorem receiverStep (h : Rotation k addresses key notes s) (hf : Followed config owner key notes s)
    (hn : 2 ≤ addresses.length) {flow : FlowId} {input : ReceiverInput}
    (hs : s.step config (.receiver flow input) = some (e, s')) (hok : Steady k addresses s (.receiver flow input))
    (hkey : ∀ flow < s.shared.nextFlow, key' flow = key flow) :
    Rotation k addresses key' (notes ++ [s.note (.receiver flow input)]) s' := by
  obtain ⟨events, hreached⟩ := hf.reached
  have hend := fun hbefore => @endpoint_kept config events s s' e hreached (.receiver flow input) hs k.1 hbefore
  have hwhole := hs
  obtain ⟨r, result, hr, hmove, rfl⟩ := State.receiver_moves hs
  have hroom : r.pc = .advancing → r.association = k.1 → s.shared.Room r.association r.target := by
    dsimp only [Steady] at hok
    rw [hr] at hok
    exact hok
  obtain ⟨hlt, hflow⟩ := hf.keyed.receivers flow r hr
  have hnote : s.note (.receiver flow input) = r.note flow input s.shared := by
    rw [State.note, hr]
    rfl
  have hadvanced := r.note_advanced flow input s.shared
  have hpreferred : result.shared.preferred k = if r.key = k ∧ r.pc = .advancing then
      (s.shared.flows flow).advanced?.or (s.shared.preferred k) else s.shared.preferred k := hmove.preferred hroom
  rw [hnote]
  refine h.kept hwhole hkey (fun flow' hlt' _ => hlt'.trans_eq hmove.nextFlow) (fun _ _ => r.note_ne_created) hend
    (fun last index hlast => ?_) fun hcalm id t hlookup hown => creates_kept (h.tasks id t hlookup hown) hcalm ?_
  · rw [hpreferred]
    by_cases hadv : r.key = k ∧ r.pc = .advancing
    · -- the receiver advances the last flow
      have hlast' := h.last_of_pending hlt (hflow.trans hadv.1) (.inr ⟨none, r, hr, hadv.2⟩) hlast
      have heq : r.note flow input s.shared = .advanced last := by
        simp [Receiver.note, Receiver.exit?, hadv.2, hlast']
      rw [if_pos hadv, heq, ← hlast']
      exact h.advanced_last hn hlast
    · have hne : r.note flow input s.shared ≠ .advanced last := by
        intro heq
        rw [heq] at hadvanced
        split at hadvanced
        · rename_i hpc
          cases hadvanced
          exact hadv ⟨hflow.symm.trans (h.made _ _ (List.mem_of_getLast? hlast)).2.1, hpc⟩
        · cases hadvanced
      rw [if_neg hadv, Life.next_append hne]
      exact h.preferred last index hlast
  · by_cases hadv : r.key = k ∧ r.pc = .advancing
    · exact .inr fun hcalm => hcalm flow hlt (hflow.trans hadv.1) (.inr ⟨none, r, hr, hadv.2⟩)
    · exact .inl (hpreferred.trans (if_neg hadv))

/-- No flow of the target is pending when the index for the next one is read. -/
theorem calm_of_settled (hf : Followed config owner key notes s) {id : ℕ} {t : PacketTask} {slot : SlotId}
    (ht : s.tasks.lookup id = some t) (hrole : t.pc.role = .filling slot) (hown : t.key = k) (hsettled : s.Settled k) :
    s.Calm key k := by
  intro flow hlt hflow hpending
  rcases hpending with hactive | ⟨p, hp⟩
  · obtain ⟨g, hg, -⟩ := hf.tabled.sound.items flow hactive
    obtain ⟨r, hr, -⟩ := guards_some.mp hg
    have hkey : r.key = t.key := by rw [← (hf.keyed.receivers flow r hr).2, hflow, hown]
    have hinactive := inactive_of_filling hf.tabled.sound ht hrole hr hkey
    rw [hinactive] at hactive
    cases hactive
  · cases p with
    | none =>
      obtain ⟨r, hr, hpc⟩ := hp
      have hmem : ⟨flow, r⟩ ∈ s.receivers.entries := AList.mem_lookup_iff.mp hr
      exact hsettled.2 _ hmem ((hf.keyed.receivers flow r hr).2.symm.trans hflow) hpc
    | some id' =>
      obtain ⟨t', ht', hpc⟩ := hp
      have hmem : ⟨id', t'⟩ ∈ s.tasks.entries := AList.mem_lookup_iff.mp ht'
      have hflow' : t'.pc.flow? = some flow := by
        cases hpc' : t'.pc <;> rw [hpc'] at hpc <;> cases hpc
        rfl
      have hnone := hsettled.1 _ hmem ((hf.keyed.tasks id' t' flow ht' hflow').2.symm.trans hflow)
      rw [hpc] at hnone
      cases hnone

/-- What a task that makes a flow comes to with its next step. -/
theorem creates_step (h : Rotation k addresses key notes s) (hf : Followed config owner key notes s)
    (hn : 2 ≤ addresses.length) {id permits : ℕ} {t t' : PacketTask} {input : TaskInput} {r : TaskStep} {s' : State}
    (hlookup : s.tasks.lookup id = some t) (hown : t.key = k) (hok : t.Steady k addresses input s)
    (hmove : t.Moves id permits s.shared t.pc input r) (ht' : r.task = some t')
    (hcalm : s.Calm key k → s'.Calm key' k)
    (hpreferred : s'.shared.preferred k = (t.pc.remembers? s.shared).or (s.shared.preferred k)) :
    t'.pc.Creates addresses (s'.shared.preferred k) (s'.Calm key' k) := by
  have hcreates := h.tasks id t hlookup hown
  have hkeyed : (t.association, t.target) = k := hown
  generalize hpc : t.pc = pc at hmove
  unfold PacketTask.Steady at hok
  rw [hpc] at hok
  rw [hpc] at hcreates hpreferred
  cases hmove with
  | resolve hanswer =>
    cases ht'
    dsimp only at hok
    rw [hanswer] at hok
    exact hok hown
  | @choose slot answer =>
    cases ht'
    obtain rfl : _ = addresses := hcreates
    have heq : ((s.shared.association t.association).preferredAddresses.lookup t.target) = s'.shared.preferred k := by
      rw [hpreferred, ← hkeyed]
      rfl
    have hfill : t.pc.role = .filling slot := by
      rw [hpc]
      rfl
    exact ⟨rfl, rfl, by rw [heq], hcalm (calm_of_settled hf hlookup hfill hown (hok hown))⟩
  | bind hlt =>
    cases ht'
    obtain ⟨rfl, rfl, rfl, hquiet⟩ := hcreates
    dsimp only
    rw [if_pos (by omega), Nat.add_zero, Nat.mod_mod]
    exact ⟨rfl, by rw [hpreferred]; rfl, hcalm hquiet⟩
  | unbindable => exact absurd (hok hown) nofun
  | remember =>
    cases ht'
    obtain ⟨rfl, rfl, hquiet⟩ := hcreates
    exact ⟨rfl, Nat.mod_lt _ (by omega), hpreferred, hcalm hquiet⟩
  | dead | refused | discard | giveUp | abandon | done | last => cases ht'
  | send | deactivate =>
    cases ht'
    dsimp only
    split <;> trivial
  | _ =>
    cases ht'
    trivial

/-- A task makes a flow for the target. -/
theorem spawnStep (h : Rotation k addresses key notes s) (hf : Followed config owner key notes s) {id : ℕ}
    {t : PacketTask} {slot : SlotId} {answer : List SocketAddr} {index : ℕ} {input : TaskInput}
    (hlookup : s.tasks.lookup id = some t) (hown : t.key = k) (hpc : t.pc = .spawning slot answer index)
    (hs : s.step config (.task id input) = some (e, s')) {owner' : SlotId → FlowKey} {notes' : List Note}
    (hf' : Followed config owner' key' notes' s') (hkey : ∀ flow < s.shared.nextFlow, key' flow = key flow) :
    Rotation k addresses key' (notes ++ [.created k s.shared.nextFlow index]) s' := by
  obtain ⟨events, hreached⟩ := hf.reached
  have hend := endpoint_kept hreached hs
    (Tabled.bound_of_task (traced_of_reaches hreached).2 hlookup)
  have hwhole := hs
  obtain ⟨t', r, hlookup', hmove, -, hs'⟩ := State.task_moves hs
  obtain rfl : t = t' := Option.some.inj (hlookup.symm.trans hlookup')
  have hcreates := h.tasks id t hlookup hown
  rw [hpc] at hcreates hmove
  obtain ⟨rfl, hindex, hpreferred, hcalm⟩ := hcreates
  have hsame := hmove.preferred (k := k) nofun
  cases hmove with
  | @spawn _ _ _ destination hdestination =>
    have hflow : s'.shared.flows s.shared.nextFlow =
        ⟨destination, s.shared.now, true, false, index, answer.length⟩ := by
      rw [hs']
      exact Function.update_self _ _ _
    have hnext : s'.shared.nextFlow = s.shared.nextFlow + 1 := by
      rw [hs']
      rfl
    have htask : s'.tasks.lookup id = some { t with pc := .completing slot (some s.shared.nextFlow) } := by
      rw [hs']
      exact (Dict.lookup_update_eq _ _ _ _).trans (if_pos rfl)
    have hnew : key' s.shared.nextFlow = k := (hf'.keyed.tasks id _ s.shared.nextFlow htask rfl).2.trans hown
    have hlife : Life.of s.shared.nextFlow (notes ++ [.created k s.shared.nextFlow index]) = .start := by
      rw [Life.of_append, (hf.lived s.shared.nextFlow).unborn (le_refl _)]
      rfl
    refine ⟨fun flow index' hmem => ?_, fun flow hlt hown' hpending => ?_, fun flow index' hlast => ?_, fun _ => ?_,
      fun id' t' ht' hown' => ?_⟩
    · rw [created_new, List.mem_append, List.mem_singleton] at hmem
      rcases hmem with hmem | hmem
      · obtain ⟨hlt, hown', hindex', hsocket, haddress, hcount⟩ := h.made flow index' hmem
        obtain ⟨hlt', hsame'⟩ := State.sameAddress_step hwhole hlt
        exact ⟨hlt', (hkey flow hlt).trans hown', hindex', hsame'.1 ▸ hsocket, hsame'.2.1.trans haddress,
          hsame'.2.2.trans hcount⟩
      · cases hmem
        rw [hflow, hnext]
        exact ⟨Nat.lt_succ_self _, hnew, hindex, hdestination, rfl, rfl⟩
    · rw [created_new, List.getLast?_concat]
      rw [hnext] at hlt
      rcases Nat.lt_succ_iff_lt_or_eq.mp hlt with hlt | rfl
      · exact absurd (pending_step hwhole hlt hpending) (hcalm flow hlt ((hkey flow hlt).symm.trans hown'))
      · exact ⟨index, rfl⟩
    · rw [created_new, List.getLast?_concat] at hlast
      cases hlast
      rw [hlife, hs']
      exact hsame.trans ((ite_self _).trans hpreferred)
    · rwa [← hown]
    · by_cases hid : id' = id
      · rw [hid, htask] at ht'
        cases ht'
        trivial
      · have hold : s.tasks.lookup id' = some t' := by
          rw [hs'] at ht'
          exact (((Dict.lookup_update_eq _ _ _ _).trans (if_neg hid)).symm.trans ht')
        refine creates_idle (fun slot' hrole => hid ?_) _ _
        exact filling_unique hf.tabled.sound hold hlookup (hown'.trans hown.symm) hrole (by rw [hpc]; rfl)

/-- A task that makes no flow for the target. -/
theorem taskKept (h : Rotation k addresses key notes s) (hf : Followed config owner key notes s)
    (hn : 2 ≤ addresses.length) {id : ℕ} {input : TaskInput} {t : PacketTask}
    (hlookup : s.tasks.lookup id = some t) (hspawn : t.key = k → ∀ slot answer index, t.pc ≠ .spawning slot answer index)
    (hs : s.step config (.task id input) = some (e, s')) (hok : t.Steady k addresses input s)
    {owner' : SlotId → FlowKey} {notes' : List Note} (hf' : Followed config owner' key' notes' s')
    (hkey : ∀ flow < s.shared.nextFlow, key' flow = key flow) :
    Rotation k addresses key' (notes ++ [t.note s.shared]) s' := by
  obtain ⟨events, hreached⟩ := hf.reached
  have hwhole := hs
  obtain ⟨t₀, r, hlookup₀, hmove, -, hs'⟩ := State.task_moves hs
  obtain rfl : t = t₀ := Option.some.inj (hlookup.symm.trans hlookup₀)
  have hshared : s'.shared = r.shared := by rw [hs']
  have htasks : ∀ id' t', s'.tasks.lookup id' = some t' →
      id' = id ∧ r.task = some t' ∨ id' ≠ id ∧ s.tasks.lookup id' = some t' := by
    intro id' t' ht'
    rw [hs'] at ht'
    dsimp only at ht'
    rw [Dict.lookup_update_eq] at ht'
    split at ht'
    · exact .inl ⟨‹_›, ht'⟩
    · exact .inr ⟨‹_›, ht'⟩
  have hpreferred : s'.shared.preferred k =
      if t.key = k then (t.pc.remembers? s.shared).or (s.shared.preferred k) else s.shared.preferred k := by
    rw [hshared]
    exact hmove.preferred hok.room
  have hnew : ∀ flow < s'.shared.nextFlow, key' flow = k → flow < s.shared.nextFlow := by
    intro flow hlt hflow
    rw [hshared] at hlt
    rcases hmove.flow_lt hlt with hlt | ⟨rfl, slot, answer, index, hpc⟩
    · exact hlt
    · rw [hpc] at hmove
      cases hmove
      have htask : s'.tasks.lookup id = some { t with pc := .completing slot (some s.shared.nextFlow) } := by
        rw [hs']
        exact (Dict.lookup_update_eq _ _ _ _).trans (if_pos rfl)
      have hown : t.key = k := (hf'.keyed.tasks id _ s.shared.nextFlow htask rfl).2.symm.trans hflow
      exact absurd hpc (hspawn hown slot answer index)
  have hnote : ∀ flow index, t.note s.shared ≠ .created k flow index := by
    intro flow index heq
    unfold PacketTask.note at heq
    split at heq
    · rename_i hpc
      injection heq with hown
      exact hspawn hown _ _ _ hpc
    · split at heq <;> cases heq
    · cases heq
    · cases heq
  -- the flow that the task is about to advance
  have hadvancing : ∀ flow, t.pc.advances? = some flow →
      flow < s.shared.nextFlow ∧ key flow = t.key ∧ s.Pending flow := by
    intro flow hadv
    have hflow : t.pc.flow? = some flow := by
      cases hpc : t.pc <;> rw [hpc] at hadv <;> cases hadv
      rfl
    obtain ⟨hlt, hkey⟩ := hf.keyed.tasks id t flow hlookup hflow
    exact ⟨hlt, hkey, .inr ⟨some id, t, hlookup, hadv⟩⟩
  refine h.kept hwhole hkey hnew hnote (endpoint_kept hreached hwhole) (fun last index hlast => ?_)
    fun hcalm id' t' ht' hown' => ?_
  · obtain ⟨-, hlastkey, hindex, -⟩ := h.made last index (List.mem_of_getLast? hlast)
    have hold := h.preferred last index hlast
    by_cases hadv : t.key = k ∧ ∃ flow, t.pc.advances? = some flow
    · obtain ⟨hown, flow, hadv⟩ := hadv
      obtain ⟨hlt, hflow, hpending⟩ := hadvancing flow hadv
      obtain rfl := h.last_of_pending hlt (hflow.trans hown) hpending hlast
      rw [hpreferred, if_pos hown]
      cases hpc : t.pc <;> rw [hpc] at hadv <;> cases hadv
      have heq : t.note s.shared = .advanced last := by rw [PacketTask.note, hpc]
      rw [heq]
      exact h.advanced_last hn hlast
    · have hne : t.note s.shared ≠ .advanced last := by
        intro heq
        have hadv' := t.note_advanced s.shared
        rw [heq] at hadv'
        obtain ⟨-, hflow, -⟩ := hadvancing last hadv'.symm
        exact hadv ⟨hflow.symm.trans hlastkey, last, hadv'.symm⟩
      rw [Life.next_append hne, hpreferred]
      split
      · rename_i hown
        cases hpc : t.pc with
        | remembering slot answer index' =>
          -- the index that is remembered is the preferred one
          have hcreates := h.tasks id t hlookup hown
          rw [hpc] at hcreates
          obtain ⟨-, rfl, -⟩ := hcreates
          rw [hold]
          exact congrArg some (Nat.mod_eq_of_lt (Life.next_lt hindex))
        | advancing slot flow =>
          exact absurd ⟨hown, flow, by rw [hpc]; rfl⟩ hadv
        | _ => exact hold
      · exact hold
  · rcases htasks id' t' ht' with ⟨rfl, htask⟩ | ⟨hne, hother⟩
    · have hown : t.key = k := by
        obtain ⟨ha, htarget, -⟩ := hmove.packet htask
        rw [← hown', PacketTask.key, PacketTask.key, ha, htarget]
      rw [if_pos hown] at hpreferred
      exact h.creates_step hf hn hlookup hown hok hmove htask hcalm hpreferred
    · by_cases hown : t.key = k
      · rw [if_pos hown] at hpreferred
        cases hpc : t.pc with
        | remembering slot answer index =>
          refine creates_idle (fun slot' hrole => hne ?_) _ _
          exact filling_unique hf.tabled.sound hother hlookup (hown'.trans hown.symm) hrole (by rw [hpc]; rfl)
        | advancing slot flow =>
          obtain ⟨hlt, hflow, hpending⟩ := hadvancing flow (by rw [hpc]; rfl)
          exact creates_kept (h.tasks id' t' hother hown') hcalm
            (.inr fun hquiet => hquiet flow hlt (hflow.trans hown) hpending)
        | _ =>
          rw [hpc] at hpreferred
          exact creates_kept (h.tasks id' t' hother hown') hcalm (.inl hpreferred)
      · rw [if_neg hown] at hpreferred
        exact creates_kept (h.tasks id' t' hother hown') hcalm (.inl hpreferred)

/-- What one step of the server preserves. -/
theorem step (h : Rotation k addresses key notes s) (hf : Followed config owner key notes s)
    (hn : 2 ≤ addresses.length) {input : Input} (hs : s.step config input = some (e, s'))
    (hok : Steady k addresses s input) {owner' : SlotId → FlowKey}
    (hf' : Followed config owner' key' (notes ++ [s.note input]) s')
    (hkey : ∀ flow < s.shared.nextFlow, key' flow = key flow) :
    Rotation k addresses key' (notes ++ [s.note input]) s' := by
  cases input with
  | receiver flow input => exact h.receiverStep hf hn hs hok hkey
  | task id input =>
    obtain ⟨t, r, hlookup, -, -, -⟩ := State.task_moves hs
    have hnote : s.note (.task id input) = t.note s.shared := by
      rw [State.note, hlookup]
      rfl
    dsimp only [Steady] at hok
    rw [hlookup] at hok
    rw [hnote] at hf' ⊢
    by_cases hspawn : t.key = k ∧ ∃ slot answer index, t.pc = .spawning slot answer index
    · obtain ⟨hown, slot, answer, index, hpc⟩ := hspawn
      have hnote' : t.note s.shared = .created k s.shared.nextFlow index := by rw [PacketTask.note, hpc, hown]
      rw [hnote'] at hf' ⊢
      exact h.spawnStep hf hlookup hown hpc hs hf' hkey
    · exact h.taskKept hf hn hlookup (fun hown slot answer index hpc => hspawn ⟨hown, slot, answer, index, hpc⟩) hs
        hok hf' hkey
  | _ => exact h.other hf hs (by simp) (by simp) hkey

end Rotation

theorem rotation_of_reaches (hn : 2 ≤ addresses.length) {notes : List Note}
    (h : System.Reaches (rotating config k addresses) .initial notes s) :
    ∃ owner key, Followed config owner key notes s ∧ Rotation k addresses key notes s := by
  induction h with
  | start => exact ⟨fun _ => k, fun _ => k, .initial _ _, .initial⟩
  | step _ hi ih =>
    obtain ⟨owner, key, hf, hr⟩ := ih
    obtain ⟨hok, hi⟩ := System.restrict_some.mp hi
    obtain ⟨rfl, e, hs⟩ := System.observed_some.mp hi
    obtain ⟨owner', key', -, hkey, hf'⟩ := hf.step hs
    exact ⟨owner', key', hf', hr.step hf hn hs hok hf' hkey⟩

/-! ### Consecutive flows -/

/-- The flow has ended for a cause that the next address is for. -/
def Unanswered (notes : List Note) (flow : FlowId) : Prop :=
  ∃ cause, (Life.of flow notes).cause = some cause ∧ cause.advances = true

/-- A flow behind another one of its target uses the index that the end of that flow gives. -/
theorem next_index (hn : 2 ≤ addresses.length) {before between after : List Note} {flow flow' : FlowId}
    {index index' : ℕ}
    (h : System.Reaches (rotating config k addresses) .initial
      (before ++ .created k flow index :: between ++ .created k flow' index' :: after) s)
    (hbetween : created k between = []) :
    ∃ cause, (Life.of flow (before ++ .created k flow index :: between)).cause = some cause ∧
      index' = if cause.advances then (index + 1) % addresses.length else index := by
  obtain ⟨t, input, t', hreaches, hstep, -⟩ := h.split
  obtain ⟨owner, key, hf, hr⟩ := rotation_of_reaches hn hreaches
  have hlast : (created k (before ++ .created k flow index :: between)).getLast? = some (flow, index) := by
    have hsome : (Note.created k flow index).created? k = some (flow, index) := if_pos rfl
    unfold created at hbetween ⊢
    rw [List.filterMap_append, List.filterMap_cons_some hsome, hbetween, List.getLast?_concat]
  obtain ⟨-, hstep⟩ := System.restrict_some.mp hstep
  obtain ⟨hnote, e, hs⟩ := System.observed_some.mp hstep
  -- the step is the one of the task that makes the flow
  have hcreates : t.shared.preferred k = some index' ∧ t.Calm key k := by
    cases input with
    | task id input =>
      obtain ⟨task, hlookup, hnote⟩ : ∃ task, t.tasks.lookup id = some task ∧
          .created k flow' index' = task.note t.shared := by
        obtain ⟨task, r, hlookup, -⟩ := State.task_moves hs
        rw [State.note, hlookup] at hnote
        exact ⟨task, hlookup, hnote⟩
      unfold PacketTask.note at hnote
      split at hnote
      · rename_i hpc
        injection hnote with hown _ hindex
        have hcreates := hr.tasks id task hlookup hown.symm
        rw [hpc, ← hindex] at hcreates
        exact hcreates.2.2
      · split at hnote <;> cases hnote
      · cases hnote
      · cases hnote
    | receiver flow input =>
      obtain ⟨r, -, hlookup, -⟩ := State.receiver_moves hs
      rw [State.note, hlookup] at hnote
      exact absurd hnote.symm r.note_ne_created
    | _ => cases hnote
  obtain ⟨hpreferred, hcalm⟩ := hcreates
  obtain ⟨hlt, hflow, -⟩ := hr.made flow index (List.mem_of_getLast? hlast)
  have hidle := hcalm flow hlt hflow
  obtain ⟨cause, hcause, hadvances⟩ := (hf.lived flow).ended hlt
    (Bool.eq_false_of_not_eq_true fun hactive => hidle (.inl hactive))
  refine ⟨cause, hcause, ?_⟩
  have hnext := (hr.preferred flow index hlast).symm.trans hpreferred
  rw [Life.next] at hnext
  have hiff : cause.advances = true ↔
      (Life.of flow (before ++ .created k flow index :: between)).advanced = true :=
    hadvances.trans (or_iff_right fun hp => hidle (.inr hp))
  by_cases hadvanced : (Life.of flow (before ++ .created k flow index :: between)).advanced = true
  · rw [if_pos hadvanced] at hnext
    rw [if_pos (hiff.mpr hadvanced)]
    exact (Option.some.inj hnext).symm
  · rw [if_neg hadvanced] at hnext
    rw [if_neg fun h => hadvanced (hiff.mp h)]
    exact (Option.some.inj hnext).symm

/-- The same for neighbours in the list of the flows. -/
theorem next_created (hn : 2 ≤ addresses.length) {notes : List Note}
    (h : System.Reaches (rotating config k addresses) .initial notes s) {pre post : List (FlowId × ℕ)}
    {x y : FlowId × ℕ} (hcreated : created k notes = pre ++ x :: y :: post) :
    ∃ cause, (Life.of x.1 notes).cause = some cause ∧
      y.2 = if cause.advances then (x.2 + 1) % addresses.length else x.2 := by
  have hnote : ∀ {n : Note} {x : FlowId × ℕ}, n.created? k = some x → n = .created k x.1 x.2 := by
    intro n x hx
    unfold Note.created? at hx
    split at hx
    · split at hx <;> cases hx
      rename_i heq
      rw [heq]
    · cases hx
  obtain ⟨before, rest, rfl, -, hrest⟩ := List.filterMap_eq_append_iff.mp hcreated
  obtain ⟨skipped, nx, rest, rfl, -, hx, hrest⟩ := List.filterMap_eq_cons_iff.mp hrest
  obtain ⟨between, ny, after, rfl, hbetween, hy, -⟩ := List.filterMap_eq_cons_iff.mp hrest
  obtain rfl := hnote hx
  obtain rfl := hnote hy
  have hnil : created k between = [] := List.filterMap_eq_nil_iff.mpr hbetween
  have hsplit : before ++ (skipped ++ Note.created k x.1 x.2 :: (between ++ Note.created k y.1 y.2 :: after)) =
      (before ++ skipped) ++ Note.created k x.1 x.2 :: between ++ Note.created k y.1 y.2 :: after := by
    simp
  rw [hsplit] at h ⊢
  obtain ⟨cause, hcause, hindex⟩ := next_index hn h hnil
  exact ⟨cause, Life.cause_append hcause _, hindex⟩

theorem count_advanced (notes : List Note) (flow : FlowId) :
    notes.count (.advanced flow) = (notes.map Note.advanced?).count (some flow) := by
  unfold List.count
  rw [List.countP_map]
  refine List.countP_congr fun n _ => ?_
  cases n <;> simp [Note.advanced?]

/-- In every run in which the target always resolves to the same bindable addresses,
each of its flows uses the address at its index; the flow behind one that ended with
a failed send, a receive error or idle without a reply uses the next index, behind
any other end the same one; so consecutive flows without an answer go around the
addresses; and no flow advances the index twice. -/
theorem address_rotation (config : Config) (k : FlowKey) (addresses : List SocketAddr) (hn : 2 ≤ addresses.length)
    {notes : List Note} {s : State} (h : System.Reaches (rotating config k addresses) .initial notes s) :
    (∀ flow index, (flow, index) ∈ created k notes →
      index < addresses.length ∧ addresses[index]? = some (s.shared.flows flow).socket) ∧
    (∀ before flow index between flow' index' after,
      notes = before ++ .created k flow index :: between ++ .created k flow' index' :: after →
      created k between = [] →
      ∃ cause, (Life.of flow (before ++ .created k flow index :: between)).cause = some cause ∧
        index' = if cause.advances then (index + 1) % addresses.length else index) ∧
    (∀ flows, flows <:+: created k notes → (∀ x ∈ flows.dropLast, Unanswered notes x.1) →
      (∀ j x y, flows[0]? = some x → flows[j]? = some y → y.2 = (x.2 + j) % addresses.length) ∧
        (addresses.length ≤ flows.length → ∀ index < addresses.length, ∃ flow, (flow, index) ∈ flows)) ∧
    ∀ flow, notes.count (.advanced flow) ≤ 1 := by
  obtain ⟨owner, key, hf, hr⟩ := rotation_of_reaches hn h
  refine ⟨fun flow index hmem => ?_, ?_, fun flows hflows hunanswered => ?_, fun flow => ?_⟩
  · obtain ⟨-, -, hindex, hsocket, -⟩ := hr.made flow index hmem
    exact ⟨hindex, hsocket⟩
  · rintro before flow index between flow' index' after rfl hbetween
    exact next_index hn h hbetween
  · obtain ⟨pre, post, hflows⟩ := hflows
    have hindices : ∀ j x y, flows[0]? = some x → flows[j]? = some y → y.2 = (x.2 + j) % addresses.length := by
      intro j x
      induction j with
      | zero =>
        intro y hx hy
        rw [hx] at hy
        cases hy
        have hmem : x ∈ created k notes := by
          rw [← hflows]
          simp [List.mem_of_getElem? hx]
        exact (Nat.mod_eq_of_lt (hr.made x.1 x.2 hmem).2.2.1).symm
      | succ j ih =>
        intro y hx hy
        obtain ⟨hlt, rfl⟩ := List.getElem?_eq_some_iff.mp hy
        have hj : j < flows.length := by omega
        have hprev := ih flows[j] hx (List.getElem?_eq_getElem hj)
        have hsplit : flows = flows.take j ++ flows[j] :: flows[j + 1] :: flows.drop (j + 2) := by
          rw [← List.drop_eq_getElem_cons hlt, ← List.drop_eq_getElem_cons hj, List.take_append_drop]
        have hcreated : created k notes =
            (pre ++ flows.take j) ++ flows[j] :: flows[j + 1] :: (flows.drop (j + 2) ++ post) := by
          have happend := congrArg (fun l => pre ++ l ++ post) hsplit
          rw [← hflows]
          simpa only [List.append_assoc, List.cons_append] using happend
        obtain ⟨cause, hcause, hindex⟩ := next_created hn h hcreated
        have hmem : flows[j] ∈ flows.dropLast := by
          rw [List.mem_iff_getElem?]
          exact ⟨j, by rw [List.getElem?_dropLast, if_pos (by omega), List.getElem?_eq_getElem hj]⟩
        obtain ⟨cause', hcause', hadvances⟩ := hunanswered _ hmem
        cases hcause.symm.trans hcause'
        rw [hindex, if_pos hadvances, hprev, Nat.mod_add_mod]
        rfl
    refine ⟨hindices, fun hlength index hindex => ?_⟩
    have hpos : 0 < flows.length := by omega
    obtain ⟨x, hx⟩ : ∃ x, flows[0]? = some x := ⟨_, List.getElem?_eq_getElem hpos⟩
    have hmem : x ∈ created k notes := by
      rw [← hflows]
      simp [List.mem_of_getElem? hx]
    have hfirst : x.2 < addresses.length := (hr.made x.1 x.2 hmem).2.2.1
    have hj : (index + addresses.length - x.2) % addresses.length < flows.length :=
      (Nat.mod_lt _ (by omega)).trans_le hlength
    obtain ⟨y, hy⟩ : ∃ y, flows[(index + addresses.length - x.2) % addresses.length]? = some y :=
      ⟨_, List.getElem?_eq_getElem hj⟩
    have hback : (x.2 + (index + addresses.length - x.2) % addresses.length) % addresses.length = index := by
      rw [Nat.add_mod_mod, Nat.add_sub_cancel' (by omega), Nat.add_mod_right, Nat.mod_eq_of_lt hindex]
    have hvisit : y.2 = index := (hindices _ x y hx hy).trans hback
    refine ⟨y.1, ?_⟩
    rw [← hvisit]
    exact List.mem_of_getElem? hy
  · rw [count_advanced]
    exact hf.ticketed.once flow

/-- Datagram and task of the next flow to the domain. -/
def nextInputs (id : ℕ) : List Input :=
  [.loop (.received clientRelay [0, 0, 0, 3, 1, 97, 0, 53, 4, 5, 6]), .loop .go, .loop .go] ++
    (TaskInput.go :: spawnInputs).map (.task id)

def sendingInputs : List TaskInput := [.go, .go, .go, .go, .sent true, .go]

/-- A receiver that waits for a datagram. -/
def waitingInputs : List ReceiverInput := [.go, .go, .go]

def replyingInputs : List ReceiverInput := [.datagram (.v4 (.new 198 51 100 2) 53) [7, 8, 9], .go, .go, .go, .go]

/-- A receiver that leaves at its deadline, `advancing` where no reply came. -/
def expiringInputs (advancing : List ReceiverInput) : List ReceiverInput :=
  [.deadlineReached, .go, .go, .go, .go] ++ advancing ++ [.go]

/-- A failed send, a receive error, an expiry without a reply and one behind a
reply, each followed by the next flow to the domain. -/
def rotatingInputs : List Input :=
  domainInputs ++ (failoverInputs ++ sendingInputs).map (.task 0) ++
    (leavingInputs domainKey.2).map (.receiver 1) ++ nextInputs 1 ++ sendingInputs.map (.task 1) ++
    waitingInputs.map (.receiver 2) ++ [.tick 60000000000] ++
    (expiringInputs [.oldest domainKey.2]).map (.receiver 2) ++ nextInputs 2 ++ sendingInputs.map (.task 2) ++
    (waitingInputs ++ replyingInputs ++ waitingInputs).map (.receiver 3) ++ [.tick 60000000000] ++
    (expiringInputs []).map (.receiver 3) ++ nextInputs 3

theorem address_rotation_failover :
    ∃ notes s, System.Reaches (rotating anonymous domainKey domainAddresses) .initial notes s ∧
      created domainKey notes = [(0, 0), (1, 1), (2, 0), (3, 1), (4, 1)] ∧
      (List.range 5).map (fun flow => (Life.of flow notes).cause) =
        [some .sendFailed, some (.left .receiveError false), some (.left .expired false),
          some (.left .expired true), none] ∧
      (∀ index < 2, ∃ flow, (flow, index) ∈ [(0, 0), (1, 1), (2, 0), (3, 1)]) ∧
      ∀ flow, notes.count (.advanced flow) ≤ 1 := by
  have hrun : (((rotating anonymous domainKey domainAddresses).run .initial rotatingInputs).map fun r =>
      decide (created domainKey r.1 = [(0, 0), (1, 1), (2, 0), (3, 1), (4, 1)] ∧
        (List.range 5).map (fun flow => (Life.of flow r.1).cause) =
          [some .sendFailed, some (.left .receiveError false), some (.left .expired false),
            some (.left .expired true), none])) = some true := by
    decide +kernel
  obtain ⟨⟨notes, s⟩, hrun, hnotes⟩ := Option.map_eq_some_iff.mp hrun
  obtain ⟨hcreated, hcauses⟩ := of_decide_eq_true hnotes
  have hreach := System.reaches_of_run hrun
  obtain ⟨-, -, hvisit, honce⟩ := address_rotation anonymous domainKey domainAddresses (by decide) hreach
  -- the fourth flow follows three without an answer
  have hinfix : [(0, 0), (1, 1), (2, 0), (3, 1)] <:+: created domainKey notes := by
    rw [hcreated]
    exact ⟨[], [(4, 1)], rfl⟩
  have hunanswered : ∀ x ∈ [(0, 0), (1, 1), (2, 0), (3, 1)].dropLast, Unanswered notes x.1 := by
    simp only [List.range, List.range.loop, List.map_cons, List.map_nil, List.cons.injEq] at hcauses
    obtain ⟨hsend, herror, hexpired, -⟩ := hcauses
    simp only [List.dropLast, List.forall_mem_cons]
    exact ⟨⟨_, hsend, rfl⟩, ⟨_, herror, rfl⟩, ⟨_, hexpired, rfl⟩, nofun⟩
  exact ⟨notes, s, hreach, hcreated, hcauses, (hvisit _ hinfix hunanswered).2 (by decide), honce⟩

end Brume.Server
