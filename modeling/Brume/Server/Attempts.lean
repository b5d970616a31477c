import Brume.Server.FlowKeys

/-!
# The attempts of a packet task

How often the loop of `handle_udp_packet` goes round, whatever the resolver and
the other tasks do: an iteration sends, or finds the flow inactive, and there is
a limit to both. No step of the loop reduces an index modulo zero.
-/

namespace Brume.Server
open Lib

variable {config : Config} {s s' : State} {e : Event} {N id : ℕ}

theorem lookup_ne_nil {lookupIp : Except IoError (List IpAddr)} {target : Target} {addresses : List SocketAddr}
    (h : (lookup (fun _ => lookupIp) target : Except IoError (List SocketAddr)) = .ok addresses) :
    addresses ≠ [] := by
  have hguard : ∀ found : List SocketAddr,
      (if found = [] then throw ⟨.notFound, "目标地址没有解析结果"⟩ else pure found : Except IoError (List SocketAddr)) =
        .ok addresses → addresses ≠ [] := by
    intro found hfound
    split at hfound <;> cases hfound
    assumption
  unfold lookup at h
  cases hhost : target.host with
  | ip ip =>
    rw [hhost] at h
    exact hguard [.new ip target.port] h
  | domain name =>
    rw [hhost] at h
    cases lookupIp with
    | error error => cases h
    | ok ips => exact hguard (ips.map (.new · target.port)) h

/-! ### Deeds -/

structure Send where
  address : SocketAddr
  payload : Bytes
  ok : Bool
  deriving DecidableEq

/-- What a step of a packet task counts for. -/
inductive Deed where
  | quiet
  | sent (send : Send)
  | inactive
  deriving DecidableEq

def PacketTask.deed (t : PacketTask) (input : TaskInput) (s : Shared) : Deed :=
  match t.pc, input with
  | .sending _ flow, .sent ok => .sent ⟨(s.flows flow).socket, t.payload, ok⟩
  | .checking _ (some flow), _ => if (s.flows flow).active then .quiet else .inactive
  | _, _ => .quiet

/-- The deed of task `id` in a step, if the step is its own. -/
def State.deed (id : ℕ) (s : State) : Input → Option Deed
  | .task id' input => if id' = id then (s.tasks.lookup id).map (·.deed input s.shared) else none
  | _ => none

def Deed.send? : Deed → Option Send
  | .sent send => some send
  | _ => none

def sends (notes : List (Option Deed)) : List Send := notes.filterMap (·.bind Deed.send?)

/-- The number of the steps of the task itself. -/
def steps (notes : List (Option Deed)) : ℕ := notes.countP Option.isSome

theorem sends_append (notes notes' : List (Option Deed)) : sends (notes ++ notes') = sends notes ++ sends notes' :=
  List.filterMap_append

theorem sends_silent (notes : List (Option Deed)) {note : Option Deed} (h : note.bind Deed.send? = none) :
    sends (notes ++ [note]) = sends notes := by
  have hnil : sends [note] = [] := List.filterMap_cons_none h
  rw [sends_append, hnil, List.append_nil]

theorem steps_append (notes notes' : List (Option Deed)) : steps (notes ++ notes') = steps notes + steps notes' :=
  List.countP_append

theorem State.deed_task {id : ℕ} {t : PacketTask} (h : s.tasks.lookup id = some t) (input : TaskInput) :
    s.deed id (.task id input) = some (t.deed input s.shared) := by
  rw [State.deed, if_pos rfl, h]
  rfl

theorem State.deed_other {id : ℕ} {input : Input} (h : ∀ i, input ≠ .task id i) : s.deed id input = none := by
  cases input with
  | task id' input =>
    refine if_neg ?_
    rintro rfl
    exact h input rfl
  | _ => rfl

/-! ### Bounds -/

namespace TaskPc

/-- The task has counted an attempt and not started again. -/
def attempted : TaskPc → Bool
  | .touching _ _ | .sending _ _ | .sent _ _ | .deactivating _ _ | .advancing _ _ | .stopping _ _ | .dropping _ _ => true
  | _ => false

/-- The addresses at hand are at most `N`, and there is one at the index. -/
def Sized (N : ℕ) : TaskPc → Prop
  | .choosing _ addresses | .binding _ addresses _ _ => 0 < addresses.length ∧ addresses.length ≤ N
  | .remembering _ addresses index | .spawning _ addresses index =>
    index < addresses.length ∧ addresses.length ≤ N
  | _ => True

/-- The steps up to the end of the iteration, and those of one more behind an attempt. -/
def rank (N : ℕ) : TaskPc → ℕ
  | .start => N + 17
  | .lockingFlows => N + 16
  | .awaitingCell _ => N + 15
  | .resolving _ => N + 14
  | .choosing _ addresses => addresses.length + 13
  | .binding _ addresses _ offset => addresses.length - offset + 12
  | .remembering _ _ _ => 11
  | .spawning _ _ _ => 10
  | .completing _ _ => 9
  | .checking _ _ => 8
  | .checkingAlive _ _ => 7
  | .droppingStale _ => 1
  | .touching _ _ => N + 22
  | .sending _ _ => N + 21
  | .sent _ _ | .deactivating _ _ => N + 20
  | .advancing _ _ => N + 19
  | .stopping _ _ => N + 18
  | .dropping _ _ => N + 17

/-- Attempts that are counted and not sent yet. -/
def unsent : TaskPc → ℕ
  | .touching _ _ | .sending _ _ => 1
  | _ => 0

def delivered : TaskPc → ℕ
  | .sent _ _ => 1
  | _ => 0

/-- Inactive flows that are found and not counted yet. -/
def uncounted : TaskPc → ℕ
  | .droppingStale _ => 1
  | _ => 0

theorem rank_pos (N : ℕ) (pc : TaskPc) : 0 < pc.rank N := by
  cases pc <;> exact Nat.succ_pos _

end TaskPc

/-- The counters of a task whose answers have at most `N` addresses. -/
structure PacketTask.Bounded (N : ℕ) (t : PacketTask) : Prop where
  attempts : t.attempts ≤ if t.pc.attempted then N else N - 1
  staleRetries : t.staleRetries ≤ 2
  sized : t.pc.Sized N

def PacketTask.potential (N : ℕ) (t : PacketTask) : ℕ :=
  (N + 16) * (N - t.attempts + (2 - t.staleRetries)) + t.pc.rank N

/-- The steps that a task takes at most. -/
def limit (N : ℕ) : ℕ := (N + 16) * (N + 3) + 1

/-- The resolver gives at most `N` addresses. -/
def PacketTask.Answered (N : ℕ) (t : PacketTask) (input : TaskInput) : Prop :=
  match t.pc, input with
  | .resolving _, .lookedUp lookupIp =>
    match (lookup (fun _ => lookupIp) t.target : Except IoError (List SocketAddr)) with
    | .ok addresses => addresses.length ≤ N
    | .error _ => True
  | _, _ => True

instance (N : ℕ) (t : PacketTask) (input : TaskInput) : Decidable (t.Answered N input) := by
  unfold PacketTask.Answered
  split
  · split <;> infer_instance
  · infer_instance

theorem PacketTask.potential_new (N : ℕ) (arc : Arc) (target : Target) (payload : Bytes) :
    (PacketTask.new arc target payload).potential N = limit N := by
  have hmul : (N + 16) * (N + 3) = (N + 16) * (N + 2) + (N + 16) := Nat.mul_succ _ _
  rw [limit, hmul]
  rfl

theorem PacketTask.bounded_new (N : ℕ) (arc : Arc) (target : Target) (payload : Bytes) :
    (PacketTask.new arc target payload).Bounded N :=
  ⟨Nat.zero_le _, Nat.zero_le _, trivial⟩

namespace PacketTask.Moves
variable {permits : ℕ} {t t' : PacketTask} {sh : Shared} {input : TaskInput} {r : TaskStep}

/-- A step within an iteration comes nearer to its end. -/
theorem descends_of_rank (hb : t.Bounded N) (hattempts : t'.attempts = t.attempts)
    (hretries : t'.staleRetries = t.staleRetries)
    (hattempting : t'.pc.attempted = false → t'.attempts ≤ N - 1) (hsized : t'.pc.Sized N)
    (hrank : t'.pc.rank N < t.pc.rank N) : t'.Bounded N ∧ t'.potential N < t.potential N := by
  have hle := hb.attempts
  refine ⟨⟨?_, hretries ▸ hb.staleRetries, hsized⟩, ?_⟩
  · cases hpc : t'.pc.attempted with
    | true =>
      rw [hattempts, if_pos rfl]
      split at hle <;> omega
    | false => exact hattempting hpc
  · rw [potential, potential, hattempts, hretries]
    exact Nat.add_lt_add_left hrank _

/-- Every step leaves less to do. -/
theorem descends (h : t.Moves id permits sh t.pc input r) (hb : t.Bounded N) (hanswered : t.Answered N input)
    (hflow : ∀ flow, t.pc.flow? = some flow → 0 < (sh.flows flow).addressCount ∧ (sh.flows flow).addressCount ≤ N)
    (ht' : r.task = some t') : t'.Bounded N ∧ t'.potential N < t.potential N := by
  have hattempts := hb.attempts
  have hsized := hb.sized
  have hretries := hb.staleRetries
  have keep : t.pc.attempted = false → t.attempts ≤ N - 1 := by
    intro hpc
    rwa [if_neg (by rw [hpc]; exact Bool.false_ne_true)] at hattempts
  generalize hpc : t.pc = pc at h
  rw [hpc] at hsized hattempts hflow keep
  cases h with
  | start | take | create | claim | see | unresolved | exhausted | complete | fresh =>
    cases ht'
    refine descends_of_rank hb rfl rfl (fun _ => keep rfl) trivial ?_
    rw [hpc]
    simp [TaskPc.rank]
  | resolve hlookup =>
    cases ht'
    unfold PacketTask.Answered at hanswered
    rw [hpc] at hanswered
    simp only [hlookup] at hanswered
    refine descends_of_rank hb rfl rfl (fun _ => keep rfl)
      ⟨List.length_pos_iff.mpr (lookup_ne_nil hlookup), hanswered⟩ ?_
    rw [hpc]
    simp only [TaskPc.rank]
    omega
  | choose =>
    cases ht'
    refine descends_of_rank hb rfl rfl (fun _ => keep rfl) hsized ?_
    rw [hpc]
    simp only [TaskPc.rank]
    omega
  | @bind slot addresses start offset hlt =>
    cases ht'
    have hindex := Nat.mod_lt (start + offset) hsized.1
    by_cases hmany : 1 < addresses.length
    · rw [if_pos hmany]
      refine descends_of_rank hb rfl rfl (fun _ => keep rfl) ⟨hindex, hsized.2⟩ ?_
      rw [hpc]
      simp only [TaskPc.rank]
      omega
    · rw [if_neg hmany]
      refine descends_of_rank hb rfl rfl (fun _ => keep rfl) ⟨hindex, hsized.2⟩ ?_
      rw [hpc]
      simp only [TaskPc.rank]
      omega
  | unbindable hlt =>
    cases ht'
    refine descends_of_rank hb rfl rfl (fun _ => keep rfl) hsized ?_
    rw [hpc]
    simp only [TaskPc.rank]
    omega
  | remember =>
    cases ht'
    refine descends_of_rank hb rfl rfl (fun _ => keep rfl) hsized ?_
    rw [hpc]
    simp [TaskPc.rank]
  | spawn =>
    cases ht'
    refine descends_of_rank hb rfl rfl (fun _ => keep rfl) trivial ?_
    rw [hpc]
    simp [TaskPc.rank]
  | stale =>
    cases ht'
    refine descends_of_rank hb rfl rfl (fun _ => keep rfl) trivial ?_
    rw [hpc]
    simp [TaskPc.rank]
  | retry hlt =>
    cases ht'
    refine ⟨⟨keep rfl, by dsimp only; omega, trivial⟩, ?_⟩
    have hmul : (N + 16) * (N - t.attempts + (2 - t.staleRetries)) =
        (N + 16) * (N - t.attempts + (2 - (t.staleRetries + 1))) + (N + 16) := by
      rw [← Nat.mul_succ]
      congr 1
      omega
    rw [potential, potential, hpc, hmul]
    simp only [TaskPc.rank]
    omega
  | attempt =>
    cases ht'
    have hpos := (hflow _ rfl)
    have hle := keep rfl
    refine ⟨⟨?_, hretries, trivial⟩, ?_⟩
    · simp only [TaskPc.attempted, if_true]
      omega
    have hmul : (N + 16) * (N - t.attempts + (2 - t.staleRetries)) =
        (N + 16) * (N - (t.attempts + 1) + (2 - t.staleRetries)) + (N + 16) := by
      rw [← Nat.mul_succ]
      congr 1
      omega
    rw [potential, potential, hpc, hmul]
    simp only [TaskPc.rank]
    omega
  | @send slot flow ok =>
    cases ht'
    cases ok
    all_goals
      refine descends_of_rank hb rfl rfl nofun trivial ?_
      rw [hpc]
      simp [TaskPc.rank]
  | @deactivate slot flow =>
    cases ht'
    cases (sh.flows flow).active
    all_goals
      refine descends_of_rank hb rfl rfl nofun trivial ?_
      rw [hpc]
      simp [TaskPc.rank]
  | touch | advance | stop =>
    cases ht'
    refine descends_of_rank hb rfl rfl nofun trivial ?_
    rw [hpc]
    simp [TaskPc.rank]
  | again hlt =>
    cases ht'
    have hle := (hflow _ rfl).2
    refine descends_of_rank hb rfl rfl (fun _ => ?_) trivial ?_
    · dsimp only
      omega
    · rw [hpc]
      simp [TaskPc.rank]
  | dead | refused | discard | giveUp | abandon | done | last => cases ht'

end PacketTask.Moves

/-! ### Tallies -/

/-- The counters of a task agree with its deeds so far. -/
structure Tally (N : ℕ) (notes : List (Option Deed)) (t : PacketTask) : Prop where
  attempts : (sends notes).length + t.pc.unsent = t.attempts
  delivered : (sends notes).countP Send.ok = t.pc.delivered
  staleRetries : notes.count (some .inactive) = t.staleRetries + t.pc.uncounted
  remaining : steps notes + t.potential N ≤ limit N

structure Within (N : ℕ) (notes : List (Option Deed)) : Prop where
  attempts : (sends notes).length ≤ N
  delivered : (sends notes).countP Send.ok ≤ 1
  inactive : notes.count (some .inactive) ≤ 3
  steps_le : steps notes ≤ limit N

section
variable {notes : List (Option Deed)}

/-- The steps of others do not count. -/
theorem Within.other (h : Within N notes) : Within N (notes ++ [none]) := by
  refine ⟨?_, ?_, ?_, ?_⟩
  · rw [sends_silent notes rfl]
    exact h.attempts
  · rw [sends_silent notes rfl]
    exact h.delivered
  · rw [List.count_append]
    simpa using h.inactive
  · rw [steps_append]
    exact h.steps_le

namespace Tally
variable {permits : ℕ} {t t' : PacketTask} {sh : Shared} {input : TaskInput} {r : TaskStep}

theorem other (h : Tally N notes t) : Tally N (notes ++ [none]) t := by
  refine ⟨?_, ?_, ?_, ?_⟩
  · rw [sends_silent notes rfl]
    exact h.attempts
  · rw [sends_silent notes rfl]
    exact h.delivered
  · rw [List.count_append]
    simpa using h.staleRetries
  · rw [steps_append]
    exact h.remaining

theorem within (h : Tally N notes t) (hb : t.Bounded N) : Within N notes := by
  obtain ⟨hattempts, hretries, -⟩ := hb
  refine ⟨?_, ?_, ?_, (Nat.le_add_right _ _).trans h.remaining⟩
  · have hsends := h.attempts
    split at hattempts <;> omega
  · rw [h.delivered]
    cases t.pc <;> simp [TaskPc.delivered]
  · rw [h.staleRetries]
    cases t.pc <;> simp [TaskPc.uncounted] <;> omega

theorem start (hnotes : ∀ n ∈ notes, n = none) (arc : Arc) (target : Target) (payload : Bytes) :
    Tally N notes (.new arc target payload) := by
  have hsends : sends notes = [] := by
    refine List.filterMap_eq_nil_iff.mpr fun n hn => ?_
    rw [hnotes n hn]
    rfl
  have hsteps : steps notes = 0 := by
    refine List.countP_eq_zero.mpr fun n hn => ?_
    rw [hnotes n hn]
    exact Bool.false_ne_true
  have hinactive : notes.count (some .inactive) = 0 := by
    refine List.count_eq_zero.mpr fun hmem => ?_
    cases hnotes _ hmem
  refine ⟨?_, ?_, hinactive, ?_⟩
  · rw [hsends]
    rfl
  · rw [hsends]
    rfl
  · rw [hsteps, PacketTask.potential_new, Nat.zero_add]

/-- A step of the task that goes on. -/
theorem step (h : Tally N notes t) (hmove : t.Moves id permits sh t.pc input r) (ht' : r.task = some t')
    (hlt : t'.potential N < t.potential N) : Tally N (notes ++ [some (t.deed input sh)]) t' := by
  have hsteps : steps (notes ++ [some (t.deed input sh)]) + t'.potential N ≤ limit N := by
    have hle := h.remaining
    rw [steps_append]
    change steps notes + 1 + _ ≤ _
    omega
  have quiet : t.deed input sh = .quiet → t.attempts + t'.pc.unsent = t'.attempts + t.pc.unsent →
      t'.pc.delivered = t.pc.delivered →
      t.staleRetries + t.pc.uncounted = t'.staleRetries + t'.pc.uncounted →
      Tally N (notes ++ [some (t.deed input sh)]) t' := by
    intro hdeed hattempts hdelivered hretries
    refine ⟨?_, ?_, ?_, hsteps⟩
    · have hsends := h.attempts
      rw [hdeed, sends_silent notes rfl]
      omega
    · rw [hdeed, sends_silent notes rfl, hdelivered, h.delivered]
    · rw [List.count_append, hdeed, h.staleRetries]
      exact hretries
  generalize hpc : t.pc = pc at hmove
  cases hmove with
  | @send slot flow ok =>
    cases ht'
    have hsends := h.attempts
    have hdelivered := h.delivered
    have hinactive := h.staleRetries
    have hdeed : t.deed (.sent ok) sh = .sent ⟨(sh.flows flow).socket, t.payload, ok⟩ := by
      unfold PacketTask.deed
      rw [hpc]
    rw [hdeed] at hsteps ⊢
    rw [hpc] at hsends hdelivered hinactive
    refine ⟨?_, ?_, ?_, hsteps⟩
    · rw [sends_append, List.length_append]
      cases ok <;> exact hsends
    · rw [sends_append, List.countP_append, hdelivered]
      cases ok <;> rfl
    · rw [List.count_append, hinactive]
      cases ok <;> rfl
  | @stale slot flow hinactive =>
    cases ht'
    have hsends := h.attempts
    have hdelivered := h.delivered
    have hcount := h.staleRetries
    have hdeed : t.deed .go sh = .inactive := by
      unfold PacketTask.deed
      rw [hpc]
      simp only [hinactive, Bool.false_eq_true, if_false]
    rw [hdeed] at hsteps ⊢
    rw [hpc] at hsends hdelivered hcount
    refine ⟨?_, ?_, ?_, hsteps⟩
    · rw [sends_silent notes rfl]
      exact hsends
    · rw [sends_silent notes rfl]
      exact hdelivered
    · rw [List.count_append, hcount]
      rfl
  | @fresh slot flow hactive =>
    cases ht'
    refine quiet ?_ (by rw [hpc]; rfl) (by rw [hpc]; rfl) (by rw [hpc]; rfl)
    unfold PacketTask.deed
    rw [hpc]
    simp only [hactive, if_true]
  | @bind slot addresses start offset hlt =>
    cases ht'
    refine quiet (by simp [PacketTask.deed, hpc]) ?_ ?_ ?_ <;> rw [hpc] <;> dsimp only <;> split <;> rfl
  | @deactivate slot flow =>
    cases ht'
    refine quiet (by simp [PacketTask.deed, hpc]) ?_ ?_ ?_ <;> rw [hpc] <;> dsimp only <;> split <;> rfl
  | retry | attempt =>
    cases ht'
    refine quiet (by simp [PacketTask.deed, hpc]) ?_ (by rw [hpc]; rfl) ?_ <;> rw [hpc] <;>
      simp only [TaskPc.unsent, TaskPc.uncounted, Nat.add_zero]
  | dead | refused | discard | giveUp | abandon | done | last => cases ht'
  | _ =>
    cases ht'
    refine quiet (by simp [PacketTask.deed, hpc]) ?_ ?_ ?_ <;> rw [hpc] <;> rfl

/-- The last step of the task. -/
theorem finish (h : Tally N notes t) (hb : t.Bounded N) (hmove : t.Moves id permits sh t.pc input r)
    (htask : r.task = none) : Within N (notes ++ [some (t.deed input sh)]) := by
  have hdeed : t.deed input sh = .quiet := by
    generalize hpc : t.pc = pc at hmove
    cases hmove with
    | dead | refused | discard | giveUp | abandon | done | last => simp [PacketTask.deed, hpc]
    | _ => cases htask
  have hwithin := h.within hb
  have hsteps := h.remaining
  have hpos : 0 < t.potential N := Nat.add_pos_right _ (t.pc.rank_pos N)
  rw [hdeed]
  refine ⟨?_, ?_, ?_, ?_⟩
  · rw [sends_silent notes rfl]
    exact hwithin.attempts
  · rw [sends_silent notes rfl]
    exact hwithin.delivered
  · rw [List.count_append]
    simpa using hwithin.inactive
  · rw [steps_append]
    change steps notes + 1 ≤ _
    omega

end Tally

end

/-! ### Progress -/

/-- Some entry can make room for an index, if there is none. -/
theorem Shared.rememberUdpAddress_total (sh : Shared) (arc : Arc) (target : Target) (index : ℕ) :
    ∃ oldest sh', sh.rememberUdpAddress arc target index oldest = some sh' := by
  unfold Shared.rememberUdpAddress
  dsimp only
  by_cases hfull : MAX_FLOWS_PER_ASSOCIATION ≤ Dict.size (sh.association arc).preferredAddresses ∧
      target ∉ (sh.association arc).preferredAddresses
  · have hne : Dict.size (sh.association arc).preferredAddresses ≠ 0 := fun hzero => by
      rw [hzero] at hfull
      exact absurd hfull.1 (by decide)
    obtain ⟨oldest, holdest⟩ := not_forall.mp (mt Dict.size_eq_zero_iff.mpr hne)
    obtain ⟨index', hindex'⟩ := Option.ne_none_iff_exists'.mp holdest
    have hmem : oldest ∈ (sh.association arc).preferredAddresses := Dict.mem_iff.mpr ⟨index', hindex'⟩
    exact ⟨oldest, _, by rw [if_pos hfull, if_pos hmem]⟩
  · exact ⟨target, _, if_neg hfull⟩

theorem Shared.advanceUdpAddress_total (sh : Shared) (arc : Arc) (target : Target) (flow : FlowId) :
    ∃ oldest sh', sh.advanceUdpAddress arc target flow oldest = some sh' := by
  unfold Shared.advanceUdpAddress
  dsimp only
  split
  · exact sh.rememberUdpAddress_total arc target _
  · exact ⟨target, sh, rfl⟩

/-- What the next step reduces an index modulo. -/
def TaskPc.divisor? (sh : Shared) : TaskPc → Option ℕ
  | .choosing _ addresses | .binding _ addresses _ _ => some addresses.length
  | .advancing _ flow => some (sh.flows flow).addressCount
  | _ => none

/-- The answers of the resolver and of the sockets are these. -/
def TaskInput.Gives (answer : Except IoError (List IpAddr)) (ok : Bool) : TaskInput → Prop
  | .lookedUp lookupIp => lookupIp = answer
  | .bound b | .sent b => b = ok
  | .go | .oldest _ => True

/-- Whatever the answers are, a task is stuck only while another one fills the cell. -/
theorem PacketTask.proceeds {t : PacketTask} (hsized : t.pc.Sized N) (permits : ℕ) (sh : Shared)
    (hcell : ∀ slot, t.pc = .awaitingCell slot → ∀ user, sh.slots slot ≠ .initializing user)
    (answer : Except IoError (List IpAddr)) (ok : Bool) :
    ∃ input r, input.Gives answer ok ∧ t.step id permits input sh = some r := by
  unfold PacketTask.step
  cases hpc : t.pc with
  | start =>
    refine ⟨.go, ?_⟩
    simp only
    split <;> exact ⟨_, trivial, rfl⟩
  | lockingFlows =>
    refine ⟨.go, ?_⟩
    simp only
    split
    · exact ⟨_, trivial, rfl⟩
    · split
      · exact ⟨_, trivial, rfl⟩
      · split <;> exact ⟨_, trivial, rfl⟩
  | awaitingCell slot =>
    refine ⟨.go, ?_⟩
    simp only
    split
    · exact ⟨_, trivial, rfl⟩
    · exact ⟨_, trivial, rfl⟩
    · rename_i user hc
      exact absurd hc (hcell slot hpc user)
  | resolving slot =>
    refine ⟨.lookedUp answer, ?_⟩
    simp only
    split <;> exact ⟨_, rfl, rfl⟩
  | binding slot addresses start offset =>
    by_cases hlt : offset < addresses.length
    · refine ⟨.bound ok, ?_⟩
      simp only [if_pos hlt]
      split
      · split <;> exact ⟨_, rfl, rfl⟩
      · exact ⟨_, rfl, rfl⟩
    · refine ⟨.go, ?_⟩
      simp only [if_neg hlt]
      exact ⟨_, trivial, rfl⟩
  | remembering slot addresses index =>
    obtain ⟨oldest, sh', h⟩ := sh.rememberUdpAddress_total t.association t.target index
    refine ⟨.oldest oldest, ?_⟩
    simp only [h]
    exact ⟨_, trivial, rfl⟩
  | spawning slot addresses index =>
    rw [hpc] at hsized
    refine ⟨.go, ?_⟩
    simp only [List.getElem?_eq_getElem hsized.1]
    exact ⟨_, trivial, rfl⟩
  | checking slot flow =>
    refine ⟨.go, ?_⟩
    cases flow with
    | none => exact ⟨_, trivial, rfl⟩
    | some flow =>
      simp only
      split <;> exact ⟨_, trivial, rfl⟩
  | sending slot flow => exact ⟨.sent ok, _, rfl, rfl⟩
  | advancing slot flow =>
    obtain ⟨oldest, sh', h⟩ := sh.advanceUdpAddress_total t.association t.target flow
    refine ⟨.oldest oldest, ?_⟩
    simp only [h]
    exact ⟨_, trivial, rfl⟩
  | checkingAlive slot flow =>
    refine ⟨.go, ?_⟩
    simp only
    split <;> exact ⟨_, trivial, rfl⟩
  | droppingStale slot =>
    refine ⟨.go, ?_⟩
    simp only
    split <;> exact ⟨_, trivial, rfl⟩
  | dropping slot flow =>
    refine ⟨.go, ?_⟩
    simp only
    split <;> exact ⟨_, trivial, rfl⟩
  | _ => exact ⟨.go, _, trivial, rfl⟩

/-! ### Runs -/

namespace State

/-- A new packet task has the next number. -/
theorem tasks_started {input : Input} (hs : s.step config input = some (e, s')) (htask : ∀ id i, input ≠ .task id i) :
    s.nextTask ≤ s'.nextTask ∧ ∀ id t, s'.tasks.lookup id = some t →
      s.tasks.lookup id = some t ∨
        id = s.nextTask ∧ id < s'.nextTask ∧ ∃ arc target payload, t = .new arc target payload := by
  cases input with
  | cancel | tick =>
    cases hs
    exact ⟨le_refl _, fun _ _ h => .inl h⟩
  | accept peer =>
    simp only [step] at hs
    split at hs
    · cases hs
    · split at hs
      · cases hs
      · cases hs
        exact ⟨le_refl _, fun _ _ h => .inl h⟩
      · split at hs <;> cases hs <;> exact ⟨le_refl _, fun _ _ h => .inl h⟩
  | leaveAccept | stopAssociations | join =>
    simp only [step] at hs
    split at hs <;> cases hs
    exact ⟨le_refl _, fun _ _ h => .inl h⟩
  | handler id' input =>
    obtain ⟨c, r, -, -, -, rfl⟩ := step_handler hs
    exact ⟨le_refl _, fun _ _ h => .inl h⟩
  | loop input =>
    obtain ⟨r, hspec, -, rfl⟩ := step_loop hs
    dsimp only
    cases htask : r.task with
    | none => exact ⟨le_refl _, fun _ _ h => .inl h⟩
    | some task =>
      obtain ⟨arc, target, payload, -, rfl⟩ := hspec.task _ htask
      refine ⟨Nat.le_succ _, fun id t ht => ?_⟩
      dsimp only at ht
      rw [Dict.lookup_insert_eq] at ht
      split at ht
      · rename_i heq
        cases ht
        exact .inr ⟨heq, heq ▸ Nat.lt_succ_self _, arc, target, payload, rfl⟩
      · exact .inl ht
  | task id' i => exact absurd rfl (htask id' i)
  | receiver flow i =>
    obtain ⟨r, result, -, -, rfl⟩ := receiver_moves hs
    exact ⟨le_refl _, fun _ _ h => .inl h⟩

theorem step_of_task {id : ℕ} {t : PacketTask} {input : TaskInput} {r : TaskStep} (ht : s.tasks.lookup id = some t)
    (hr : t.step id s.flowPermits input s.shared = some r) :
    ∃ e s', s.step config (.task id input) = some (e, s') := by
  simp only [step, ht, hr]
  exact ⟨_, _, rfl⟩

/-- Flows are made by the packet tasks. -/
theorem flows_made {input : Input} (hs : s.step config input = some (e, s')) (htask : ∀ id i, input ≠ .task id i) :
    s'.shared.nextFlow = s.shared.nextFlow := by
  cases input with
  | task id' i => exact absurd rfl (htask id' i)
  | receiver flow i =>
    obtain ⟨r, result, -, hmove, rfl⟩ := receiver_moves hs
    exact hmove.nextFlow
  | _ => exact (sameFlows_step hs (by simp) (by simp)).nextFlow

end State

/-- Every answer of the resolver has at most `N` addresses. -/
def Answered (N : ℕ) (s : State) : Input → Prop
  | .task id input =>
    match s.tasks.lookup id with
    | none => True
    | some t => t.Answered N input
  | _ => True

instance (N : ℕ) (s : State) (input : Input) : Decidable (Answered N s input) := by
  unfold Answered
  split
  · split <;> infer_instance
  · infer_instance

/-- The server in that environment, with the deeds of task `id`. -/
def attempting (config : Config) (N id : ℕ) : System State Input (Option Deed) :=
  ((system config).observed (State.deed id)).restrict (Answered N)

/-- The bounds on flows and tasks, and what the notes say of task `id`. -/
structure Counted (N id : ℕ) (notes : List (Option Deed)) (s : State) : Prop where
  counts : ∀ flow < s.shared.nextFlow,
    0 < (s.shared.flows flow).addressCount ∧ (s.shared.flows flow).addressCount ≤ N
  bounded : ∀ id t, s.tasks.lookup id = some t → t.Bounded N
  unborn : s.nextTask ≤ id → ∀ n ∈ notes, n = none
  tally : ∀ t, s.tasks.lookup id = some t → Tally N notes t
  within : Within N notes

variable {notes : List (Option Deed)} {owner : SlotId → FlowKey} {key : FlowId → FlowKey}

namespace Counted

theorem initial (N id : ℕ) : Counted N id [] .initial where
  counts _ h := absurd h (Nat.not_lt_zero _)
  bounded id t ht := absurd ht (State.lookup_initial_tasks id t)
  unborn _ := nofun
  tally t ht := absurd ht (State.lookup_initial_tasks id t)
  within := ⟨Nat.zero_le _, Nat.zero_le _, Nat.zero_le _, Nat.zero_le _⟩

/-- A step of another part of the server. -/
theorem other (h : Counted N id notes s) {input : Input} (hs : s.step config input = some (e, s')) (htask : ∀ id i, input ≠ .task id i) :
    Counted N id (notes ++ [s.deed id input]) s' := by
  obtain ⟨hnext, hstarted⟩ := State.tasks_started hs htask
  have hdeed : s.deed id input = none := State.deed_other (htask id)
  have hunborn : s.nextTask ≤ id → ∀ n ∈ notes ++ [none], n = none := by
    intro hle n hn
    rcases List.mem_append.mp hn with hn | hn
    · exact h.unborn hle n hn
    · exact List.mem_singleton.mp hn
  rw [hdeed]
  refine ⟨fun flow hlt => ?_, fun id' t ht => ?_, fun hle => hunborn (hnext.trans hle), fun t ht => ?_, h.within.other⟩
  · have hborn : flow < s.shared.nextFlow := hlt.trans_eq (State.flows_made hs htask)
    obtain ⟨-, -, hcount⟩ := (State.sameAddress_step hs hborn).2
    rw [hcount]
    exact h.counts flow hborn
  · rcases hstarted id' t ht with hold | ⟨-, -, arc, target, payload, rfl⟩
    · exact h.bounded id' t hold
    · exact PacketTask.bounded_new N arc target payload
  · rcases hstarted id t ht with hold | ⟨heq, -, arc, target, payload, rfl⟩
    · exact (h.tally t hold).other
    · exact .start (hunborn heq.ge) arc target payload

/-- A step of a packet task, of this one or of another. -/
theorem taskStep (h : Counted N id notes s) (hk : Keyed owner key s) (htasks : ∀ id t, s.tasks.lookup id = some t → id < s.nextTask)
    {id' : ℕ} {input : TaskInput} (hs : s.step config (.task id' input) = some (e, s'))
    (hok : Answered N s (.task id' input)) : Counted N id (notes ++ [s.deed id (.task id' input)]) s' := by
  have hsame := fun flow => @State.sameAddress_step config s s' e _ hs flow
  obtain ⟨t, r, hlookup, hmove, -, rfl⟩ := State.task_moves hs
  dsimp only [Answered] at hok
  rw [hlookup] at hok
  have hbounded := h.bounded id' t hlookup
  have hflow : ∀ flow, t.pc.flow? = some flow →
      0 < (s.shared.flows flow).addressCount ∧ (s.shared.flows flow).addressCount ≤ N :=
    fun flow hpc => h.counts flow (hk.tasks id' t flow hlookup hpc).1
  refine ⟨fun flow hlt => ?_, fun id'' t'' ht'' => ?_, fun hle => ?_, fun t'' ht'' => ?_, ?_⟩
  · rcases hmove.flow_lt hlt with hborn | ⟨rfl, slot, addresses, index, hpc⟩
    · obtain ⟨-, -, hcount⟩ := (hsame flow hborn).2
      rw [hcount]
      exact h.counts flow hborn
    · have hsized := hbounded.sized
      rw [hpc] at hmove hsized
      cases hmove
      have hcount : ∀ f, ((s.shared.newFlow f).flows s.shared.nextFlow) = f := fun f => Function.update_self _ _ _
      dsimp only
      rw [hcount]
      exact ⟨Nat.zero_lt_of_lt hsized.1, hsized.2⟩
  · dsimp only at ht''
    rw [Dict.lookup_update_eq] at ht''
    split at ht''
    · exact (hmove.descends hbounded hok hflow ht'').1
    · exact h.bounded id'' t'' ht''
  · have hne : id' ≠ id := fun heq => absurd (heq ▸ htasks id' t hlookup) (not_lt.mpr hle)
    rw [State.deed_other (by rintro i ⟨⟩; exact hne rfl)]
    intro n hn
    rcases List.mem_append.mp hn with hn | hn
    · exact h.unborn hle n hn
    · exact List.mem_singleton.mp hn
  · dsimp only at ht''
    rw [Dict.lookup_update_eq] at ht''
    split at ht''
    · rename_i heq
      subst heq
      rw [State.deed_task hlookup]
      exact (h.tally t hlookup).step hmove ht'' (hmove.descends hbounded hok hflow ht'').2
    · rename_i hne
      rw [State.deed_other (by rintro i ⟨⟩; exact hne rfl)]
      exact (h.tally t'' ht'').other
  · by_cases heq : id' = id
    · subst heq
      rw [State.deed_task hlookup]
      cases htask : r.task with
      | none => exact (h.tally t hlookup).finish hbounded hmove htask
      | some t' =>
        obtain ⟨hbounded', hlt⟩ := hmove.descends hbounded hok hflow htask
        exact ((h.tally t hlookup).step hmove htask hlt).within hbounded'
    · rw [State.deed_other (by rintro i ⟨⟩; exact heq rfl)]
      exact h.within.other

/-- What one step of the server preserves. -/
theorem step (h : Counted N id notes s) (hk : Keyed owner key s) (htasks : ∀ id t, s.tasks.lookup id = some t → id < s.nextTask)
    {input : Input} (hs : s.step config input = some (e, s')) (hok : Answered N s input) :
    Counted N id (notes ++ [s.deed id input]) s' := by
  cases input with
  | task id' input => exact h.taskStep hk htasks hs hok
  | _ => exact h.other hs (by simp)

end Counted

theorem counted_of_reaches (h : System.Reaches (attempting config N id) .initial notes s) :
    ∃ owner key, Tabled owner s ∧ Keyed owner key s ∧ Counted N id notes s := by
  have hall : ∃ events owner key, System.Reaches (system config) .initial events s ∧ Tabled owner s ∧
      Keyed owner key s ∧ Counted N id notes s := by
    induction h with
    | start =>
      exact ⟨[], fun _ => (0, ⟨.domain "", 0⟩), fun _ => (0, ⟨.domain "", 0⟩), .start, .initial _, .initial _ _,
        .initial N id⟩
    | step _ hi ih =>
      obtain ⟨events, owner, key, hr, htabled, hkeyed, hcounted⟩ := ih
      obtain ⟨hok, hi⟩ := System.restrict_some.mp hi
      obtain ⟨rfl, e, hs⟩ := System.observed_some.mp hi
      obtain ⟨hc, ht⟩ := traced_of_reaches hr
      obtain ⟨owner', hev⟩ := htabled.step hc ht hs
      obtain ⟨key', -, hkeyed'⟩ := hkeyed.step htabled hev hs
      exact ⟨_, owner', key', hr.step hs, hev.tabled, hkeyed', hcounted.step hkeyed htabled.tasks hs hok⟩
  obtain ⟨-, owner, key, -, hall⟩ := hall
  exact ⟨owner, key, hall⟩

/-- The task that fills a cell does not wait for one. -/
theorem filler_of_cell (h : Tabled owner s) {t : PacketTask} {slot : SlotId} {user : ℕ}
    (hlookup : s.tasks.lookup id = some t) (hpc : t.pc = .awaitingCell slot)
    (hc : s.shared.slots slot = .initializing user) :
    ∃ t', s.tasks.lookup user = some t' ∧ ∀ slot', t'.pc ≠ .awaitingCell slot' := by
  have hrole := h.sound.users id _ _ (users_lookup hlookup)
  rw [hpc] at hrole
  have hcell := h.sound.cells slot hrole.1
  have hview : s.table.cell slot = .filling user := by
    change (s.shared.slots slot).view = _
    rw [hc]
    rfl
  rw [hview] at hcell
  obtain ⟨role, huser, hfills⟩ := hcell
  obtain ⟨t', ht', -, rfl⟩ := users_some.mp huser
  refine ⟨t', ht', fun slot' hpc' => ?_⟩
  rw [hpc'] at hfills
  cases hfills

/-- A task can go on, or the one it waits for can. -/
theorem task_proceeds (h : Tabled owner s) (hb : ∀ id t, s.tasks.lookup id = some t → t.Bounded N) {t : PacketTask}
    (hlookup : s.tasks.lookup id = some t) :
    ∃ id', (id' = id ∨ ∃ slot, t.pc = .awaitingCell slot ∧ s.shared.slots slot = .initializing id') ∧
      ∃ input e s', s.step config (.task id' input) = some (e, s') := by
  have hproceeds : ∀ id' t', s.tasks.lookup id' = some t' →
      (∀ slot, t'.pc = .awaitingCell slot → ∀ user, s.shared.slots slot ≠ .initializing user) →
      ∃ input e s', s.step config (.task id' input) = some (e, s') := by
    intro id' t' hlookup' hcell
    obtain ⟨input, r, -, hr⟩ := PacketTask.proceeds (hb id' t' hlookup').sized s.flowPermits s.shared hcell (.ok []) true
    exact ⟨input, State.step_of_task hlookup' hr⟩
  by_cases hwaits : ∃ slot user, t.pc = .awaitingCell slot ∧ s.shared.slots slot = .initializing user
  · obtain ⟨slot, user, hpc, hc⟩ := hwaits
    obtain ⟨t', ht', hpc'⟩ := filler_of_cell h hlookup hpc hc
    exact ⟨user, .inr ⟨slot, hpc, hc⟩, hproceeds user t' ht' fun slot' heq => absurd heq (hpc' slot')⟩
  · exact ⟨id, .inl rfl, hproceeds id t hlookup fun slot hpc user hc => hwaits ⟨slot, user, hpc, hc⟩⟩

/-- No index is reduced modulo zero. -/
theorem divisor_ne_zero (hk : Keyed owner key s) (h : Counted N id notes s) {t : PacketTask} {n : ℕ}
    (hlookup : s.tasks.lookup id = some t) (hn : t.pc.divisor? s.shared = some n) : n ≠ 0 := by
  have hsized := (h.bounded id t hlookup).sized
  have hflow := hk.tasks id t
  cases hpc : t.pc with
  | choosing | binding =>
    rw [hpc] at hn hsized
    cases hn
    exact hsized.1.ne'
  | advancing slot flow =>
    have hborn := (hflow flow hlookup (by rw [hpc]; rfl)).1
    rw [hpc] at hn
    cases hn
    exact (h.counts flow hborn).1.ne'
  | _ =>
    rw [hpc] at hn
    cases hn

end Brume.Server
