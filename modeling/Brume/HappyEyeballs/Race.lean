import Brume.HappyEyeballs.Interleave
import Brume.Lib.ByteStream
import Brume.Lib.Transition

/-!
# Happy Eyeballs (`happy_eyeballs.rs`)

`race_connect` connects to the addresses of a target in parallel: it starts the
next one when an attempt has failed or 250 ms have passed. The environment
chooses which attempt completes, how, and when the timers fire.
-/

namespace Brume
open Lib

-- a connected `TcpStream`, and the failure of a task
variable {Stream JoinError : Type}

/-- `io::Error::other` wraps the failure of a task. -/
inductive ConnectError (JoinError : Type) where
  | io (e : IoError)
  | other (joinErr : JoinError)

/-- What a task of the join set hands back. -/
abbrev JoinResult (Stream JoinError : Type) := Except JoinError (Except IoError Stream)

def JoinResult.error? : JoinResult Stream JoinError → Option (ConnectError JoinError)
  | .ok (.ok _) => none
  | .ok (.error e) => some (.io e)
  | .error joinErr => some (.other joinErr)

/-- One turn of the environment: an attempt has completed and is joined, the delay of 250 ms
has passed, or `total_timeout` has. Attempts are numbered in the order of their start. -/
inductive ConnectEvent (Stream JoinError : Type) where
  | joined (attempt : ℕ) (result : JoinResult Stream JoinError)
  | delay
  | elapsed

namespace ConnectEvent

def stream? : ConnectEvent Stream JoinError → Option Stream
  | .joined _ (.ok (.ok stream)) => some stream
  | _ => none

def error? : ConnectEvent Stream JoinError → Option (ConnectError JoinError)
  | .joined _ result => result.error?
  | _ => none

/-- The attempt that is seen to have failed. -/
def failed? : ConnectEvent Stream JoinError → Option ℕ
  | .joined attempt result => result.error?.map fun _ => attempt
  | _ => none

@[simp] theorem error?_delay : (delay : ConnectEvent Stream JoinError).error? = none := rfl

@[simp] theorem stream?_delay : (delay : ConnectEvent Stream JoinError).stream? = none := rfl

end ConnectEvent

/-! ### `race_connect` -/

structure Race (Stream JoinError : Type) where
  joinSet : List ℕ
  lastError : Option (ConnectError JoinError)
  nextCandidate : Option SocketAddr
  addrIter : List SocketAddr
  -- for the statements only: the addresses that an attempt was started for
  started : List SocketAddr
  result : Option (Except (ConnectError JoinError) Stream)

namespace Race

/-- `join_set.spawn(async move { TcpStream::connect(addr).await })`. -/
def spawn (s : Race Stream JoinError) (addr : SocketAddr) : Race Stream JoinError :=
  { s with joinSet := s.joinSet ++ [s.started.length], started := s.started ++ [addr] }

/-- `next_candidate = addr_iter.next()`. -/
def advance (s : Race Stream JoinError) : Race Stream JoinError :=
  { s with nextCandidate := s.addrIter.head?, addrIter := s.addrIter.tail }

def allFailed : IoError := ⟨.other, "所有目标连接尝试均失败"⟩

/-- The condition of the `while`, and what stands behind the loop. -/
def loopHead (s : Race Stream JoinError) : Race Stream JoinError :=
  if s.nextCandidate.isSome || !s.joinSet.isEmpty then s
  else { s with result := some (.error (s.lastError.getD (.io allFailed))) }

def start (addresses : List SocketAddr) : Race Stream JoinError :=
  let s : Race Stream JoinError := ⟨[], none, none, addresses, [], none⟩
  let s := match s.addrIter with
    | [] => s
    | firstAddr :: rest => { s with addrIter := rest }.spawn firstAddr
  s.advance.loopHead

/-- A failed attempt: the next address is started at once. -/
def fail (s : Race Stream JoinError) (error : ConnectError JoinError) : Race Stream JoinError :=
  let s := { s with lastError := some error }
  match s.nextCandidate with
  | some nextAddr => (s.spawn nextAddr).advance
  | none => s

/-- `join_next` waits for a task of the set, and only a turn with a candidate has a timer. An
event that the turn does not wait for is refused. -/
def step : System (Race Stream JoinError) (ConnectEvent Stream JoinError)
    (ConnectEvent Stream JoinError) := fun s event =>
  match s.result, event with
  | none, .joined attempt result =>
    if attempt ∈ s.joinSet then
      let s := { s with joinSet := s.joinSet.erase attempt }
      match result with
      | .ok (.ok stream) => some (event, { s with joinSet := [], result := some (.ok stream) })
      | .ok (.error e) => some (event, (s.fail (.io e)).loopHead)
      | .error joinErr => some (event, (s.fail (.other joinErr)).loopHead)
    else none
  | none, .delay =>
    match s.nextCandidate with
    | some nextAddr => some (event, (s.spawn nextAddr).advance.loopHead)
    | none => none
  | _, _ => none

end Race

/-! ### `happy_eyeballs_connect` -/

/-- A connection to the only address, a race, or the result without either. -/
inductive Connect (Stream JoinError : Type) where
  | direct (address : SocketAddr)
  | racing (race : Race Stream JoinError)
  | returned (result : Except (ConnectError JoinError) Stream)

def happyEyeballsConnect (addresses : List SocketAddr) : Connect Stream JoinError :=
  match addresses with
  | [] => .returned (.error (.io ⟨.notFound, "目标地址列表为空"⟩))
  | [address] => .direct address
  | addresses => .racing (.start (interleaveAddresses addresses))

def timedOut : IoError := ⟨.timedOut, "连接目标超时"⟩

/-- `tokio::time::timeout` around the connection or the race. -/
def Connect.step : System (Connect Stream JoinError) (ConnectEvent Stream JoinError)
    (ConnectEvent Stream JoinError) := fun s event =>
  match s, event with
  | .direct _, .joined 0 (.ok (.ok stream)) => some (event, .returned (.ok stream))
  | .direct _, .joined 0 (.ok (.error e)) => some (event, .returned (.error (.io e)))
  | .direct _, .elapsed => some (event, .returned (.error (.io timedOut)))
  | .racing race, .elapsed =>
    match race.result with
    | none => some (event, .returned (.error (.io timedOut)))
    | some _ => none
  | .racing race, event => (race.step event).map fun (event, race) => (event, .racing race)
  | _, _ => none

/-! ### What a turn does -/

namespace Race

inductive Moves (s : Race Stream JoinError) : ConnectEvent Stream JoinError → Race Stream JoinError → Prop
  | connected {attempt : ℕ} (stream : Stream) (h : attempt ∈ s.joinSet) :
      Moves s (.joined attempt (.ok (.ok stream))) { s with joinSet := [], result := some (.ok stream) }
  | failed {attempt : ℕ} {result : JoinResult Stream JoinError} {error : ConnectError JoinError}
      (h : attempt ∈ s.joinSet) (he : result.error? = some error) :
      Moves s (.joined attempt result)
        ({ s with joinSet := s.joinSet.erase attempt }.fail error).loopHead
  | delay {nextAddr : SocketAddr} (h : s.nextCandidate = some nextAddr) :
      Moves s .delay (s.spawn nextAddr).advance.loopHead

theorem step_cases {s s' : Race Stream JoinError} {event e : ConnectEvent Stream JoinError}
    (h : step s event = some (e, s')) : e = event ∧ s.result = none ∧ Moves s event s' := by
  unfold step at h
  split at h
  · rename_i attempt result hresult
    split at h
    · rename_i hmem
      match result with
      | .ok (.ok stream) =>
        cases h
        exact ⟨rfl, hresult, .connected stream hmem⟩
      | .ok (.error e) =>
        cases h
        exact ⟨rfl, hresult, .failed hmem rfl⟩
      | .error joinErr =>
        cases h
        exact ⟨rfl, hresult, .failed hmem rfl⟩
    · cases h
  · rename_i hresult
    split at h
    · rename_i nextAddr hnext
      cases h
      exact ⟨rfl, hresult, .delay hnext⟩
    · cases h
  · cases h

theorem fail_of_none {s : Race Stream JoinError} {error : ConnectError JoinError}
    (h : s.nextCandidate = none) : s.fail error = { s with lastError := some error } := by
  simp only [fail, h]

theorem fail_of_some {s : Race Stream JoinError} {error : ConnectError JoinError} {nextAddr : SocketAddr}
    (h : s.nextCandidate = some nextAddr) :
    s.fail error = ({ s with lastError := some error }.spawn nextAddr).advance := by
  simp only [fail, h]

/-- An attempt of the set that fails is joined at once. -/
theorem step_failed {s : Race Stream JoinError} {attempt : ℕ} {result : JoinResult Stream JoinError}
    {error : ConnectError JoinError} (hs : s.result = none) (h : attempt ∈ s.joinSet)
    (he : result.error? = some error) :
    step s (.joined attempt result) = some (.joined attempt result,
      ({ s with joinSet := s.joinSet.erase attempt }.fail error).loopHead) := by
  unfold step
  rw [hs]
  match result with
  | .ok (.ok stream) => cases he
  | .ok (.error e) =>
    cases he
    simp only [h, ↓reduceIte]
  | .error joinErr =>
    cases he
    simp only [h, ↓reduceIte]

/-! ### Between two turns -/

/-- The addresses that no attempt was started for. -/
def unstarted (s : Race Stream JoinError) : List SocketAddr := s.nextCandidate.toList ++ s.addrIter

/-- What holds of the turns `es` of a race that has not returned, also before its loop head. -/
structure Pending (ordered : List SocketAddr) (es : List (ConnectEvent Stream JoinError))
    (s : Race Stream JoinError) : Prop where
  running : s.result = none
  order : s.started ++ s.unstarted = ordered
  exhausted : s.nextCandidate = none → s.addrIter = []
  noSuccess : es.findSome? ConnectEvent.stream? = none
  lastError : s.lastError = (es.filterMap ConnectEvent.error?).getLast?
  tasks : (s.joinSet ++ es.filterMap ConnectEvent.failed?).Perm (List.range s.started.length)
  turns : es.length + 2 * s.unstarted.length + s.joinSet.length + 1 ≤ 2 * ordered.length

variable {ordered : List SocketAddr} {es : List (ConnectEvent Stream JoinError)}
  {s s' : Race Stream JoinError}

theorem unstarted_of_some {nextAddr : SocketAddr} (h : s.nextCandidate = some nextAddr) :
    s.unstarted = nextAddr :: (s.spawn nextAddr).advance.unstarted := by
  unfold unstarted spawn advance
  rw [h]
  cases s.addrIter <;> rfl

/-- Starting the next address makes room for one more turn. -/
theorem Pending.spawn_advance {nextAddr : SocketAddr} (h : Pending ordered es s)
    (hnext : s.nextCandidate = some nextAddr) :
    Pending ordered es (s.spawn nextAddr).advance ∧
      es.length + 1 + 2 * (s.spawn nextAddr).advance.unstarted.length +
        (s.spawn nextAddr).advance.joinSet.length + 1 ≤ 2 * ordered.length := by
  have hunstarted := unstarted_of_some hnext
  have hturns := h.turns
  rw [hunstarted, List.length_cons] at hturns
  have hjoin : (s.spawn nextAddr).advance.joinSet.length = s.joinSet.length + 1 := by
    simp [Race.spawn, Race.advance]
  refine ⟨⟨h.running, ?_, ?_, h.noSuccess, h.lastError, ?_, by omega⟩, by omega⟩
  · rw [← h.order, hunstarted]
    simp [Race.spawn, Race.advance]
  · intro hnone
    cases haddr : s.addrIter with
    | nil => simp [Race.spawn, Race.advance, haddr]
    | cons a rest => simp [Race.spawn, Race.advance, haddr] at hnone
  · have hperm : (s.joinSet ++ [s.started.length] ++ es.filterMap ConnectEvent.failed?).Perm
        (s.joinSet ++ es.filterMap ConnectEvent.failed? ++ [s.started.length]) := by
      rw [List.append_assoc, List.append_assoc]
      exact List.perm_append_comm.append_left _
    simp only [Race.spawn, Race.advance, List.length_append, List.length_singleton,
      List.range_succ]
    exact hperm.trans (h.tasks.append_right _)

theorem Pending.delay (h : Pending ordered es s)
    (hturns : es.length + 1 + 2 * s.unstarted.length + s.joinSet.length + 1 ≤ 2 * ordered.length) :
    Pending ordered (es ++ [.delay]) s := by
  refine ⟨h.running, h.order, h.exhausted, ?_, ?_, ?_, ?_⟩
  · simp [List.findSome?_append, h.noSuccess]
  · simp [h.lastError]
  · have hnone : List.filterMap ConnectEvent.failed? [(.delay : ConnectEvent Stream JoinError)] = [] := rfl
    rw [List.filterMap_append, hnone, List.append_nil]
    exact h.tasks
  · simpa using hturns

theorem JoinResult.error?_isSome {result : JoinResult Stream JoinError} {error : ConnectError JoinError}
    (he : result.error? = some error) (attempt : ℕ) :
    (ConnectEvent.joined attempt result).stream? = none := by
  match result with
  | .ok (.ok stream) => cases he
  | .ok (.error e) => rfl
  | .error joinErr => rfl

/-- A failed attempt leaves the join set and the error behind. -/
theorem Pending.joined {attempt : ℕ} {result : JoinResult Stream JoinError}
    {error : ConnectError JoinError} (h : Pending ordered es s) (hmem : attempt ∈ s.joinSet)
    (he : result.error? = some error) :
    Pending ordered (es ++ [.joined attempt result])
      { s with joinSet := s.joinSet.erase attempt, lastError := some error } := by
  have hlength := List.length_erase_of_mem hmem
  have hpos := List.length_pos_of_mem hmem
  have hturns := h.turns
  refine ⟨h.running, h.order, h.exhausted, ?_, ?_, ?_, ?_⟩
  · rw [List.findSome?_append, h.noSuccess]
    simp [JoinResult.error?_isSome he attempt]
  · simp [ConnectEvent.error?, he]
  · have hperm : (s.joinSet.erase attempt ++ (es.filterMap ConnectEvent.failed? ++ [attempt])).Perm
        (s.joinSet ++ es.filterMap ConnectEvent.failed?) := by
      rw [← List.append_assoc]
      exact List.perm_append_comm.trans ((List.perm_cons_erase hmem).symm.append_right _)
    simpa [ConnectEvent.failed?, he] using hperm.trans h.tasks
  · have hroom : es.length + 1 + 2 * s.unstarted.length + (s.joinSet.length - 1) + 1 ≤ 2 * ordered.length := by
      omega
    simp only [List.length_append, List.length_singleton, hlength]
    exact hroom

/-! ### The invariant of the loop head -/

/-- A race that goes on has an attempt to wait for; it gives up with the last error only when
every address has failed; and it returns the first stream. -/
inductive Inv (ordered : List SocketAddr) (es : List (ConnectEvent Stream JoinError))
    (s : Race Stream JoinError) : Prop
  | running (h : Pending ordered es s) (hjoin : s.joinSet ≠ [])
  | failed {error : ConnectError JoinError} (h : Pending ordered es { s with result := none })
      (hresult : s.result = some (.error error)) (hnext : s.nextCandidate = none)
      (hjoin : s.joinSet = []) (herror : s.lastError = some error)
  | connected {stream : Stream} (hresult : s.result = some (.ok stream))
      (horder : s.started ++ s.unstarted = ordered)
      (hfirst : es.findSome? ConnectEvent.stream? = some stream)
      (hturns : es.length + 1 ≤ 2 * ordered.length)

theorem Pending.loopHead (h : Pending ordered es s)
    (hjoin : s.joinSet = [] → s.nextCandidate = none ∧ s.lastError.isSome) :
    Inv ordered es s.loopHead := by
  by_cases hempty : s.joinSet = []
  · obtain ⟨hnext, herror⟩ := hjoin hempty
    obtain ⟨error, herror⟩ := Option.isSome_iff_exists.mp herror
    have hhead : s.loopHead = { s with result := some (.error error) } := by
      simp [Race.loopHead, hempty, hnext, herror]
    rw [hhead]
    have hs : { s with result := none } = s := by rw [← h.running]
    exact .failed (by rw [hs]; exact h) rfl hnext hempty herror
  · have hhead : s.loopHead = s := by simp [Race.loopHead, hempty]
    rw [hhead]
    exact .running h hempty

theorem spawn_joinSet (nextAddr : SocketAddr) : (s.spawn nextAddr).advance.joinSet ≠ [] := by
  simp [Race.spawn, Race.advance]

/-- The next address is started at once; without one the race may be over. -/
theorem Pending.fail {error : ConnectError JoinError}
    (h : Pending ordered es { s with lastError := some error }) : Inv ordered es (s.fail error).loopHead := by
  obtain hnext | ⟨nextAddr, hnext⟩ := Option.eq_none_or_eq_some s.nextCandidate
  · rw [fail_of_none hnext]
    exact h.loopHead fun _ => ⟨hnext, rfl⟩
  · rw [fail_of_some hnext]
    exact (h.spawn_advance hnext).1.loopHead fun hempty => absurd hempty (spawn_joinSet _)

theorem start_inv (h : 1 ≤ ordered.length) : Inv ordered [] (start ordered : Race Stream JoinError) := by
  match ordered with
  | [] => simp at h
  | first :: rest =>
    refine Pending.loopHead ⟨rfl, ?_, ?_, rfl, rfl, .refl _, ?_⟩ fun hjoin => absurd hjoin (by simp [spawn, advance])
    · cases rest <;> rfl
    · intro hnone
      cases rest with
      | nil => rfl
      | cons a rest => cases hnone
    · cases rest with
      | nil => simp [spawn, advance, unstarted]
      | cons a rest =>
        simp only [spawn, advance, unstarted, List.head?_cons, List.tail_cons, Option.toList_some,
          List.singleton_append, List.length_cons, List.nil_append, List.length_nil]
        omega

theorem Inv.step {event e : ConnectEvent Stream JoinError} (h : Inv ordered es s)
    (hstep : step s event = some (e, s')) : Inv ordered (es ++ [e]) s' := by
  obtain ⟨rfl, hresult, hmoves⟩ := step_cases hstep
  cases h with
  | failed _ herror => rw [hresult] at herror; cases herror
  | connected hstream => rw [hresult] at hstream; cases hstream
  | running h hjoin =>
    cases hmoves with
    | connected stream hmem =>
      have hpos := List.length_pos_of_mem hmem
      have hturns := h.turns
      refine .connected rfl h.order ?_ ?_
      · simp [List.findSome?_append, h.noSuccess, ConnectEvent.stream?]
      · simp only [List.length_append, List.length_singleton]
        omega
    | delay hnext =>
      obtain ⟨hpending, hturns⟩ := h.spawn_advance hnext
      exact (hpending.delay hturns).loopHead fun hempty => absurd hempty (spawn_joinSet _)
    | failed hmem he => exact (h.joined hmem he).fail

/-- A failure that is seen while an address waits starts an attempt for it. -/
theorem step_failed_started {attempt : ℕ} {result : JoinResult Stream JoinError}
    {error : ConnectError JoinError} {nextAddr : SocketAddr} (hs : s.result = none)
    (hnext : s.nextCandidate = some nextAddr) (hmem : attempt ∈ s.joinSet)
    (he : result.error? = some error) :
    ∃ s', step s (.joined attempt result) = some (.joined attempt result, s') ∧
      s'.started = s.started ++ [nextAddr] := by
  refine ⟨_, step_failed hs hmem he, ?_⟩
  have hfail : ({ s with joinSet := s.joinSet.erase attempt } : Race Stream JoinError).fail error = _ :=
    fail_of_some hnext
  rw [hfail]
  simp [Race.loopHead, Race.spawn, Race.advance]

end Race

/-! ### The runs of `happy_eyeballs_connect` -/

variable {addresses : List SocketAddr}

theorem happyEyeballsConnect_eq (h : 2 ≤ addresses.length) :
    (happyEyeballsConnect addresses : Connect Stream JoinError) =
      .racing (.start (interleaveAddresses addresses)) := by
  match addresses with
  | [] => simp at h
  | [a] => simp at h
  | a :: b :: rest => rfl

theorem Connect.step_racing {race race' : Race Stream JoinError} {event e : ConnectEvent Stream JoinError}
    (h : race.step event = some (e, race')) :
    Connect.step (.racing race) event = some (e, .racing race') := by
  cases event with
  | joined attempt result => simp only [Connect.step, h, Option.map_some]
  | delay => simp only [Connect.step, h, Option.map_some]
  | elapsed => cases hresult : race.result <;> simp [Race.step, hresult] at h

theorem Connect.step_racing_cases {race : Race Stream JoinError} {c : Connect Stream JoinError}
    {event e : ConnectEvent Stream JoinError} (h : Connect.step (.racing race) event = some (e, c)) :
    e = .elapsed ∨ ∃ race', race.step event = some (e, race') ∧ c = .racing race' := by
  cases event with
  | elapsed =>
    simp only [Connect.step] at h
    split at h
    · cases h
      exact .inl rfl
    · cases h
  | joined attempt result =>
    obtain ⟨⟨e', race'⟩, hrace, heq⟩ := Option.map_eq_some_iff.mp h
    cases heq
    exact .inr ⟨race', hrace, rfl⟩
  | delay =>
    obtain ⟨⟨e', race'⟩, hrace, heq⟩ := Option.map_eq_some_iff.mp h
    cases heq
    exact .inr ⟨race', hrace, rfl⟩

theorem happyEyeballsConnect_inv (hlength : 2 ≤ addresses.length)
    {es : List (ConnectEvent Stream JoinError)} {c : Connect Stream JoinError}
    (h : Connect.step.Reaches (happyEyeballsConnect addresses) es c)
    (htimeout : ConnectEvent.elapsed ∉ es) :
    ∃ race, c = .racing race ∧ race.Inv (interleaveAddresses addresses) es := by
  rw [happyEyeballsConnect_eq hlength] at h
  induction h with
  | start =>
    refine ⟨_, rfl, Race.start_inv ?_⟩
    rw [interleaveAddresses_length]
    omega
  | step _ hi ih =>
    obtain ⟨race, rfl, hrace⟩ := ih fun hmem => htimeout (List.mem_append_left _ hmem)
    obtain rfl | ⟨race', hstep, rfl⟩ := Connect.step_racing_cases hi
    · exact absurd (List.mem_append_right _ (.head _)) htimeout
    · exact ⟨race', rfl, hrace.step hstep⟩

/-- Happy Eyeballs racing is complete: every address gets its attempt in turn, the loop never
stalls, and it gives up only when all attempts have failed. -/
theorem happyEyeballs_complete (addresses : List SocketAddr) (hlength : 2 ≤ addresses.length)
    {es : List (ConnectEvent Stream JoinError)} {c : Connect Stream JoinError}
    (h : Connect.step.Reaches (happyEyeballsConnect addresses) es c)
    (htimeout : ConnectEvent.elapsed ∉ es) :
    ∃ race, c = .racing race ∧
      race.started <+: interleaveAddresses addresses ∧
      (race.result = none → race.joinSet ≠ [] ∧ es.length < 2 * addresses.length - 1) ∧
      (race.result = none → ∀ nextAddr, race.nextCandidate = some nextAddr →
        ∀ attempt ∈ race.joinSet, ∀ result error, JoinResult.error? result = some error →
          ∃ race', Connect.step c (.joined attempt result) =
              some (.joined attempt result, .racing race') ∧
            race'.started = race.started ++ [nextAddr]) ∧
      (∀ stream, race.result = some (.ok stream) ↔ es.findSome? ConnectEvent.stream? = some stream) ∧
      (∀ error, race.result = some (.error error) →
        race.started = interleaveAddresses addresses ∧
        (es.filterMap ConnectEvent.failed?).Perm (List.range addresses.length) ∧
        (es.filterMap ConnectEvent.error?).getLast? = some error) ∧
      es.length ≤ 2 * addresses.length - 1 := by
  obtain ⟨race, rfl, hinv⟩ := happyEyeballsConnect_inv hlength h htimeout
  have horder := interleaveAddresses_length addresses
  refine ⟨race, rfl, ?_⟩
  have hstarts : race.result = none → ∀ nextAddr, race.nextCandidate = some nextAddr →
      ∀ attempt ∈ race.joinSet, ∀ result error, JoinResult.error? result = some error →
        ∃ race', Connect.step (.racing race) (.joined attempt result) =
            some (.joined attempt result, .racing race') ∧
          race'.started = race.started ++ [nextAddr] := by
    intro hresult nextAddr hnext attempt hmem result error he
    obtain ⟨race', hstep, hstarted⟩ := Race.step_failed_started hresult hnext hmem he
    exact ⟨race', Connect.step_racing hstep, hstarted⟩
  cases hinv with
  | running hpending hjoin =>
    have hturns := hpending.turns
    have hpos := List.length_pos_iff.mpr hjoin
    refine ⟨⟨_, hpending.order⟩, fun _ => ⟨hjoin, by omega⟩, hstarts, ?_, ?_, by omega⟩
    · intro stream
      rw [hpending.running, hpending.noSuccess]
      simp
    · intro error herror
      rw [hpending.running] at herror
      cases herror
  | failed hpending hresult hnext hjoin hlast =>
    have hturns := hpending.turns
    have haddr : race.addrIter = [] := hpending.exhausted hnext
    have hunstarted : race.unstarted = [] := by simp [Race.unstarted, hnext, haddr]
    have hstarted : race.started = interleaveAddresses addresses := by
      have := hpending.order
      rwa [← List.append_nil race.started, ← hunstarted]
    refine ⟨⟨_, hpending.order⟩, ?_, hstarts, ?_, ?_, ?_⟩
    · intro hnone
      rw [hresult] at hnone
      cases hnone
    · intro stream
      have hfirst := hpending.noSuccess
      rw [hresult, hfirst]
      simp
    · intro error herror
      rw [hresult] at herror
      cases herror
      have htasks := hpending.tasks
      have herror := hpending.lastError
      simp only [hjoin, List.nil_append, hstarted, horder] at htasks
      exact ⟨hstarted, htasks, herror.symm.trans hlast⟩
    · omega
  | connected hresult hcut hfirst hturns =>
    refine ⟨⟨_, hcut⟩, ?_, hstarts, ?_, ?_, by omega⟩
    · intro hnone
      rw [hresult] at hnone
      cases hnone
    · intro stream
      rw [hresult, hfirst]
      simp
    · intro error herror
      rw [hresult] at herror
      cases herror

def unreachable : SocketAddr := .v4 ⟨#v[127, 0, 0, 1]⟩ 1

def listening : SocketAddr := .v4 ⟨#v[127, 0, 0, 1]⟩ 80

def fallback : List (ConnectEvent ℕ Unit) :=
  [.joined 0 (.ok (.error ⟨.connectionRefused, ""⟩)), .joined 1 (.ok (.ok 7))]

/-- The first address refuses; the second one is started at once and accepts. -/
theorem happyEyeballs_complete_fallback : ∃ race : Race ℕ Unit,
    Connect.step.Reaches (happyEyeballsConnect [unreachable, listening]) fallback (.racing race) ∧
      race.started <+: interleaveAddresses [unreachable, listening] ∧ race.result = some (.ok 7) := by
  have hrun : Connect.step.run (happyEyeballsConnect [unreachable, listening]) fallback =
      some (fallback, .racing ⟨[], some (.io ⟨.connectionRefused, ""⟩), none, [],
        [unreachable, listening], some (.ok 7)⟩) := rfl
  have hreaches := System.reaches_of_run hrun
  obtain ⟨race, hrace, hstarted, -⟩ := happyEyeballs_complete _ (by decide) hreaches (by simp [fallback])
  cases hrace
  exact ⟨_, hreaches, hstarted, rfl⟩

end Brume
