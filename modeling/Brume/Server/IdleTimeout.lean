import Brume.Server.Transparency

/-!
# When the idle timeout cuts a connection

The activity of a relay is recorded behind a whole `write_all`. A receiver that
takes its bytes in small pieces makes none until the last piece, so the timeout
may cut a connection on which bytes have moved a moment ago. It does so exactly
when the schedule lets the timer go off in the middle of such a `write_all`.
-/

namespace Brume.Server
open Lib System

/-- Some writes of a `write_all` are made and some are left. -/
def Copy.PartWritten (c : Copy) : Prop := ∃ n sent, c.pc = .writing n sent ∧ sent ≠ 0

namespace Forward

/-- No byte was taken within `idleTimeout` before the timeout. -/
def NeverCuts (idleTimeout : Duration) (es : List ForwardEvent) : Prop :=
  ∀ es₁ t es₂, es = es₁ ++ .idle t :: es₂ → ∀ d bytes left time, .wrote d bytes left time ∈ es →
    ¬(t < time + idleTimeout.nanos ∧ time ≤ t)

/-- How long ago a schedule has made its last write in this direction. -/
def age (d : Direction) (inputs : List ForwardInput) : Option ℕ :=
  inputs.foldl (fun age i =>
    match i with
    | .tick nanos => age.map (· + nanos)
    | .copy d' (.write _) => if d' = d then some 0 else age
    | _ => age) none

/-- The deadline of `sleep_until` is over, and so is the one that follows from the recorded activity. -/
def Expired (idleTimeout : Duration) (s : Forward) : Prop :=
  s.deadline ≤ s.now ∧ idleTimeout.nanos ≤ s.now - s.activity

/-- Wherever the schedule lets the timer of an expired relay go off, a `write_all`
in progress has made no write within `idleTimeout`. -/
def SleepsStalled (idleTimeout : Duration) (s₀ : Forward) (inputs : List ForwardInput) : Prop :=
  ∀ before after es s, inputs = before ++ .sleep :: after → (forward idleTimeout).run s₀ before = some (es, s) →
    s.Expired idleTimeout → ∀ d, (s.copy d).PartWritten → ∀ nanos, age d before = some nanos →
    idleTimeout.nanos ≤ nanos

/-! ### What one step does to the age of the writes -/

theorem age_append (d : Direction) (inputs : List ForwardInput) (i : ForwardInput) :
    age d (inputs ++ [i]) =
      match i with
      | .tick nanos => (age d inputs).map (· + nanos)
      | .copy d' (.write _) => if d' = d then some 0 else age d inputs
      | _ => age d inputs := by
  simp only [age, List.foldl_append, List.foldl_cons, List.foldl_nil]

theorem age_append_write (d d' : Direction) (inputs : List ForwardInput) (k : ℕ) :
    age d (inputs ++ [.copy d' (.write k)]) = if d' = d then some 0 else age d inputs :=
  age_append d inputs _

theorem age_append_copy (d d' : Direction) (inputs : List ForwardInput) {io : Io} (h : ∀ k, io ≠ .write k) :
    age d (inputs ++ [.copy d' io]) = age d inputs := by
  rw [age_append]
  cases io with
  | write k => exact absurd rfl (h k)
  | _ => rfl

end Forward

namespace Copy

/-- A step fails, writes, or leaves `write_all` where it was. -/
theorem step_writes {c c' : Copy} {io : Io} {e : CopyEvent} (h : c.step io = some (e, c')) :
    c'.Failed ∨ (e = .silent ∧ (∀ k, io ≠ .write k) ∧ (c'.PartWritten ↔ c.PartWritten)) ∨
      ∃ k bytes left, io = .write k ∧ e = .wrote bytes left ∧ (left ≠ 0 → c'.PartWritten) := by
  have hother : ∀ {c : Copy} {pc : CopyPc}, c.pc = pc → (∀ n sent, pc = .writing n sent → sent = 0) →
      ¬c.PartWritten := by
    rintro c pc hpc hzero ⟨n, sent, hwriting, hsent⟩
    exact hsent (hzero n sent (hpc.symm.trans hwriting))
  unfold step at h
  split at h
  · rename_i hpc
    split at h
    · cases h
      exact .inr (.inl ⟨rfl, by simp, iff_of_false (hother rfl (by simp)) (hother hpc (by simp))⟩)
    · cases h
  · rename_i n hn hpc
    split at h
    · split at h
      · cases h
      · cases h
        exact .inr (.inl ⟨rfl, by simp, iff_of_false (hother rfl (by simp)) (hother hpc (by simp))⟩)
    · cases h
  · cases h
    exact .inl ⟨_, rfl⟩
  · cases h
    exact .inl ⟨_, rfl⟩
  · rename_i n sent k hk hpc
    split at h
    · split at h
      · cases h
        exact .inr (.inr ⟨k, _, 0, rfl, rfl, fun hleft => absurd rfl hleft⟩)
      · rename_i hle hall
        cases h
        have hpos : sent + k ≠ 0 := by
          intro hzero
          exact hk (by omega)
        exact .inr (.inr ⟨k, _, n - (sent + k), rfl, rfl, fun _ => ⟨n, sent + k, rfl, hpos⟩⟩)
    · cases h
  · cases h
    exact .inl ⟨_, rfl⟩
  · rename_i hpc
    cases h
    exact .inr (.inl ⟨rfl, by simp, iff_of_false (hother rfl (by simp)) (hother hpc (by simp))⟩)
  · cases h
    exact .inl ⟨_, rfl⟩
  · cases h

end Copy

namespace Forward

/-- Every write is older than the recorded activity or belongs to a `write_all` in
progress, whose last write the schedule has made no earlier. -/
structure Recorded (inputs : List ForwardInput) (es : List ForwardEvent) (s : Forward) : Prop where
  past : ∀ d bytes left time, .wrote d bytes left time ∈ es → time ≤ s.now
  recorded : ∀ d bytes left time, .wrote d bytes left time ∈ es →
    time ≤ s.activity ∨ (s.copy d).PartWritten ∧ ∃ nanos, age d inputs = some nanos ∧ time + nanos ≤ s.now
  aged : ∀ d nanos, age d inputs = some nanos →
    nanos ≤ s.now ∧ ∃ bytes left, .wrote d bytes left (s.now - nanos) ∈ es

theorem recorded_start (s : Forward) : Recorded [] [] s where
  past _ _ _ _ h := by simp at h
  recorded _ _ _ _ h := by simp at h
  aged d nanos h := by cases h

theorem mem_append_ne {es : List ForwardEvent} {e e' : ForwardEvent} (h : e ∈ es ++ [e']) (hne : e ≠ e') : e ∈ es := by
  rcases List.mem_append.mp h with h | h
  · exact h
  · exact absurd (List.mem_singleton.mp h) hne

/-- A step that writes nothing, `nanos` after the last one. -/
theorem Recorded.quiet {inputs : List ForwardInput} {es : List ForwardEvent} {s s' : Forward} {i : ForwardInput}
    {e : ForwardEvent} (h : Recorded inputs es s) (he : ∀ d bytes left time, e ≠ .wrote d bytes left time)
    (nanos : ℕ) (hage : ∀ d, age d (inputs ++ [i]) = (age d inputs).map (· + nanos)) (hnow : s'.now = s.now + nanos)
    (hactivity : s'.activity = s.activity) (hpart : ∀ d, (s'.copy d).PartWritten ↔ (s.copy d).PartWritten) :
    Recorded (inputs ++ [i]) (es ++ [e]) s' := by
  have hold : ∀ {d bytes left time}, ForwardEvent.wrote d bytes left time ∈ es ++ [e] → .wrote d bytes left time ∈ es :=
    fun hmem => mem_append_ne hmem (he _ _ _ _).symm
  refine ⟨fun d bytes left time hmem => ?_, fun d bytes left time hmem => ?_, fun d n hn => ?_⟩
  · rw [hnow]
    exact Nat.le_add_right_of_le (h.past d bytes left time (hold hmem))
  · rw [hactivity, hpart, hage, hnow]
    rcases h.recorded d bytes left time (hold hmem) with hpast | ⟨hwriting, n, hn, hle⟩
    · exact .inl hpast
    · exact .inr ⟨hwriting, n + nanos, by rw [hn]; rfl, by omega⟩
  · rw [hage] at hn
    obtain ⟨n', hn', rfl⟩ := Option.map_eq_some_iff.mp hn
    obtain ⟨hle, bytes, left, hmem⟩ := h.aged d n' hn'
    rw [hnow, Nat.add_sub_add_right]
    exact ⟨by omega, bytes, left, List.mem_append_left _ hmem⟩

/-- A write, which is recorded when it is the last of its `write_all`. -/
theorem Recorded.wrote {inputs : List ForwardInput} {es : List ForwardEvent} {s s' : Forward} {d : Direction}
    {k : ℕ} {bytes : Bytes} {left : ℕ} (h : Recorded inputs es s) (hnow : s'.now = s.now)
    (hactivity : s'.activity = if left = 0 then s.now else s.activity)
    (hpart : left ≠ 0 → (s'.copy d).PartWritten) (hother : ∀ d', d' ≠ d → s'.copy d' = s.copy d') :
    Recorded (inputs ++ [.copy d (.write k)]) (es ++ [.wrote d bytes left s.now]) s' := by
  have hpast : ∀ d' bytes' left' time', .wrote d' bytes' left' time' ∈ es ++ [ForwardEvent.wrote d bytes left s.now] →
      time' ≤ s.now := by
    intro d' bytes' left' time' hmem
    rcases List.mem_append.mp hmem with hmem | hmem
    · exact h.past _ _ _ _ hmem
    · cases List.mem_singleton.mp hmem
      exact Nat.le_refl _
  refine ⟨fun d' bytes' left' time' hmem => ?_, fun d' bytes' left' time' hmem => ?_, fun d' nanos hnanos => ?_⟩
  · rw [hnow]
    exact hpast d' bytes' left' time' hmem
  · have htime := hpast d' bytes' left' time' hmem
    rw [hactivity, age_append_write, hnow]
    by_cases hleft : left = 0
    · rw [if_pos hleft]
      exact .inl htime
    · rw [if_neg hleft]
      by_cases hd : d = d'
      · subst hd
        rw [if_pos rfl]
        exact .inr ⟨hpart hleft, 0, rfl, htime⟩
      · rw [if_neg hd, hother d' (Ne.symm hd)]
        refine h.recorded d' bytes' left' time' (mem_append_ne hmem ?_)
        intro heq
        cases heq
        exact hd rfl
  · rw [age_append_write] at hnanos
    rw [hnow]
    split at hnanos
    · rename_i hd
      cases hnanos
      subst hd
      exact ⟨Nat.zero_le _, bytes, left, by simp⟩
    · obtain ⟨hle, bytes', left', hmem⟩ := h.aged d' nanos hnanos
      exact ⟨hle, bytes', left', List.mem_append_left _ hmem⟩

/-- A direction that fails ends the relay. -/
theorem tryJoin_failed {s : Forward} {d : Direction} (h : (s.copy d).Failed) : tryJoin s.c2r.pc s.r2c.pc ≠ none := by
  obtain ⟨e, he⟩ := h
  cases d with
  | c2r =>
    rw [show s.c2r.pc = _ from he]
    simp [tryJoin]
  | r2c =>
    rw [show s.r2c.pc = _ from he]
    rcases s.c2r.pc with _ | _ | _ | _ | _ <;> simp [tryJoin]

/-- A step of one direction behind which the relay goes on. -/
theorem Recorded.copied {inputs : List ForwardInput} {es : List ForwardEvent} {s : Forward} {d : Direction} {io : Io}
    {e : CopyEvent} {c : Copy} (h : Recorded inputs es s) (hstep : (s.copy d).step io = some (e, c))
    {s' : Forward} (hs' : s' = { (s.setCopy d c).record e with
      result := tryJoin ((s.setCopy d c).record e).c2r.pc ((s.setCopy d c).record e).r2c.pc })
    (hresult : s'.result = none) :
    Recorded (inputs ++ [.copy d io]) (es ++ [event d ((s.setCopy d c).record e).now e]) s' := by
  have hcopy : ∀ d', s'.copy d' = (s.setCopy d c).copy d' := by
    intro d'
    rw [hs', ← copy_record (s.setCopy d c) e d']
    cases d' <;> rfl
  have hnow : s'.now = s.now := by
    rw [hs']
    exact now_setCopy_record s d c e
  have hself : s'.copy d = c := (hcopy d).trans (copy_setCopy s d c)
  have hother : ∀ d', d' ≠ d → s'.copy d' = s.copy d' := fun d' hd => (hcopy d').trans (copy_setCopy_ne s hd c)
  rcases Copy.step_writes hstep with hfailed | ⟨rfl, hio, hpart⟩ | ⟨k, bytes, left, rfl, rfl, hpart⟩
  · have hended : s'.result ≠ none := by
      rw [hs']
      refine tryJoin_failed (s := (s.setCopy d c).record e) (d := d) ?_
      rwa [copy_record, copy_setCopy]
    exact absurd hresult hended
  · refine h.quiet (by simp [event]) 0 (fun d' => ?_) hnow ?_ (fun d' => ?_)
    · rw [age_append_copy d' d inputs hio]
      cases age d' inputs <;> rfl
    · rw [hs']
      cases d <;> rfl
    · by_cases hd : d' = d
      · subst hd
        rw [hself, hpart]
      · rw [hother d' hd]
  · have hevent : event d ((s.setCopy d c).record (.wrote bytes left)).now (.wrote bytes left) =
        .wrote d bytes left s.now := congrArg (ForwardEvent.wrote d bytes left) (now_setCopy_record s d c _)
    have hactivity : s'.activity = if left = 0 then s.now else s.activity := by
      rw [hs']
      cases d <;> cases left <;> rfl
    rw [hevent]
    exact h.wrote hnow hactivity (fun hleft => hself ▸ hpart hleft) hother

theorem Recorded.step {idleTimeout : Duration} {inputs : List ForwardInput} {es : List ForwardEvent}
    {s s' : Forward} {i : ForwardInput} {e : ForwardEvent} (h : Recorded inputs es s)
    (hstep : forward idleTimeout s i = some (e, s')) (hresult : s'.result = none) :
    Recorded (inputs ++ [i]) (es ++ [e]) s' := by
  have hsame : ∀ d, (age d inputs).map (· + 0) = age d inputs := fun d => by cases age d inputs <;> rfl
  unfold forward Forward.step at hstep
  split at hstep
  · cases hstep
  · cases hstep
    exact h.quiet (by simp) _ (fun d => age_append d inputs _) rfl rfl fun d => Iff.rfl
  · split at hstep
    · cases hstep
    · rename_i hcopy
      cases hstep
      exact h.copied hcopy rfl hresult
  · split at hstep
    · cases hstep
    · split at hstep
      · cases hstep
        cases hresult
      · cases hstep
        exact h.quiet (by simp) 0 (fun d => (age_append d inputs _).trans (hsame d).symm) rfl rfl fun d => Iff.rfl
  · split at hstep
    · cases hstep
      exact h.quiet (by simp) 0 (fun d => (age_append d inputs _).trans (hsame d).symm) rfl rfl fun d => Iff.rfl
    · cases hstep

theorem recorded_of_run {idleTimeout : Duration} {s₀ s : Forward} {inputs : List ForwardInput}
    {es : List ForwardEvent} (h : (forward idleTimeout).run s₀ inputs = some (es, s)) (hresult : s.result = none) :
    Recorded inputs es s := by
  refine run_invariant (fun inputs es s => s.result = none → Recorded inputs es s) ?_ (fun _ => recorded_start s₀) h
    hresult
  intro inputs es t i e t' ht hi hresult'
  exact (ht (step_moves hi).1).step hi hresult'

/-! ### The timeout -/

/-- The step that returns the timeout. -/
theorem forward_idle {idleTimeout : Duration} {s s' : Forward} {i : ForwardInput} {t : ℕ}
    (h : forward idleTimeout s i = some (.idle t, s')) :
    i = .sleep ∧ t = s.now ∧ s.result = none ∧ s.Expired idleTimeout ∧ s'.result ≠ none := by
  unfold forward step at h
  split at h
  · cases h
  · cases h
  · split at h
    · cases h
    · rename_i e c hcopy
      cases e <;> simp [event] at h
  · rename_i hresult
    split at h
    · cases h
    · rename_i hdeadline
      split at h
      · rename_i hidle
        cases h
        exact ⟨rfl, rfl, hresult, ⟨Nat.le_of_not_lt hdeadline, hidle⟩, by simp⟩
      · cases h
  · split at h <;> cases h

/-- The timer of an expired relay returns the timeout. -/
theorem forward_sleep (idleTimeout : Duration) {s : Forward} (hresult : s.result = none) (h : s.Expired idleTimeout) :
    forward idleTimeout s .sleep =
      some (.idle s.now, { s with result := some (.error ⟨.timedOut, "TCP 连接空闲超时"⟩) }) := by
  simp only [forward, step, hresult, if_neg (Nat.not_lt.mpr h.1), if_pos h.2]

/-- Nothing happens behind the end of a relay. -/
theorem run_ended {idleTimeout : Duration} {s s' : Forward} {inputs : List ForwardInput} {es : List ForwardEvent}
    (h : (forward idleTimeout).run s inputs = some (es, s')) (hended : s.result ≠ none) : es = [] := by
  cases inputs with
  | nil =>
    cases h
    rfl
  | cons i inputs =>
    rw [run] at h
    split at h
    · cases h
    · rename_i hi
      exact absurd (step_moves hi).1 hended

/-- In every run, the idle timeout spares a connection that is moving data if and
only if the schedule never lets an expired timer go off in the middle of a
`write_all` that has just written. -/
theorem idle_timeout_exact {idleTimeout : Duration} {now : ℕ} {client remote : Bytes} {inputs : List ForwardInput}
    {es : List ForwardEvent} {s : Forward}
    (h : (forward idleTimeout).run (start idleTimeout now client remote) inputs = some (es, s)) :
    NeverCuts idleTimeout es ↔ SleepsStalled idleTimeout (start idleTimeout now client remote) inputs := by
  constructor
  · rintro hnever before after es' u rfl hbefore hexpired d - nanos hnanos
    obtain ⟨es₁, e, es₂, v, v', rfl, hv, hsleep, -⟩ := run_split_input h
    obtain ⟨rfl, rfl⟩ : es' = es₁ ∧ u = v := by
      rw [hbefore] at hv
      cases hv
      exact ⟨rfl, rfl⟩
    have hresult := (step_moves hsleep).1
    rw [forward_sleep idleTimeout hresult hexpired] at hsleep
    cases hsleep
    obtain ⟨hle, bytes, left, hmem⟩ := (recorded_of_run hbefore hresult).aged d nanos hnanos
    have hold := hnever es' u.now es₂ rfl d bytes left _ (List.mem_append_left _ hmem)
    omega
  · rintro hstalled es₁ t es₂ rfl d bytes left time hmem hrecent
    obtain ⟨before, i, after, u, u', rfl, hbefore, hi, hafter⟩ := run_split_event h
    obtain ⟨rfl, rfl, hresult, hexpired, hended⟩ := forward_idle hi
    obtain rfl := run_ended hafter hended
    have hold := hstalled before after es₁ u rfl hbefore hexpired d
    rcases (recorded_of_run hbefore hresult).recorded d bytes left time (mem_append_ne hmem (by simp)) with
      hpast | ⟨hwriting, nanos, hnanos, hle⟩
    · have hidle := hexpired.2
      omega
    · have hage := hold hwriting nanos hnanos
      omega

/-! ### A slow receiver -/

def slowInputs : List ForwardInput :=
  [.copy .c2r (.read 2), .tick 600000000, .copy .c2r (.write 1), .tick 400000000, .sleep]

/-- Two bytes are read, one of them is taken after 0.6 s, and the timeout of one
second cuts the connection 0.4 s later. -/
theorem slow_receiver : ∃ s, (forward ⟨1⟩).run (start ⟨1⟩ 0 [1, 2] []) slowInputs =
    some ([.silent, .silent, .wrote .c2r [1] 1 600000000, .silent, .idle 1000000000], s) := by
  have hbuffer : 2 ≤ (Copy.start [1, 2]).buffer.length := by
    rw [Copy.start, List.length_replicate]
    decide
  have hsecond : Duration.nanos ⟨1⟩ = 1000000000 := by decide
  obtain ⟨rest, hrest⟩ : ∃ rest, (Copy.start [1, 2]).buffer.drop 2 = rest := ⟨_, rfl⟩
  have hread := forward_copy ⟨1⟩ (s := start ⟨1⟩ 0 [1, 2] []) rfl
    (Copy.step_read (rfl : ((start ⟨1⟩ 0 [1, 2] []).copy .c2r).pc = .reading) (Nat.le_refl 2) hbuffer)
  let s (now : ℕ) (c : Copy) : Forward := { start ⟨1⟩ 0 [1, 2] [] with c2r := c, now := now }
  have hread' : forward ⟨1⟩ (start ⟨1⟩ 0 [1, 2] []) (.copy .c2r (.read 2)) =
      some (.silent, s 0 ⟨[], [], false, 1 :: 2 :: rest, 0, .writing 2 0⟩) := by
    rw [← hrest]
    exact hread
  have hwrote : forward ⟨1⟩ (s 600000000 ⟨[], [], false, 1 :: 2 :: rest, 0, .writing 2 0⟩) (.copy .c2r (.write 1)) =
      some (.wrote .c2r [1] 1 600000000, s 600000000 ⟨[], [1], false, 1 :: 2 :: rest, 0, .writing 2 1⟩) :=
    forward_copy ⟨1⟩ (s := s 600000000 ⟨[], [], false, 1 :: 2 :: rest, 0, .writing 2 0⟩) (d := .c2r) rfl
      (rfl : Copy.step ⟨[], [], false, 1 :: 2 :: rest, 0, .writing 2 0⟩ (.write 1) =
        some (.wrote [1] 1, ⟨[], [1], false, 1 :: 2 :: rest, 0, .writing 2 1⟩))
  have hsleep := forward_sleep ⟨1⟩ (s := s 1000000000 ⟨[], [1], false, 1 :: 2 :: rest, 0, .writing 2 1⟩) rfl
    ⟨Nat.le_of_eq (congrArg (0 + ·) hsecond), Nat.le_of_eq hsecond⟩
  have htick : ∀ now nanos c, forward ⟨1⟩ (s now c) (.tick nanos) = some (.silent, s (now + nanos) c) := fun _ _ _ => rfl
  exact ⟨_, run_cons hread' (run_cons (htick 0 600000000 _)
    (run_cons hwrote (run_cons (htick 600000000 400000000 _) (run_cons hsleep (run_nil _)))))⟩

theorem idle_timeout_exact_slow :
    NeverCuts ⟨1⟩ [.silent, .silent, .wrote .c2r [1] 1 600000000, .silent, .idle 1000000000] ↔
      SleepsStalled ⟨1⟩ (start ⟨1⟩ 0 [1, 2] []) slowInputs :=
  slow_receiver.elim fun _ h => idle_timeout_exact h

theorem idle_timeout_cuts :
    ¬∀ inputs es s, (forward ⟨1⟩).run (start ⟨1⟩ 0 [1, 2] []) inputs = some (es, s) → NeverCuts ⟨1⟩ es := by
  intro hnever
  obtain ⟨s, hs⟩ := slow_receiver
  refine hnever _ _ s hs [.silent, .silent, .wrote .c2r [1] 1 600000000, .silent] 1000000000 [] rfl .c2r [1] 1 600000000
    (by simp) ⟨?_, by decide⟩
  have hsecond : Duration.nanos ⟨1⟩ = 1000000000 := by decide
  rw [hsecond]
  decide

end Forward

end Brume.Server
