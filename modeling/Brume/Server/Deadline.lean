import Brume.ConfigParse
import Brume.Server.Forward

/-!
# Deadlines (`server.rs`)

The machines of the relay count their clock in nanoseconds without a bound. An
`Instant` has 64 bits for its seconds, and `+` panics where the sum does not
fit. Here the two sums with a configured timeout are taken on such a clock, and
where they fit they are those of the machines. (`sleep_until` rounds a deadline up
to the millisecond; the machines let a timer go off at any time behind it.)
-/

namespace Brume.Server
open Lib

/-- A reading of the monotonic clock. -/
structure Instant where
  secs : Int64
  nanos : ℕ
  nanos_lt : nanos < 1000000000

namespace Instant

/-- The reading in nanoseconds. -/
def total (t : Instant) : ℤ := t.secs.toInt * 1000000000 + t.nanos

/-- `t + timeout`; `none` is the panic. A timeout has no nanoseconds that could carry. -/
def add (t : Instant) (timeout : Duration) : Option Instant :=
  let secs := t.secs.toInt + timeout.secs.toNat
  if secs < 2 ^ 63 then some { t with secs := Int64.ofInt secs } else none

theorem add_isSome_iff {t : Instant} {timeout : Duration} :
    (t.add timeout).isSome ↔ t.secs.toInt + timeout.secs.toNat < 2 ^ 63 := by
  unfold add
  simp only
  split
  · rename_i hfits
    simpa using hfits
  · rename_i hlarge
    simpa using hlarge

theorem total_add {t u : Instant} {timeout : Duration} (h : t.add timeout = some u) :
    u.total = t.total + timeout.nanos := by
  have hlow := t.secs.le_toInt
  unfold add at h
  simp only at h
  split at h
  · rename_i hfits
    cases h
    have hsecs : (Int64.ofInt (t.secs.toInt + timeout.secs.toNat)).toInt =
        t.secs.toInt + timeout.secs.toNat := Int64.toInt_ofInt_of_le (by omega) hfits
    simp only [total, hsecs, Duration.nanos]
    push_cast
    ring
  · cases h

/-- The addition panics exactly where no reading stands for the sum. -/
theorem add_isSome_iff_representable {t : Instant} {timeout : Duration} :
    (t.add timeout).isSome ↔ ∃ u : Instant, u.total = t.total + timeout.nanos := by
  constructor
  · intro h
    obtain ⟨u, hu⟩ := Option.isSome_iff_exists.mp h
    exact ⟨u, total_add hu⟩
  · rintro ⟨u, hu⟩
    rw [add_isSome_iff]
    have hhigh := u.secs.toInt_lt
    have hnanos := u.nanos_lt
    have hnanos' := t.nanos_lt
    simp only [total, Duration.nanos] at hu
    push_cast at hu
    omega

/-- The reading that stands for `nanos` on the clock of a machine that started at `origin`. -/
def At (origin : ℤ) (nanos : ℕ) (t : Instant) : Prop := t.total = origin + nanos

theorem add_at {t u : Instant} {timeout : Duration} {origin : ℤ} {nanos : ℕ} (ht : t.At origin nanos)
    (h : t.add timeout = some u) : u.At origin (nanos + timeout.nanos) := by
  have hsum := total_add h
  unfold At at ht ⊢
  push_cast
  omega

/-- An earlier reading leaves room for what fits behind a later one. -/
theorem add_isSome_of_le {t t' : Instant} {timeout : Duration} (hle : t.total ≤ t'.total)
    (h : (t'.add timeout).isSome) : (t.add timeout).isSome := by
  rw [add_isSome_iff] at h ⊢
  have hnanos := t.nanos_lt
  have hnanos' := t'.nanos_lt
  unfold total at hle
  omega

end Instant

inductive Deadline where
  | unlimited
  | sleepUntil (t : Instant)
  | panicked

/-- The sum behind a deadline. -/
def deadlineOf (activity : Instant) (timeout : Duration) : Deadline :=
  match activity.add timeout with
  | some t => .sleepUntil t
  | none => .panicked

/-- The head of the loop of `forward_bidirectional`. -/
def forwardDeadline (timeout : Option Duration) (activity : Instant) : Deadline :=
  match timeout with
  | none => .unlimited
  | some idleTimeout => deadlineOf activity idleTimeout

/-- The head of the loop of `receive_remote`. -/
def receiverDeadline (timeout : Duration) (lastActivity : Instant) : Deadline :=
  if timeout.secs = 0 then .unlimited else deadlineOf lastActivity timeout

theorem deadlineOf_panicked {activity : Instant} {timeout : Duration} :
    deadlineOf activity timeout = .panicked ↔ 2 ^ 63 ≤ activity.secs.toInt + timeout.secs.toNat := by
  have hsome : (activity.add timeout).isSome ↔ _ := Instant.add_isSome_iff
  unfold deadlineOf
  cases hadd : activity.add timeout with
  | none =>
    rw [hadd] at hsome
    simp only [Option.isSome_none, Bool.false_eq_true, false_iff, not_lt] at hsome
    simpa using hsome
  | some t =>
    rw [hadd] at hsome
    simp only [Option.isSome_some, true_iff] at hsome
    simpa using hsome

/-- The sum of a machine is taken where an `Instant` stands for it, and panics elsewhere. -/
theorem deadlineOf_at {activity : Instant} {timeout : Duration} {origin : ℤ} {nanos : ℕ} (h : activity.At origin nanos) :
    (∃ t, deadlineOf activity timeout = .sleepUntil t ∧ t.At origin (nanos + timeout.nanos)) ↔
      ∃ t : Instant, t.At origin (nanos + timeout.nanos) := by
  constructor
  · rintro ⟨t, -, ht⟩
    exact ⟨t, ht⟩
  · rintro ⟨t, ht⟩
    have htotal : t.total = activity.total + timeout.nanos := by
      unfold Instant.At at h ht
      push_cast at ht
      omega
    obtain ⟨u, hu⟩ := Option.isSome_iff_exists.mp (Instant.add_isSome_iff_representable.mpr ⟨t, htotal⟩)
    exact ⟨u, by rw [deadlineOf, hu], Instant.add_at h hu⟩

/-- A sum that fits behind the present reading fits behind every earlier one. -/
theorem deadlineOf_of_le {activity clock : Instant} {timeout : Duration} {origin : ℤ} {nanos now : ℕ}
    (h : activity.At origin nanos) (hclock : clock.At origin now) (hle : nanos ≤ now)
    (hfits : deadlineOf clock timeout ≠ .panicked) :
    ∃ t, deadlineOf activity timeout = .sleepUntil t ∧ t.At origin (nanos + timeout.nanos) := by
  have hsome : (clock.add timeout).isSome := by
    rw [Ne, deadlineOf_panicked, not_le] at hfits
    exact Instant.add_isSome_iff.mpr hfits
  have htotal : activity.total ≤ clock.total := by
    unfold Instant.At at h hclock
    omega
  obtain ⟨t, ht⟩ := Option.isSome_iff_exists.mp (Instant.add_isSome_of_le htotal hsome)
  exact (deadlineOf_at h).mpr ⟨t, Instant.add_at h ht⟩

/-- Neither sum of a server with this configuration panics at this reading of the clock. -/
def DeadlinesRepresentable (config : Config) (t : Instant) : Prop :=
  forwardDeadline config.tcpTimeout t ≠ .panicked ∧ receiverDeadline config.udpTimeout t ≠ .panicked

/-- The sums fit exactly when each timeout leaves the seconds of the clock below their end. -/
theorem deadlinesRepresentable_iff (config : Config) (t : Instant) :
    DeadlinesRepresentable config t ↔
      (∀ timeout, config.tcpTimeout = some timeout → t.secs.toInt + timeout.secs.toNat < 2 ^ 63) ∧
        t.secs.toInt + config.udpTimeout.secs.toNat < 2 ^ 63 := by
  have hclock := t.secs.toInt_lt
  unfold DeadlinesRepresentable
  apply and_congr
  · cases htcp : config.tcpTimeout with
    | none => simp [forwardDeadline]
    | some timeout =>
      rw [forwardDeadline, Ne, deadlineOf_panicked]
      simp
  · unfold receiverDeadline
    split
    · rename_i hzero
      have hnone : config.udpTimeout.secs.toNat = 0 := by rw [hzero]; rfl
      simp only [ne_eq, reduceCtorEq, not_false_eq_true, true_iff]
      omega
    · rw [Ne, deadlineOf_panicked]
      simp

/-- The largest timeout is accepted and panics when the server has been up for a day. -/
theorem largest_timeout_panics :
    ¬∀ (files : Text → Except String Text) (args : List Text) (config : Config),
      Config.parse files args = .ok (some config) → ∀ t, DeadlinesRepresentable config t := by
  intro h
  have hparse : Config.parse (fun _ => .error "") ["--tcp-timeout=18446744073709551615".toList] =
      .ok (some { Config.initial with tcpTimeout := some ⟨18446744073709551615⟩ }) := by decide
  have hpanics := (h _ _ _ hparse ⟨86400, 0, by decide⟩).1
  exact hpanics rfl

end Brume.Server
