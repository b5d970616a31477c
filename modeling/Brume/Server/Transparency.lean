import Brume.Server.Forward
import Brume.Server.Transcript

/-!
# The TCP relay loses nothing

The invariant of one copy loop splits the stream of its reader into what the
writer has taken, what lies in the buffer and what is still to be read.
-/

namespace Brume.Server
open Lib System Session Protocol

/-! ### One direction -/

namespace Copy

/-- The part of the buffer that `write_all` has not written. -/
def pending (c : Copy) : Bytes :=
  match c.pc with
  | .writing n sent => (c.buffer.take n).drop sent
  | _ => []

def Failed (c : Copy) : Prop := ∃ e, c.pc = .returned (.error e)

/-- A loop that copies `stream`. -/
structure Copies (stream : Bytes) (c : Copy) : Prop where
  buffer_length : c.buffer.length = COPY_BUFFER_SIZE
  in_order : ∃ lost, c.delivered ++ lost ++ c.unread = stream ∧ (¬c.Failed → lost = c.pending)
  writing : ∀ n sent, c.pc = .writing n sent → sent < n ∧ n ≤ COPY_BUFFER_SIZE
  at_eof : c.pc = .shuttingDown → c.delivered = stream
  shut : c.shut = true → c.delivered = stream ∧ ∃ n, c.pc = .returned (.ok n)
  returned : ∀ n, c.pc = .returned (.ok n) → c.shut = true

theorem copies_start (stream : Bytes) : Copies stream (start stream) where
  buffer_length := List.length_replicate
  in_order := ⟨[], rfl, fun _ => rfl⟩
  writing n sent h := by cases h
  at_eof h := by cases h
  shut h := by cases h
  returned n h := by cases h

/-- What one step can do. -/
inductive Moves (c : Copy) : CopyEvent → Copy → Prop
  | eof (hpc : c.pc = .reading) (h : c.unread = []) : Moves c .silent { c with pc := .shuttingDown }
  | read (n : ℕ) (hpc : c.pc = .reading) (hpos : 0 < n) (hn : n ≤ c.unread.length) (hbuffer : n ≤ c.buffer.length) :
      Moves c .silent { c with unread := c.unread.drop n, buffer := c.unread.take n ++ c.buffer.drop n, pc := .writing n 0 }
  | wrote (n sent k : ℕ) (hpc : c.pc = .writing n sent) (hpos : 0 < k) (hk : sent + k < n) :
      Moves c (.wrote (c.pending.take k) (n - (sent + k)))
        { c with delivered := c.delivered ++ c.pending.take k, pc := .writing n (sent + k) }
  | wroteAll (n sent k : ℕ) (hpc : c.pc = .writing n sent) (hpos : 0 < k) (hk : sent + k = n) :
      Moves c (.wrote (c.pending.take k) 0)
        { c with delivered := c.delivered ++ c.pending.take k, total := c.total + UInt64.ofNat n, pc := .reading }
  | shutdown (hpc : c.pc = .shuttingDown) :
      Moves c .silent { c with shut := true, pc := .returned (.ok c.total) }
  | failed (e : IoError) (hpc : ∀ r, c.pc ≠ .returned r) : Moves c .silent (c.fail e)

theorem step_moves {c c' : Copy} {io : Io} {e : CopyEvent} (h : c.step io = some (e, c')) : Moves c e c' := by
  unfold step at h
  split at h
  · rename_i hpc
    split at h
    · rename_i hunread
      cases h
      exact .eof hpc hunread
    · cases h
  · rename_i n hn hpc
    split at h
    · rename_i hle
      split at h
      · cases h
      · rename_i buffer hcopy
        cases h
        obtain ⟨rfl, -, hbuffer, -⟩ := copyInto_ok hcopy
        have hpos : 0 < n := Nat.pos_of_ne_zero hn
        exact .read n hpc hpos hle hbuffer
    · cases h
  · rename_i e hpc
    cases h
    exact .failed e fun r hr => by cases hpc.symm.trans hr
  · rename_i hpc
    cases h
    exact .failed _ fun r hr => by cases hpc.symm.trans hr
  · rename_i n sent k hk hpc
    have hpos : 0 < k := Nat.pos_of_ne_zero hk
    have hpending : c.pending = (c.buffer.take n).drop sent := by
      unfold pending
      rw [hpc]
    simp only [← hpending] at h
    split at h
    · split at h
      · rename_i hall
        cases h
        exact .wroteAll n sent k hpc hpos hall
      · rename_i hle hall
        cases h
        exact .wrote n sent k hpc hpos (by omega)
    · cases h
  · rename_i n sent e hpc
    cases h
    exact .failed e fun r hr => by cases hpc.symm.trans hr
  · rename_i hpc
    cases h
    exact .shutdown hpc
  · rename_i e hpc
    cases h
    exact .failed e fun r hr => by cases hpc.symm.trans hr
  · cases h

theorem step_read {c : Copy} {n : ℕ} (hpc : c.pc = .reading) (hn : n + 1 ≤ c.unread.length)
    (hbuffer : n + 1 ≤ c.buffer.length) :
    c.step (.read (n + 1)) = some (.silent,
      { c with
        unread := c.unread.drop (n + 1)
        buffer := c.unread.take (n + 1) ++ c.buffer.drop (n + 1)
        pc := .writing (n + 1) 0 }) := by
  have hlen : (c.unread.take (n + 1)).length = n + 1 := List.length_take_of_le hn
  simp only [step, hpc, if_pos hn, copyInto, hlen, hbuffer, Nat.zero_le, Nat.sub_zero, and_self, ↓reduceIte,
    List.take_zero, List.nil_append]

theorem not_failed {c : Copy} {pc : CopyPc} (hpc : c.pc = pc) (h : ∀ r, pc ≠ .returned r) : ¬c.Failed := by
  rintro ⟨e, he⟩
  exact h _ (hpc.symm.trans he)

/-- Nothing lies in the buffer of a loop that is not writing. -/
theorem Copies.drained {stream : Bytes} {c : Copy} (h : Copies stream c) (hpending : c.pending = [])
    (hfailed : ¬c.Failed) : c.delivered ++ c.unread = stream := by
  obtain ⟨lost, horder, hlost⟩ := h.in_order
  rwa [hlost hfailed, hpending, List.append_nil] at horder

/-- A loop that has not returned has not shut its writer down. -/
theorem Copies.open {stream : Bytes} {c : Copy} (h : Copies stream c) {pc : CopyPc} (hpc : c.pc = pc)
    (hne : ∀ r, pc ≠ .returned r) : ¬c.shut = true := by
  intro hshut
  obtain ⟨-, n, hn⟩ := h.shut hshut
  exact hne _ (hpc.symm.trans hn)

/-- A write takes the front of what is pending. -/
theorem Copies.wrote {stream : Bytes} {c : Copy} (h : Copies stream c) (hfailed : ¬c.Failed) (k : ℕ) :
    c.delivered ++ c.pending.take k ++ c.pending.drop k ++ c.unread = stream := by
  obtain ⟨lost, horder, hlost⟩ := h.in_order
  rw [hlost hfailed] at horder
  rwa [List.append_assoc c.delivered, List.take_append_drop]

theorem pending_writing {c : Copy} {n sent : ℕ} (hpc : c.pc = .writing n sent) :
    c.pending = (c.buffer.take n).drop sent := by
  unfold pending
  rw [hpc]

theorem Copies.moves {stream : Bytes} {c c' : Copy} {e : CopyEvent} (h : Copies stream c)
    (hm : Moves c e c') : Copies stream c' := by
  cases hm with
  | eof hpc hunread =>
    have hpending : c.pending = [] := by simp [pending, hpc]
    have hall := h.drained hpending (not_failed hpc (by simp))
    rw [hunread, List.append_nil] at hall
    exact ⟨h.buffer_length, ⟨[], by rw [List.append_nil, hunread, List.append_nil]; exact hall, fun _ => rfl⟩,
      by simp, fun _ => hall, fun hs => absurd hs (h.open hpc (by simp)), by simp⟩
  | read n hpc hpos hn hbuffer =>
    have hpending : c.pending = [] := by simp [pending, hpc]
    have hall := h.drained hpending (not_failed hpc (by simp))
    have htake : (c.unread.take n).length = n := List.length_take_of_le hn
    have hlen : (c.unread.take n ++ c.buffer.drop n).length = COPY_BUFFER_SIZE := by
      rw [List.length_append, htake, List.length_drop, Nat.add_sub_cancel' hbuffer, h.buffer_length]
    have hnew : ((c.unread.take n ++ c.buffer.drop n).take n).drop 0 = c.unread.take n := by
      rw [List.drop_zero, List.take_append_of_le_length (Nat.le_of_eq htake.symm), List.take_of_length_le
        (Nat.le_of_eq htake)]
    refine ⟨hlen, ⟨c.unread.take n, ?_, fun _ => hnew.symm⟩, ?_, by simp,
      fun hs => absurd hs (h.open hpc (by simp)), by simp⟩
    · rw [List.append_assoc, List.take_append_drop]
      exact hall
    · rintro m sent hw
      cases hw
      exact ⟨hpos, h.buffer_length ▸ hbuffer⟩
  | wrote n sent k hpc hpos hk =>
    have hfailed := not_failed hpc (by simp)
    have hleft : c.pending.drop k = (c.buffer.take n).drop (sent + k) := by
      rw [pending_writing hpc, List.drop_drop]
    have horder := h.wrote hfailed k
    refine ⟨h.buffer_length, ⟨c.pending.drop k, horder, fun _ => hleft⟩, ?_, by simp,
      fun hs => absurd hs (h.open hpc (by simp)), by simp⟩
    rintro m j hw
    cases hw
    exact ⟨hk, (h.writing n sent hpc).2⟩
  | wroteAll n sent k hpc hpos hk =>
    have hfailed := not_failed hpc (by simp)
    have hlen : (c.buffer.take n).length = n :=
      List.length_take_of_le (h.buffer_length ▸ (h.writing n sent hpc).2)
    have hleft : c.pending.drop k = [] := by
      rw [pending_writing hpc, List.drop_drop, List.drop_eq_nil_of_le (by omega)]
    have horder := h.wrote hfailed k
    rw [hleft] at horder
    exact ⟨h.buffer_length, ⟨[], horder, fun _ => rfl⟩, by simp, by simp,
      fun hs => absurd hs (h.open hpc (by simp)), by simp⟩
  | shutdown hpc =>
    have hall := h.at_eof hpc
    refine ⟨h.buffer_length, ?_, by simp, by simp, fun _ => ⟨hall, _, rfl⟩, fun _ _ => rfl⟩
    obtain ⟨lost, horder, hlost⟩ := h.in_order
    have hpending : c.pending = [] := by simp [pending, hpc]
    refine ⟨lost, horder, fun _ => ?_⟩
    rw [hlost (not_failed hpc (by simp)), hpending]
    rfl
  | failed e hpc =>
    obtain ⟨lost, horder, -⟩ := h.in_order
    exact ⟨h.buffer_length, ⟨lost, horder, fun hf => absurd ⟨e, rfl⟩ hf⟩, by simp [fail], by simp [fail],
      fun hs => absurd hs (h.open rfl hpc), by simp [fail]⟩

end Copy

/-! ### Both directions -/

namespace Forward

/-- What one step can do. -/
inductive Moves (idleTimeout : Duration) (s : Forward) : ForwardEvent → Forward → Prop
  | tick (nanos : ℕ) : Moves idleTimeout s .silent { s with now := s.now + nanos }
  | copy (d : Direction) {e : CopyEvent} {c : Copy} (hc : Copy.Moves (s.copy d) e c) :
      Moves idleTimeout s (event d ((s.setCopy d c).record e).now e)
        { (s.setCopy d c).record e with
          result := tryJoin ((s.setCopy d c).record e).c2r.pc ((s.setCopy d c).record e).r2c.pc }
  | idle (hdeadline : s.deadline ≤ s.now) (hidle : idleTimeout.nanos ≤ s.now - s.activity) :
      Moves idleTimeout s (.idle s.now) { s with result := some (.error ⟨.timedOut, "TCP 连接空闲超时"⟩) }
  | rearm : Moves idleTimeout s .silent (s.rearm idleTimeout)

theorem step_moves {idleTimeout : Duration} {s s' : Forward} {input : ForwardInput} {e : ForwardEvent}
    (h : forward idleTimeout s input = some (e, s')) : s.result = none ∧ Moves idleTimeout s e s' := by
  unfold forward step at h
  split at h
  · cases h
  · rename_i hresult
    cases h
    exact ⟨hresult, .tick _⟩
  · rename_i d io hresult
    split at h
    · cases h
    · rename_i e c hc
      cases h
      exact ⟨hresult, .copy d (Copy.step_moves hc)⟩
  · rename_i hresult
    split at h
    · cases h
    · rename_i hdeadline
      split at h
      · rename_i hidle
        cases h
        exact ⟨hresult, .idle (Nat.le_of_not_lt hdeadline) hidle⟩
      · cases h
        exact ⟨hresult, .rearm⟩
  · rename_i hresult
    split at h
    · cases h
      exact ⟨hresult, .rearm⟩
    · cases h

theorem forward_copy (idleTimeout : Duration) {s : Forward} {d : Direction} {io : Io} {e : CopyEvent} {c : Copy}
    (hresult : s.result = none) (hstep : (s.copy d).step io = some (e, c)) :
    forward idleTimeout s (.copy d io) = some (event d ((s.setCopy d c).record e).now e,
      { (s.setCopy d c).record e with
        result := tryJoin ((s.setCopy d c).record e).c2r.pc ((s.setCopy d c).record e).r2c.pc }) := by
  simp only [forward, step, hresult, hstep]

/-- The stream that a direction copies. -/
def stream (client remote : Bytes) : Direction → Bytes
  | .c2r => client
  | .r2c => remote

@[simp] theorem copy_setCopy (s : Forward) (d : Direction) (c : Copy) : (s.setCopy d c).copy d = c := by
  cases d <;> rfl

theorem copy_setCopy_ne (s : Forward) {d d' : Direction} (h : d' ≠ d) (c : Copy) :
    (s.setCopy d c).copy d' = s.copy d' := by
  cases d <;> cases d' <;> first | rfl | exact absurd rfl h

@[simp] theorem copy_record (s : Forward) (e : CopyEvent) (d : Direction) : (s.record e).copy d = s.copy d := by
  unfold record
  split <;> rfl

@[simp] theorem now_setCopy_record (s : Forward) (d : Direction) (c : Copy) (e : CopyEvent) :
    ((s.setCopy d c).record e).now = s.now := by
  cases d <;> unfold record <;> split <;> rfl

theorem activity_record_le (s : Forward) (d : Direction) (c : Copy) (e : CopyEvent) (h : s.activity ≤ s.now) :
    ((s.setCopy d c).record e).activity ≤ ((s.setCopy d c).record e).now := by
  cases d <;> unfold record <;> split <;> first | exact Nat.le_refl _ | exact h

theorem tryJoin_ok {a b : CopyPc} (h : tryJoin a b = some (.ok ())) :
    (∃ n, a = .returned (.ok n)) ∧ ∃ n, b = .returned (.ok n) := by
  unfold tryJoin at h
  split at h
  · cases h
  · cases h
  · exact ⟨⟨_, rfl⟩, ⟨_, rfl⟩⟩
  · cases h

theorem tryJoin_error {a b : CopyPc} {e : IoError} (h : tryJoin a b = some (.error e)) :
    a = .returned (.error e) ∨ b = .returned (.error e) := by
  unfold tryJoin at h
  split at h
  · cases h
    exact .inl rfl
  · cases h
    exact .inr rfl
  · cases h
  · cases h

/-- A relay between a client that sends `client` and a remote that sends `remote`. -/
structure Relays (idleTimeout : Duration) (client remote : Bytes) (s : Forward) : Prop where
  copies : ∀ d, Copy.Copies (stream client remote d) (s.copy d)
  recorded : s.activity ≤ s.now
  ok : s.result = some (.ok ()) → ∀ d, ∃ n, (s.copy d).pc = .returned (.ok n)
  error : ∀ e, s.result = some (.error e) →
    (∃ d, (s.copy d).pc = .returned (.error e)) ∨ s.activity + idleTimeout.nanos ≤ s.now

theorem relays_start (idleTimeout : Duration) (now : ℕ) (client remote : Bytes) :
    Relays idleTimeout client remote (start idleTimeout now client remote) where
  copies d := by cases d <;> exact Copy.copies_start _
  recorded := Nat.le_refl now
  ok h := by cases h
  error e h := by cases h

theorem Relays.moves {idleTimeout : Duration} {client remote : Bytes} {s s' : Forward} {e : ForwardEvent}
    (h : Relays idleTimeout client remote s) (hresult : s.result = none) (hm : Moves idleTimeout s e s') :
    Relays idleTimeout client remote s' := by
  cases hm with
  | tick nanos =>
    refine ⟨h.copies, Nat.le_add_right_of_le h.recorded, fun hok => ?_, fun e he => ?_⟩
    · cases hresult.symm.trans hok
    · cases hresult.symm.trans he
  | @copy d e c hc =>
    have hcopies : ∀ d', Copy.Copies (stream client remote d') (((s.setCopy d c).record e).copy d') := by
      intro d'
      rw [copy_record]
      by_cases hd : d' = d
      · subst hd
        rw [copy_setCopy]
        exact (h.copies d').moves hc
      · rw [copy_setCopy_ne s hd]
        exact h.copies d'
    refine ⟨hcopies, activity_record_le s d c e h.recorded, fun hok d' => ?_, fun e he => .inl ?_⟩
    · obtain ⟨hc2r, hr2c⟩ := tryJoin_ok hok
      cases d' with
      | c2r => exact hc2r
      | r2c => exact hr2c
    · rcases tryJoin_error he with hc2r | hr2c
      · exact ⟨.c2r, hc2r⟩
      · exact ⟨.r2c, hr2c⟩
  | idle hdeadline hidle =>
    refine ⟨h.copies, h.recorded, fun hok => ?_, fun e he => .inr ?_⟩
    · cases hok
    · have hrecorded := h.recorded
      show s.activity + idleTimeout.nanos ≤ s.now
      omega
  | rearm =>
    refine ⟨h.copies, h.recorded, fun hok => ?_, fun e he => ?_⟩
    · cases hresult.symm.trans hok
    · cases hresult.symm.trans he

theorem relays_of_reaches {idleTimeout : Duration} {now : ℕ} {client remote : Bytes} {es : List ForwardEvent}
    {s : Forward} (h : Reaches (forward idleTimeout) (start idleTimeout now client remote) es s) :
    Relays idleTimeout client remote s := by
  refine h.invariant (fun _ s => Relays idleTimeout client remote s) (relays_start ..) ?_
  intro es t i e t' ht hi
  obtain ⟨hresult, hm⟩ := step_moves hi
  exact ht.moves hresult hm

theorem Relays.of_shut {idleTimeout : Duration} {client remote : Bytes} {s : Forward} {d : Direction}
    (h : Relays idleTimeout client remote s) (hshut : (s.copy d).shut = true) : ¬(s.copy d).Failed := by
  obtain ⟨-, n, hn⟩ := (h.copies d).shut hshut
  rintro ⟨e, he⟩
  cases hn.symm.trans he

/-- The two bytes of a client that closes behind them are written one by one; the
remote is still silent. -/
theorem half_closed : ∃ s, Reaches (forward ⟨300⟩) (.start ⟨300⟩ 0 [104, 105] [7])
    [.silent, .wrote .c2r [104] 1 0, .wrote .c2r [105] 0 0, .silent, .silent] s ∧
      s.c2r.shut = true ∧ s.c2r.delivered = [104, 105] ∧ s.r2c.unread = [7] ∧ s.result = none := by
  have hbuffer : 2 ≤ (Copy.start [104, 105]).buffer.length := by
    rw [Copy.start, List.length_replicate]
    decide
  obtain ⟨rest, hrest⟩ : ∃ rest, (Copy.start [104, 105]).buffer.drop 2 = rest := ⟨_, rfl⟩
  let s (c : Copy) (changed : Bool) : Forward :=
    { start ⟨300⟩ 0 [104, 105] [7] with c2r := c, changed := changed }
  let c (delivered : Bytes) (shut : Bool) (total : UInt64) (pc : CopyPc) : Copy :=
    ⟨[], delivered, shut, 104 :: 105 :: rest, total, pc⟩
  have hread : forward ⟨300⟩ (.start ⟨300⟩ 0 [104, 105] [7]) (.copy .c2r (.read 2)) =
      some (.silent, s ⟨[], [], false, 104 :: 105 :: rest, 0, .writing 2 0⟩ false) := by
    rw [← hrest]
    exact forward_copy ⟨300⟩ (s := .start ⟨300⟩ 0 [104, 105] [7]) rfl
      (Copy.step_read (rfl : (copy (.start ⟨300⟩ 0 [104, 105] [7]) .c2r).pc = .reading) (Nat.le_refl 2) hbuffer)
  have hfirst : forward ⟨300⟩ (s (c [] false 0 (.writing 2 0)) false) (.copy .c2r (.write 1)) =
      some (.wrote .c2r [104] 1 0, s (c [104] false 0 (.writing 2 1)) false) :=
    forward_copy ⟨300⟩ (s := s (c [] false 0 (.writing 2 0)) false) (d := .c2r) rfl
      (rfl : (c [] false 0 (.writing 2 0)).step (.write 1) = some (.wrote [104] 1, c [104] false 0 (.writing 2 1)))
  have hsecond : forward ⟨300⟩ (s (c [104] false 0 (.writing 2 1)) false) (.copy .c2r (.write 1)) =
      some (.wrote .c2r [105] 0 0, s (c [104, 105] false 2 .reading) true) :=
    forward_copy ⟨300⟩ (s := s (c [104] false 0 (.writing 2 1)) false) (d := .c2r) rfl
      (rfl : (c [104] false 0 (.writing 2 1)).step (.write 1) = some (.wrote [105] 0, c [104, 105] false 2 .reading))
  have heof : forward ⟨300⟩ (s (c [104, 105] false 2 .reading) true) (.copy .c2r (.read 0)) =
      some (.silent, s (c [104, 105] false 2 .shuttingDown) true) :=
    forward_copy ⟨300⟩ (s := s (c [104, 105] false 2 .reading) true) (d := .c2r) rfl
      (rfl : (c [104, 105] false 2 .reading).step (.read 0) = some (.silent, c [104, 105] false 2 .shuttingDown))
  have hshut : forward ⟨300⟩ (s (c [104, 105] false 2 .shuttingDown) true) (.copy .c2r .shutdown) =
      some (.silent, s (c [104, 105] true 2 (.returned (.ok 2))) true) :=
    forward_copy ⟨300⟩ (s := s (c [104, 105] false 2 .shuttingDown) true) (d := .c2r) rfl
      (rfl : (c [104, 105] false 2 .shuttingDown).step .shutdown =
        some (.silent, c [104, 105] true 2 (.returned (.ok 2))))
  exact ⟨_, ((((Reaches.start.step hread).step hfirst).step hsecond).step heof).step hshut, rfl, rfl, rfl, rfl⟩

end Forward

/-! ### The whole relay -/

/-- What holds at every moment between a client that sends `client` and a remote
that sends `remote`. -/
structure Transparent (idleTimeout : Duration) (client remote : Bytes) (s : Forward) : Prop where
  to_remote : s.c2r.delivered <+: client
  to_client : s.r2c.delivered <+: remote
  -- What has been read is written or lies in the buffer.
  in_order : ∀ d, ¬(s.copy d).Failed →
    (s.copy d).delivered ++ (s.copy d).pending ++ (s.copy d).unread = Forward.stream client remote d
  shutdown : ∀ d, (s.copy d).shut = true → (s.copy d).delivered = Forward.stream client remote d
  -- The end of one direction does not end the relay.
  half_close : ∀ d d', (s.copy d).shut = true → (s.copy d').shut = false → ¬(s.copy d').Failed →
    s.now < s.activity + idleTimeout.nanos → s.result = none
  -- A relay that has not ended lets either direction make any step of its loop.
  continues : s.result = none → ∀ d io r, (s.copy d).step io = some r →
    ∃ e s', forward idleTimeout s (.copy d io) = some (e, s') ∧ s'.copy d = r.2
  ok : s.result = some (.ok ()) → ∀ d,
    (s.copy d).shut = true ∧ (s.copy d).delivered = Forward.stream client remote d

theorem Forward.Relays.transparent {idleTimeout : Duration} {client remote : Bytes} {s : Forward}
    (h : Relays idleTimeout client remote s) : Transparent idleTimeout client remote s := by
  have hdelivered : ∀ d, (s.copy d).delivered <+: stream client remote d := by
    intro d
    obtain ⟨lost, horder, -⟩ := (h.copies d).in_order
    exact ⟨lost ++ (s.copy d).unread, by rw [← horder, List.append_assoc]⟩
  refine ⟨hdelivered .c2r, hdelivered .r2c, fun d hf => ?_, fun d hs => ((h.copies d).shut hs).1, ?_, ?_, ?_⟩
  · obtain ⟨lost, horder, hlost⟩ := (h.copies d).in_order
    rwa [hlost hf] at horder
  · intro d d' hshut hopen hfailed hactive
    rcases hresult : s.result with _ | ⟨e | ⟨⟩⟩
    · rfl
    · exfalso
      rcases h.error e hresult with ⟨d'', he⟩ | hidle
      · have hd : d'' = d ∨ d'' = d' := by
          have hne : d ≠ d' := by
            rintro rfl
            rw [hshut] at hopen
            cases hopen
          cases d <;> cases d' <;> cases d'' <;> simp at hne ⊢
        rcases hd with rfl | rfl
        · exact h.of_shut hshut ⟨e, he⟩
        · exact hfailed ⟨e, he⟩
      · omega
    · obtain ⟨n, hn⟩ := h.ok hresult d'
      rw [(h.copies d').returned n hn] at hopen
      cases hopen
  · intro hresult d io r hr
    simp only [forward, step, hresult, hr]
    exact ⟨_, _, rfl, (copy_record _ r.1 d).trans (copy_setCopy s d r.2)⟩
  · intro hresult d
    obtain ⟨n, hn⟩ := h.ok hresult d
    have hshut := (h.copies d).returned n hn
    exact ⟨hshut, ((h.copies d).shut hshut).1⟩

/-- The TCP relay is transparent. It starts behind the success reply and with
exactly what the client has sent behind its request, and at every moment of
every schedule each side has been given a prefix of what the other has sent,
whole before a shutdown; the end of one direction leaves the other alone, and
the relay succeeds only when both are through. -/
theorem relay_transparent {config : Config} (hvalid : config.validate = .ok ()) {oracle : Oracle Query Answer}
    {w w' : Wire} (hw : w.Clean) {m replies req rest : Bytes} {target : Target} {idleTimeout : Duration}
    (hm : Presents config m replies) (hreq : encodeMessage (CONNECT, target) = .ok req)
    (hbytes : w.source.bytes = m ++ (req ++ rest))
    (hrun : runWire tokio oracle (handleClient config) w = (.asking (.forwardBidirectional (some idleTimeout)), w')) :
    config.tcpTimeout = some idleTimeout ∧ w'.source.bytes = rest ∧
      (∃ address, w'.sink.written = w.sink.written ++ replies ++ encodeAddress [5, SUCCESS, 0] address) ∧
      ∀ (now : ℕ) (remote : Bytes) (es : List ForwardEvent) (s : Forward),
        Reaches (forward idleTimeout) (.start idleTimeout now w'.source.bytes remote) es s →
        Transparent idleTimeout rest remote s := by
  obtain ⟨hr, ht, -⟩ := runWire_clean tokio oracle (handleClient config) w hw
  rw [hrun] at hr ht
  have htape : w.tape = ⟨m ++ (req ++ rest), w.sink.written⟩ := by
    rw [Wire.tape, hbytes]
  have hasks : runTape tokio oracle (handleClient config) w.tape =
      (.asking (.forwardBidirectional (some idleTimeout)), w'.tape) := Prod.ext hr.symm ht.symm
  rw [htape] at hasks
  obtain ⟨htimeout, address, hw'⟩ := relay_begins hvalid hm hreq hasks
  have hrest : w'.source.bytes = rest := congrArg Tape.input hw'
  refine ⟨htimeout.symm, hrest, ⟨address, congrArg Tape.output hw'⟩, fun now remote es s h => ?_⟩
  rw [hrest] at h
  exact (Forward.relays_of_reaches h).transparent

/-- Two bytes behind the request, sent before the reply, are with the remote when the
client has closed its side. -/
theorem relay_transparent_pipelined : ∃ s, s.c2r.shut = true ∧ s.c2r.delivered = [104, 105] ∧ s.r2c.unread = [7] ∧
    s.result = none ∧ Transparent ⟨300⟩ [104, 105] [7] s := by
  obtain ⟨s, hs, hshut, hdelivered, hunread, hresult⟩ := Forward.half_closed
  refine ⟨s, hshut, hdelivered, hunread, hresult, (relay_transparent
    (by decide : Config.validate ⟨1080, "", "", ⟨[], []⟩, some ⟨300⟩, ⟨60⟩, []⟩ = .ok ())
    (by simp [Wire.Clean, Source.Clean, Sink.Clean] :
      Wire.Clean ⟨[.data 5 [1, 0], .data 5 [1, 0, 1, 127, 0, 0, 1, 0, 80, 104, 105]], ⟨[], []⟩⟩)
    (.anonymous [0] (by decide) (by decide) rfl (by decide))
    (rfl : encodeMessage (CONNECT, ⟨.ip (.v4 ⟨buffer [127, 0, 0, 1] rfl⟩), 80⟩) = .ok [5, 1, 0, 1, 127, 0, 0, 1, 0, 80])
    rfl
    (by decide +kernel : runWire tokio Env.loopback.oracle
        (handleClient ⟨1080, "", "", ⟨[], []⟩, some ⟨300⟩, ⟨60⟩, []⟩)
        ⟨[.data 5 [1, 0], .data 5 [1, 0, 1, 127, 0, 0, 1, 0, 80, 104, 105]], ⟨[], []⟩⟩ =
      (.asking (.forwardBidirectional (some ⟨300⟩)),
        ⟨[.data 104 [105]], ⟨[], [5, 0, 5, 0, 0, 1, 127, 0, 0, 1, 195, 81]⟩⟩))).2.2.2 0 [7] _ s hs⟩

end Brume.Server
