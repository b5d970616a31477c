import Brume.Lib.Session

/-!
# Two programs over a pair of reliable channels

Two sequential programs that talk over two first-in first-out byte channels, in
any schedule and with any segmentation. A program that has ended with an error
has dropped its end of the connection, so its peer meets the end of file behind
the bytes that are still in flight.

`random_descent` is the reason why schedules do not show: steps of the two sides
commute, so if one run reaches a state without steps, every run does.
-/

namespace Lib

/-! ### Runs of a given length -/

section
variable {σ : Type} {r : σ → σ → Prop}

inductive Steps (r : σ → σ → Prop) : ℕ → σ → σ → Prop
  | zero (s : σ) : Steps r 0 s s
  | succ {n : ℕ} {s t u : σ} (h : r s t) (hn : Steps r n t u) : Steps r (n + 1) s u

theorem Steps.trans {m n : ℕ} {s t u : σ} (h : Steps r m s t) (h' : Steps r n t u) :
    Steps r (m + n) s u := by
  induction h with
  | zero s => rwa [Nat.zero_add]
  | succ hr _ ih =>
    rw [Nat.add_right_comm]
    exact .succ hr (ih h')

/-- Two steps from one state lead to the same state, or can be joined by one step each. -/
def Diamond (r : σ → σ → Prop) : Prop := ∀ s a b, r s a → r s b → a = b ∨ ∃ c, r a c ∧ r b c

/-- If one run ends in a state without steps, every run is part of one of that
length that ends there. -/
theorem random_descent (hd : Diamond r) {n : ℕ} {s t : σ} (h : Steps r n s t) (ht : ∀ u, ¬r t u) {m : ℕ}
    {u : σ} (hu : Steps r m s u) : m ≤ n ∧ Steps r (n - m) u t := by
  induction n generalizing s m u with
  | zero =>
    cases h
    cases hu with
    | zero => exact ⟨Nat.le_refl 0, .zero _⟩
    | succ hr _ => exact absurd hr (ht _)
  | succ n ih =>
    cases hu with
    | zero => exact ⟨Nat.zero_le _, h⟩
    | succ hb hrest =>
      rename_i m b
      cases h with
      | succ ha hn =>
        rename_i a
        have hbt : Steps r n b t := by
          rcases hd _ _ _ ha hb with rfl | ⟨c, hac, hbc⟩
          · exact hn
          · obtain ⟨hle, hct⟩ := ih hn (.succ hac (.zero c))
            have hjoin := Steps.succ hbc hct
            rwa [Nat.sub_add_cancel hle] at hjoin
        obtain ⟨hle, hend⟩ := ih hbt hrest
        refine ⟨Nat.succ_le_succ hle, ?_⟩
        rwa [Nat.succ_sub_succ]

end

namespace Session
variable {α β : Type}

/-- A program that asks its environment nothing. -/
abbrev Closed (α : Type) := Session Empty NoAnswer α

/-! ### Answered questions -/

/-- The program in an environment that answers every question at once. -/
def answered {Q : Type} {A : Q → Type} (answer : (q : Q) → A q) : Session Q A α → Closed α
  | .done r => .done r
  | .read n k => .read n fun r => (k r).answered answer
  | .write bs k => .write bs fun r => (k r).answered answer
  | .ask q k => (k (answer q)).answered answer

@[simp] theorem answered_bind {Q : Type} {A : Q → Type} (answer : (q : Q) → A q) (p : Session Q A α)
    (f : α → Session Q A β) :
    (p >>= f).answered answer = p.answered answer >>= fun a => (f a).answered answer := by
  rw [bind_eq, bind_eq]
  induction p with
  | done r =>
    cases r with
    | ok a => rfl
    | error e => rfl
  | read n k ih => exact congrArg (Session.read n) (funext ih)
  | write bs k ih => exact congrArg (Session.write bs) (funext ih)
  | ask q k ih => exact ih (answer q)

section
variable {Q : Type} {A : Q → Type} (answer : (q : Q) → A q)

@[simp] theorem answered_pure (a : α) : (pure a : Session Q A α).answered answer = pure a := rfl

@[simp] theorem answered_throw (e : IoError) : (throw e : Session Q A α).answered answer = throw e := rfl

@[simp] theorem answered_readExact (n : ℕ) : (readExact n : Session Q A _).answered answer = readExact n := rfl

@[simp] theorem answered_writeAll (bs : Bytes) :
    (writeAll bs : Session Q A Unit).answered answer = writeAll bs := rfl

@[simp] theorem answered_ite {c : Prop} [Decidable c] (p p' : Session Q A α) :
    (if c then p else p').answered answer = if c then p.answered answer else p'.answered answer :=
  apply_ite (·.answered answer) c p p'

end

/-! ### One side -/

/-- The bytes arrive at a read that is waiting for at least as many. -/
def feed : Closed α → Bytes → Option (Closed α)
  | p, [] => some p
  | .read (n + 1) k, b :: bs => (Session.read n fun r => k (r.map fun v => buffer (b :: v.toList) (by simp))).feed bs
  | _, _ :: _ => none

/-- A program that has failed has dropped its end of the connection. -/
def failed : Closed α → Bool
  | .done (.error _) => true
  | _ => false

/-- One step of a side: `input` is in flight towards it, and `output` leaves it.
What is read and written at once is any part of what could be. -/
inductive Moves (rt : Runtime) (peerFailed : Bool) : Closed α → Bytes → Closed α → Bytes → Bytes → Prop
  | receive {p p' : Closed α} {bs rest : Bytes} (hbs : bs ≠ []) (h : p.feed bs = some p') :
      Moves rt peerFailed p (bs ++ rest) p' rest []
  | received {k : Except IoError (Vector UInt8 0) → Closed α} {input : Bytes} :
      Moves rt peerFailed (.read 0 k) input (k (.ok (buffer [] rfl))) input []
  | eof {n : ℕ} {k : Except IoError (Vector UInt8 (n + 1)) → Closed α} (h : peerFailed = true) :
      Moves rt peerFailed (.read (n + 1) k) [] (k (.error rt.eof)) [] []
  | send {bs rest : Bytes} {k : Except IoError Unit → Closed α} {input : Bytes} (hbs : bs ≠ []) :
      Moves rt peerFailed (.write (bs ++ rest) k) input (.write rest k) input bs
  | sent {k : Except IoError Unit → Closed α} {input : Bytes} :
      Moves rt peerFailed (.write [] k) input (k (.ok ())) input []

/-! ### One side, byte by byte -/

/-- A step that moves one byte at most. It leaves no choice. -/
def move (rt : Runtime) (peerFailed : Bool) : Closed α → Bytes → Option (Closed α × Bytes × Bytes)
  | .done _, _ => none
  | .read 0 k, input => some (k (.ok (buffer [] rfl)), input, [])
  | .read (n + 1) k, b :: input =>
    some (.read n fun r => k (r.map fun v => buffer (b :: v.toList) (by simp)), input, [])
  | .read (_ + 1) k, [] => if peerFailed then some (k (.error rt.eof), [], []) else none
  | .write [] k, input => some (k (.ok ()), input, [])
  | .write (b :: bs) k, input => some (.write bs k, input, [b])
  | .ask q _, _ => nomatch q

/-- A run of such steps while the peer rests. -/
inductive Solo (rt : Runtime) (peerFailed : Bool) : ℕ → Closed α → Bytes → Closed α → Bytes → Bytes → Prop
  | zero (p : Closed α) (input : Bytes) : Solo rt peerFailed 0 p input p input []
  | succ {n : ℕ} {p p₁ p' : Closed α} {i i₁ i' o o' : Bytes} (h : move rt peerFailed p i = some (p₁, i₁, o))
      (hn : Solo rt peerFailed n p₁ i₁ p' i' o') : Solo rt peerFailed (n + 1) p i p' i' (o ++ o')

variable {rt : Runtime} {peerFailed : Bool} {p p' p'' : Closed α} {i i' o o' : Bytes}

theorem Solo.trans {m n : ℕ} {i'' : Bytes} (h : Solo rt peerFailed m p i p' i' o)
    (h' : Solo rt peerFailed n p' i' p'' i'' o') : Solo rt peerFailed (m + n) p i p'' i'' (o ++ o') := by
  induction h with
  | zero p input => rwa [Nat.zero_add, List.nil_append]
  | succ hm _ ih =>
    rw [Nat.add_right_comm, List.append_assoc]
    exact .succ hm (ih h')

theorem Solo.one (h : move rt peerFailed p i = some (p', i', o)) : Solo rt peerFailed 1 p i p' i' o := by
  rw [← List.append_nil o]
  exact .succ h (.zero _ _)

theorem Solo.step {n : ℕ} {i'' u : Bytes} (h : move rt peerFailed p i = some (p', i', o))
    (hn : Solo rt peerFailed n p' i' p'' i'' o') (hu : u = o ++ o') :
    Solo rt peerFailed (n + 1) p i p'' i'' u := by
  rw [hu]
  exact .succ h hn

theorem solo_feed {bs : Bytes} (h : p.feed bs = some p') (rest : Bytes) :
    Solo rt peerFailed bs.length p (bs ++ rest) p' rest [] := by
  induction bs generalizing p with
  | nil =>
    cases h
    exact .zero _ _
  | cons b bs ih =>
    unfold feed at h
    split at h
    · rename_i heq
      cases heq
    · rename_i heq
      cases heq
      exact .step rfl (ih h) rfl
    · cases h

theorem solo_send (bs rest : Bytes) (k : Except IoError Unit → Closed α) (input : Bytes) :
    Solo rt peerFailed bs.length (.write (bs ++ rest) k) input (.write rest k) input bs := by
  induction bs with
  | nil => exact .zero _ _
  | cons b bs ih => exact .step rfl ih rfl

/-- Every step is a run of small ones, at least one. -/
theorem Moves.solo (h : Moves rt peerFailed p i p' i' o) : ∃ n, 0 < n ∧ Solo rt peerFailed n p i p' i' o := by
  cases h with
  | receive hbs hfeed => exact ⟨_, List.length_pos_iff.mpr hbs, solo_feed hfeed _⟩
  | received => exact ⟨1, Nat.one_pos, .one rfl⟩
  | eof hfailed => exact ⟨1, Nat.one_pos, .one (if_pos hfailed)⟩
  | send hbs => exact ⟨_, List.length_pos_iff.mpr hbs, solo_send _ _ _ _⟩
  | sent => exact ⟨1, Nat.one_pos, .one rfl⟩

theorem moves_of_move (h : move rt peerFailed p i = some (p', i', o)) : Moves rt peerFailed p i p' i' o := by
  unfold move at h
  split at h
  · cases h
  · cases h
    exact .received
  · cases h
    exact .receive (List.cons_ne_nil _ []) rfl
  · split at h
    · cases h
      exact .eof ‹_›
    · cases h
  · cases h
    exact .sent
  · cases h
    exact .send (List.cons_ne_nil _ [])
  · rename_i q _ _
    exact nomatch q

/-- More input does not change a step that does not need the end of the file. -/
theorem move_append (h : move rt false p i = some (p', i', o)) (more : Bytes) (peerFailed : Bool) :
    move rt peerFailed p (i ++ more) = some (p', i' ++ more, o) := by
  unfold move at h
  split at h
  · cases h
  · cases h
    rfl
  · cases h
    rfl
  · cases h
  · cases h
    rfl
  · cases h
    rfl
  · rename_i q _ _
    exact nomatch q

theorem failed_of_move (h : move rt peerFailed p i = some (p', i', o)) : p.failed = false := by
  cases p with
  | done r => cases h
  | _ => rfl

/-! ### Parts of a run -/

/-- The program takes exactly the bytes `i`, sends `o` and goes on as the second one. -/
inductive Advances : Closed α → Bytes → Bytes → Closed α → Prop
  | refl (p : Closed α) : Advances p [] [] p
  | read {n : ℕ} {k : Except IoError (Vector UInt8 n) → Closed α} {p : Closed α} {i o : Bytes} (v : Vector UInt8 n)
      (h : Advances (k (.ok v)) i o p) : Advances (.read n k) (v.toList ++ i) o p
  | write {bs : Bytes} {k : Except IoError Unit → Closed α} {p : Closed α} {i o : Bytes}
      (h : Advances (k (.ok ())) i o p) : Advances (.write bs k) i (bs ++ o) p

theorem Advances.bind (h : Advances p i o p') (f : α → Closed β) : Advances (p >>= f) i o (p' >>= f) := by
  rw [bind_eq, bind_eq]
  induction h with
  | refl p => exact .refl _
  | read v _ ih => exact .read v ih
  | write _ ih => exact .write ih

theorem Advances.trans (h : Advances p i o p') (h' : Advances p' i' o' p'') :
    Advances p (i ++ i') (o ++ o') p'' := by
  induction h with
  | refl p => exact h'
  | read v _ ih =>
    rw [List.append_assoc]
    exact .read v (ih h')
  | write _ ih =>
    rw [List.append_assoc]
    exact .write (ih h')

theorem advances_writeAll (bs : Bytes) (f : Unit → Closed α) : Advances (writeAll bs >>= f) [] bs (f ()) := by
  have h : Advances (.write bs fun r => (Session.done r).bind f) [] (bs ++ []) (f ()) := .write (.refl (f ()))
  rwa [List.append_nil] at h

theorem advances_readExact {n : ℕ} (bs : Bytes) (hbs : bs.length = n) (f : Vector UInt8 n → Closed α) :
    Advances (readExact n >>= f) bs [] (f (buffer bs hbs)) := by
  have h := Advances.read (k := fun r => (Session.done r).bind f) (buffer bs hbs) (.refl (f (buffer bs hbs)))
  rwa [List.append_nil, toList_buffer] at h

theorem solo_read {n : ℕ} (k : Except IoError (Vector UInt8 n) → Closed α) (v : Vector UInt8 n) (rest : Bytes) :
    Solo rt peerFailed (n + 1) (.read n k) (v.toList ++ rest) (k (.ok v)) rest [] := by
  induction n with
  | zero =>
    obtain rfl : v = buffer [] rfl := Vector.toList_inj.mp (by simp [Vector.toList_eq_nil_iff])
    exact .step rfl (.zero _ _) rfl
  | succ n ih =>
    rcases hv : v.toList with _ | ⟨b, bs⟩
    · have hlen := v.length_toList
      rw [hv] at hlen
      cases hlen
    · have hlen : bs.length = n := by
        have h := v.length_toList
        rw [hv] at h
        exact Nat.succ.inj h
      have hv' : buffer (b :: (buffer bs hlen).toList) (by simp [hlen]) = v := by
        apply Vector.toList_inj.mp
        rw [toList_buffer, toList_buffer, hv]
      have hrest := ih (fun r => k (r.map fun v => buffer (b :: v.toList) (by simp))) (buffer bs hlen)
      rw [toList_buffer] at hrest
      rw [← hv']
      exact .step rfl hrest rfl

theorem Advances.solo (h : Advances p i o p') (rt : Runtime) (peerFailed : Bool) (rest : Bytes) :
    ∃ n, Solo rt peerFailed n p (i ++ rest) p' rest o := by
  induction h with
  | refl p => exact ⟨0, .zero _ _⟩
  | read v _ ih =>
    obtain ⟨n, hn⟩ := ih
    rw [List.append_assoc]
    exact ⟨_, (solo_read _ v _).trans hn⟩
  | @write bs k p i o _ ih =>
    obtain ⟨n, hn⟩ := ih
    have hsend : Solo rt peerFailed _ (.write (bs ++ []) k) _ (.write [] k) _ bs := solo_send bs [] k (i ++ rest)
    rw [List.append_nil] at hsend
    exact ⟨_, hsend.trans (.step rfl hn rfl)⟩

/-- A run over plain bytes that leaves some of them has taken what lies before. -/
theorem advances_of_runTape {r : Except IoError α} (rest out : Bytes) (hrest : rest ≠ [])
    (h : runTape rt noOracle p ⟨i ++ rest, out⟩ = (.finished r, ⟨rest, out ++ o⟩)) :
    Advances p i o (.done r) := by
  induction p generalizing i out o with
  | done r' =>
    simp only [runTape, Prod.mk.injEq, Outcome.finished.injEq, Tape.mk.injEq] at h
    obtain ⟨rfl, hi, ho⟩ := h
    obtain rfl : i = [] := List.append_left_eq_self.mp hi
    obtain rfl : o = [] := List.append_right_eq_self.mp ho.symm
    exact .refl _
  | read n k ih =>
    simp only [runTape] at h
    split at h
    · rename_i hn
      have hsuffix := (runTape_extends rt noOracle
        (k (.ok (buffer ((i ++ rest).take n) (List.length_take_of_le hn)))) ⟨(i ++ rest).drop n, out⟩).1
      rw [h] at hsuffix
      have hle : n ≤ i.length := by
        have hlen : rest.length ≤ ((i ++ rest).drop n).length := hsuffix.length_le
        rw [List.length_drop, List.length_append] at hlen
        have hpos := List.length_pos_iff.mpr hrest
        rw [List.length_append] at hn
        omega
      have htake : (i ++ rest).take n = i.take n := List.take_append_of_le_length hle
      have hdrop : (i ++ rest).drop n = i.drop n ++ rest := List.drop_append_of_le_length hle
      simp only [htake, hdrop] at h
      have hk := Advances.read (buffer (i.take n) (List.length_take_of_le hle)) (ih _ _ h)
      rwa [toList_buffer, List.take_append_drop] at hk
    · -- the end of the stream would leave no rest
      have hsuffix := (runTape_extends rt noOracle (k (.error rt.eof)) ⟨[], out⟩).1
      rw [h] at hsuffix
      exact absurd (List.suffix_nil.mp hsuffix) hrest
  | write bs k ih =>
    simp only [runTape] at h
    have hsent := (runTape_extends rt noOracle (k (.ok ())) ⟨i ++ rest, out ++ bs⟩).2
    rw [h] at hsent
    obtain ⟨o', rfl⟩ : bs <+: o := (List.prefix_append_right_inj out).mp hsent
    rw [← List.append_assoc] at h
    exact .write (ih _ _ h)
  | ask q k ih => cases q

end Session

/-! ### Both sides -/

open Session

structure Duplex (α β : Type) where
  left : Closed α
  right : Closed β
  toLeft : Bytes
  toRight : Bytes

namespace Duplex
variable {α β : Type}

/-- One side moves. -/
inductive Exchange (rtl rtr : Runtime) : Duplex α β → Duplex α β → Prop
  | left {d : Duplex α β} {p : Closed α} {i o : Bytes} (h : Moves rtl d.right.failed d.left d.toLeft p i o) :
      Exchange rtl rtr d ⟨p, d.right, i, d.toRight ++ o⟩
  | right {d : Duplex α β} {p : Closed β} {i o : Bytes} (h : Moves rtr d.left.failed d.right d.toRight p i o) :
      Exchange rtl rtr d ⟨d.left, p, d.toLeft ++ o, i⟩

/-- One side moves one byte at most. -/
inductive Small (rtl rtr : Runtime) : Duplex α β → Duplex α β → Prop
  | left {d : Duplex α β} {p : Closed α} {i o : Bytes}
      (h : move rtl d.right.failed d.left d.toLeft = some (p, i, o)) :
      Small rtl rtr d ⟨p, d.right, i, d.toRight ++ o⟩
  | right {d : Duplex α β} {p : Closed β} {i o : Bytes}
      (h : move rtr d.left.failed d.right d.toRight = some (p, i, o)) :
      Small rtl rtr d ⟨d.left, p, d.toLeft ++ o, i⟩

variable {rtl rtr : Runtime}

/-- Steps of the two sides commute. -/
theorem small_diamond : Diamond (Small rtl rtr : Duplex α β → Duplex α β → Prop) := by
  intro d a b ha hb
  have join : ∀ {p : Closed α} {i o : Bytes} {q : Closed β} {j u : Bytes},
      move rtl d.right.failed d.left d.toLeft = some (p, i, o) →
      move rtr d.left.failed d.right d.toRight = some (q, j, u) →
      ∃ c, Small rtl rtr ⟨p, d.right, i, d.toRight ++ o⟩ c ∧ Small rtl rtr ⟨d.left, q, d.toLeft ++ u, j⟩ c := by
    intro p i o q j u hl hr
    have hl' := hl
    have hr' := hr
    rw [failed_of_move hr] at hl'
    rw [failed_of_move hl] at hr'
    exact ⟨⟨p, q, i ++ u, j ++ o⟩, .right (move_append hr' o _), .left (move_append hl' u _)⟩
  cases ha with
  | left hl =>
    cases hb with
    | left hl' =>
      rw [hl] at hl'
      cases hl'
      exact .inl rfl
    | right hr => exact .inr (join hl hr)
  | right hr =>
    cases hb with
    | left hl =>
      obtain ⟨c, h, h'⟩ := join hl hr
      exact .inr ⟨c, h', h⟩
    | right hr' =>
      rw [hr] at hr'
      cases hr'
      exact .inl rfl

theorem steps_left {n : ℕ} {p p' : Closed α} {right : Closed β} {i i' o : Bytes}
    (h : Solo rtl right.failed n p i p' i' o) (toRight : Bytes) :
    Steps (Small rtl rtr) n ⟨p, right, i, toRight⟩ ⟨p', right, i', toRight ++ o⟩ := by
  induction h generalizing toRight with
  | zero p input =>
    rw [List.append_nil]
    exact .zero _
  | succ hm _ ih =>
    rw [← List.append_assoc]
    exact .succ (.left hm) (ih _)

theorem steps_right {n : ℕ} {p p' : Closed β} {left : Closed α} {i i' o : Bytes}
    (h : Solo rtr left.failed n p i p' i' o) (toLeft : Bytes) :
    Steps (Small rtl rtr) n ⟨left, p, toLeft, i⟩ ⟨left, p', toLeft ++ o, i'⟩ := by
  induction h generalizing toLeft with
  | zero p input =>
    rw [List.append_nil]
    exact .zero _
  | succ hm _ ih =>
    rw [← List.append_assoc]
    exact .succ (.right hm) (ih _)

theorem Exchange.small {d d' : Duplex α β} (h : Exchange rtl rtr d d') :
    ∃ n, 0 < n ∧ Steps (Small rtl rtr) n d d' := by
  cases h with
  | left hm =>
    obtain ⟨n, hpos, hs⟩ := hm.solo
    exact ⟨n, hpos, steps_left hs _⟩
  | right hm =>
    obtain ⟨n, hpos, hs⟩ := hm.solo
    exact ⟨n, hpos, steps_right hs _⟩

theorem Small.exchange {d d' : Duplex α β} (h : Small rtl rtr d d') : Exchange rtl rtr d d' := by
  cases h with
  | left hm => exact .left (moves_of_move hm)
  | right hm => exact .right (moves_of_move hm)

theorem small_of_exchanges {m : ℕ} {d d' : Duplex α β} (h : Steps (Exchange rtl rtr) m d d') :
    ∃ n, m ≤ n ∧ Steps (Small rtl rtr) n d d' := by
  induction h with
  | zero d => exact ⟨0, Nat.le_refl 0, .zero d⟩
  | succ he _ ih =>
    obtain ⟨n, hle, hn⟩ := ih
    obtain ⟨k, hpos, hk⟩ := he.small
    exact ⟨k + n, by omega, hk.trans hn⟩

theorem Steps.exchange {n : ℕ} {d d' : Duplex α β} (h : Steps (Small rtl rtr) n d d') :
    Steps (Exchange rtl rtr) n d d' := by
  induction h with
  | zero d => exact .zero d
  | succ hs _ ih => exact .succ hs.exchange ih

/-! ### How a conversation ends -/

/-- Every run from `d` is finite and can be continued to `t`, where nothing moves. -/
structure EndsIn (rtl rtr : Runtime) (d t : Duplex α β) : Prop where
  bounded : ∃ n, ∀ m u, Steps (Exchange rtl rtr) m d u → m ≤ n
  reaches : ∀ m u, Steps (Exchange rtl rtr) m d u → ∃ k, Steps (Exchange rtl rtr) k u t
  halts : ∀ u, ¬Exchange rtl rtr t u

/-- A run of small steps. -/
def Talks (rtl rtr : Runtime) (d t : Duplex α β) : Prop := ∃ n, Steps (Small rtl rtr) n d t

theorem Talks.trans {d t u : Duplex α β} (h : Talks rtl rtr d t) (h' : Talks rtl rtr t u) : Talks rtl rtr d u := by
  obtain ⟨m, hm⟩ := h
  obtain ⟨n, hn⟩ := h'
  exact ⟨m + n, hm.trans hn⟩

/-- The left side takes all that is in flight towards it. -/
theorem talks_left {p p' : Closed α} {i o : Bytes} (h : Advances p i o p') (q : Closed β) :
    Talks rtl rtr ⟨p, q, i, []⟩ ⟨p', q, [], o⟩ := by
  obtain ⟨n, hn⟩ := h.solo rtl q.failed []
  rw [List.append_nil] at hn
  exact ⟨n, steps_left hn []⟩

theorem talks_right {q q' : Closed β} {i o : Bytes} (h : Advances q i o q') (p : Closed α) :
    Talks rtl rtr ⟨p, q, [], i⟩ ⟨p, q', o, []⟩ := by
  obtain ⟨n, hn⟩ := h.solo rtr p.failed []
  rw [List.append_nil] at hn
  exact ⟨n, steps_right hn []⟩

/-- One conversation in which both sides return decides all of them: no schedule
and no segmentation takes longer, and none stops anywhere else. -/
theorem endsIn_of_talks {d : Duplex α β} {r : Except IoError α} {r' : Except IoError β} {i i' : Bytes}
    (h : Talks rtl rtr d ⟨.done r, .done r', i, i'⟩) : EndsIn rtl rtr d ⟨.done r, .done r', i, i'⟩ := by
  have hsmall : ∀ u, ¬Small rtl rtr ⟨.done r, .done r', i, i'⟩ u := by
    intro u hu
    cases hu with
    | left hm => cases hm
    | right hm => cases hm
  obtain ⟨n, hn⟩ := h
  have hdescent : ∀ m u, Steps (Exchange rtl rtr) m d u →
      m ≤ n ∧ ∃ k, Steps (Small rtl rtr) k u ⟨.done r, .done r', i, i'⟩ := by
    intro m u hu
    obtain ⟨k, hle, hk⟩ := small_of_exchanges hu
    obtain ⟨hkn, hrest⟩ := random_descent small_diamond hn hsmall hk
    exact ⟨Nat.le_trans hle hkn, _, hrest⟩
  refine ⟨⟨n, fun m u hu => (hdescent m u hu).1⟩, fun m u hu => ?_, fun u hu => ?_⟩
  · obtain ⟨k, hk⟩ := (hdescent m u hu).2
    exact ⟨k, Steps.exchange hk⟩
  · obtain ⟨k, hpos, hk⟩ := hu.small
    cases hk with
    | zero => exact absurd hpos (Nat.lt_irrefl 0)
    | succ hs _ => exact hsmall _ hs

end Duplex

end Lib
