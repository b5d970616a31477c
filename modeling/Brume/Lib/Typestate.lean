import Brume.Lib.Session

/-!
# Typestates of sequential programs

`AsksOnly P p`: every question of the program satisfies `P`, whatever it is
answered. `Follows rule p st post`: the program asks only what the rule permits
in the state it has reached, the rule moves the state with every answer, and the
program ends in a state that satisfies `post`. Both have a rule for every way to
build a program.
-/

namespace Lib.Session

variable {Q : Type} {A : Q → Type} {α β σ : Type}

/-! ### The questions of a program -/

def AsksOnly (P : Q → Prop) : Session Q A α → Prop
  | .done _ => True
  | .read _ k => ∀ r, (k r).AsksOnly P
  | .write _ k => ∀ r, (k r).AsksOnly P
  | .ask q k => P q ∧ ∀ a, (k a).AsksOnly P

namespace AsksOnly
variable {P : Q → Prop}

theorem pure (a : α) : AsksOnly P (Pure.pure a : Session Q A α) := trivial

theorem throw (e : IoError) : AsksOnly P (MonadExcept.throw e : Session Q A α) := trivial

theorem ofExcept (r : Except IoError α) : AsksOnly P (MonadExcept.ofExcept r : Session Q A α) := by
  cases r <;> trivial

theorem readExact (n : ℕ) : AsksOnly P (Session.readExact n : Session Q A _) := fun _ => trivial

theorem writeAll (bs : Bytes) : AsksOnly P (Session.writeAll bs : Session Q A Unit) := fun _ => trivial

theorem perform {q : Q} (h : P q) : AsksOnly P (Session.perform q : Session Q A _) := ⟨h, fun _ => trivial⟩

theorem ite {c : Prop} [Decidable c] {p p' : Session Q A α} (hp : AsksOnly P p) (hp' : AsksOnly P p') :
    AsksOnly P (if c then p else p') := by
  split
  · exact hp
  · exact hp'

theorem bind {p : Session Q A α} {f : α → Session Q A β} (hp : AsksOnly P p) (hf : ∀ a, AsksOnly P (f a)) :
    AsksOnly P (p >>= f) := by
  rw [bind_eq]
  induction p with
  | done r =>
    cases r with
    | ok a => exact hf a
    | error e => trivial
  | read n k ih => exact fun r => ih r (hp r)
  | write bs k ih => exact fun r => ih r (hp r)
  | ask q k ih => exact ⟨hp.1, fun a => ih a (hp.2 a)⟩

theorem recover {p : Session Q A α} {h : IoError → Session Q A α} (hp : AsksOnly P p)
    (hh : ∀ e, AsksOnly P (h e)) : AsksOnly P (tryCatch p h) := by
  rw [tryCatch_eq]
  induction p with
  | done r =>
    cases r with
    | ok a => trivial
    | error e => exact hh e
  | read n k ih => exact fun r => ih r (hp r)
  | write bs k ih => exact fun r => ih r (hp r)
  | ask q k ih => exact ⟨hp.1, fun a => ih a (hp.2 a)⟩

theorem race {p : Session Q A α} {poll : ℕ → Q} {won : (i : ℕ) → A (poll i) → Option ℕ} (hp : AsksOnly P p)
    (hpoll : ∀ i, P (poll i)) (i : ℕ) : AsksOnly P (p.race poll won i) := by
  induction p generalizing i with
  | done r => trivial
  | read n k ih =>
    rw [Session.race]
    refine ⟨hpoll i, fun a => ?_⟩
    dsimp only
    split
    · trivial
    · exact fun r => ih r (hp r) (i + 1)
  | write bs k ih =>
    rw [Session.race]
    refine ⟨hpoll i, fun a => ?_⟩
    dsimp only
    split
    · exact fun _ => trivial
    · exact fun r => ih r (hp r) (i + 1)
  | ask q k ih =>
    rw [Session.race]
    refine ⟨hpoll i, fun a => ?_⟩
    dsimp only
    split
    · trivial
    · exact ⟨hp.1, fun r => ih r (hp.2 r) (i + 1)⟩

/-- A run stops in front of questions of the program only. -/
theorem asking {rt : Runtime} {oracle : Oracle Q A} {p : Session Q A α} (hp : AsksOnly P p) {t t' : Tape} {q : Q}
    (h : runTape rt oracle p t = (.asking q, t')) : P q := by
  induction p generalizing t with
  | done r => cases h
  | read n k ih =>
    simp only [runTape] at h
    split at h
    · exact ih _ (hp _) h
    · exact ih _ (hp _) h
  | write bs k ih => exact ih _ (hp _) h
  | ask q' k ih =>
    simp only [runTape] at h
    split at h
    · exact ih _ (hp.2 _) h
    · cases h
      exact hp.1

end AsksOnly

/-! ### Programs that only read -/

def ReadsOnly : Session Q A α → Prop
  | .done _ => True
  | .read _ k => ∀ r, (k r).ReadsOnly
  | .write _ _ => False
  | .ask _ _ => False

namespace ReadsOnly

theorem pure (a : α) : ReadsOnly (Pure.pure a : Session Q A α) := trivial

theorem throw (e : IoError) : ReadsOnly (MonadExcept.throw e : Session Q A α) := trivial

theorem readExact (n : ℕ) : ReadsOnly (Session.readExact n : Session Q A _) := fun _ => trivial

theorem ite {c : Prop} [Decidable c] {p p' : Session Q A α} (hp : ReadsOnly p) (hp' : ReadsOnly p') :
    ReadsOnly (if c then p else p') := by
  split
  · exact hp
  · exact hp'

theorem bind {p : Session Q A α} {f : α → Session Q A β} (hp : ReadsOnly p) (hf : ∀ a, ReadsOnly (f a)) :
    ReadsOnly (p >>= f) := by
  rw [bind_eq]
  induction p with
  | done r =>
    cases r with
    | ok a => exact hf a
    | error e => trivial
  | read n k ih => exact fun r => ih r (hp r)
  | write bs k ih => exact hp.elim
  | ask q k ih => exact hp.elim

theorem asksOnly {p : Session Q A α} (hp : ReadsOnly p) (P : Q → Prop) : AsksOnly P p := by
  induction p with
  | done r => trivial
  | read n k ih => exact fun r => ih r (hp r)
  | write bs k ih => exact hp.elim
  | ask q k ih => exact hp.elim

/-- Such a program returns and leaves the output alone. -/
theorem runTape {p : Session Q A α} (hp : ReadsOnly p) (rt : Runtime) (oracle : Oracle Q A) (t : Tape) :
    ∃ r t', Session.runTape rt oracle p t = (.finished r, t') ∧ t'.output = t.output := by
  induction p generalizing t with
  | done r => exact ⟨r, t, rfl, rfl⟩
  | read n k ih =>
    simp only [Session.runTape]
    split
    · exact ih _ (hp _) _
    · exact ih _ (hp _) _
  | write bs k ih => exact hp.elim
  | ask q k ih => exact hp.elim

end ReadsOnly

/-! ### Following a rule -/

section
variable (rule : σ → (q : Q) → A q → Option σ) (allowed : (q : Q) → A q → Prop)

def Follows : Session Q A α → σ → (σ → Except IoError α → Prop) → Prop
  | .done r, st, post => post st r
  | .read _ k, st, post => ∀ r, Follows (k r) st post
  | .write _ k, st, post => ∀ r, Follows (k r) st post
  | .ask q k, st, post => ∀ a, allowed q a → ∃ st', rule st q a = some st' ∧ Follows (k a) st' post

end

namespace Follows
variable {rule : σ → (q : Q) → A q → Option σ} {allowed : (q : Q) → A q → Prop} {st : σ}

/-- A program whose questions the rule ignores. -/
theorem of_asksOnly {P : Q → Prop} (hP : ∀ q, P q → ∀ st a, rule st q a = some st)
    {p : Session Q A α} (hp : AsksOnly P p) {post : σ → Except IoError α → Prop} (hpost : ∀ r, post st r) :
    Follows rule allowed p st post := by
  induction p with
  | done r => exact hpost r
  | read n k ih => exact fun r => ih r (hp r)
  | write bs k ih => exact fun r => ih r (hp r)
  | ask q k ih => exact fun a _ => ⟨st, hP q hp.1 st a, ih a (hp.2 a)⟩

/-- What follows a first part starts in the state that part has reached. -/
theorem bind {p : Session Q A α} {f : α → Session Q A β} {post : σ → Except IoError β → Prop}
    (h : Follows rule allowed p st fun st r =>
      match r with
      | .ok a => Follows rule allowed (f a) st post
      | .error e => post st (.error e)) :
    Follows rule allowed (p >>= f) st post := by
  rw [bind_eq]
  induction p generalizing st with
  | done r =>
    cases r with
    | ok a => exact h
    | error e => exact h
  | read n k ih => exact fun r => ih r (h r)
  | write bs k ih => exact fun r => ih r (h r)
  | ask q k ih =>
    intro a ha
    obtain ⟨st', hst, hk⟩ := h a ha
    exact ⟨st', hst, ih a hk⟩

/-- A first part whose questions the rule ignores. -/
theorem bind_asksOnly {P : Q → Prop} (hP : ∀ q, P q → ∀ st a, rule st q a = some st)
    {p : Session Q A α} {f : α → Session Q A β} {post : σ → Except IoError β → Prop} (hp : AsksOnly P p)
    (hf : ∀ a, Follows rule allowed (f a) st post) (he : ∀ e, post st (.error e)) :
    Follows rule allowed (p >>= f) st post := by
  refine bind (of_asksOnly hP hp fun r => ?_)
  cases r with
  | ok a => exact hf a
  | error e => exact he e

end Follows

end Lib.Session
