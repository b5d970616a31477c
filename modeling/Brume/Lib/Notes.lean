import Brume.Lib.Duplex
import Brume.Lib.Typestate

/-!
# Programs in an environment that takes notes

`answered` forgets what a program has asked. `noted` keeps what an observer `see`s
of the questions, so that a conversation of two programs also tells what one of
them has asked for on the side, and it stops in front of a question that is left
open. A race whose other branch never wins is the program itself, followed by what
handles its result.
-/

namespace Lib.Session

variable {Q Q' : Type} {A : Q → Type} {A' : Q' → Type} {α β γ : Type}

theorem bind_assoc {δ : Type} (p : Session Q A α) (f : α → Session Q A β) (g : β → Session Q A δ) :
    p >>= f >>= g = p >>= fun a => f a >>= g := by
  simp only [bind_eq]
  induction p with
  | done r => cases r <;> rfl
  | read n k ih => exact congrArg (Session.read n) (funext ih)
  | write bs k ih => exact congrArg (Session.write bs) (funext ih)
  | ask q k ih => exact congrArg (Session.ask q) (funext ih)

/-! ### Other questions -/

/-- The program as one of an environment that can be asked more. -/
def embed (f : Q → Q') (g : (q : Q) → A' (f q) → A q) : Session Q A α → Session Q' A' α
  | .done r => .done r
  | .read n k => .read n fun r => (k r).embed f g
  | .write bs k => .write bs fun r => (k r).embed f g
  | .ask q k => .ask (f q) fun a => (k (g q a)).embed f g

@[simp] theorem embed_bind (f : Q → Q') (g : (q : Q) → A' (f q) → A q) (p : Session Q A α) (k : α → Session Q A β) :
    (p >>= k).embed f g = p.embed f g >>= fun a => (k a).embed f g := by
  rw [bind_eq, bind_eq]
  induction p with
  | done r => cases r <;> rfl
  | read n k ih => exact congrArg (Session.read n) (funext ih)
  | write bs k ih => exact congrArg (Session.write bs) (funext ih)
  | ask q k ih => exact congrArg (Session.ask (f q)) (funext fun a => ih (g q a))

section
variable (f : Q → Q') (g : (q : Q) → A' (f q) → A q)

@[simp] theorem embed_pure (a : α) : (pure a : Session Q A α).embed f g = pure a := rfl

@[simp] theorem embed_throw (e : IoError) : (throw e : Session Q A α).embed f g = throw e := rfl

@[simp] theorem embed_readExact (n : ℕ) : (readExact n : Session Q A _).embed f g = readExact n := rfl

@[simp] theorem embed_writeAll (bs : Bytes) : (writeAll bs : Session Q A Unit).embed f g = writeAll bs := rfl

@[simp] theorem embed_ite {c : Prop} [Decidable c] (p p' : Session Q A α) :
    (if c then p else p').embed f g = if c then p.embed f g else p'.embed f g :=
  apply_ite (·.embed f g) c p p'

end

/-! ### Notes -/

/-- What handles the result of a program, an error included. -/
def settle : Session Q A α → (Except IoError α → Session Q A β) → Session Q A β
  | .done r, f => f r
  | .read n k, f => .read n fun r => (k r).settle f
  | .write bs k, f => .write bs fun r => (k r).settle f
  | .ask q k, f => .ask q fun a => (k a).settle f

theorem settle_settle {δ : Type} (p : Session Q A α) (f : Except IoError α → Session Q A β)
    (g : Except IoError β → Session Q A δ) : (p.settle f).settle g = p.settle fun r => (f r).settle g := by
  induction p with
  | done r => rfl
  | read n k ih => exact congrArg (Session.read n) (funext ih)
  | write bs k ih => exact congrArg (Session.write bs) (funext ih)
  | ask q k ih => exact congrArg (Session.ask q) (funext ih)

/-- Where a program comes to rest without an error: it has returned, or it waits for
the answer to a question. -/
inductive Rest (Q : Type) (α : Type) where
  | returned (a : α)
  | asking (q : Q)

/-- The program up to the first question that the oracle leaves open. The result
comes with what was seen of the questions. -/
def noted (oracle : Oracle Q A) (see : Q → Option γ) : List γ → Session Q A α → Closed (Rest Q α × List γ)
  | notes, .done r => .done (r.map (.returned ·, notes))
  | notes, .read n k => .read n fun r => noted oracle see notes (k r)
  | notes, .write bs k => .write bs fun r => noted oracle see notes (k r)
  | notes, .ask q k =>
    match oracle q with
    | some a => noted oracle see (notes ++ (see q).toList) (k a)
    | none => .done (.ok (.asking q, notes))

/-- What comes behind the result of a program that gets there. -/
def onward (notes : List γ) (f : Except IoError α → Closed (Rest Q β × List γ)) :
    Except IoError (Rest Q α × List γ) → Closed (Rest Q β × List γ)
  | .ok (.returned a, _) => f (.ok a)
  | .ok (.asking q, _) => .done (.ok (.asking q, notes))
  | .error e => f (.error e)

section
variable {oracle : Oracle Q A} {see : Q → Option γ}

theorem noted_ask {q : Q} {a : A q} (ha : oracle q = some a) (f : A q → Session Q A α) (notes : List γ) :
    noted oracle see notes (perform q >>= f) = noted oracle see (notes ++ (see q).toList) (f a) := by
  change noted oracle see notes (.ask q f) = _
  rw [noted, ha]

theorem noted_ask_unseen {q : Q} {a : A q} (ha : oracle q = some a) (hq : see q = none) (f : A q → Session Q A α)
    (notes : List γ) : noted oracle see notes (perform q >>= f) = noted oracle see notes (f a) := by
  have hnil : notes ++ (see q).toList = notes := by
    rw [hq]
    exact List.append_nil notes
  rw [noted_ask ha, hnil]

/-- A program without questions. -/
theorem noted_embed (f : Empty → Q) (g : (q : Empty) → A (f q) → NoAnswer q) (p : Closed α) (notes : List γ) :
    noted oracle see notes (p.embed f g) = p.settle fun r => .done (r.map (.returned ·, notes)) := by
  induction p with
  | done r => rfl
  | read n k ih => exact congrArg (Session.read n) (funext ih)
  | write bs k ih => exact congrArg (Session.write bs) (funext ih)
  | ask q k ih => cases q

/-- A race that the other branch does not win, of a program that shows nothing. -/
theorem noted_race {poll : ℕ → Q} {won : (i : ℕ) → A (poll i) → Option ℕ} {p : Session Q A α}
    (hp : AsksOnly (fun q => see q = none) p) (hpoll : ∀ i, see (poll i) = none)
    (hopen : ∀ i, ∃ a, oracle (poll i) = some a ∧ won i a = none) (f : Option (Except IoError α) → Session Q A β)
    (notes : List γ) (i : ℕ) :
    noted oracle see notes (p.race poll won i >>= f) =
      (noted oracle see notes p).settle (onward notes fun r => noted oracle see notes (f (some r))) := by
  have hsilent : ∀ {q : Q}, see q = none → notes ++ (see q).toList = notes := by
    intro q hq
    rw [hq]
    exact List.append_nil notes
  rw [bind_eq]
  induction p generalizing i with
  | done r => cases r <;> rfl
  | read n k ih =>
    obtain ⟨a, ha, hwon⟩ := hopen i
    simp only [race, Session.bind, noted, ha, hsilent (hpoll i), hwon, settle]
    exact congrArg (Session.read n) (funext fun r => ih r (hp r) (i + 1))
  | write bs k ih =>
    obtain ⟨a, ha, hwon⟩ := hopen i
    simp only [race, Session.bind, noted, ha, hsilent (hpoll i), hwon, settle]
    exact congrArg (Session.write bs) (funext fun r => ih r (hp r) (i + 1))
  | ask q k ih =>
    obtain ⟨a, ha, hwon⟩ := hopen i
    simp only [race, Session.bind, noted, ha, hsilent (hpoll i), hwon, hsilent hp.1]
    cases oracle q with
    | some a => exact ih a (hp.2 a) (i + 1)
    | none => rfl

end

theorem Advances.settle {p p' : Closed α} {i o : Bytes} (h : Advances p i o p') (f : Except IoError α → Closed β) :
    Advances (p.settle f) i o (p'.settle f) := by
  induction h with
  | refl p => exact .refl _
  | read v _ ih => exact .read v ih
  | write _ ih => exact .write ih

end Lib.Session
