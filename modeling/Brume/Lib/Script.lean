import Brume.Lib.Session

/-!
# Scripts that can be cut off

A program whose questions are commands. A command moves a world and answers in one
of the ways that a relation allows, and the program can be cut off in front of any
command. `Keeps` is the condition under which an invariant holds wherever the
program is cut off, and a postcondition where it returns; an error ends it at a
state of which the invariant is all that is known.
-/

namespace Lib.Session

variable {Q : Type} {A : Q → Type} {α β σ : Type}

/-- `run q s a s'`: the command `q` may answer `a` and turn the world `s` into `s'`. -/
abbrev Commands (Q : Type) (A : Q → Type) (σ : Type) := (q : Q) → σ → A q → σ → Prop

/-- Some run of the program gets to the rest `p'` of it in the world `s'`. -/
inductive Leads (run : Commands Q A σ) (p : Session Q A α) (s : σ) : Session Q A α → σ → Prop
  | start : Leads run p s p s
  | step {q : Q} {k : A q → Session Q A α} {s' s'' : σ} {a : A q} (h : Leads run p s (.ask q k) s')
      (hq : run q s' a s'') : Leads run p s (k a) s''

def Keeps (run : Commands Q A σ) (inv : σ → Prop) (post : α → σ → Prop) : Session Q A α → σ → Prop
  | .done (.ok a), s => inv s ∧ post a s
  | .done (.error _), s | .read _ _, s | .write _ _, s => inv s
  | .ask q k, s => inv s ∧ ∀ a s', run q s a s' → Keeps run inv post (k a) s'

variable {run : Commands Q A σ} {inv : σ → Prop} {post post' : α → σ → Prop} {p p' : Session Q A α} {s s' : σ}

theorem Keeps.holds (h : Keeps run inv post p s) : inv s := by
  cases p with
  | done r =>
    cases r with
    | ok a => exact h.1
    | error e => exact h
  | read n k => exact h
  | write bs k => exact h
  | ask q k => exact h.1

theorem Keeps.leads (h : Keeps run inv post p s) (hl : Leads run p s p' s') : Keeps run inv post p' s' := by
  induction hl with
  | start => exact h
  | step _ hq ih => exact ih.2 _ _ hq

theorem Keeps.imp (h : Keeps run inv post p s) (himp : ∀ a s, post a s → post' a s) : Keeps run inv post' p s := by
  induction p generalizing s with
  | done r =>
    cases r with
    | ok a => exact ⟨h.1, himp a s h.2⟩
    | error e => exact h
  | read n k => exact h
  | write bs k => exact h
  | ask q k ih => exact ⟨h.1, fun a s' hq => ih a (h.2 a s' hq)⟩

theorem Keeps.bind {post : β → σ → Prop} {f : α → Session Q A β}
    (h : Keeps run inv (fun a s => Keeps run inv post (f a) s) p s) : Keeps run inv post (p >>= f) s := by
  rw [bind_eq]
  induction p generalizing s with
  | done r =>
    cases r with
    | ok a => exact h.2
    | error e => exact h
  | read n k => exact h
  | write bs k => exact h
  | ask q k ih => exact ⟨h.1, fun a s' hq => ih a (h.2 a s' hq)⟩

theorem Leads.trans {p'' : Session Q A α} {s'' : σ} (h : Leads run p s p' s') (h' : Leads run p' s' p'' s'') :
    Leads run p s p'' s'' := by
  induction h' with
  | start => exact h
  | step _ hq ih => exact .step ih hq

theorem Leads.bind (h : Leads run p s p' s') (f : α → Session Q A β) : Leads run (p >>= f) s (p' >>= f) s' := by
  induction h with
  | start => exact .start
  | step _ hq ih => exact .step ih hq

theorem Leads.seq {f : α → Session Q A β} {p'' : Session Q A β} {s'' : σ} {a : α}
    (h : Leads run p s (.done (.ok a)) s') (hf : Leads run (f a) s' p'' s'') : Leads run (p >>= f) s p'' s'' :=
  (h.bind f).trans hf

theorem leads_perform {q : Q} {a : A q} (hq : run q s a s') :
    Leads run (perform q : Session Q A (A q)) s (.done (.ok a)) s' :=
  .step .start hq

theorem keeps_perform {q : Q} {post : A q → σ → Prop} (hinv : inv s) (h : ∀ a s', run q s a s' → inv s' ∧ post a s') :
    Keeps run inv post (perform q : Session Q A (A q)) s := ⟨hinv, h⟩

theorem keeps_ofExcept {r : Except IoError α} (hinv : inv s) (h : ∀ a, r = .ok a → post a s) :
    Keeps run inv post (ofExcept r : Session Q A α) s := by
  cases r with
  | ok a => exact ⟨hinv, h a rfl⟩
  | error e => exact hinv

end Lib.Session
