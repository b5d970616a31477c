import Brume.Lib.ByteStream

/-!
# Sequential programs over one connection

A `Session` is a program that reads and writes one byte stream and asks its
environment questions (`Q`, answered in `A q`). It is a finite tree, so it can
be run alone against a stream, or interleaved with another program. An error
ends it unless the program catches it.

`runWire` runs it over segmented streams with the loops of a runtime; `runTape`
runs it over plain byte lists. `runWire_clean` says the two agree: what such a
program does depends on the bytes alone, never on how they are cut.
-/

namespace Lib

inductive Session (Q : Type) (A : Q → Type) (α : Type) : Type where
  | done (r : Except IoError α)
  | read (n : ℕ) (k : Except IoError (Vector UInt8 n) → Session Q A α)
  | write (bs : Bytes) (k : Except IoError Unit → Session Q A α)
  | ask (q : Q) (k : A q → Session Q A α)

variable {Q : Type} {A : Q → Type} {α β : Type}

namespace Session

def bind : Session Q A α → (α → Session Q A β) → Session Q A β
  | .done (.ok a), f => f a
  | .done (.error e), _ => .done (.error e)
  | .read n k, f => .read n fun r => (k r).bind f
  | .write bs k, f => .write bs fun r => (k r).bind f
  | .ask q k, f => .ask q fun a => (k a).bind f

/-- Recovery from an error, as `match` on a `Result` does it. -/
def recover : Session Q A α → (IoError → Session Q A α) → Session Q A α
  | .done (.ok a), _ => .done (.ok a)
  | .done (.error e), h => h e
  | .read n k, h => .read n fun r => (k r).recover h
  | .write bs k, h => .write bs fun r => (k r).recover h
  | .ask q k, h => .ask q fun a => (k a).recover h

instance : Monad (Session Q A) where
  pure a := .done (.ok a)
  bind := bind

instance : MonadExcept IoError (Session Q A) where
  throw e := .done (.error e)
  tryCatch := recover

/-- Fills a buffer of `n` bytes. -/
def readExact (n : ℕ) : Session Q A (Vector UInt8 n) := .read n .done

def writeAll (bs : Bytes) : Session Q A Unit := .write bs .done

def perform (q : Q) : Session Q A (A q) := .ask q fun a => .done (.ok a)

/-- A program next to a branch that may win at every point where it waits, as in
`timeout` and `select!`. The `i`-th wait asks `poll i`; when the branch has won
the program is dropped, a write with the first bytes it got out. -/
def race (poll : ℕ → Q) (won : (i : ℕ) → A (poll i) → Option ℕ) :
    ℕ → Session Q A α → Session Q A (Option (Except IoError α))
  | _, .done r => .done (.ok (some r))
  | i, .read n k => .ask (poll i) fun a =>
    match won i a with
    | some _ => .done (.ok none)
    | none => .read n fun r => (k r).race poll won (i + 1)
  | i, .write bs k => .ask (poll i) fun a =>
    match won i a with
    | some sent => .write (bs.take sent) fun _ => .done (.ok none)
    | none => .write bs fun r => (k r).race poll won (i + 1)
  | i, .ask q k => .ask (poll i) fun a =>
    match won i a with
    | some _ => .done (.ok none)
    | none => .ask q fun r => (k r).race poll won (i + 1)

theorem bind_eq (p : Session Q A α) (f : α → Session Q A β) : p >>= f = p.bind f := rfl

theorem pure_bind (a : α) (f : α → Session Q A β) : (pure a : Session Q A α).bind f = f a := rfl

theorem tryCatch_eq (p : Session Q A α) (h : IoError → Session Q A α) :
    tryCatch p h = p.recover h := rfl

/-! ### Running over plain bytes -/

/-- Both directions of a connection as byte lists: what is still to be read,
and what has been written. -/
structure Tape where
  input : Bytes
  output : Bytes
  deriving DecidableEq, Repr

/-- How a run ends: with a result, or in front of a question that the oracle
leaves open. -/
inductive Outcome (Q : Type) (α : Type) where
  | finished (r : Except IoError α)
  | asking (q : Q)
  deriving DecidableEq

abbrev Oracle (Q : Type) (A : Q → Type) := (q : Q) → Option (A q)

def runTape (rt : Runtime) (oracle : Oracle Q A) : Session Q A α → Tape → Outcome Q α × Tape
  | .done r, t => (.finished r, t)
  | .read n k, t =>
    if h : n ≤ t.input.length then
      runTape rt oracle (k (.ok (buffer (t.input.take n) (by simp [h])))) ⟨t.input.drop n, t.output⟩
    else runTape rt oracle (k (.error rt.eof)) ⟨[], t.output⟩
  | .write bs k, t => runTape rt oracle (k (.ok ())) ⟨t.input, t.output ++ bs⟩
  | .ask q k, t =>
    match oracle q with
    | some a => runTape rt oracle (k a) t
    | none => (.asking q, t)

/-- What a run does after a first part that ended with `r`. -/
def Outcome.andThen {σ : Type} (run : α → σ → Outcome Q β × σ) : Outcome Q α × σ → Outcome Q β × σ
  | (.finished (.ok a), t) => run a t
  | (.finished (.error e), t) => (.finished (.error e), t)
  | (.asking q, t) => (.asking q, t)

/-- The result of a race that the program has won. -/
def Outcome.raced : Outcome Q α × Tape → Outcome Q (Option (Except IoError α)) × Tape
  | (.finished r, t) => (.finished (.ok (some r)), t)
  | (.asking q, t) => (.asking q, t)

section
variable (rt : Runtime) (oracle : Oracle Q A)

theorem runTape_bind (p : Session Q A α) (f : α → Session Q A β) (t : Tape) :
    runTape rt oracle (p >>= f) t =
      Outcome.andThen (fun a => runTape rt oracle (f a)) (runTape rt oracle p t) := by
  rw [bind_eq]
  induction p generalizing t with
  | done r =>
    cases r with
    | ok a => rfl
    | error e => rfl
  | read n k ih =>
    simp only [bind, runTape]
    split
    · exact ih _ _
    · exact ih _ _
  | write bs k ih => exact ih _ _
  | ask q k ih =>
    simp only [bind, runTape]
    cases oracle q with
    | some a => exact ih a t
    | none => rfl

theorem runTape_recover (p : Session Q A α) (h : IoError → Session Q A α) (t : Tape) :
    runTape rt oracle (tryCatch p h) t =
      match runTape rt oracle p t with
      | (.finished (.error e), t') => runTape rt oracle (h e) t'
      | other => other := by
  rw [tryCatch_eq]
  induction p generalizing t with
  | done r =>
    cases r with
    | ok a => rfl
    | error e => rfl
  | read n k ih =>
    simp only [recover, runTape]
    split
    · exact ih _ _
    · exact ih _ _
  | write bs k ih => exact ih _ _
  | ask q k ih =>
    simp only [recover, runTape]
    cases oracle q with
    | some a => exact ih a t
    | none => rfl

@[simp] theorem runTape_pure (a : α) (t : Tape) :
    runTape rt oracle (pure a) t = (.finished (.ok a), t) := rfl

@[simp] theorem runTape_throw (e : IoError) (t : Tape) :
    runTape rt oracle (throw e : Session Q A α) t = (.finished (.error e), t) := rfl

@[simp] theorem runTape_writeAll (bs : Bytes) (t : Tape) :
    runTape rt oracle (writeAll bs) t = (.finished (.ok ()), ⟨t.input, t.output ++ bs⟩) := rfl

/-- A run of `p >>= f` that returns passes through a return of `p`. -/
theorem runTape_bind_ok {p : Session Q A α} {f : α → Session Q A β} {t t' : Tape} {b : β} :
    runTape rt oracle (p >>= f) t = (.finished (.ok b), t') ↔
      ∃ a t₁, runTape rt oracle p t = (.finished (.ok a), t₁) ∧
        runTape rt oracle (f a) t₁ = (.finished (.ok b), t') := by
  rw [runTape_bind]
  rcases runTape rt oracle p t with ⟨r, t₁⟩
  rcases r with ⟨e | a⟩ | q
  · simp [Outcome.andThen]
  · constructor
    · intro h
      exact ⟨a, t₁, rfl, h⟩
    · rintro ⟨a', t₁', h, h'⟩
      cases h
      exact h'
  · simp [Outcome.andThen]

theorem runTape_bind_error {p : Session Q A α} {t t' : Tape} {e : IoError}
    (f : α → Session Q A β) (h : runTape rt oracle p t = (.finished (.error e), t')) :
    runTape rt oracle (p >>= f) t = (.finished (.error e), t') := by
  rw [runTape_bind, h]
  rfl

theorem runTape_bind_of_ok {p : Session Q A α} {t t' : Tape} {a : α}
    (f : α → Session Q A β) (h : runTape rt oracle p t = (.finished (.ok a), t')) :
    runTape rt oracle (p >>= f) t = runTape rt oracle (f a) t' := by
  rw [runTape_bind, h]
  rfl

/-- A run of `p >>= f` that waits for an answer waits in `p` or behind a return of `p`. -/
theorem runTape_bind_asking {p : Session Q A α} {f : α → Session Q A β} {t t' : Tape} {q : Q}
    (h : runTape rt oracle (p >>= f) t = (.asking q, t')) :
    runTape rt oracle p t = (.asking q, t') ∨
      ∃ a t₁, runTape rt oracle p t = (.finished (.ok a), t₁) ∧ runTape rt oracle (f a) t₁ = (.asking q, t') := by
  rw [runTape_bind] at h
  rcases hp : runTape rt oracle p t with ⟨⟨e | a⟩ | q', t₁⟩
  · rw [hp] at h
    cases h
  · rw [hp] at h
    exact .inr ⟨a, t₁, rfl, h⟩
  · rw [hp] at h
    cases h
    exact .inl rfl

theorem runTape_read_append {n : ℕ} (k : Except IoError (Vector UInt8 n) → Session Q A α)
    (v : Vector UInt8 n) (rest out : Bytes) :
    runTape rt oracle (.read n k) ⟨v.toList ++ rest, out⟩ = runTape rt oracle (k (.ok v)) ⟨rest, out⟩ := by
  have hle : n ≤ (v.toList ++ rest).length := by simp
  have ht : (v.toList ++ rest).take n = v.toList := by simp
  have hd : (v.toList ++ rest).drop n = rest := by simp
  simp only [runTape, hle, ↓reduceDIte, ht, hd, buffer_toList]

theorem runTape_readExact_append (v : Bytes) (n : ℕ) (hv : v.length = n) (rest out : Bytes) :
    runTape rt oracle (readExact n) ⟨v ++ rest, out⟩ =
      (.finished (.ok (buffer v hv)), ⟨rest, out⟩) := by
  subst hv
  simp [readExact, runTape]

theorem runTape_readExact_short (n : ℕ) (t : Tape) (h : t.input.length < n) :
    runTape rt oracle (readExact n) t = (.finished (.error rt.eof), ⟨[], t.output⟩) := by
  simp [readExact, runTape, show ¬n ≤ t.input.length by omega]

/-- A read takes the front of the stream or meets its end. -/
theorem runTape_readExact_cases (n : ℕ) (t : Tape) :
    runTape rt oracle (readExact n) t = (.finished (.error rt.eof), ⟨[], t.output⟩) ∨
      ∃ (v : Vector UInt8 n) (rest : Bytes), t.input = v.toList ++ rest ∧
        runTape rt oracle (readExact n) t = (.finished (.ok v), ⟨rest, t.output⟩) := by
  by_cases hn : n ≤ t.input.length
  · have hl : (t.input.take n).length = n := by simp [hn]
    refine .inr ⟨buffer (t.input.take n) hl, t.input.drop n, by simp, ?_⟩
    simp [readExact, runTape, hn]
  · exact .inl (runTape_readExact_short rt oracle n t (by omega))

theorem runTape_readExact_ok {n : ℕ} {t t' : Tape} {v : Vector UInt8 n} :
    runTape rt oracle (readExact n) t = (.finished (.ok v), t') ↔
      t.input = v.toList ++ t'.input ∧ t.output = t'.output := by
  rcases t with ⟨input, output⟩
  rcases t' with ⟨input', output'⟩
  constructor
  · intro h
    by_cases hn : n ≤ input.length
    · have hl : (input.take n).length = n := by simp [hn]
      have hr := runTape_readExact_append rt oracle (input.take n) n hl (input.drop n) output
      rw [List.take_append_drop, h] at hr
      simp only [Prod.mk.injEq, Outcome.finished.injEq, Except.ok.injEq, Tape.mk.injEq] at hr
      obtain ⟨rfl, rfl, rfl⟩ := hr
      simp
    · rw [runTape_readExact_short rt oracle n _ (by simpa using hn)] at h
      simp at h
  · rintro ⟨h₁, h₂⟩
    simp only at h₁ h₂
    subst h₁ h₂
    rw [runTape_readExact_append rt oracle v.toList n (by simp), buffer_toList]

/-! ### Races -/

variable (poll : ℕ → Q) (won : (i : ℕ) → A (poll i) → Option ℕ)

/-- A race either is the run of the program, or has lost, or waits for the answer that decides it. -/
theorem runTape_race (p : Session Q A α) (i : ℕ) (t : Tape) :
    runTape rt oracle (p.race poll won i) t = Outcome.raced (runTape rt oracle p t) ∨
      (∃ t', runTape rt oracle (p.race poll won i) t = (.finished (.ok none), t')) ∨
      ∃ j t', runTape rt oracle (p.race poll won i) t = (.asking (poll j), t') := by
  induction p generalizing i t with
  | done r => exact .inl rfl
  | read n k ih =>
    simp only [race, runTape]
    split
    · split
      · exact .inr (.inl ⟨_, rfl⟩)
      · simp only [runTape]
        split
        · exact ih _ _ _
        · exact ih _ _ _
    · exact .inr (.inr ⟨_, _, rfl⟩)
  | write bs k ih =>
    simp only [race, runTape]
    split
    · split
      · exact .inr (.inl ⟨_, rfl⟩)
      · exact ih _ _ _
    · exact .inr (.inr ⟨_, _, rfl⟩)
  | ask q k ih =>
    simp only [race, runTape]
    split
    · split
      · exact .inr (.inl ⟨_, rfl⟩)
      · simp only [runTape]
        cases oracle q with
        | some a => exact ih _ _ _
        | none => exact .inl rfl
    · exact .inr (.inr ⟨_, _, rfl⟩)

variable {poll won}

/-- A race that the other branch does not win is a run of the program. -/
theorem runTape_race_some {i : ℕ} {p : Session Q A α} {t t' : Tape} {r : Except IoError α}
    (h : runTape rt oracle (p.race poll won i) t = (.finished (.ok (some r)), t')) :
    runTape rt oracle p t = (.finished r, t') := by
  rcases runTape_race rt oracle poll won p i t with hr | ⟨t₁, hr⟩ | ⟨j, t₁, hr⟩
  · rw [h] at hr
    rcases hp : runTape rt oracle p t with ⟨r' | q, t₁⟩
    · rw [hp] at hr
      cases hr
      rfl
    · rw [hp] at hr
      cases hr
  · cases h.symm.trans hr
  · cases h.symm.trans hr

/-- A race that waits for another answer than the one that decides it. -/
theorem runTape_race_asking {i : ℕ} {p : Session Q A α} {t t' : Tape} {q : Q} (hq : ∀ i, q ≠ poll i)
    (h : runTape rt oracle (p.race poll won i) t = (.asking q, t')) :
    runTape rt oracle p t = (.asking q, t') := by
  rcases runTape_race rt oracle poll won p i t with hr | ⟨t₁, hr⟩ | ⟨j, t₁, hr⟩
  · rw [h] at hr
    rcases hp : runTape rt oracle p t with ⟨r' | q', t₁⟩
    · rw [hp] at hr
      cases hr
    · rw [hp] at hr
      cases hr
      rfl
  · cases h.symm.trans hr
  · cases h.symm.trans hr
    exact absurd rfl (hq j)

/-- While the other branch is not ready a race is the program. -/
theorem runTape_race_open {p : Session Q A α} (hopen : ∀ i, ∃ a, oracle (poll i) = some a ∧ won i a = none) (i : ℕ)
    (t : Tape) : runTape rt oracle (p.race poll won i) t = Outcome.raced (runTape rt oracle p t) := by
  induction p generalizing i t with
  | done r => rfl
  | read n k ih =>
    obtain ⟨a, ha, hw⟩ := hopen i
    simp only [race, runTape, ha, hw]
    split
    · exact ih _ (i + 1) _
    · exact ih _ (i + 1) _
  | write bs k ih =>
    obtain ⟨a, ha, hw⟩ := hopen i
    simp only [race, runTape, ha, hw]
    exact ih _ (i + 1) _
  | ask q k ih =>
    obtain ⟨a, ha, hw⟩ := hopen i
    simp only [race, runTape, ha, hw]
    cases oracle q with
    | some a => exact ih a (i + 1) t
    | none => rfl

end

/-- A run takes bytes from the front of its input and adds bytes to its output. -/
theorem runTape_extends (rt : Runtime) (oracle : Oracle Q A) (p : Session Q A α) (t : Tape) :
    (runTape rt oracle p t).2.input <:+ t.input ∧ t.output <+: (runTape rt oracle p t).2.output := by
  induction p generalizing t with
  | done r => exact ⟨List.suffix_refl _, List.prefix_refl _⟩
  | read n k ih =>
    simp only [runTape]
    split
    · obtain ⟨hi, ho⟩ := ih (.ok (buffer (t.input.take n) (by simp [*]))) ⟨t.input.drop n, t.output⟩
      exact ⟨hi.trans (List.drop_suffix n t.input), ho⟩
    · obtain ⟨hi, ho⟩ := ih (.error rt.eof) ⟨[], t.output⟩
      exact ⟨hi.trans (List.nil_suffix), ho⟩
  | write bs k ih =>
    obtain ⟨hi, ho⟩ := ih (.ok ()) ⟨t.input, t.output ++ bs⟩
    exact ⟨hi, (List.prefix_append _ _).trans ho⟩
  | ask q k ih =>
    simp only [runTape]
    split
    · exact ih _ t
    · exact ⟨List.suffix_refl _, List.prefix_refl _⟩

/-! ### Programs that ask nothing -/

def NoAnswer : Empty → Type := fun q => nomatch q

def noOracle : Oracle Empty NoAnswer := fun q => nomatch q

/-- A reader run on a slice (`impl Read for &[u8]`): its value and what is left. -/
def readSlice (p : Session Empty NoAnswer α) (bytes : Bytes) : Except IoError (α × Bytes) :=
  match runTape std noOracle p ⟨bytes, []⟩ with
  | (.finished (.ok a), t) => .ok (a, t.input)
  | (.finished (.error e), _) => .error e

theorem readSlice_ok {p : Session Empty NoAnswer α} {bytes r : Bytes} {a : α} :
    readSlice p bytes = .ok (a, r) ↔
      ∃ t, runTape std noOracle p ⟨bytes, []⟩ = (.finished (.ok a), t) ∧ t.input = r := by
  unfold readSlice
  rcases runTape std noOracle p ⟨bytes, []⟩ with ⟨⟨e | a'⟩ | q, t⟩
  · simp
  · simp only [Except.ok.injEq, Prod.mk.injEq, Outcome.finished.injEq]
    constructor
    · rintro ⟨rfl, rfl⟩
      exact ⟨t, ⟨rfl, rfl⟩, rfl⟩
    · rintro ⟨t', ⟨rfl, rfl⟩, rfl⟩
      exact ⟨rfl, rfl⟩
  · exact nomatch q

/-! ### Running over segmented streams -/

/-- One end of a connection. -/
structure Wire where
  source : Source
  sink : Sink
  deriving DecidableEq, Repr

def Wire.tape (w : Wire) : Tape := ⟨w.source.bytes, w.sink.written⟩

/-- No read and no write of this connection reports an error. -/
def Wire.Clean (w : Wire) : Prop := w.source.Clean ∧ w.sink.Clean

def runWire (rt : Runtime) (oracle : Oracle Q A) : Session Q A α → Wire → Outcome Q α × Wire
  | .done r, w => (.finished r, w)
  | .read n k, w =>
    let (r, source) := w.source.readExact rt n
    runWire rt oracle (k r) { w with source }
  | .write bs k, w =>
    let (r, sink) := w.sink.writeAll rt bs
    runWire rt oracle (k r) { w with sink }
  | .ask q k, w =>
    match oracle q with
    | some a => runWire rt oracle (k a) w
    | none => (.asking q, w)

theorem runWire_bind (rt : Runtime) (oracle : Oracle Q A) (p : Session Q A α)
    (f : α → Session Q A β) (w : Wire) :
    runWire rt oracle (p >>= f) w =
      Outcome.andThen (fun a => runWire rt oracle (f a)) (runWire rt oracle p w) := by
  rw [bind_eq]
  induction p generalizing w with
  | done r =>
    cases r with
    | ok a => rfl
    | error e => rfl
  | read n k ih => exact ih _ _
  | write bs k ih => exact ih _ _
  | ask q k ih =>
    simp only [bind, runWire]
    cases oracle q with
    | some a => exact ih a w
    | none => rfl

theorem runWire_ofExcept (rt : Runtime) (oracle : Oracle Q A) (r : Except IoError α) (w : Wire) :
    runWire rt oracle (ofExcept r : Session Q A α) w = (.finished r, w) := by
  cases r <;> rfl

/-- A run of `p >>= f` that returns passes through a return of `p`. -/
theorem runWire_bind_ok {rt : Runtime} {oracle : Oracle Q A} {p : Session Q A α}
    {f : α → Session Q A β} {w w' : Wire} {b : β} :
    runWire rt oracle (p >>= f) w = (.finished (.ok b), w') ↔
      ∃ a w₁, runWire rt oracle p w = (.finished (.ok a), w₁) ∧
        runWire rt oracle (f a) w₁ = (.finished (.ok b), w') := by
  rw [runWire_bind]
  rcases runWire rt oracle p w with ⟨r, w₁⟩
  rcases r with ⟨e | a⟩ | q
  · simp [Outcome.andThen]
  · constructor
    · intro h
      exact ⟨a, w₁, rfl, h⟩
    · rintro ⟨a', w₁', h, h'⟩
      cases h
      exact h'
  · simp [Outcome.andThen]

/-- A race that the other branch does not win is a run of the program. -/
theorem runWire_race_some {rt : Runtime} {oracle : Oracle Q A} {poll : ℕ → Q}
    {won : (i : ℕ) → A (poll i) → Option ℕ} {i : ℕ} {p : Session Q A α} {w w' : Wire}
    {r : Except IoError α}
    (h : runWire rt oracle (p.race poll won i) w = (.finished (.ok (some r)), w')) :
    runWire rt oracle p w = (.finished r, w') := by
  induction p generalizing i w with
  | done r' =>
    cases h
    rfl
  | read n k ih =>
    simp only [race, runWire] at h ⊢
    split at h
    · split at h
      · cases h
      · exact ih _ h
    · cases h
  | write bs k ih =>
    simp only [race, runWire] at h ⊢
    split at h
    · split at h
      · cases h
      · exact ih _ h
    · cases h
  | ask q k ih =>
    simp only [race, runWire] at h ⊢
    split at h
    · split at h
      · cases h
      · simp only [runWire] at h
        split at h
        · rename_i hq
          exact ih _ h
        · cases h
    · cases h

/-- Segmentation, retries and partial writes do not show: over a connection
without errors a program does what it does over the plain bytes. -/
theorem runWire_clean (rt : Runtime) (oracle : Oracle Q A) (p : Session Q A α) (w : Wire)
    (hw : w.Clean) :
    (runWire rt oracle p w).1 = (runTape rt oracle p w.tape).1 ∧
      (runWire rt oracle p w).2.tape = (runTape rt oracle p w.tape).2 ∧
      (runWire rt oracle p w).2.Clean := by
  induction p generalizing w with
  | done r => exact ⟨rfl, rfl, hw⟩
  | read n k ih =>
    by_cases hn : n ≤ w.source.bytes.length
    · obtain ⟨rest, hr, hb, hcl⟩ := readExact_clean rt n w.source hw.1 hn
      have h := ih (.ok (buffer (w.source.bytes.take n) (by simp [hn]))) ⟨rest, w.sink⟩ ⟨hcl, hw.2⟩
      simp only [runWire, hr, runTape, Wire.tape, hn, ↓reduceDIte, hb] at h ⊢
      exact h
    · have hr := readExact_short rt n w.source hw.1 (by omega)
      have h := ih (.error rt.eof) ⟨[], w.sink⟩ ⟨by simp [Source.Clean], hw.2⟩
      simp only [runWire, hr, runTape, Wire.tape, hn, ↓reduceDIte, Source.bytes] at h ⊢
      exact h
  | write bs k ih =>
    obtain ⟨s', hs, hwr, hcl⟩ := writeAll_clean rt bs w.sink hw.2
    have h := ih (.ok ()) ⟨w.source, s'⟩ ⟨hw.1, hcl⟩
    simp only [runWire, hs, runTape, Wire.tape, hwr] at h ⊢
    exact h
  | ask q k ih =>
    simp only [runWire, runTape]
    cases oracle q with
    | some a => exact ih a w hw
    | none => exact ⟨rfl, rfl, hw⟩

/-! ### Programs that pass errors on -/

/-- No error of a read or a write is caught. -/
def PassesErrors : Session Q A α → Prop
  | .done _ => True
  | .read _ k => (∀ e, k (.error e) = .done (.error e)) ∧ ∀ v, (k (.ok v)).PassesErrors
  | .write _ k => (∀ e, k (.error e) = .done (.error e)) ∧ (k (.ok ())).PassesErrors
  | .ask _ k => ∀ a, (k a).PassesErrors

theorem passesErrors_pure (a : α) : PassesErrors (pure a : Session Q A α) := trivial

theorem passesErrors_throw (e : IoError) : PassesErrors (throw e : Session Q A α) := trivial

theorem passesErrors_readExact (n : ℕ) : PassesErrors (readExact n : Session Q A _) :=
  ⟨fun _ => rfl, fun _ => trivial⟩

theorem passesErrors_writeAll (bs : Bytes) : PassesErrors (writeAll bs : Session Q A Unit) :=
  ⟨fun _ => rfl, trivial⟩

theorem PassesErrors.ite {c : Prop} [Decidable c] {p p' : Session Q A α} (hp : PassesErrors p)
    (hp' : PassesErrors p') : PassesErrors (if c then p else p') := by
  split
  · exact hp
  · exact hp'

theorem PassesErrors.bind {p : Session Q A α} {f : α → Session Q A β} (hp : PassesErrors p)
    (hf : ∀ a, PassesErrors (f a)) : PassesErrors (p >>= f) := by
  rw [bind_eq]
  induction p with
  | done r =>
    cases r with
    | ok a => exact hf a
    | error e => trivial
  | read n k ih => exact ⟨fun e => congrArg (Session.bind · f) (hp.1 e), fun v => ih _ (hp.2 v)⟩
  | write bs k ih => exact ⟨fun e => congrArg (Session.bind · f) (hp.1 e), ih _ hp.2⟩
  | ask q k ih => exact fun a => ih a (hp a)

/-- If such a program returns, over whatever connection, it has met no error and
does the same over the plain bytes. -/
theorem PassesErrors.runWire_ok {rt : Runtime} {oracle : Oracle Q A} {p : Session Q A α}
    (hp : PassesErrors p) {w w' : Wire} {a : α}
    (h : runWire rt oracle p w = (.finished (.ok a), w')) :
    runTape rt oracle p w.tape = (.finished (.ok a), w'.tape) := by
  induction p generalizing w with
  | done r =>
    cases h
    rfl
  | read n k ih =>
    simp only [runWire] at h
    rcases hr : w.source.readExact rt n with ⟨e | v, rest⟩
    · rw [hr] at h
      simp only [hp.1 e, runWire] at h
      cases h
    · rw [hr] at h
      have hk := ih _ (hp.2 v) h
      rw [show w.tape = ⟨v.toList ++ rest.bytes, w.sink.written⟩ from
        congrArg (Tape.mk · _) (Lib.readExact_ok hr), runTape_read_append]
      exact hk
  | write bs k ih =>
    simp only [runWire] at h
    rcases hr : w.sink.writeAll rt bs with ⟨e | ⟨⟩, sink⟩
    · rw [hr] at h
      simp only [hp.1 e, runWire] at h
      cases h
    · rw [hr] at h
      have hk := ih _ hp.2 h
      simp only [Wire.tape, Lib.writeAll_ok hr] at hk
      exact hk
  | ask q k ih =>
    simp only [runWire, runTape] at h ⊢
    cases hq : oracle q with
    | some a =>
      rw [hq] at h
      exact ih a (hp a) h
    | none =>
      rw [hq] at h
      cases h

/-! ### Two runtimes -/

/-- Drops the text of an error and keeps its kind. -/
def Outcome.forgetText : Outcome Q α → Outcome Q α
  | .finished (.error e) => .finished (.error { e with message := "" })
  | .finished (.ok a) => .finished (.ok a)
  | .asking q => .asking q

/-- The runtime shows in the texts of errors only: on every connection, errors
included, the result, the kind of an error and the rest of the streams are the same. -/
def RuntimeFree (p : Session Q A α) : Prop :=
  ∀ rt rt' oracle w, (runWire rt oracle p w).1.forgetText = (runWire rt' oracle p w).1.forgetText ∧
    (runWire rt oracle p w).2 = (runWire rt' oracle p w).2

theorem runtimeFree_pure (a : α) : RuntimeFree (pure a : Session Q A α) :=
  fun _ _ _ _ => ⟨rfl, rfl⟩

theorem runtimeFree_throw (e : IoError) : RuntimeFree (throw e : Session Q A α) :=
  fun _ _ _ _ => ⟨rfl, rfl⟩

theorem runtimeFree_readExact (n : ℕ) : RuntimeFree (readExact n : Session Q A _) := by
  intro rt rt' oracle w
  obtain ⟨h₁, h₂⟩ := readExact_runtime rt rt' n w.source
  simp only [readExact, runWire]
  rcases hr : w.source.readExact rt n with ⟨r, rest⟩
  rcases hr' : w.source.readExact rt' n with ⟨r', rest'⟩
  rw [hr, hr'] at h₁ h₂
  subst h₂
  refine ⟨?_, rfl⟩
  cases r <;> cases r' <;> simp_all [Outcome.forgetText, Except.mapError]

theorem runtimeFree_writeAll (bs : Bytes) : RuntimeFree (writeAll bs : Session Q A Unit) := by
  intro rt rt' oracle w
  obtain ⟨h₁, h₂⟩ := writeAll_runtime rt rt' bs w.sink
  simp only [writeAll, runWire]
  rcases hr : w.sink.writeAll rt bs with ⟨r, sink⟩
  rcases hr' : w.sink.writeAll rt' bs with ⟨r', sink'⟩
  rw [hr, hr'] at h₁ h₂
  subst h₂
  refine ⟨?_, rfl⟩
  cases r <;> cases r' <;> simp_all [Outcome.forgetText, Except.mapError]

theorem RuntimeFree.bind {p : Session Q A α} {f : α → Session Q A β} (hp : RuntimeFree p)
    (hf : ∀ a, RuntimeFree (f a)) : RuntimeFree (p >>= f) := by
  intro rt rt' oracle w
  obtain ⟨h₁, h₂⟩ := hp rt rt' oracle w
  rw [runWire_bind, runWire_bind]
  rcases hr : runWire rt oracle p w with ⟨r, w₁⟩
  rcases hr' : runWire rt' oracle p w with ⟨r', w₁'⟩
  rw [hr, hr'] at h₁ h₂
  subst h₂
  rcases r with ⟨e | a⟩ | q <;> rcases r' with ⟨e' | a'⟩ | q' <;>
    simp only [Outcome.forgetText, Outcome.finished.injEq, Outcome.asking.injEq, Except.ok.injEq,
      reduceCtorEq] at h₁
  · exact ⟨by simpa [Outcome.andThen, Outcome.forgetText] using h₁, rfl⟩
  · subst h₁
    exact hf a rt rt' oracle w₁
  · subst h₁
    exact ⟨rfl, rfl⟩

/-- Two runtimes and two ways to cut one stream: the same result, kind of error
and remaining bytes. -/
theorem RuntimeFree.any_cut {p : Session Q A α} (hp : RuntimeFree p) (rt rt' : Runtime)
    (oracle : Oracle Q A) {w w' : Wire} (hw : w.Clean) (hw' : w'.Clean) (ht : w.tape = w'.tape) :
    (runWire rt oracle p w).1.forgetText = (runWire rt' oracle p w').1.forgetText ∧
      (runWire rt oracle p w).2.tape = (runWire rt' oracle p w').2.tape := by
  obtain ⟨h₁, h₂⟩ := hp rt rt' oracle w
  obtain ⟨hr, ht₁, -⟩ := runWire_clean rt' oracle p w hw
  obtain ⟨hr', ht₂, -⟩ := runWire_clean rt' oracle p w' hw'
  rw [h₁, h₂, hr, hr', ht₁, ht₂, ht]
  exact ⟨rfl, rfl⟩

end Session

end Lib
