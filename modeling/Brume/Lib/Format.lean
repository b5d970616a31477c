import Brume.Lib.Session

/-!
# Exact readers

`Reads p m a`: the program `p` takes the message `m` and nothing behind it,
returns `a`, and on every shorter part of `m` waits for more until the end of
the stream. The rules follow the structure of the program. A reader is exact
for an encoder when it reads the encodings and accepts nothing else; encodings
of an exact reader are prefix free.
-/

namespace Lib
open Session

variable {Q : Type} {A : Q → Type} {α β : Type}

structure Reads (p : Session Q A α) (m : Bytes) (a : α) : Prop where
  takes : ∀ rt oracle r out,
    runTape rt oracle p ⟨m ++ r, out⟩ = (.finished (.ok a), ⟨r, out⟩)
  eof : ∀ rt oracle b out, b <+: m → b ≠ m →
    runTape rt oracle p ⟨b, out⟩ = (.finished (.error rt.eof), ⟨[], out⟩)

namespace Reads

theorem pure (a : α) : Reads (Pure.pure a : Session Q A α) [] a where
  takes _ _ _ _ := rfl
  eof _ _ _ _ hb hne := absurd (List.prefix_nil.mp hb) hne

theorem readExact (v : Bytes) (n : ℕ) (hv : v.length = n) :
    Reads (Session.readExact n : Session Q A _) v (buffer v hv) where
  takes rt oracle r out := runTape_readExact_append rt oracle v n hv r out
  eof rt oracle b out hb hne := by
    have hlt : b.length < v.length := by
      rcases Nat.lt_or_eq_of_le hb.length_le with h | h
      · exact h
      · exact absurd (hb.eq_of_length h) hne
    exact runTape_readExact_short rt oracle n ⟨b, out⟩ (by simpa [hv] using hlt)

theorem bind {p : Session Q A α} {f : α → Session Q A β} {m m' : Bytes} {a : α} {b : β}
    (hp : Reads p m a) (hf : Reads (f a) m' b) : Reads (p >>= f) (m ++ m') b where
  takes rt oracle r out := by
    rw [List.append_assoc, runTape_bind_of_ok rt oracle _ (hp.takes rt oracle (m' ++ r) out)]
    exact hf.takes rt oracle r out
  eof rt oracle c out hc hne := by
    -- the stream stops inside the first part, or behind it inside the second
    rcases List.prefix_or_prefix_of_prefix hc (List.prefix_append m m') with h | h
    · by_cases he : c = m
      · subst he
        have hm' : [] ≠ m' := by
          rintro rfl
          exact hne (List.append_nil c).symm
        have ht := hp.takes rt oracle [] out
        rw [List.append_nil] at ht
        rw [runTape_bind_of_ok rt oracle _ ht]
        exact hf.eof rt oracle [] out List.nil_prefix hm'
      · exact runTape_bind_error rt oracle _ (hp.eof rt oracle c out h he)
    · obtain ⟨d, rfl⟩ := h
      rw [runTape_bind_of_ok rt oracle _ (hp.takes rt oracle d out)]
      refine hf.eof rt oracle d out ((List.prefix_append_right_inj m).mp hc) ?_
      rintro rfl
      exact hne rfl

/-- A last part that reads nothing. -/
theorem andThen {p : Session Q A α} {f : α → Session Q A β} {m : Bytes} {a : α} {b : β}
    (hp : Reads p m a) (hf : Reads (f a) [] b) : Reads (p >>= f) m b := by
  have h := hp.bind hf
  rwa [List.append_nil] at h

end Reads

/-! ### Errors of a reader -/

/-- Apart from the end of the stream, `p` fails only with errors in `P`. -/
def FailsIn (p : Session Q A α) (P : IoError → Prop) : Prop :=
  ∀ rt oracle t e t', runTape rt oracle p t = (.finished (.error e), t') → e = rt.eof ∨ P e

namespace FailsIn
variable {P : IoError → Prop}

theorem pure (a : α) : FailsIn (Pure.pure a : Session Q A α) P := by
  intro rt oracle t e t' h
  simp at h

theorem throw {e : IoError} (h : P e) : FailsIn (MonadExcept.throw e : Session Q A α) P := by
  intro rt oracle t e' t' he
  simp only [runTape_throw, Prod.mk.injEq, Outcome.finished.injEq, Except.error.injEq] at he
  exact Or.inr (he.1 ▸ h)

theorem readExact (n : ℕ) : FailsIn (Session.readExact n : Session Q A _) P := by
  intro rt oracle t e t' h
  simp only [Session.readExact, runTape] at h
  split at h
  · simp at h
  · simp only [Prod.mk.injEq, Outcome.finished.injEq, Except.error.injEq] at h
    exact Or.inl h.1.symm

theorem bind {p : Session Q A α} {f : α → Session Q A β} (hp : FailsIn p P)
    (hf : ∀ a, FailsIn (f a) P) : FailsIn (p >>= f) P := by
  intro rt oracle t e t' h
  rw [runTape_bind] at h
  rcases hr : runTape rt oracle p t with ⟨⟨e' | a⟩ | q, t₁⟩ <;> rw [hr] at h
  · simp only [Outcome.andThen, Prod.mk.injEq, Outcome.finished.injEq, Except.error.injEq] at h
    exact h.1 ▸ hp rt oracle t e' t₁ hr
  · exact hf a rt oracle t₁ e t' h
  · simp [Outcome.andThen] at h

end FailsIn

/-! ### Exactness -/

structure Exact (p : Session Q A α) (enc : α → Except IoError Bytes) : Prop where
  reads : ∀ m a, enc a = .ok m → Reads p m a
  sound : ∀ rt oracle t t' a, runTape rt oracle p t = (.finished (.ok a), t') →
    ∃ m, enc a = .ok m ∧ t.input = m ++ t'.input ∧ t.output = t'.output

namespace Exact
variable {p : Session Q A α} {enc : α → Except IoError Bytes}

/-- The exact language of the reader. -/
theorem accepts_iff (h : Exact p enc) (rt : Runtime) (oracle : Oracle Q A) (b r out : Bytes) (a : α) :
    runTape rt oracle p ⟨b, out⟩ = (.finished (.ok a), ⟨r, out⟩) ↔ ∃ m, enc a = .ok m ∧ b = m ++ r := by
  constructor
  · intro hr
    obtain ⟨m, hm, hb, -⟩ := h.sound rt oracle ⟨b, out⟩ ⟨r, out⟩ a hr
    exact ⟨m, hm, hb⟩
  · rintro ⟨m, hm, rfl⟩
    exact (h.reads m a hm).takes rt oracle r out

/-- No two messages share a beginning, so a stream splits in one way. -/
theorem prefix_free (h : Exact p enc) {a a' : α} {m m' r r' : Bytes} (ha : enc a = .ok m)
    (ha' : enc a' = .ok m') (he : m ++ r = m' ++ r') : a = a' ∧ m = m' ∧ r = r' := by
  have h₁ := (h.reads m a ha).takes std (fun _ => none) r []
  have h₂ := (h.reads m' a' ha').takes std (fun _ => none) r' []
  rw [he, h₂] at h₁
  simp only [Prod.mk.injEq, Outcome.finished.injEq, Except.ok.injEq, Tape.mk.injEq, and_true] at h₁
  obtain ⟨rfl, rfl⟩ := h₁
  exact ⟨rfl, List.append_cancel_right he, rfl⟩

end Exact

end Lib
