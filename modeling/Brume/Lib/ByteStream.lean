import Mathlib.Data.List.Basic

/-!
# Byte streams with arbitrary segmentation

One direction of a reliable connection, seen from the side that reads it (a
`Source`) or writes it (a `Sink`). A source is the list of the pieces the
transport hands over, one a `read`, and is at its end of file when the list is
used up. A sink says how much of a buffer each `write` takes. The loops behind
`read_exact` and `write_all` are the ones of the Rust standard library and of
tokio; the two differ in the texts of two errors only (`Runtime`).
-/

namespace Lib

abbrev Bytes := List UInt8

/-- A byte array `[u8; n]` from the list of its elements. -/
def buffer {n : ℕ} (bs : Bytes) (h : bs.length = n) : Vector UInt8 n := ⟨bs.toArray, by simpa using h⟩

@[simp] theorem toList_buffer {n : ℕ} (bs : Bytes) (h : bs.length = n) : (buffer bs h).toList = bs := by
  simp [buffer]

@[simp] theorem buffer_toList {n : ℕ} (v : Vector UInt8 n) (h : v.toList.length = n) :
    buffer v.toList h = v := Vector.toList_inj.mp (toList_buffer _ h)

@[simp] theorem getElem_buffer {n : ℕ} (bs : Bytes) (h : bs.length = n) (i : ℕ) (hi : i < n) :
    (buffer bs h)[i] = bs[i] := by
  simp [buffer]

@[simp] theorem head_buffer (b : UInt8) (h : [b].length = 1) : (buffer [b] h).head = b := rfl

theorem toList_one (v : Vector UInt8 1) (h₀ : 0 < 1) : v.toList = [v[0]] := by
  rcases v with ⟨⟨l⟩, h⟩
  obtain ⟨a, rfl⟩ := List.length_eq_one_iff.mp h
  rfl

theorem toList_two (v : Vector UInt8 2) (h₀ : 0 < 2) (h₁ : 1 < 2) : v.toList = [v[0], v[1]] := by
  rcases v with ⟨⟨l⟩, h⟩
  obtain ⟨a, b, rfl⟩ := List.length_eq_two.mp h
  rfl

theorem toList_four (v : Vector UInt8 4) (h₀ : 0 < 4) (h₁ : 1 < 4) (h₂ : 2 < 4) (h₃ : 3 < 4) :
    v.toList = [v[0], v[1], v[2], v[3]] := by
  rcases v with ⟨⟨_ | ⟨a, l⟩⟩, h⟩
  · simp at h
  · obtain ⟨b, c, d, rfl⟩ := List.length_eq_three.mp (by simpa using h : l.length = 3)
    rfl

/-! ### Slices -/

/-- `&bytes[i..j]`. The bounds are an argument, so a slice out of range cannot be written. -/
def slice (bs : Bytes) (i j : ℕ) (_ : i ≤ j ∧ j ≤ bs.length) : Bytes := (bs.take j).drop i

theorem slice_zero (bs : Bytes) (j : ℕ) (h : 0 ≤ j ∧ j ≤ bs.length) : slice bs 0 j h = bs.take j := rfl

theorem slice_suffix (bs : Bytes) (i : ℕ) (h : i ≤ bs.length ∧ bs.length ≤ bs.length) :
    slice bs i bs.length h = bs.drop i := by
  rw [slice, List.take_length]

/-- Whether a buffer is long enough is decided without a walk to its end. -/
abbrev decidableLeLength (n : ℕ) (bs : Bytes) : Decidable (n ≤ bs.length) :=
  decidable_of_iff (n = 0 ∨ (bs.drop (n - 1)).isEmpty = false) <| by
    rw [List.isEmpty_eq_false_iff, ne_eq, List.drop_eq_nil_iff]
    omega

section Bounds
attribute [local instance] decidableLeLength

/-- `bytes[i..j].copy_from_slice(src)`, which panics (`none`) when the range is
not inside the buffer or the lengths differ. -/
def copyInto (bs : Bytes) (i j : ℕ) (src : Bytes) : Option Bytes :=
  if i ≤ j ∧ j ≤ bs.length ∧ src.length = j - i then some (bs.take i ++ src ++ bs.drop j) else none

end Bounds

theorem copyInto_ok {bs src bs' : Bytes} {i j : ℕ} (h : copyInto bs i j src = some bs') :
    bs' = bs.take i ++ src ++ bs.drop j ∧ i ≤ j ∧ j ≤ bs.length ∧ src.length = j - i := by
  unfold copyInto at h
  split at h
  · rename_i hb
    cases h
    exact ⟨rfl, hb⟩
  · cases h

/-- A slice that starts with a replaced part of the buffer. -/
theorem drop_take_replaced (bs src : Bytes) {i j : ℕ} (n : ℕ) (hi : i ≤ j) (hj : j ≤ bs.length)
    (hsrc : src.length = j - i) :
    ((bs.take i ++ src ++ bs.drop j).take (j + n)).drop i = src ++ (bs.drop j).take n := by
  have hfront : (bs.take i ++ src).length = j := by
    rw [List.length_append, List.length_take, hsrc]
    omega
  have htake : (bs.take i).length = i := by
    rw [List.length_take]
    omega
  calc ((bs.take i ++ src ++ bs.drop j).take (j + n)).drop i
      = (bs.take i ++ src ++ (bs.drop j).take n).drop i := by
        rw [List.take_append, List.take_of_length_le (by omega), hfront, Nat.add_sub_cancel_left]
    _ = src ++ (bs.drop j).take n := by
        rw [List.append_assoc, List.drop_left' htake]

/-! ### Errors -/

/-- The kinds of `std::io::ErrorKind` that programs over byte streams test. -/
inductive ErrorKind where
  | notFound
  | permissionDenied
  | connectionRefused
  | connectionReset
  | brokenPipe
  | addrInUse
  | invalidInput
  | invalidData
  | timedOut
  | writeZero
  | unexpectedEof
  | other
  deriving DecidableEq, Repr

/-- `std::io::Error`: a kind and the text shown to the user. -/
structure IoError where
  kind : ErrorKind
  message : String
  deriving DecidableEq, Repr

/-- The two implementations of the loops, told apart by the errors they make. -/
structure Runtime where
  eof : IoError
  zero : IoError
  eof_kind : eof.kind = .unexpectedEof
  zero_kind : zero.kind = .writeZero

def std : Runtime where
  eof := ⟨.unexpectedEof, "failed to fill whole buffer"⟩
  zero := ⟨.writeZero, "failed to write whole buffer"⟩
  eof_kind := rfl
  zero_kind := rfl

def tokio : Runtime where
  eof := ⟨.unexpectedEof, "early eof"⟩
  zero := ⟨.writeZero, "write zero"⟩
  eof_kind := rfl
  zero_kind := rfl

/-! ### Reading -/

/-- What one `read` meets: a non-empty piece of the stream, a reason to try
again (`Interrupted`, or a future that is not ready), or an error. -/
inductive Arrival where
  | data (head : UInt8) (tail : Bytes)
  | retry
  | fail (error : IoError)
  deriving DecidableEq, Repr

abbrev Source := List Arrival

/-- The bytes the source still holds. -/
def Source.bytes : Source → Bytes
  | [] => []
  | .data b bs :: src => b :: bs ++ Source.bytes src
  | .retry :: src => Source.bytes src
  | .fail _ :: src => Source.bytes src

/-- No read of this source reports an error. -/
def Source.Clean (src : Source) : Prop := ∀ e, Arrival.fail e ∉ src

/-- What is left of a piece goes back to the front of the source. -/
def Source.putBack : Bytes → Source → Source
  | [], src => src
  | b :: bs, src => .data b bs :: src

@[simp] theorem bytes_putBack (bs : Bytes) (src : Source) :
    (Source.putBack bs src).bytes = bs ++ src.bytes := by
  cases bs <;> rfl

theorem clean_putBack (bs : Bytes) {src : Source} (h : src.Clean) : (Source.putBack bs src).Clean := by
  cases bs with
  | nil => exact h
  | cons b bs =>
    intro e he
    rcases List.mem_cons.mp he with he | he
    · cases he
    · exact h e he

theorem Source.Clean.tail {a : Arrival} {src : Source} (h : Source.Clean (a :: src)) : src.Clean :=
  fun e he => h e (List.mem_cons_of_mem _ he)

/-- The loop of `read_exact` for a buffer of `n` bytes. -/
def fill (rt : Runtime) : ℕ → Source → Except IoError Bytes × Source
  | 0, src => (.ok [], src)
  | _ + 1, [] => (.error rt.eof, [])
  | n + 1, .retry :: src => fill rt (n + 1) src
  | _ + 1, .fail e :: src => (.error e, src)
  | n + 1, .data b bs :: src =>
    if n ≤ bs.length then (.ok (b :: bs.take n), Source.putBack (bs.drop n) src)
    else
      let (r, rest) := fill rt (n - bs.length) src
      (r.map (b :: bs ++ ·), rest)

theorem fill_length (rt : Runtime) (n : ℕ) (src : Source) (bs : Bytes) (rest : Source)
    (h : fill rt n src = (.ok bs, rest)) : bs.length = n := by
  induction src generalizing n bs rest with
  | nil =>
    cases n with
    | zero => cases h; rfl
    | succ n => cases h
  | cons a src ih =>
    cases n with
    | zero => cases h; rfl
    | succ n =>
      cases a with
      | retry => exact ih (n + 1) bs rest h
      | fail e => cases h
      | data c cs =>
        rw [fill] at h
        split at h
        · rename_i hn
          cases h
          simp [hn]
        · rename_i hn
          rcases hf : fill rt (n - cs.length) src with ⟨r, rest'⟩
          simp only [hf, Prod.mk.injEq] at h
          cases r with
          | error e => cases h.1
          | ok ds =>
            have hd := ih (n - cs.length) ds rest' hf
            cases h.1
            simp only [List.length_append, List.length_cons, hd]
            omega

/-- `read_exact` on a buffer of `n` bytes. -/
def Source.readExact (rt : Runtime) (n : ℕ) (src : Source) :
    Except IoError (Vector UInt8 n) × Source :=
  match h : fill rt n src with
  | (.ok bs, rest) => (.ok (buffer bs (fill_length rt n src bs rest h)), rest)
  | (.error e, rest) => (.error e, rest)

/-- A clean source gives the next `n` bytes however they are cut. -/
theorem fill_clean (rt : Runtime) (n : ℕ) (src : Source) (hc : src.Clean) (hn : n ≤ src.bytes.length) :
    ∃ rest, fill rt n src = (.ok (src.bytes.take n), rest) ∧ rest.bytes = src.bytes.drop n ∧
      rest.Clean := by
  induction src generalizing n with
  | nil =>
    cases n with
    | zero => exact ⟨[], rfl, rfl, hc⟩
    | succ n => simp [Source.bytes] at hn
  | cons a src ih =>
    cases n with
    | zero => exact ⟨a :: src, rfl, rfl, hc⟩
    | succ n =>
      cases a with
      | retry => exact ih (n + 1) hc.tail hn
      | fail e => exact absurd List.mem_cons_self (hc e)
      | data b bs =>
        rw [fill]
        simp only [Source.bytes, List.cons_append, List.length_cons, List.length_append] at hn ⊢
        by_cases hle : n ≤ bs.length
        · refine ⟨Source.putBack (bs.drop n) src, ?_, ?_, clean_putBack _ hc.tail⟩
          · simp [hle, List.take_append_of_le_length]
          · simp [List.drop_append_of_le_length hle]
        · obtain ⟨rest, hf, hb, hr⟩ := ih (n - bs.length) hc.tail (by omega)
          refine ⟨rest, ?_, ?_, hr⟩
          · simp only [hle, ↓reduceIte, hf, Except.map, List.take_succ_cons, List.take_append]
            rw [List.take_of_length_le (show bs.length ≤ n by omega)]
          · rw [hb, List.drop_succ_cons, List.drop_append,
              List.drop_of_length_le (show bs.length ≤ n by omega), List.nil_append]

example (rt : Runtime) : fill rt 3 [.data 1 [2], .retry, .data 3 [4]] = (.ok [1, 2, 3], [.data 4 []]) := by
  rw [fill]
  rfl

/-- A clean source that is too short ends in the end-of-file error, used up. -/
theorem fill_short (rt : Runtime) (n : ℕ) (src : Source) (hc : src.Clean) (hn : src.bytes.length < n) :
    fill rt n src = (.error rt.eof, []) := by
  induction src generalizing n with
  | nil =>
    cases n with
    | zero => simp at hn
    | succ n => rfl
  | cons a src ih =>
    cases n with
    | zero => simp at hn
    | succ n =>
      cases a with
      | retry => exact ih (n + 1) hc.tail hn
      | fail e => exact absurd List.mem_cons_self (hc e)
      | data b bs =>
        simp only [Source.bytes, List.cons_append, List.length_cons, List.length_append] at hn
        have hf := ih (n - bs.length) hc.tail (by omega)
        rw [fill]
        simp [show ¬n ≤ bs.length by omega, hf, Except.map]

theorem readExact_clean (rt : Runtime) (n : ℕ) (src : Source) (hc : src.Clean)
    (hn : n ≤ src.bytes.length) :
    ∃ rest, src.readExact rt n = (.ok (buffer (src.bytes.take n) (List.length_take_of_le hn)), rest) ∧
      rest.bytes = src.bytes.drop n ∧ rest.Clean := by
  obtain ⟨rest, hf, hb, hr⟩ := fill_clean rt n src hc hn
  refine ⟨rest, ?_, hb, hr⟩
  unfold Source.readExact
  split
  · rename_i bs rest' h
    rw [hf] at h
    cases h
    rfl
  · rename_i e rest' h
    rw [hf] at h
    cases h

theorem readExact_short (rt : Runtime) (n : ℕ) (src : Source) (hc : src.Clean)
    (hn : src.bytes.length < n) : src.readExact rt n = (.error rt.eof, []) := by
  have hf := fill_short rt n src hc hn
  unfold Source.readExact
  split
  · rename_i bs rest' h
    rw [hf] at h
    cases h
  · rename_i e rest' h
    rw [hf] at h
    cases h
    rfl

/-- On any source, what a read returns is the front of the stream. -/
theorem fill_ok {rt : Runtime} {n : ℕ} {src rest : Source} {bs : Bytes}
    (h : fill rt n src = (.ok bs, rest)) : src.bytes = bs ++ rest.bytes := by
  induction src generalizing n bs with
  | nil =>
    cases n with
    | zero => cases h; rfl
    | succ n => cases h
  | cons a src ih =>
    cases n with
    | zero => cases h; rfl
    | succ n =>
      cases a with
      | retry => exact ih h
      | fail e => cases h
      | data b cs =>
        rw [fill] at h
        split at h
        · cases h
          rw [bytes_putBack, Source.bytes, List.cons_append, List.cons_append, ← List.append_assoc,
            List.take_append_drop]
        · rcases hf : fill rt (n - cs.length) src with ⟨r, rest'⟩
          rw [hf] at h
          simp only [Prod.mk.injEq] at h
          obtain ⟨h, rfl⟩ := h
          cases r with
          | error e => cases h
          | ok ds =>
            cases h
            rw [Source.bytes, ih hf, List.append_assoc]

theorem readExact_ok {rt : Runtime} {n : ℕ} {src rest : Source} {v : Vector UInt8 n}
    (h : src.readExact rt n = (.ok v, rest)) : src.bytes = v.toList ++ rest.bytes := by
  unfold Source.readExact at h
  split at h
  · rename_i bs rest' hf
    cases h
    rw [fill_ok hf, toList_buffer]
  · cases h

theorem fill_runtime (rt rt' : Runtime) (n : ℕ) (src : Source) :
    (fill rt n src).1.mapError IoError.kind = (fill rt' n src).1.mapError IoError.kind ∧
      (fill rt n src).2 = (fill rt' n src).2 := by
  induction src generalizing n with
  | nil =>
    cases n with
    | zero => exact ⟨rfl, rfl⟩
    | succ n => simp [fill, Except.mapError, rt.eof_kind, rt'.eof_kind]
  | cons a src ih =>
    cases n with
    | zero => exact ⟨rfl, rfl⟩
    | succ n =>
      cases a with
      | retry => exact ih (n + 1)
      | fail e => exact ⟨rfl, rfl⟩
      | data b bs =>
        rw [fill, fill]
        split
        · exact ⟨rfl, rfl⟩
        · obtain ⟨h₁, h₂⟩ := ih (n - bs.length)
          rcases hr : fill rt (n - bs.length) src with ⟨r, rest⟩
          rcases hr' : fill rt' (n - bs.length) src with ⟨r', rest'⟩
          rw [hr, hr'] at h₁ h₂
          cases r <;> cases r' <;> simp_all [Except.map, Except.mapError]

/-- The runtimes differ in the text of the end-of-file error only. -/
theorem readExact_runtime (rt rt' : Runtime) (n : ℕ) (src : Source) :
    (src.readExact rt n).1.mapError IoError.kind = (src.readExact rt' n).1.mapError IoError.kind ∧
      (src.readExact rt n).2 = (src.readExact rt' n).2 := by
  obtain ⟨h₁, h₂⟩ := fill_runtime rt rt' n src
  unfold Source.readExact
  split <;> rename_i hr <;> split <;> rename_i hr' <;> rw [hr, hr'] at h₁ h₂ <;>
    simp_all [Except.mapError]

/-! ### Writing -/

/-- What one `write` meets: room for at most `n` bytes, a reason to try again,
or an error. -/
inductive Acceptance where
  | accept (n : ℕ)
  | retry
  | fail (error : IoError)
  deriving DecidableEq, Repr

/-- `plan` says how the next writes go; when it is used up every write takes
the whole buffer. -/
structure Sink where
  plan : List Acceptance
  written : Bytes
  deriving DecidableEq, Repr

/-- No write to this sink fails: the plan has no error and no zero-byte write. -/
def Sink.Clean (s : Sink) : Prop := (∀ e, Acceptance.fail e ∉ s.plan) ∧ Acceptance.accept 0 ∉ s.plan

/-- The loop of `write_all`. -/
def push (rt : Runtime) : List Acceptance → Bytes → Bytes → Except IoError Unit × Sink
  | plan, out, [] => (.ok (), ⟨plan, out⟩)
  | [], out, b :: bs => (.ok (), ⟨[], out ++ b :: bs⟩)
  | .retry :: plan, out, b :: bs => push rt plan out (b :: bs)
  | .fail e :: plan, out, _ :: _ => (.error e, ⟨plan, out⟩)
  | .accept 0 :: plan, out, _ :: _ => (.error rt.zero, ⟨plan, out⟩)
  | .accept (n + 1) :: plan, out, b :: bs => push rt plan (out ++ (b :: bs).take (n + 1)) (bs.drop n)

def Sink.writeAll (rt : Runtime) (bs : Bytes) (s : Sink) : Except IoError Unit × Sink :=
  push rt s.plan s.written bs

theorem push_clean (rt : Runtime) (plan : List Acceptance) (out bs : Bytes)
    (hc : Sink.Clean ⟨plan, out⟩) :
    ∃ plan', push rt plan out bs = (.ok (), ⟨plan', out ++ bs⟩) ∧ Sink.Clean ⟨plan', out ++ bs⟩ := by
  induction plan generalizing out bs with
  | nil =>
    cases bs with
    | nil => exact ⟨[], by simp [push], by simpa using hc⟩
    | cons b bs => exact ⟨[], rfl, hc⟩
  | cons a plan ih =>
    cases bs with
    | nil => exact ⟨a :: plan, by simp [push], by simpa using hc⟩
    | cons b bs =>
      have ht : ∀ o, Sink.Clean ⟨plan, o⟩ := fun o =>
        ⟨fun e he => hc.1 e (List.mem_cons_of_mem _ he), fun he => hc.2 (List.mem_cons_of_mem _ he)⟩
      cases a with
      | retry => exact ih out (b :: bs) (ht out)
      | fail e => exact absurd List.mem_cons_self (hc.1 e)
      | accept n =>
        cases n with
        | zero => exact absurd List.mem_cons_self hc.2
        | succ n =>
          obtain ⟨plan', hp, hcl⟩ := ih (out ++ (b :: bs).take (n + 1)) (bs.drop n) (ht _)
          have hj : out ++ (b :: bs).take (n + 1) ++ bs.drop n = out ++ b :: bs := by
            rw [List.append_assoc, List.take_succ_cons, List.cons_append, List.take_append_drop]
          rw [hj] at hp hcl
          exact ⟨plan', hp, hcl⟩

/-- A write that succeeds has written the whole buffer. -/
theorem push_ok {rt : Runtime} {plan : List Acceptance} {out bs : Bytes} {s : Sink}
    (h : push rt plan out bs = (.ok (), s)) : s.written = out ++ bs := by
  induction plan generalizing out bs with
  | nil => cases bs <;> cases h <;> simp
  | cons a plan ih =>
    cases bs with
    | nil =>
      cases h
      simp
    | cons b bs =>
      cases a with
      | retry => exact ih h
      | fail e => cases h
      | accept n =>
        cases n with
        | zero => cases h
        | succ n =>
          rw [ih h, List.append_assoc, List.take_succ_cons, List.cons_append, List.take_append_drop]

theorem writeAll_ok {rt : Runtime} {bs : Bytes} {s s' : Sink}
    (h : s.writeAll rt bs = (.ok (), s')) : s'.written = s.written ++ bs := push_ok h

/-- The runtimes differ in the text of the zero-byte write error only. -/
theorem writeAll_runtime (rt rt' : Runtime) (bs : Bytes) (s : Sink) :
    (s.writeAll rt bs).1.mapError IoError.kind = (s.writeAll rt' bs).1.mapError IoError.kind ∧
      (s.writeAll rt bs).2 = (s.writeAll rt' bs).2 := by
  unfold Sink.writeAll
  rcases s with ⟨plan, out⟩
  induction plan generalizing out bs with
  | nil => cases bs <;> exact ⟨rfl, rfl⟩
  | cons a plan ih =>
    cases bs with
    | nil => exact ⟨rfl, rfl⟩
    | cons b bs =>
      cases a with
      | retry => exact ih (b :: bs) out
      | fail e => exact ⟨rfl, rfl⟩
      | accept n =>
        cases n with
        | zero => simp [push, Except.mapError, rt.zero_kind, rt'.zero_kind]
        | succ n => exact ih (bs.drop n) (out ++ (b :: bs).take (n + 1))

theorem writeAll_clean (rt : Runtime) (bs : Bytes) (s : Sink) (hc : s.Clean) :
    ∃ s' : Sink, s.writeAll rt bs = (.ok (), s') ∧ s'.written = s.written ++ bs ∧ s'.Clean := by
  obtain ⟨plan, hp, hcl⟩ := push_clean rt s.plan s.written bs hc
  exact ⟨⟨plan, s.written ++ bs⟩, hp, rfl, hcl⟩

end Lib
