import Brume.Server.Handler

/-!
# Authentication

What a client has to send for `negotiate` to return, and what the server writes
meanwhile. `Presents` says it without the program: the greeting that offers the
configured method, followed by the configured credentials if there are any.
-/

namespace Brume.Server
open Lib Session Protocol

variable {Q : Type} {A : Q → Type}

/-! ### The comparison -/

theorem foldl_or_eq_zero_iff {α : Type} (f : α → ℕ) (l : List α) (d : ℕ) :
    l.foldl (fun d x => d ||| f x) d = 0 ↔ d = 0 ∧ ∀ x ∈ l, f x = 0 := by
  induction l generalizing d with
  | nil => simp
  | cons x l ih =>
    rw [List.foldl_cons, ih, Nat.or_eq_zero_iff, and_assoc, List.forall_mem_cons]

/-- The accumulated difference is zero exactly on equal slices. -/
theorem constantTimeEq_iff (a b : Bytes) : constantTimeEq a b = true ↔ a = b := by
  unfold constantTimeEq
  rw [beq_iff_eq, foldl_or_eq_zero_iff fun x : UInt8 × ℕ => (x.1 ^^^ b[x.2]?.getD 0).toNat]
  constructor
  · rintro ⟨hlen, hbytes⟩
    have hlen' : a.length = b.length := Nat.xor_eq_zero_iff.mp hlen
    refine List.ext_getElem hlen' fun i ha hb => ?_
    have hi := hbytes (a[i], i) (List.mk_mem_zipIdx_iff_getElem?.mpr (by simp [ha]))
    simp only [List.getElem?_eq_getElem hb, Option.getD_some] at hi
    exact UInt8.xor_eq_zero_iff.mp (UInt8.toNat_inj.mp hi)
  · rintro rfl
    refine ⟨Nat.xor_self _, ?_⟩
    rintro ⟨v, i⟩ hmem
    have hv := List.mk_mem_zipIdx_iff_getElem?.mp hmem
    simp [hv]

/-! ### What a client presents -/

def greeting (methods : Bytes) : Bytes := [5, UInt8.ofNat methods.length] ++ methods

def credentials (username password : Bytes) : Bytes :=
  [1, UInt8.ofNat username.length] ++ username ++ ([UInt8.ofNat password.length] ++ password)

/-- `Presents config m replies`: a client that sends `m` has presented what the
configuration asks for, and has been answered with `replies`. -/
inductive Presents (config : Config) : Bytes → Bytes → Prop
  | anonymous (methods : Bytes) (hpos : 1 ≤ methods.length) (hle : methods.length ≤ 255)
      (hu : config.username = "") (hm : 0 ∈ methods) :
      Presents config (greeting methods) [5, 0]
  | authenticated (methods : Bytes) (hpos : 1 ≤ methods.length) (hle : methods.length ≤ 255)
      (hu : config.username ≠ "") (hm : 2 ∈ methods) :
      Presents config
        (greeting methods ++ credentials (utf8Bytes config.username) (utf8Bytes config.password))
        [5, 2, 1, 0]

/-- What the server has written when it refuses a client. -/
def Refusal (replies : Bytes) : Prop := replies ∈ [[], [5, 255], [5, 2], [5, 2, 1, 1]]

/-- How a part of the negotiation ends: with success on the message `m` alone,
answered with `replies`, or with an error behind one of `refusals`. -/
def Ends (accepts : Bytes → Bytes → Prop) (refusals : Bytes → Prop) (t : Tape) :
    Outcome Q Unit × Tape → Prop
  | (.finished (.ok ()), t') =>
    ∃ m replies, accepts m replies ∧ t.input = m ++ t'.input ∧ t'.output = t.output ++ replies
  | (.finished (.error _), t') => ∃ replies, refusals replies ∧ t'.output = t.output ++ replies
  | (.asking _, _) => False

section
variable (rt : Runtime) (oracle : Oracle Q A) (config : Config)

/-- The message that passes `checkCredentials`. -/
def PresentsCredentials (m replies : Bytes) : Prop :=
  m = credentials (utf8Bytes config.username) (utf8Bytes config.password) ∧ replies = [1, 0]

theorem checkCredentials_ends (t : Tape) :
    Ends (PresentsCredentials config) (· ∈ [[], [1, 1]]) t
      (runTape rt oracle (checkCredentials config) t) := by
  unfold checkCredentials
  rcases runTape_readExact_cases rt oracle 2 t with he | ⟨header, rest, hin, hr⟩
  · rw [runTape_bind_error rt oracle _ he]
    exact ⟨[], by simp, by simp⟩
  rw [runTape_bind_of_ok rt oracle _ hr]
  split
  · exact ⟨[], by simp, by simp⟩
  rename_i hheader
  rcases runTape_readExact_cases rt oracle header[1].toNat ⟨rest, t.output⟩ with
    he | ⟨username, rest₁, hin₁, hr₁⟩
  · rw [runTape_bind_error rt oracle _ he]
    exact ⟨[], by simp, by simp⟩
  rw [runTape_bind_of_ok rt oracle _ hr₁]
  rcases runTape_readExact_cases rt oracle 1 ⟨rest₁, t.output⟩ with he | ⟨plen, rest₂, hin₂, hr₂⟩
  · rw [runTape_bind_error rt oracle _ he]
    exact ⟨[], by simp, by simp⟩
  rw [runTape_bind_of_ok rt oracle _ hr₂]
  split
  · exact ⟨[1, 1], by simp, rfl⟩
  rcases runTape_readExact_cases rt oracle plen.head.toNat ⟨rest₂, t.output⟩ with
    he | ⟨password, rest₃, hin₃, hr₃⟩
  · rw [runTape_bind_error rt oracle _ he]
    exact ⟨[], by simp, by simp⟩
  rw [runTape_bind_of_ok rt oracle _ hr₃]
  by_cases hallowed : (constantTimeEq username.toList (utf8Bytes config.username) &&
      constantTimeEq password.toList (utf8Bytes config.password)) = true
  · simp only [hallowed, ↓reduceIte]
    obtain ⟨hu, hp⟩ := (Bool.and_eq_true _ _).mp hallowed
    rw [constantTimeEq_iff] at hu hp
    refine ⟨_, _, ⟨rfl, rfl⟩, ?_, rfl⟩
    have h1 : header[0] = 1 := not_not.mp (not_or.mp hheader).1
    have hlenu : UInt8.ofNat username.toList.length = header[1] := by simp
    have hlenp : UInt8.ofNat password.toList.length = plen.head := by simp
    have hplen : plen.toList = [plen.head] := toList_one plen Nat.one_pos
    rw [← hu, ← hp, credentials, hlenu, hlenp, hin, toList_two _ (by omega) (by omega), h1]
    simp only at hin₁ hin₂ hin₃
    rw [hin₁, hin₂, hin₃, hplen]
    simp
  · simp only [hallowed]
    exact ⟨[1, 1], by simp, rfl⟩

/-- Any well-formed credentials are read to their end and answered. -/
theorem checkCredentials_run {username password : Bytes} (hu : 1 ≤ username.length)
    (hu' : username.length ≤ 255) (hp : 1 ≤ password.length) (hp' : password.length ≤ 255)
    (rest out : Bytes) :
    runTape rt oracle (checkCredentials config) ⟨credentials username password ++ rest, out⟩ =
      if username = utf8Bytes config.username ∧ password = utf8Bytes config.password then
        (.finished (.ok ()), ⟨rest, out ++ [1, 0]⟩)
      else (.finished (.error ⟨.permissionDenied, "用户名或密码错误"⟩), ⟨rest, out ++ [1, 1]⟩) := by
  have hlu : (UInt8.ofNat username.length).toNat = username.length := by
    rw [UInt8.toNat_ofNat']
    omega
  have hlp : (UInt8.ofNat password.length).toNat = password.length := by
    rw [UInt8.toNat_ofNat']
    omega
  have hnu : UInt8.ofNat username.length ≠ 0 := fun h => by simp [h] at hlu; omega
  have hnp : UInt8.ofNat password.length ≠ 0 := fun h => by simp [h] at hlp; omega
  unfold checkCredentials credentials
  rw [List.append_assoc, List.append_assoc, List.append_assoc,
    runTape_bind_of_ok rt oracle _ (runTape_readExact_append rt oracle [1, UInt8.ofNat username.length] 2 rfl _ out)]
  rw [if_neg (by simp [hnu]), runTape_bind_of_ok rt oracle _
    (runTape_readExact_append rt oracle username _ (by simp [hlu]) _ out),
    runTape_bind_of_ok rt oracle _
    (runTape_readExact_append rt oracle [UInt8.ofNat password.length] 1 rfl _ out),
    if_neg (by simp [hnp]), runTape_bind_of_ok rt oracle _
    (runTape_readExact_append rt oracle password _ (by simp [hlp]) _ out)]
  simp only [toList_buffer]
  by_cases hallowed : username = utf8Bytes config.username ∧ password = utf8Bytes config.password
  · have hc : (constantTimeEq username (utf8Bytes config.username) &&
        constantTimeEq password (utf8Bytes config.password)) = true := by
      rw [Bool.and_eq_true, constantTimeEq_iff, constantTimeEq_iff]
      exact hallowed
    rw [if_pos hallowed]
    simp only [hc, ↓reduceIte]
    rfl
  · have hc : ¬(constantTimeEq username (utf8Bytes config.username) &&
        constantTimeEq password (utf8Bytes config.password)) = true := by
      rw [Bool.and_eq_true, constantTimeEq_iff, constantTimeEq_iff]
      exact hallowed
    rw [if_neg hallowed]
    simp only [hc]
    rfl

/-- The method the configuration asks for. -/
def method : UInt8 := if config.username.isEmpty then 0 else 2

theorem method_cases : method config = 0 ∨ method config = 2 := by
  unfold method
  split
  · exact .inl rfl
  · exact .inr rfl

/-- A greeting is read to its end; what follows depends on the methods it offers. -/
theorem negotiate_greeting {methods : Bytes} (hpos : 1 ≤ methods.length) (hle : methods.length ≤ 255)
    (rest out : Bytes) :
    runTape rt oracle (negotiate config) ⟨greeting methods ++ rest, out⟩ =
      if method config ∉ methods then
        (.finished (.error ⟨.permissionDenied, "客户端没有提供可用的认证方法"⟩), ⟨rest, out ++ [5, 255]⟩)
      else if method config = 2 then
        runTape rt oracle (checkCredentials config) ⟨rest, out ++ [5, 2]⟩
      else (.finished (.ok ()), ⟨rest, out ++ [5, 0]⟩) := by
  have hl : (UInt8.ofNat methods.length).toNat = methods.length := by
    rw [UInt8.toNat_ofNat']
    omega
  have hn : UInt8.ofNat methods.length ≠ 0 := fun h => by simp [h] at hl; omega
  unfold negotiate greeting
  rw [List.append_assoc, runTape_bind_of_ok rt oracle _
    (runTape_readExact_append rt oracle [5, UInt8.ofNat methods.length] 2 rfl _ out),
    if_neg (by simp [hn]), runTape_bind_of_ok rt oracle _
    (runTape_readExact_append rt oracle methods _ (by simp [hl]) _ out)]
  simp only [toList_buffer]
  change runTape rt oracle (if method config ∉ methods then _ else _) _ = _
  by_cases hm : method config ∉ methods
  · rw [if_pos hm, if_pos hm]
    rfl
  · rw [if_neg hm, if_neg hm]
    rcases method_cases config with h0 | h2
    · simp only [method] at h0
      simp only [h0, method]
      rfl
    · simp only [method] at h2
      simp only [h2, method]
      rfl

/-- The stream begins with a greeting, or `negotiate` fails without a reply. -/
theorem negotiate_no_greeting (t : Tape) :
    (∃ methods rest, 1 ≤ methods.length ∧ methods.length ≤ 255 ∧ t.input = greeting methods ++ rest) ∨
      ∃ e t', runTape rt oracle (negotiate config) t = (.finished (.error e), t') ∧
        t'.output = t.output := by
  unfold negotiate
  rcases runTape_readExact_cases rt oracle 2 t with he | ⟨header, rest, hin, hr⟩
  · exact .inr ⟨_, _, runTape_bind_error rt oracle _ he, rfl⟩
  rw [runTape_bind_of_ok rt oracle _ hr]
  split
  · exact .inr ⟨_, _, rfl, rfl⟩
  rename_i hheader
  rcases runTape_readExact_cases rt oracle header[1].toNat ⟨rest, t.output⟩ with
    he | ⟨methods, rest₁, hin₁, hr₁⟩
  · exact .inr ⟨_, _, runTape_bind_error rt oracle _ he, rfl⟩
  refine .inl ⟨methods.toList, rest₁, ?_, ?_, ?_⟩
  · have h0 : header[1] ≠ 0 := (not_or.mp hheader).2
    have hn : header[1].toNat ≠ 0 := fun h => h0 (UInt8.toNat_inj.mp h)
    rw [methods.length_toList]
    omega
  · have hlt := header[1].toNat_lt
    rw [methods.length_toList]
    omega
  · have h5 : header[0] = 5 := not_not.mp (not_or.mp hheader).1
    simp only at hin₁
    rw [hin, hin₁, toList_two _ (by omega) (by omega), h5, greeting]
    simp

/-- `negotiate` returns on what `Presents` describes and refuses everything else. -/
theorem negotiate_ends (t : Tape) :
    Ends (Presents config) Refusal t (runTape rt oracle (negotiate config) t) := by
  rcases t with ⟨input, out⟩
  rcases negotiate_no_greeting rt oracle config ⟨input, out⟩ with
    ⟨methods, rest, hpos, hle, hin⟩ | ⟨e, t', hr, ho⟩
  · simp only at hin
    subst hin
    rw [negotiate_greeting rt oracle config hpos hle]
    by_cases hu : config.username = ""
    · have hm : method config = 0 := by simp [method, hu]
      rw [hm, if_neg (show ¬(0 : UInt8) = 2 by decide)]
      split
      · exact ⟨[5, 255], by simp [Refusal], rfl⟩
      · rename_i hmem
        exact ⟨_, _, .anonymous methods hpos hle hu (not_not.mp hmem), rfl, rfl⟩
    · have hm : method config = 2 := by simp [method, hu]
      rw [hm, if_pos rfl]
      split
      · exact ⟨[5, 255], by simp [Refusal], rfl⟩
      · rename_i hmem
        have hc := checkCredentials_ends rt oracle config ⟨rest, out ++ [5, 2]⟩
        rcases hrun : runTape rt oracle (checkCredentials config) ⟨rest, out ++ [5, 2]⟩ with
          ⟨⟨e | ⟨⟩⟩ | q, t'⟩
        · rw [hrun] at hc
          obtain ⟨replies, hrep, ho⟩ := hc
          refine ⟨[5, 2] ++ replies, ?_, by rw [ho, List.append_assoc]⟩
          rcases List.mem_pair.mp hrep with rfl | rfl <;> simp [Refusal]
        · rw [hrun] at hc
          obtain ⟨m, replies, ⟨rfl, rfl⟩, hin, ho⟩ := hc
          simp only at hin ho
          exact ⟨_, _, .authenticated methods hpos hle hu (not_not.mp hmem), by rw [hin, List.append_assoc],
            by rw [ho, List.append_assoc]; rfl⟩
        · rw [hrun] at hc
          exact hc.elim
  · rw [hr]
    exact ⟨[], by simp [Refusal], by rw [ho, List.append_nil]⟩

variable {config}

/-- A client that presents the credentials is accepted, and nothing behind them is read. -/
theorem negotiate_accepts (hv : config.validate = .ok ()) {m replies : Bytes}
    (h : Presents config m replies) (rest out : Bytes) :
    runTape rt oracle (negotiate config) ⟨m ++ rest, out⟩ =
      (.finished (.ok ()), ⟨rest, out ++ replies⟩) := by
  obtain ⟨hempty, hlu, hlp⟩ := Config.validate_ok_iff.mp hv
  cases h with
  | anonymous methods hpos hle hu hm =>
    rw [negotiate_greeting rt oracle config hpos hle]
    simp [method, hu, hm]
  | authenticated methods hpos hle hu hm =>
    have hmethod : method config = 2 := by simp [method, hu]
    have hne : utf8Bytes config.username ≠ [] := fun h0 =>
      hu (String.isEmpty_iff.mp (Config.utf8Bytes_eq_nil_iff.mp h0))
    have hpne : utf8Bytes config.password ≠ [] := fun h0 => hne (hempty.mpr h0)
    rw [List.append_assoc, negotiate_greeting rt oracle config hpos hle, hmethod, if_neg (not_not.mpr hm),
      if_pos rfl, checkCredentials_run rt oracle config (List.length_pos_iff.mpr hne) hlu
        (List.length_pos_iff.mpr hpne) hlp, if_pos ⟨rfl, rfl⟩, List.append_assoc]
    rfl

end

/-! ### Over a connection -/

theorem checkCredentials_passesErrors (config : Config) :
    PassesErrors (checkCredentials config : Session Q A Unit) := by
  refine (passesErrors_readExact 2).bind fun header => .ite (passesErrors_throw _) ?_
  refine (passesErrors_readExact _).bind fun username => (passesErrors_readExact 1).bind fun plen => ?_
  refine .ite ((passesErrors_writeAll _).bind fun _ => passesErrors_throw _) ?_
  refine (passesErrors_readExact _).bind fun password => (passesErrors_writeAll _).bind fun _ => ?_
  exact .ite (passesErrors_pure _) (passesErrors_throw _)

theorem negotiate_passesErrors (config : Config) :
    PassesErrors (negotiate config : Session Q A Unit) := by
  refine (passesErrors_readExact 2).bind fun header => .ite (passesErrors_throw _) ?_
  refine (passesErrors_readExact _).bind fun methods => ?_
  refine .ite ((passesErrors_writeAll _).bind fun _ => passesErrors_throw _) ?_
  refine (passesErrors_writeAll _).bind fun _ => ?_
  exact .ite (checkCredentials_passesErrors config) (passesErrors_pure _)

/-- Over any connection, failing reads and writes included, `negotiate` returns
only to a client that has presented the credentials. -/
theorem negotiate_sound {rt : Runtime} {oracle : Oracle Q A} {config : Config} {w w' : Wire}
    (h : runWire rt oracle (negotiate config) w = (.finished (.ok ()), w')) :
    ∃ m replies, Presents config m replies ∧ w.source.bytes = m ++ w'.source.bytes ∧
      w'.sink.written = w.sink.written ++ replies := by
  have hrun := (negotiate_passesErrors config).runWire_ok h
  have hends := negotiate_ends rt oracle config w.tape
  rw [hrun] at hends
  exact hends

theorem handshake_sound {oracle : Oracle Query Answer} {config : Config} {w w' : Wire}
    (h : runWire tokio oracle (handshake config) w = (.finished (.ok ()), w')) :
    ∃ m replies, Presents config m replies ∧ w.source.bytes = m ++ w'.source.bytes ∧
      w'.sink.written = w.sink.written ++ replies := by
  obtain ⟨r, w₁, hask, h⟩ := runWire_bind_ok.mp h
  obtain ⟨⟨⟩, w₂, hnodelay, h⟩ := runWire_bind_ok.mp h
  obtain ⟨negotiated, w₃, htimeout, h⟩ := runWire_bind_ok.mp h
  have hw₁ : w₁ = w := by
    simp only [ask, perform, runWire] at hask
    split at hask <;> cases hask
    rfl
  rw [runWire_ofExcept] at hnodelay
  cases hnodelay
  subst hw₁
  cases negotiated with
  | none => cases h
  | some r =>
    rw [runWire_ofExcept] at h
    cases h
    exact negotiate_sound (runWire_race_some htimeout)

/-- Without a presentation the handler does what its handshake does and no more. -/
theorem handleClient_unpresented {oracle : Oracle Query Answer} {config : Config} {w : Wire}
    (h : ∀ m replies rest, Presents config m replies → w.source.bytes ≠ m ++ rest) :
    (runWire tokio oracle (handleClient config) w).2 = (runWire tokio oracle (handshake config) w).2 ∧
      (runWire tokio oracle (handleClient config) w).1 ≠ .finished (.ok ()) := by
  rw [handleClient, runWire_bind]
  rcases hrun : runWire tokio oracle (handshake config) w with ⟨⟨e | ⟨⟩⟩ | q, w'⟩
  · exact ⟨rfl, by simp [Outcome.andThen]⟩
  · obtain ⟨m, replies, hp, hb, -⟩ := handshake_sound hrun
    exact absurd hb (h m replies _ hp)
  · exact ⟨rfl, by simp [Outcome.andThen]⟩

/-- The replies of a presentation with credentials, which no refused client gets. -/
theorem Ends.accepted_iff {config : Config} (hu : config.username ≠ "") {t t' : Tape}
    {o : Outcome Q Unit} (h : Ends (Presents config) Refusal t (o, t')) :
    t'.output = t.output ++ [5, 2, 1, 0] ↔ o = .finished (.ok ()) := by
  rcases o with ⟨e | ⟨⟩⟩ | q
  · obtain ⟨replies, hrefusal, ho⟩ := h
    rw [ho, List.append_cancel_left_eq]
    simp only [Outcome.finished.injEq, reduceCtorEq, iff_false]
    rintro rfl
    revert hrefusal
    unfold Refusal
    decide
  · obtain ⟨m, replies, hp, -, ho⟩ := h
    cases hp with
    | anonymous methods hpos hle hu' hm => exact absurd hu' hu
    | authenticated methods hpos hle hu' hm => simp [ho]
  · exact h.elim

/-- Authentication is exact. Over a stream that is cut anywhere and in any way,
`negotiate` returns exactly to a client that presents the configured
credentials, has then consumed what that client presented, and writes the
acceptance to no other. Without a presentation nothing behind the handshake
runs, whatever else fails on the connection. -/
theorem authentication_exact (config : Config) (hv : config.validate = .ok ())
    (oracle : Oracle Query Answer) (w : Wire) :
    (w.Clean →
      ((runWire tokio oracle (negotiate config) w).1 = .finished (.ok ()) ↔
        ∃ m replies rest, Presents config m replies ∧ w.source.bytes = m ++ rest) ∧
      (∀ m replies rest, Presents config m replies → w.source.bytes = m ++ rest →
        (runWire tokio oracle (negotiate config) w).2.source.bytes = rest) ∧
      (config.username ≠ "" →
        ((runWire tokio oracle (negotiate config) w).2.sink.written =
            w.sink.written ++ [5, 2] ++ [1, 0] ↔
          (runWire tokio oracle (negotiate config) w).1 = .finished (.ok ())))) ∧
    ((∀ m replies rest, Presents config m replies → w.source.bytes ≠ m ++ rest) →
      (runWire tokio oracle (handleClient config) w).2 =
          (runWire tokio oracle (handshake config) w).2 ∧
        (runWire tokio oracle (handleClient config) w).1 ≠ .finished (.ok ())) := by
  refine ⟨fun hw => ?_, handleClient_unpresented⟩
  obtain ⟨hr, ht, -⟩ := runWire_clean tokio oracle (negotiate config) w hw
  have hends := negotiate_ends tokio oracle config w.tape
  have haccepts : ∀ m replies rest, Presents config m replies → w.source.bytes = m ++ rest →
      runTape tokio oracle (negotiate config) w.tape =
        (.finished (.ok ()), ⟨rest, w.sink.written ++ replies⟩) := by
    intro m replies rest hp hb
    rw [Wire.tape, hb]
    exact negotiate_accepts tokio oracle hv hp rest w.sink.written
  refine ⟨⟨fun hok => ?_, ?_⟩, fun m replies rest hp hb => ?_, fun hu => ?_⟩
  · rw [hr] at hok
    rcases hrun : runTape tokio oracle (negotiate config) w.tape with ⟨o, t'⟩
    rw [hrun] at hok hends
    subst hok
    obtain ⟨m, replies, hp, hb, -⟩ := hends
    exact ⟨m, replies, t'.input, hp, hb⟩
  · rintro ⟨m, replies, rest, hp, hb⟩
    rw [hr, haccepts m replies rest hp hb]
  · have hin := congrArg Tape.input ht
    rw [haccepts m replies rest hp hb] at hin
    exact hin
  · rcases hrun : runTape tokio oracle (negotiate config) w.tape with ⟨o, t'⟩
    rw [hrun] at hr ht hends
    have hout : (runWire tokio oracle (negotiate config) w).2.sink.written = t'.output :=
      congrArg Tape.output ht
    rw [hr, hout, List.append_assoc]
    exact hends.accepted_iff hu

/-- User `u` with password `p`, in four pieces and with a byte sent ahead. -/
theorem authentication_exact_pieces :
    (runWire tokio (fun _ => none)
      (negotiate ⟨1080, "u", "p", ⟨[], []⟩, none, ⟨60⟩, []⟩ : Session Query Answer Unit)
      ⟨[.data 5 [1], .retry, .data 2 [1, 1], .data 117 [1, 112, 5]], ⟨[.accept 1, .retry], []⟩⟩).1 =
        .finished (.ok ()) :=
  ((authentication_exact ⟨1080, "u", "p", ⟨[], []⟩, none, ⟨60⟩, []⟩ (by decide) (fun _ => none)
      ⟨[.data 5 [1], .retry, .data 2 [1, 1], .data 117 [1, 112, 5]], ⟨[.accept 1, .retry], []⟩⟩).1
    (by simp [Wire.Clean, Source.Clean, Sink.Clean])).1.mpr
    ⟨_, _, [5], .authenticated [2] (by decide) (by decide) (by decide) (by decide), by decide⟩

end Brume.Server
