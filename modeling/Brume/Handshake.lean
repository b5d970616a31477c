import Brume.Client
import Brume.Lib.Duplex
import Brume.Server.Authentication
import Brume.WireFormat

/-!
# Client and server shake hands

The client's `negotiate` and `write_request` against the server's `negotiate`
and `read_request_async`, over two reliable channels in any schedule. The sides
speak in turn, so one conversation is followed turn by turn; the channels then
answer for all the others.
-/

namespace Brume
open Lib Session Protocol Server Duplex

/-! ### The turns of the client -/

namespace Client

/-- Everything the operating system is asked for succeeds. -/
def opened : (q : Query) → Answer q := fun _ => .ok ()

/-- The client's part of the handshake, on an open connection. -/
def side (client : Client) (command : UInt8) (target : Target) : Closed Unit :=
  (client.request command target).answered opened

theorem side_eq (client : Client) {command : UInt8} {target : Target} {m : Bytes}
    (hm : encodeMessage (command, target) = .ok m) :
    client.side command target = client.negotiateMethod >>= fun _ => writeAll m := by
  have hwrite : (writeRequest command target : Program Unit) = writeAll m := by
    unfold encodeMessage at hm
    rw [writeRequest, hm]
  have hnegotiate : client.negotiate.answered opened = (client.negotiateMethod : Closed Unit) := by
    change (client.negotiateMethod (Q := Query) (A := Answer)).answered opened = _
    simp [negotiateMethod, sendCredentials]
  rw [side, request, answered_bind, hnegotiate, hwrite]
  rfl

/-- A reply of two bytes is compared with the expected one. -/
def expect {α : Type} (expected : Bytes) (e : IoError) (next : Closed α) : Closed α := do
  let reply ← readExact 2
  if reply.toList ≠ expected then throw e else next

theorem expect_met {α : Type} {expected : Bytes} (h : expected.length = 2) (e : IoError) (next : Closed α) :
    Advances (expect expected e next) expected [] next := by
  have hread := advances_readExact expected h fun reply => if reply.toList ≠ expected then throw e else next
  rwa [toList_buffer, if_neg (not_not.mpr rfl)] at hread

theorem expect_missed {α : Type} {expected reply : Bytes} (h : reply.length = 2) (hne : reply ≠ expected)
    (e : IoError) (next : Closed α) : Advances (expect expected e next) reply [] (.done (.error e)) := by
  have hread := advances_readExact reply h fun reply => if reply.toList ≠ expected then throw e else next
  rwa [toList_buffer, if_pos hne] at hread

def methodRefused : IoError := ⟨.permissionDenied, "代理服务器未接受认证方法"⟩

def credentialsRefused : IoError := ⟨.permissionDenied, "代理服务器拒绝用户名或密码"⟩

theorem advances_negotiateMethod (client : Client) :
    Advances client.negotiateMethod [] [5, 1, client.method]
      (expect [5, client.method] methodRefused
        (if client.method = 2 then client.sendCredentials else pure ())) :=
  advances_writeAll _ _

theorem advances_sendCredentials (client : Client) :
    Advances client.sendCredentials [] (credentials (utf8Bytes client.username) (utf8Bytes client.password))
      (expect [1, 0] credentialsRefused (pure ())) := by
  rw [credentials, ← List.append_assoc]
  exact advances_writeAll _ _

theorem method_cases (client : Client) : client.method = 0 ∨ client.method = 2 := by
  unfold method
  split
  · exact .inl rfl
  · exact .inr rfl

end Client

/-! ### The turns of the server -/

namespace Server

theorem advances_negotiate_refused {config : Config} {m : UInt8} (hm : m ≠ method config) :
    Advances (negotiate config) [5, 1, m] [5, 255]
      (.done (.error ⟨.permissionDenied, "客户端没有提供可用的认证方法"⟩)) := by
  refine advances_of_runTape [0] [] (List.cons_ne_nil _ []) (?_ : runTape tokio _ _ _ = _)
  have hlength : 1 ≤ [m].length := Nat.le_refl 1
  have h := negotiate_greeting tokio noOracle config hlength (Nat.le_add_left 1 254) [0] []
  rwa [if_pos (by simpa using hm.symm)] at h

theorem advances_negotiate {config : Config} {m : UInt8} (hm : m = method config) :
    Advances (negotiate config) [5, 1, m] [5, m] (if m = 2 then checkCredentials config else pure ()) := by
  have hheader : ¬((buffer [5, 1] rfl : Vector UInt8 2)[0] ≠ 5 ∨ (buffer [5, 1] rfl : Vector UInt8 2)[1] = 0) := by
    decide
  have hcount : [m].length = (buffer [5, 1] rfl : Vector UInt8 2)[1].toNat := rfl
  have hselected : ¬(if config.username.isEmpty = true then (0 : UInt8) else 2) ∉ [m] := by
    rw [hm]
    simp [method]
  have hmethod : (if config.username.isEmpty = true then (0 : UInt8) else 2) = m := hm.symm
  unfold negotiate
  refine (advances_readExact [5, 1] rfl _).trans (o := []) ?_
  rw [if_neg hheader]
  refine (advances_readExact [m] hcount _).trans (o := []) ?_
  simp only [toList_buffer]
  rw [if_neg hselected, hmethod]
  exact advances_writeAll _ _

theorem advances_checkCredentials (config : Config) {username password : Bytes} (hu : 1 ≤ username.length)
    (hu' : username.length ≤ 255) (hp : 1 ≤ password.length) (hp' : password.length ≤ 255)
    (h : username = utf8Bytes config.username ∧ password = utf8Bytes config.password) :
    Advances (checkCredentials config) (credentials username password) [1, 0] (pure ()) := by
  refine advances_of_runTape [0] [] (List.cons_ne_nil _ []) (?_ : runTape tokio _ _ _ = _)
  rw [checkCredentials_run tokio noOracle config hu hu' hp hp', if_pos h]

theorem advances_checkCredentials_refused (config : Config) {username password : Bytes}
    (hu : 1 ≤ username.length) (hu' : username.length ≤ 255) (hp : 1 ≤ password.length)
    (hp' : password.length ≤ 255)
    (h : ¬(username = utf8Bytes config.username ∧ password = utf8Bytes config.password)) :
    Advances (checkCredentials config) (credentials username password) [1, 1]
      (.done (.error ⟨.permissionDenied, "用户名或密码错误"⟩)) := by
  refine advances_of_runTape [0] [] (List.cons_ne_nil _ []) (?_ : runTape tokio _ _ _ = _)
  rw [checkCredentials_run tokio noOracle config hu hu' hp hp', if_neg h]

theorem advances_readRequest {command : UInt8} {target : Target} {m : Bytes}
    (hm : encodeMessage (command, target) = .ok m) :
    Advances readRequestAsync m [] (.done (.ok (command, target))) := by
  refine advances_of_runTape [0] [] (List.cons_ne_nil _ []) (?_ : runTape tokio _ _ _ = _)
  exact ((readMessage_exact _).reads m _ hm).takes tokio noOracle [0] []

end Server

/-! ### Empty credentials -/

theorem one_le_length {s : String} (h : s ≠ "") : 1 ≤ (utf8Bytes s).length :=
  List.length_pos_iff.mpr fun h0 => h (String.isEmpty_iff.mp (Config.utf8Bytes_eq_nil_iff.mp h0))

theorem empty_iff {username password : String} (h : utf8Bytes username = [] ↔ utf8Bytes password = []) :
    username = "" ↔ password = "" := by
  rwa [Config.utf8Bytes_eq_nil_iff, Config.utf8Bytes_eq_nil_iff, String.isEmpty_iff, String.isEmpty_iff] at h

theorem Client.method_eq (client : Client) : client.method = if client.username = "" then 0 else 2 := by
  simp [Client.method]

theorem Server.method_eq (config : Config) : method config = if config.username = "" then 0 else 2 := by
  simp [method]

/-! ### The conversation -/

/-- Both sides at the start. `next` is what the server runs behind its `negotiate`. -/
def shake {β : Type} (client : Client) (command : UInt8) (target : Target) (config : Config) (next : Closed β) :
    Duplex Unit β :=
  ⟨client.side command target, negotiate config >>= fun _ => next, [], []⟩

section
variable {client : Client} {config : Config} {command : UInt8} {target : Target} {m : Bytes}

theorem talks_method_refused {β : Type} (hm : encodeMessage (command, target) = .ok m)
    (hne : client.method ≠ method config) (next : Closed β) :
    Talks std tokio (shake client command target config next)
      ⟨.done (.error Client.methodRefused), .done (.error ⟨.permissionDenied, "客户端没有提供可用的认证方法"⟩), [], []⟩ := by
  have hreply : [5, 255] ≠ [5, client.method] := by
    rcases client.method_cases with h | h <;> simp [h]
  have hgreets := client.advances_negotiateMethod.bind fun _ => writeAll m
  have hrefuses := (advances_negotiate_refused hne).bind fun _ => next
  have hfails := (Client.expect_missed rfl hreply Client.methodRefused
    (if client.method = 2 then client.sendCredentials else pure ())).bind fun _ => writeAll m
  rw [shake, client.side_eq hm]
  exact ((talks_left hgreets _).trans (talks_right hrefuses _)).trans (talks_left hfails _)

theorem talks_method {β : Type} (hm : encodeMessage (command, target) = .ok m)
    (heq : client.method = method config) (next : Closed β) :
    Talks std tokio (shake client command target config next)
      ⟨(if client.method = 2 then client.sendCredentials else pure ()) >>= fun _ => writeAll m,
        (if client.method = 2 then checkCredentials config else pure ()) >>= fun _ => next, [], []⟩ := by
  have hgreets := client.advances_negotiateMethod.bind fun _ => writeAll m
  have hselects := (advances_negotiate heq).bind fun _ => next
  have haccepts := (Client.expect_met (rfl : [5, client.method].length = 2) Client.methodRefused
    (if client.method = 2 then client.sendCredentials else pure ())).bind fun _ => writeAll m
  rw [shake, client.side_eq hm]
  exact ((talks_left hgreets _).trans (talks_right hselects _)).trans (talks_left haccepts _)

theorem talks_credentials {β : Type} (hu : client.username = config.username)
    (hp : client.password = config.password) (hlu : 1 ≤ (utf8Bytes client.username).length)
    (hlu' : (utf8Bytes client.username).length ≤ 255) (hlp : 1 ≤ (utf8Bytes client.password).length)
    (hlp' : (utf8Bytes client.password).length ≤ 255) (next : Closed β) :
    Talks std tokio
      ⟨client.sendCredentials >>= fun _ => writeAll m, checkCredentials config >>= fun _ => next, [], []⟩
      ⟨writeAll m, next, [], []⟩ := by
  have hsends := client.advances_sendCredentials.bind fun _ => writeAll m
  have hchecks := (advances_checkCredentials config hlu hlu' hlp hlp'
    ⟨congrArg utf8Bytes hu, congrArg utf8Bytes hp⟩).bind fun _ => next
  have haccepts := (Client.expect_met (rfl : ([1, 0] : Bytes).length = 2) Client.credentialsRefused (pure ())).bind
    fun _ => writeAll m
  exact ((talks_left hsends _).trans (talks_right hchecks _)).trans (talks_left haccepts _)

theorem talks_credentials_refused {β : Type}
    (hne : ¬(client.username = config.username ∧ client.password = config.password))
    (hlu : 1 ≤ (utf8Bytes client.username).length) (hlu' : (utf8Bytes client.username).length ≤ 255)
    (hlp : 1 ≤ (utf8Bytes client.password).length) (hlp' : (utf8Bytes client.password).length ≤ 255)
    (next : Closed β) :
    Talks std tokio
      ⟨client.sendCredentials >>= fun _ => writeAll m, checkCredentials config >>= fun _ => next, [], []⟩
      ⟨.done (.error Client.credentialsRefused), .done (.error ⟨.permissionDenied, "用户名或密码错误"⟩), [], []⟩ := by
  have hsends := client.advances_sendCredentials.bind fun _ => writeAll m
  have hchecks := (advances_checkCredentials_refused config hlu hlu' hlp hlp' fun h =>
    hne ⟨utf8Bytes_inj.mp h.1, utf8Bytes_inj.mp h.2⟩).bind fun _ => next
  have hfails := (Client.expect_missed (rfl : ([1, 1] : Bytes).length = 2) (by decide : ([1, 1] : Bytes) ≠ [1, 0])
    Client.credentialsRefused (pure ())).bind fun _ => writeAll m
  exact ((talks_left hsends _).trans (talks_right hchecks _)).trans (talks_left hfails _)

theorem talks_request (hm : encodeMessage (command, target) = .ok m) :
    Talks std tokio ⟨writeAll m, readRequestAsync, [], []⟩
      ⟨.done (.ok ()), .done (.ok (command, target)), [], []⟩ := by
  have hwrites : Advances (writeAll m) [] m (.done (.ok ())) := by
    have h : Advances (.write m .done) [] (m ++ []) (.done (.ok ())) := .write (.refl _)
    rwa [List.append_nil] at h
  exact (talks_left hwrites _).trans (talks_right (advances_readRequest hm) _)

/-- Client and server agree. Over two reliable channels, in every schedule and
with every segmentation, sides with equal credentials both return, with nothing
left to read and the server holding the request of the client. Otherwise both
return an error, whatever the server would have run behind its `negotiate`. -/
theorem handshakes_agree {server username password : String} {client : Client} {config : Config}
    {command : UInt8} {target : Target} {m : Bytes} (hnew : Client.new server username password = .ok client)
    (hvalid : config.validate = .ok ()) (hm : encodeMessage (command, target) = .ok m) :
    (username = config.username ∧ password = config.password →
      EndsIn std tokio (shake client command target config readRequestAsync)
        ⟨.done (.ok ()), .done (.ok (command, target)), [], []⟩) ∧
    (¬(username = config.username ∧ password = config.password) →
      ∃ e e', e.kind = .permissionDenied ∧ ∀ {β : Type} (next : Closed β),
        EndsIn std tokio (shake client command target config next)
          ⟨.done (.error e), .done (.error e'), [], []⟩) := by
  obtain ⟨rfl, rfl, hempty, hlu, hlp⟩ := Client.new_ok hnew
  obtain ⟨hcempty, hclu, hclp⟩ := Config.validate_ok_iff.mp hvalid
  have hmethod := client.method_eq
  have hmethod' := method_eq config
  by_cases hu : client.username = ""
  · have hp : client.password = "" := (empty_iff hempty).mp hu
    rw [if_pos hu] at hmethod
    by_cases hcu : config.username = ""
    · -- both sides anonymous
      have hcp : config.password = "" := (empty_iff hcempty).mp hcu
      rw [if_pos hcu] at hmethod'
      refine ⟨fun _ => ?_, fun hne => absurd ⟨hu.trans hcu.symm, hp.trans hcp.symm⟩ hne⟩
      have htalks := talks_method hm (hmethod.trans hmethod'.symm) readRequestAsync
      rw [hmethod] at htalks
      exact endsIn_of_talks (htalks.trans (talks_request hm))
    · rw [if_neg hcu] at hmethod'
      have hne : client.method ≠ method config := by
        rw [hmethod, hmethod']
        decide
      exact ⟨fun heq => absurd (heq.1.symm.trans hu) hcu, fun _ => ⟨_, _, rfl, fun next =>
        endsIn_of_talks (talks_method_refused hm hne next)⟩⟩
  · have hp : client.password ≠ "" := fun h => hu ((empty_iff hempty).mpr h)
    rw [if_neg hu] at hmethod
    by_cases hcu : config.username = ""
    · rw [if_pos hcu] at hmethod'
      have hne : client.method ≠ method config := by
        rw [hmethod, hmethod']
        decide
      exact ⟨fun heq => absurd (heq.1.trans hcu) hu, fun _ => ⟨_, _, rfl, fun next =>
        endsIn_of_talks (talks_method_refused hm hne next)⟩⟩
    · -- both sides present credentials
      rw [if_neg hcu] at hmethod'
      have hselects : ∀ {β : Type} (next : Closed β), Talks std tokio (shake client command target config next)
          ⟨client.sendCredentials >>= fun _ => writeAll m, checkCredentials config >>= fun _ => next, [], []⟩ := by
        intro β next
        have htalks := talks_method hm (hmethod.trans hmethod'.symm) next
        rwa [hmethod] at htalks
      refine ⟨fun heq => ?_, fun hne =>
        ⟨Client.credentialsRefused, ⟨.permissionDenied, "用户名或密码错误"⟩, rfl, fun next => ?_⟩⟩
      · have hchecks := talks_credentials (m := m) heq.1 heq.2 (one_le_length hu) hlu (one_le_length hp) hlp readRequestAsync
        exact endsIn_of_talks (((hselects _).trans hchecks).trans (talks_request hm))
      · have hchecks := talks_credentials_refused (m := m) hne (one_le_length hu) hlu (one_le_length hp) hlp next
        exact endsIn_of_talks ((hselects _).trans hchecks)

/-- A user with the password of another. -/
theorem handshakes_agree_refused :
    ∃ e e', e.kind = .permissionDenied ∧ ∀ {β : Type} (next : Closed β),
      EndsIn std tokio (shake ⟨"proxy:1080", "u", "q", none, some ⟨60⟩⟩ CONNECT ⟨.ip (.v4 ⟨buffer [192, 0, 2, 1] rfl⟩), 80⟩
          ⟨1080, "u", "p", ⟨[], []⟩, none, ⟨60⟩, []⟩ next)
        ⟨.done (.error e), .done (.error e'), [], []⟩ :=
  (handshakes_agree (rfl : Client.new "proxy:1080" "u" "q" = .ok _)
    (by decide : Config.validate ⟨1080, "u", "p", ⟨[], []⟩, none, ⟨60⟩, []⟩ = .ok ())
    (rfl : encodeMessage (CONNECT, ⟨.ip (.v4 ⟨buffer [192, 0, 2, 1] rfl⟩), 80⟩) = .ok _)).2 (by decide)

end

end Brume
