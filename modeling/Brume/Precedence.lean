import Brume.ConfigParse
import Brume.Lib.LastWrite
import Brume.Lib.Result

/-!
# What a configuration is made of (`config.rs`)

An accepted configuration is the defaults with a list of assignments made in
turn: those of the file, then those of the command line. What every assignment
establishes holds of the configuration, and each setting has its last value.
-/

namespace Brume
open Lib

/-! ### Assignments -/

namespace Config

def assign (config : Config) : List (Setting × Text) → Except String Config
  | [] => .ok config
  | (s, value) :: assignments => do
    let config ← config.applySetting s value
    config.assign assignments

theorem assign_append {config : Config} {assignments assignments' : List (Setting × Text)} :
    config.assign (assignments ++ assignments') =
      config.assign assignments >>= fun config => config.assign assignments' := by
  induction assignments generalizing config with
  | nil => rfl
  | cons head assignments ih =>
    obtain ⟨s, value⟩ := head
    simp only [List.cons_append, assign]
    cases config.applySetting s value with
    | error e => rfl
    | ok config' => exact ih

theorem applySetting_ok {config config' : Config} {s : Setting} {value : Text} :
    config.applySetting s value = .ok config' ↔
      ∃ x, s.interpret value = .ok x ∧ config' = config.set s x := by
  rw [applySetting, Result.map_ok]
  constructor
  · rintro ⟨x, hx, rfl⟩
    exact ⟨x, hx, rfl⟩
  · rintro ⟨x, hx, rfl⟩
    exact ⟨x, hx, rfl⟩

/-- A setting has the value assigned last. -/
theorem assign_get {config config' : Config} {assignments : List (Setting × Text)}
    (h : config.assign assignments = .ok config') (s : Setting) :
    match lastWrite s assignments with
    | some value => s.interpret value = .ok (config'.get s)
    | none => config'.get s = config.get s := by
  induction assignments generalizing config with
  | nil =>
    cases h
    rfl
  | cons head assignments ih =>
    obtain ⟨s', value⟩ := head
    obtain ⟨config₁, happly, hrest⟩ := Result.bind_ok.mp h
    obtain ⟨x, hx, rfl⟩ := applySetting_ok.mp happly
    have hlast := ih hrest
    rw [lastWrite_cons]
    cases hwrite : lastWrite s assignments with
    | some value' =>
      rw [hwrite] at hlast
      exact hlast
    | none =>
      rw [hwrite] at hlast
      by_cases hs : s' = s
      · subst hs
        rw [hlast, get_set]
        simpa using hx
      · rw [if_neg hs]
        exact hlast.trans (get_set_of_ne config (Ne.symm hs) x)

end Config

/-! ### What is checked -/

/-- One to eight servers that can be asked. -/
def Config.DnsServersChecked (servers : List SocketAddr) : Prop :=
  1 ≤ servers.length ∧ servers.length ≤ 8 ∧
    ∀ server ∈ servers, server.port ≠ 0 ∧ server.ip.isUnspecified = false

/-- What a value of a setting has passed when it is assigned. -/
def Setting.Checked : (s : Setting) → s.Value → Prop
  | .port, n => n ≠ (0 : UInt16)
  | .user, _ | .pwd, _ => True
  | .whitelist, w => Whitelist.WellFormed w
  | .tcpTimeout, timeout => timeout ≠ some (⟨0⟩ : Duration)
  | .udpTimeout, _ => True
  | .dnsServers, servers => Config.DnsServersChecked servers

theorem parsePort_checked {value : Text} {port : UInt16} (h : Config.parsePort value = .ok port) :
    port ≠ 0 := by
  unfold Config.parsePort at h
  split at h
  · cases h
  · rename_i n hn
    have hlt := parseUnsigned_lt hn
    split at h
    · cases h
    · rename_i hne
      cases h
      intro hzero
      have hval := congrArg UInt16.toNat hzero
      rw [UInt16.toNat_ofNat', Nat.mod_eq_of_lt hlt] at hval
      exact hne hval

theorem parseTcpTimeout_checked {value : Text} {timeout : Option Duration}
    (h : Config.parseTcpTimeout value = .ok timeout) : timeout ≠ some ⟨0⟩ := by
  unfold Config.parseTcpTimeout at h
  split at h
  · cases h
  · rename_i seconds hseconds
    have hlt := parseUnsigned_lt hseconds
    cases h
    split
    · rename_i hpos
      intro hzero
      have hval := congrArg UInt64.toNat (congrArg Duration.secs (Option.some_inj.mp hzero))
      rw [Config.fromSecs, UInt64.toNat_ofNat', Nat.mod_eq_of_lt hlt] at hval
      exact Nat.ne_of_gt hpos hval
    · intro hzero
      cases hzero

theorem parseDnsServers_checked {value : Text} {servers : List SocketAddr}
    (h : Config.parseDnsServers value = .ok servers) : Config.DnsServersChecked servers := by
  unfold Config.parseDnsServers at h
  split at h
  · cases h
  · rename_i servers' _
    split at h
    · cases h
    · rename_i hvalid
      cases h
      rw [not_or, not_or] at hvalid
      obtain ⟨hempty, hlong, hall⟩ := hvalid
      refine ⟨List.length_pos_iff.mpr fun hnil => hempty (by simp [hnil]), Nat.le_of_not_lt hlong, ?_⟩
      intro server hmem
      have hserver : ¬(server.ip.isUnspecified || server.port == 0) = true := fun hbad =>
        hall (List.any_eq_true.mpr ⟨server, hmem, hbad⟩)
      rw [Bool.or_eq_true, not_or] at hserver
      exact ⟨by simpa using hserver.2, by simpa using hserver.1⟩

theorem interpret_checked {s : Setting} {value : Text} {x : s.Value} (h : s.interpret value = .ok x) :
    s.Checked x := by
  cases s with
  | port => exact parsePort_checked h
  | user => trivial
  | pwd => trivial
  | whitelist => exact (Whitelist.addEntries_spec (by simp [Whitelist.WellFormed]) (Whitelist.parse_ok h).1).1
  | tcpTimeout => exact parseTcpTimeout_checked h
  | udpTimeout => trivial
  | dnsServers => exact parseDnsServers_checked h

theorem initial_checked (s : Setting) : s.Checked (Config.initial.get s) := by
  cases s with
  | port => exact fun h => absurd h (by decide : (1080 : UInt16) ≠ 0)
  | user => trivial
  | pwd => trivial
  | whitelist =>
    intro network hmem
    cases hmem
  | tcpTimeout =>
    intro h
    cases h
  | udpTimeout => trivial
  | dnsServers =>
    refine ⟨Nat.le_succ 1, Nat.le_of_ble_eq_true rfl, ?_⟩
    intro server hmem
    have hall : Config.initial.dnsServers.all
      (fun server => server.port != 0 && !server.ip.isUnspecified) = true := rfl
    simpa using List.all_eq_true.mp hall server hmem

theorem assign_checked {config : Config} {assignments : List (Setting × Text)}
    (h : Config.initial.assign assignments = .ok config) (s : Setting) : s.Checked (config.get s) := by
  have hget := Config.assign_get h s
  split at hget
  · exact interpret_checked hget
  · rw [hget]
    exact initial_checked s

/-! ### The file -/

namespace Config

/-- What a line assigns: nothing when it is blank or a comment, else the text behind its first
`=` to the setting that is named before it. -/
def lineAssignment (line : Text) : Option (Setting × Text) :=
  if trim line = [] ∨ (line.dropWhile isWhitespace).head? = some '#' then none
  else (splitOnce '=' line).bind fun (key, value) => (Setting.ofKey (trim key)).map (·, value)

def fileAssignments (contents : Text) : List (Setting × Text) := (lines contents).filterMap lineAssignment

theorem readLine_ok {config config' : Config} {number : ℕ} {line : Text}
    (h : config.readLine number line = .ok config') :
    config.assign (lineAssignment (stripCr line)).toList = .ok config' := by
  unfold readLine at h
  simp only at h
  unfold lineAssignment
  split at h
  · rename_i hskip
    rwa [if_pos hskip]
  · rename_i hskip
    rw [if_neg hskip]
    split at h
    · cases h
    · rename_i key value hsplit
      rw [hsplit]
      split at h
      · cases h
      · rename_i s hs
        have happly := Result.mapError_ok.mp h
        simp only [Option.bind_some, hs, Option.map_some, Option.toList_some, assign, happly]
        rfl

theorem readLinesFrom_ok {config config' : Config} {number : ℕ} {ls : List Text}
    (h : config.readLinesFrom number ls = .ok config') :
    config.assign (ls.filterMap fun line => lineAssignment (stripCr line)) = .ok config' := by
  induction ls generalizing config number with
  | nil => exact h
  | cons line ls ih =>
    obtain ⟨config₁, hline, hrest⟩ := Result.bind_ok.mp h
    have hone := readLine_ok hline
    have hmore := ih hrest
    have happend : (line :: ls).filterMap (fun line => lineAssignment (stripCr line)) =
        (lineAssignment (stripCr line)).toList ++ ls.filterMap fun line => lineAssignment (stripCr line) := by
      cases hassign : lineAssignment (stripCr line) <;> simp [hassign]
    rw [happend, assign_append, hone]
    exact hmore

/-- The second `strip_suffix` of a line finds nothing to do. -/
theorem filterMap_stripCr {contents : Text} (h : CrBeforeLf contents) :
    (lines contents).filterMap (fun line => lineAssignment (stripCr line)) = fileAssignments contents := by
  apply List.filterMap_congr
  intro line hmem
  rw [stripCr_of_notMem (notMem_lines_of_crBeforeLf h hmem)]

end Config

/-! ### The command line -/

/-- An option with its value, in one argument or in two. -/
structure Occurrence where
  name : Text
  value : Text
  inlined : Bool

namespace Occurrence

def tokens (o : Occurrence) : List Text :=
  if o.inlined then [o.name ++ '=' :: o.value] else [o.name, o.value]

def IsConfig (o : Occurrence) : Prop := o.name = "--config".toList

instance (o : Occurrence) : Decidable o.IsConfig := inferInstanceAs (Decidable (_ = _))

def setting? (o : Occurrence) : Option Setting := Setting.ofOption o.name

/-- The names that the loop over the arguments takes. -/
def Known (o : Occurrence) : Prop := o.IsConfig ∨ o.setting?.isSome

def assignment? (o : Occurrence) : Option (Setting × Text) := o.setting?.map (·, o.value)

end Occurrence

theorem mem_options_of_ofOption {name : Text} {s : Setting} (h : Setting.ofOption name = some s) :
    name ∈ s.options.map String.toList := by
  simpa using List.find?_some h

/-- An option is neither the help nor the version, and has no `=`. -/
theorem notMem_option (s : Setting) :
    ∀ name ∈ s.options.map String.toList, '=' ∉ name ∧ name ≠ "-h".toList ∧ name ≠ "--help".toList ∧
      name ≠ "--version".toList := by
  have hall : ((s.options.map String.toList).all fun name => !name.contains '=' &&
      name != "-h".toList && name != "--help".toList && name != "--version".toList) = true := by
    cases s <;> decide
  intro name hmem
  simpa [and_assoc] using List.all_eq_true.mp hall name hmem

theorem Occurrence.Known.name {o : Occurrence} (h : o.Known) :
    '=' ∉ o.name ∧ o.name ≠ "-h".toList ∧ o.name ≠ "--help".toList ∧ o.name ≠ "--version".toList := by
  rcases h with hconfig | hsetting
  · rw [hconfig]
    decide
  · obtain ⟨s, hs⟩ := Option.isSome_iff_exists.mp hsetting
    exact notMem_option s o.name (mem_options_of_ofOption hs)

namespace Config

theorem keyAndInline_name {name : Text} (h : '=' ∉ name) : keyAndInline name = (name, none) := by
  simp only [keyAndInline, splitOnce, if_neg h]

theorem keyAndInline_append {name : Text} (h : '=' ∉ name) (value : Text) :
    keyAndInline (name ++ '=' :: value) = (name, some value) := by
  simp only [keyAndInline, splitOnce_append h]

theorem keyAndInline_some {arg key value : Text} (h : keyAndInline arg = (key, some value)) :
    arg = key ++ '=' :: value := by
  unfold keyAndInline at h
  split at h
  · rename_i key' value' hsplit
    cases h
    exact (splitOnce_eq_some hsplit).1
  · cases h

theorem keyAndInline_none {arg key : Text} (h : keyAndInline arg = (key, none)) : arg = key := by
  unfold keyAndInline at h
  split at h
  · cases h
  · cases h
    rfl

theorem known_of_key {key value : Text} {inlined : Bool}
    (h : ¬(key ≠ "--config".toList ∧ Setting.ofOption key = none)) :
    (Occurrence.mk key value inlined).Known := by
  by_cases hconfig : key = "--config".toList
  · exact .inl hconfig
  · exact .inr (Option.isSome_iff_ne_none.mpr fun hnone => h ⟨hconfig, hnone⟩)

theorem known_name {o : Occurrence} (h : o.Known) :
    ¬(o.name ≠ "--config".toList ∧ Setting.ofOption o.name = none) := by
  rintro ⟨hconfig, hnone⟩
  rcases h with hname | hsetting
  · exact hconfig hname
  · rw [Occurrence.setting?, hnone] at hsetting
    cases hsetting

/-- The loop takes one occurrence at a time. -/
theorem parseArgs_tokens {o : Occurrence} (h : o.Known) (a : Arguments) (args : List Text) :
    parseArgs a (o.tokens ++ args) = a.add o.name o.value >>= fun a => parseArgs a args := by
  obtain ⟨hequals, hhelp, hhelp', hversion⟩ := h.name
  have hkey := known_name h
  cases hinlined : o.inlined with
  | true =>
    have hne : ∀ t : Text, '=' ∉ t → o.name ++ '=' :: o.value ≠ t := by
      rintro t ht rfl
      exact ht (by simp)
    have hstop : ¬(o.name ++ '=' :: o.value = "-h".toList ∨
        o.name ++ '=' :: o.value = "--help".toList ∨ o.name ++ '=' :: o.value = "--version".toList) := by
      rintro (heq | heq | heq)
      · exact hne _ (by decide) heq
      · exact hne _ (by decide) heq
      · exact hne _ (by decide) heq
    simp only [Occurrence.tokens, hinlined, ↓reduceIte, List.singleton_append]
    rw [parseArgs, if_neg hstop, keyAndInline_append hequals]
    simp only [if_neg hkey]
  | false =>
    have hstop : ¬(o.name = "-h".toList ∨ o.name = "--help".toList ∨ o.name = "--version".toList) := by
      rintro (heq | heq | heq)
      · exact hhelp heq
      · exact hhelp' heq
      · exact hversion heq
    simp only [Occurrence.tokens, hinlined, Bool.false_eq_true, ↓reduceIte, List.cons_append, List.nil_append]
    rw [parseArgs, if_neg hstop, keyAndInline_name hequals]
    simp only [if_neg hkey]

/-- The loop over the occurrences of a command line. -/
def addAll (a : Arguments) (occurrences : List Occurrence) : Except String Arguments :=
  occurrences.foldlM (fun a o => a.add o.name o.value) a

theorem parseArgs_flatMap {occurrences : List Occurrence} (h : ∀ o ∈ occurrences, o.Known) (a : Arguments) :
    parseArgs a (occurrences.flatMap Occurrence.tokens) = (addAll a occurrences).map some := by
  induction occurrences generalizing a with
  | nil => rfl
  | cons o occurrences ih =>
    rw [List.flatMap_cons, parseArgs_tokens (h o (.head _)), addAll, List.foldlM_cons]
    cases a.add o.name o.value with
    | error e => rfl
    | ok a' => exact ih (fun o ho => h o (.tail _ ho)) a'

/-- A command line that the loop takes to its end is made of occurrences. -/
theorem exists_occurrences {a a' : Arguments} {args : List Text}
    (h : parseArgs a args = .ok (some a')) :
    ∃ occurrences : List Occurrence, (∀ o ∈ occurrences, o.Known) ∧
      args = occurrences.flatMap Occurrence.tokens := by
  fun_induction parseArgs a args with
  | case1 => exact ⟨[], by simp, rfl⟩
  | case2 => cases h
  | case3 => cases h
  | case4 a arg _ key hkey value args hsplit ih =>
    obtain ⟨a₁, -, hrest⟩ := Result.bind_ok.mp h
    obtain ⟨occurrences, hknown, rfl⟩ := ih a₁ hrest
    refine ⟨⟨key, value, true⟩ :: occurrences, ?_, ?_⟩
    · intro o ho
      rcases List.mem_cons.mp ho with rfl | ho
      · exact known_of_key hkey
      · exact hknown o ho
    · rw [List.flatMap_cons, keyAndInline_some hsplit]
      rfl
  | case5 a arg _ key hkey value args hsplit ih =>
    obtain ⟨a₁, -, hrest⟩ := Result.bind_ok.mp h
    obtain ⟨occurrences, hknown, rfl⟩ := ih a₁ hrest
    refine ⟨⟨key, value, false⟩ :: occurrences, ?_, ?_⟩
    · intro o ho
      rcases List.mem_cons.mp ho with rfl | ho
      · exact known_of_key hkey
      · exact hknown o ho
    · rw [List.flatMap_cons, keyAndInline_none hsplit]
      rfl
  | case6 => cases h

def configs (occurrences : List Occurrence) : List Text :=
  (occurrences.filter (·.IsConfig)).map Occurrence.value

def overridesOf (occurrences : List Occurrence) : List (Text × Text) :=
  (occurrences.filter (¬ ·.IsConfig)).map fun o => (o.name, o.value)

theorem add_config {a : Arguments} {o : Occurrence} (h : o.IsConfig) :
    a.add o.name o.value =
      if o.value = [] then .error "配置文件路径不能为空"
      else if a.configPath.isSome then .error "只能指定一个配置文件"
      else .ok { a with configPath := some o.value } := if_pos h

theorem add_override {a : Arguments} {o : Occurrence} (h : ¬o.IsConfig) :
    a.add o.name o.value = .ok { a with overrides := a.overrides ++ [(o.name, o.value)] } := if_neg h

/-- The loop keeps the order of the overrides and takes one path that is not empty. -/
theorem addAll_ok {path : Option Text} {overrides : List (Text × Text)} {occurrences : List Occurrence}
    {a : Arguments} :
    addAll ⟨path, overrides⟩ occurrences = .ok a ↔
      a.overrides = overrides ++ overridesOf occurrences ∧
      a.configPath.toList = path.toList ++ configs occurrences ∧ ∀ p ∈ configs occurrences, p ≠ [] := by
  induction occurrences generalizing path overrides with
  | nil =>
    simp only [addAll, overridesOf, configs, List.foldlM_nil, pure, Except.pure, List.filter_nil,
      List.map_nil, List.append_nil, Except.ok.injEq]
    constructor
    · rintro rfl
      simp
    · rintro ⟨hoverrides, hpath, -⟩
      obtain ⟨path', overrides'⟩ := a
      obtain rfl : overrides' = overrides := hoverrides
      cases path <;> cases path' <;> simp_all
  | cons o occurrences ih =>
    rw [addAll, List.foldlM_cons]
    by_cases ho : o.IsConfig
    · have hconfigs : configs (o :: occurrences) = o.value :: configs occurrences := by
        simp [configs, ho]
      have hoverrides : overridesOf (o :: occurrences) = overridesOf occurrences := by
        simp [overridesOf, ho]
      rw [add_config ho, hconfigs, hoverrides]
      by_cases hempty : o.value = []
      · rw [if_pos hempty]
        constructor
        · intro h
          cases h
        · rintro ⟨-, -, hne⟩
          exact absurd hempty (hne _ (.head _))
      · rw [if_neg hempty]
        cases path with
        | some p =>
          constructor
          · intro h
            cases h
          · rintro ⟨-, hpath, -⟩
            have hlength := congrArg List.length hpath
            cases hc : a.configPath <;> simp [hc] at hlength
        | none =>
          have hrest := @ih (some o.value) overrides
          refine Iff.trans hrest ?_
          simp [hempty]
    · have hconfigs : configs (o :: occurrences) = configs occurrences := by
        simp [configs, ho]
      have hoverrides : overridesOf (o :: occurrences) = (o.name, o.value) :: overridesOf occurrences := by
        simp [overridesOf, ho]
      rw [add_override ho, hconfigs, hoverrides]
      have hrest := @ih path (overrides ++ [(o.name, o.value)])
      refine Iff.trans hrest ?_
      simp

theorem applyOverrides_eq {config : Config} {occurrences : List Occurrence}
    (h : ∀ o ∈ occurrences, o.Known) :
    config.applyOverrides (overridesOf occurrences) =
      config.assign (occurrences.filterMap Occurrence.assignment?) := by
  induction occurrences generalizing config with
  | nil => rfl
  | cons o occurrences ih =>
    have hknown : ∀ o ∈ occurrences, o.Known := fun o ho => h o (.tail _ ho)
    by_cases ho : o.IsConfig
    · have hname : Setting.ofOption o.name = none := by
        rw [show o.name = "--config".toList from ho]
        rfl
      have hoverrides : overridesOf (o :: occurrences) = overridesOf occurrences := by
        simp [overridesOf, ho]
      have hassign : o.assignment? = none := by
        simp only [Occurrence.assignment?, Occurrence.setting?, hname, Option.map_none]
      rw [hoverrides, List.filterMap_cons_none hassign]
      exact ih hknown
    · obtain ⟨s, hs⟩ := Option.isSome_iff_exists.mp ((h o (.head _)).resolve_left ho)
      have hname : Setting.ofOption o.name = some s := hs
      have hoverrides : overridesOf (o :: occurrences) = (o.name, o.value) :: overridesOf occurrences := by
        simp [overridesOf, ho]
      have hassign : o.assignment? = some (s, o.value) := by
        simp only [Occurrence.assignment?, Occurrence.setting?, hname, Option.map_some]
      rw [hoverrides, List.filterMap_cons_some hassign, applyOverrides, assign, applyValue, hname]
      simp only
      congr 1
      funext config'
      exact ih hknown

/-! ### `Config::parse` -/

/-- The settings behind the file. -/
def readConfigured (files : Text → Except String Text) (path : Option Text) : Except String Config :=
  match path with
  | some path => initial.readFile files path
  | none => .ok initial

theorem parse_eq (files : Text → Except String Text) (args : List Text) :
    Config.parse files args = parseArgs ⟨none, []⟩ args >>= fun found =>
      match found with
      | none => .ok none
      | some a => readConfigured files a.configPath >>= fun config =>
        config.applyOverrides a.overrides >>= fun config =>
          config.validate >>= fun _ => .ok (some config) := by
  unfold parse
  congr 1
  funext found
  cases found with
  | none => rfl
  | some a =>
    simp only [readConfigured]
    cases a.configPath <;> rfl

theorem parse_ok {files : Text → Except String Text} {args : List Text} {config : Config} :
    Config.parse files args = .ok (some config) ↔
      ∃ a, parseArgs ⟨none, []⟩ args = .ok (some a) ∧
        ∃ config₁, readConfigured files a.configPath = .ok config₁ ∧
          config₁.applyOverrides a.overrides = .ok config ∧ config.validate = .ok () := by
  rw [parse_eq]
  constructor
  · intro h
    obtain ⟨found, hargs, hrest⟩ := Result.bind_ok.mp h
    cases found with
    | none => cases hrest
    | some a =>
      obtain ⟨config₁, hread, hrest⟩ := Result.bind_ok.mp hrest
      obtain ⟨config₂, happly, hrest⟩ := Result.bind_ok.mp hrest
      obtain ⟨u, hvalid, hsome⟩ := Result.bind_ok.mp hrest
      obtain rfl := Option.some_inj.mp (Except.ok.inj hsome)
      exact ⟨a, hargs, config₁, hread, happly, hvalid⟩
  · rintro ⟨a, hargs, config₁, hread, happly, hvalid⟩
    refine Result.bind_ok.mpr ⟨some a, hargs, ?_⟩
    exact Result.bind_ok.mpr ⟨config₁, hread, Result.bind_ok.mpr ⟨config, happly,
      Result.bind_ok.mpr ⟨(), hvalid, rfl⟩⟩⟩

/-- The assignments of a file, as the reader makes them. -/
def contentsAssignments (contents : Text) : List (Setting × Text) :=
  (lines contents).filterMap fun line => lineAssignment (stripCr line)

theorem readFile_ok {files : Text → Except String Text} {path : Text} {config : Config}
    (h : initial.readFile files path = .ok config) :
    ∃ contents, files path = .ok contents ∧ initial.assign (contentsAssignments contents) = .ok config := by
  obtain ⟨contents, hfile, hread⟩ := Result.bind_ok.mp h
  exact ⟨contents, Result.mapError_ok.mp hfile, readLinesFrom_ok hread⟩

/-- An accepted configuration is the defaults, the assignments of the file and those of the
command line, and has passed the last check. -/
theorem parse_assign {files : Text → Except String Text} {occurrences : List Occurrence}
    (hknown : ∀ o ∈ occurrences, o.Known) {config : Config}
    (h : Config.parse files (occurrences.flatMap Occurrence.tokens) = .ok (some config)) :
    ∃ file, (configs occurrences = [] ∧ file = [] ∨
        ∃ path contents, configs occurrences = [path] ∧ files path = .ok contents ∧
          file = contentsAssignments contents) ∧
      initial.assign (file ++ occurrences.filterMap Occurrence.assignment?) = .ok config ∧
      config.validate = .ok () := by
  obtain ⟨a, hargs, config₁, hread, happly, hvalid⟩ := parse_ok.mp h
  rw [parseArgs_flatMap hknown] at hargs
  obtain ⟨a', hadd, hsome⟩ := Result.map_ok.mp hargs
  obtain rfl := Option.some_inj.mp hsome
  obtain ⟨hoverrides, hpath, -⟩ := addAll_ok.mp hadd
  rw [List.nil_append] at hoverrides
  rw [hoverrides, applyOverrides_eq hknown] at happly
  cases hconfig : a'.configPath with
  | none =>
    rw [hconfig] at hread hpath
    refine ⟨[], .inl ⟨hpath.symm, rfl⟩, ?_, hvalid⟩
    cases hread
    exact happly
  | some path =>
    rw [hconfig] at hread hpath
    obtain ⟨contents, hfile, hassign⟩ := readFile_ok hread
    refine ⟨_, .inr ⟨path, contents, hpath.symm, hfile, rfl⟩, ?_, hvalid⟩
    rw [assign_append, hassign]
    exact happly

/-- The result depends on the path and on the overrides in their order only. -/
theorem parse_congr {files : Text → Except String Text} {occurrences occurrences' : List Occurrence}
    (hknown : ∀ o ∈ occurrences, o.Known) (hknown' : ∀ o ∈ occurrences', o.Known)
    (hconfigs : configs occurrences' = configs occurrences)
    (hoverrides : overridesOf occurrences' = overridesOf occurrences) {config : Config}
    (h : Config.parse files (occurrences.flatMap Occurrence.tokens) = .ok (some config)) :
    Config.parse files (occurrences'.flatMap Occurrence.tokens) = .ok (some config) := by
  obtain ⟨a, hargs, hrest⟩ := parse_ok.mp h
  refine parse_ok.mpr ⟨a, ?_, hrest⟩
  rw [parseArgs_flatMap hknown] at hargs
  rw [parseArgs_flatMap hknown']
  obtain ⟨a', hadd, hsome⟩ := Result.map_ok.mp hargs
  refine Result.map_ok.mpr ⟨a', ?_, hsome⟩
  rw [addAll_ok, hconfigs, hoverrides]
  exact addAll_ok.mp hadd

theorem parse_occurrences {files : Text → Except String Text} {args : List Text} {config : Config}
    (h : Config.parse files args = .ok (some config)) :
    ∃ occurrences : List Occurrence, (∀ o ∈ occurrences, o.Known) ∧
      args = occurrences.flatMap Occurrence.tokens := by
  obtain ⟨a, hargs, -⟩ := parse_ok.mp h
  exact exists_occurrences hargs

/-- Every accepted configuration is well formed. -/
theorem parse_wellFormed {files : Text → Except String Text} {args : List Text} {config : Config}
    (h : Config.parse files args = .ok (some config)) :
    config.port ≠ 0 ∧
    ((utf8Bytes config.username).length = 0 ∧ (utf8Bytes config.password).length = 0 ∨
      (1 ≤ (utf8Bytes config.username).length ∧ (utf8Bytes config.username).length ≤ 255) ∧
        1 ≤ (utf8Bytes config.password).length ∧ (utf8Bytes config.password).length ≤ 255) ∧
    config.tcpTimeout ≠ some ⟨0⟩ ∧
    (1 ≤ config.dnsServers.length ∧ config.dnsServers.length ≤ 8 ∧
      ∀ server ∈ config.dnsServers, server.port ≠ 0 ∧ server.ip.isUnspecified = false) ∧
    ∀ network ∈ config.whitelist.networks,
      network.2.toNat ≤ (if network.1.isIpv4 then 32 else 128) ∧
        ∀ address, (prefixMatches network.1 address network.2).isSome := by
  obtain ⟨occurrences, hknown, rfl⟩ := parse_occurrences h
  obtain ⟨file, -, hassign, hvalid⟩ := parse_assign hknown h
  have hchecked := assign_checked hassign
  obtain ⟨hboth, huser, hpwd⟩ := validate_ok_iff.mp hvalid
  have hwhitelist : config.whitelist.WellFormed := hchecked .whitelist
  refine ⟨hchecked .port, ?_, hchecked .tcpTimeout, hchecked .dnsServers, ?_⟩
  · rw [← List.length_eq_zero_iff, ← List.length_eq_zero_iff] at hboth
    omega
  · intro network hmem
    exact ⟨hwhitelist network hmem, Whitelist.prefixMatches_isSome (hwhitelist network hmem)⟩

/-! A port that the command line overrides, a password with `=` and `#`, and a network that is
stored in its IPv4 form. -/

def overriddenFile : Text → Except String Text := fun _ =>
  .ok "port=53\r\nwhitelist=::ffff:192.0.2.0/120\npassword= b=#\n".toList

def overridingArgs : List Text :=
  ["-user".toList, "a".toList, "--config=f".toList, "--port".toList, "80".toList]

def overridden : Config :=
  { initial with
    port := 80, username := "a", password := " b=#", whitelist := ⟨[], [(.v4 ⟨#v[192, 0, 2, 0]⟩, 24)]⟩ }

theorem parse_wellFormed_overridden :
    overridden.port ≠ 0 ∧ ∀ network ∈ overridden.whitelist.networks,
      network.2.toNat ≤ if network.1.isIpv4 then 32 else 128 := by
  have hparse : Config.parse overriddenFile overridingArgs = .ok (some overridden) := by decide
  obtain ⟨hport, -, -, -, hnetworks⟩ := parse_wellFormed hparse
  exact ⟨hport, fun network hmem => (hnetworks network hmem).1⟩

theorem configs_append (front back : List Occurrence) :
    configs (front ++ back) = configs front ++ configs back := by
  simp [configs]

theorem overridesOf_append (front back : List Occurrence) :
    overridesOf (front ++ back) = overridesOf front ++ overridesOf back := by
  simp [overridesOf]

theorem configs_insert {front back : List Occurrence} {o : Occurrence} (ho : o.IsConfig) :
    configs (front ++ o :: back) = configs front ++ o.value :: configs back := by
  rw [configs_append]
  simp [configs, ho]

theorem overridesOf_insert {front back : List Occurrence} {o : Occurrence} (ho : o.IsConfig) :
    overridesOf (front ++ o :: back) = overridesOf (front ++ back) := by
  rw [overridesOf_append, overridesOf_append]
  simp [overridesOf, ho]

/-- Each setting has its last value on the command line, else the last one of the file, else
its default; where the file is named does not matter. -/
theorem parse_precedence {files : Text → Except String Text} {args : List Text} {config : Config}
    (h : Config.parse files args = .ok (some config))
    (hcr : ∀ path contents, files path = .ok contents → CrBeforeLf contents) :
    ∃ occurrences : List Occurrence, (∀ o ∈ occurrences, o.Known) ∧
      args = occurrences.flatMap Occurrence.tokens ∧
      ∃ file : List (Setting × Text),
        ((∀ o ∈ occurrences, ¬o.IsConfig) ∧ file = [] ∨
          ∃ o ∈ occurrences, o.IsConfig ∧ ∃ contents, files o.value = .ok contents ∧
            file = fileAssignments contents) ∧
        (∀ s, match (lastWrite s (occurrences.filterMap Occurrence.assignment?)).or (lastWrite s file) with
          | some value => s.interpret value = .ok (config.get s)
          | none => config.get s = initial.get s) ∧
        ∀ front o back front' back', occurrences = front ++ o :: back → o.IsConfig →
          front' ++ back' = front ++ back →
          Config.parse files ((front' ++ o :: back').flatMap Occurrence.tokens) = .ok (some config) := by
  obtain ⟨occurrences, hknown, rfl⟩ := parse_occurrences h
  obtain ⟨file, hfile, hassign, -⟩ := parse_assign hknown h
  refine ⟨occurrences, hknown, rfl, file, ?_, ?_, ?_⟩
  · obtain ⟨hnone, rfl⟩ | ⟨path, contents, hone, hcontents, rfl⟩ := hfile
    · refine .inl ⟨fun o ho hconfig => ?_, rfl⟩
      have hmem : o.value ∈ configs occurrences :=
        List.mem_map.mpr ⟨o, List.mem_filter.mpr ⟨ho, decide_eq_true hconfig⟩, rfl⟩
      rw [hnone] at hmem
      cases hmem
    · have hmem : path ∈ configs occurrences := by simp [hone]
      obtain ⟨o, ho, rfl⟩ := List.mem_map.mp hmem
      obtain ⟨hin, hconfig⟩ := List.mem_filter.mp ho
      exact .inr ⟨o, hin, of_decide_eq_true hconfig, contents, hcontents,
        filterMap_stripCr (hcr _ _ hcontents)⟩
  · intro s
    have hget := assign_get hassign s
    rwa [lastWrite_append] at hget
  · rintro front o back front' back' rfl ho hmove
    have hmoved : ∀ o' ∈ front' ++ back', o'.Known := by
      rw [hmove]
      intro o' ho'
      apply hknown
      simp only [List.mem_append, List.mem_cons] at ho' ⊢
      tauto
    refine parse_congr hknown ?_ ?_ ?_ h
    · intro o' ho'
      simp only [List.mem_append, List.mem_cons] at ho'
      rcases ho' with hfront | rfl | hback
      · exact hmoved o' (List.mem_append_left _ hfront)
      · exact hknown o' (by simp)
      · exact hmoved o' (List.mem_append_right _ hback)
    · -- the other option of the line is no second path
      obtain ⟨hnone, -⟩ | ⟨path, contents, hone, -⟩ := hfile
      · rw [configs_insert ho] at hnone
        simp at hnone
      · rw [configs_insert ho] at hone
        have hempty : configs front ++ configs back = [] := by
          have hlength := congrArg List.length hone
          simp only [List.length_append, List.length_cons, List.length_nil] at hlength
          rw [← List.length_eq_zero_iff, List.length_append]
          omega
        have hempty' : configs front' ++ configs back' = [] := by
          rw [← configs_append, hmove, configs_append, hempty]
        obtain ⟨hfront, hback⟩ := List.append_eq_nil_iff.mp hempty
        obtain ⟨hfront', hback'⟩ := List.append_eq_nil_iff.mp hempty'
        rw [configs_insert ho, configs_insert ho, hfront, hback, hfront', hback']
    · rw [overridesOf_insert ho, overridesOf_insert ho, hmove]

theorem parse_precedence_overridden :
    ∃ occurrences : List Occurrence, overridingArgs = occurrences.flatMap Occurrence.tokens ∧
      ∃ file : List (Setting × Text), ∀ s : Setting,
        match (lastWrite s (occurrences.filterMap Occurrence.assignment?)).or (lastWrite s file) with
        | some value => s.interpret value = .ok (overridden.get s)
        | none => overridden.get s = initial.get s := by
  have hparse : Config.parse overriddenFile overridingArgs = .ok (some overridden) := by decide
  have hcr : ∀ path contents, overriddenFile path = .ok contents → CrBeforeLf contents := by
    rintro path contents ⟨⟩
    decide
  obtain ⟨occurrences, -, hargs, file, -, hget, -⟩ := parse_precedence hparse hcr
  exact ⟨occurrences, hargs, file, hget⟩

end Config

end Brume
